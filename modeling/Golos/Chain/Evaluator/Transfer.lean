import Golos.Chain.Evaluator.Account

/-! # Transfers, savings and escrow

The evaluators that move tokens between the balances of accounts and the objects
that hold them in between.
-/

namespace Golos

open Stateful

namespace Evaluator

/-! ## Transfers -/

/-- `transfer_evaluator` -/
def transfer (o : TransferOperation) : Eval Unit := do
  let s ← get
  let sender ← getAccount o.fromAccount
  let _ ← getAccount o.toAccount
  when sender.info.activeChallenged <|
    modifyAccountInfo o.fromAccount fun i =>
      { i with activeChallenged := false, lastActiveProved := s.head.time }
  inOpParam "amount" do
    checkBalance o.fromAccount o.amount
    adjustBalance o.fromAccount (-o.amount)
    adjustBalance o.toAccount o.amount

/-- `transfer_to_vesting_evaluator` -/
def transferToVesting (o : TransferToVestingOperation) : Eval Unit := do
  let _ ← getAccount o.fromAccount
  let receiver := if o.toAccount ≠ .blank then o.toAccount else o.fromAccount
  let _ ← getAccount receiver
  inOpParam "amount" do
    checkBalance o.fromAccount o.amount
    adjustBalance o.fromAccount (-o.amount)
    let _ ← createVesting receiver o.amount
    pure ()

/-! ## Savings -/

/-- `STEEMIT_SAVINGS_WITHDRAW_REQUEST_LIMIT` -/
def savingsWithdrawRequestLimit : Nat := 100

/-- `STEEMIT_SAVINGS_WITHDRAW_TIME` -/
def savingsWithdrawTime : Nat := 60 * 60 * 24 * 3

/-- `transfer_to_savings_evaluator` -/
def transferToSavings (o : TransferToSavingsOperation) : Eval Unit := do
  let _ ← getAccount o.fromAccount
  let _ ← getAccount o.toAccount
  checkBalance o.fromAccount o.amount
  adjustBalance o.fromAccount (-o.amount)
  adjustSavingsBalance o.toAccount o.amount

/-- `transfer_from_savings_evaluator` -/
def transferFromSavings (o : TransferFromSavingsOperation) : Eval Unit := do
  let s ← get
  let sender ← getAccount o.fromAccount
  let _ ← getAccount o.toAccount
  checkLogic (sender.info.savingsWithdrawRequests < savingsWithdrawRequestLimit)
    "Account has reached limit for pending withdraw requests."
  let savings ← getSavingsBalance o.fromAccount o.amount.symbol
  check (o.amount.amount ≤ savings) (.insufficientFunds "savings")
  adjustSavingsBalance o.fromAccount (-o.amount)
  create (·.savingsWithdraws) updateSavingsWithdraws "savings_withdraw" (o.fromAccount, o.requestId)
    ⟨o.toAccount, o.amount, s.head.time + savingsWithdrawTime⟩
  modifyAccountInfo o.fromAccount fun i =>
    { i with savingsWithdrawRequests := i.savingsWithdrawRequests + 1 }

/-- `cancel_transfer_from_savings_evaluator` -/
def cancelTransferFromSavings (o : CancelTransferFromSavingsOperation) : Eval Unit := do
  let _ ← getAccount o.fromAccount
  let request ← fetch (·.savingsWithdraws) "savings_withdraw" (o.fromAccount, o.requestId)
  adjustSavingsBalance o.fromAccount request.amount
  remove (·.savingsWithdraws) updateSavingsWithdraws "savings_withdraw" (o.fromAccount, o.requestId)
  modifyAccountInfo o.fromAccount fun i =>
    { i with savingsWithdrawRequests := i.savingsWithdrawRequests - 1 }

/-! ## Escrow -/

def getEscrow (sender : AccountName) (escrowId : Nat) : Eval Escrow :=
  fetch (·.escrows) "escrow" (sender, escrowId)

def changeEscrow (sender : AccountName) (escrowId : Nat) (f : Escrow → Escrow) : Eval Unit :=
  change (·.escrows) updateEscrows "escrow" (sender, escrowId) f

def removeEscrow (sender : AccountName) (escrowId : Nat) : Eval Unit :=
  remove (·.escrows) updateEscrows "escrow" (sender, escrowId)

/-- `escrow_transfer_evaluator` -/
def escrowTransfer (o : EscrowTransferOperation) : Eval Unit := do
  let s ← get
  let _ ← getAccount o.fromAccount
  let _ ← getAccount o.toAccount
  let _ ← getAccount o.agent
  checkLogic (s.head.time < o.ratificationDeadline)
    "The escrow ratification deadline must be after head block time."
  checkLogic (s.head.time < o.escrowExpiration)
    "The escrow expiration must be after head block time."
  -- the fee is paid on top, in its own symbol; adding assets asserts equal symbols
  let feeInSteem := decide (o.fee.symbol = steemSymbol)
  check (o.fee.symbol = if feeInSteem then o.steemAmount.symbol else o.sbdAmount.symbol)
    (.assertion "symbol == o.symbol")
  let steemSpent : Asset :=
    ⟨o.steemAmount.amount + (if feeInSteem then o.fee.amount else 0), o.steemAmount.symbol⟩
  let sbdSpent : Asset :=
    ⟨o.sbdAmount.amount + (if feeInSteem then 0 else o.fee.amount), o.sbdAmount.symbol⟩
  checkBalance o.fromAccount steemSpent
  checkBalance o.fromAccount sbdSpent
  adjustBalance o.fromAccount (-steemSpent)
  adjustBalance o.fromAccount (-sbdSpent)
  create (·.escrows) updateEscrows "escrow" (o.fromAccount, o.escrowId)
    { toAccount := o.toAccount
      agent := o.agent
      ratificationDeadline := o.ratificationDeadline
      escrowExpiration := o.escrowExpiration
      sbdBalance := o.sbdAmount
      steemBalance := o.steemAmount
      pendingFee := o.fee }

/-- Give everything an escrow holds back to its sender and remove it. -/
def refundEscrow (sender : AccountName) (escrowId : Nat) : Eval Unit := do
  let escrow ← getEscrow sender escrowId
  let _ ← getAccount sender
  adjustBalance sender escrow.steemBalance
  adjustBalance sender escrow.sbdBalance
  adjustBalance sender escrow.pendingFee
  removeEscrow sender escrowId

/-- Pay the pending fee of an escrow that both parties have approved. -/
def payEscrowAgent (sender : AccountName) (escrowId : Nat) (agent : AccountName) : Eval Unit := do
  let escrow ← getEscrow sender escrowId
  when escrow.isApproved do
    let _ ← getAccount agent
    adjustBalance agent escrow.pendingFee
    changeEscrow sender escrowId fun e => { e with pendingFee := ⟨0, e.pendingFee.symbol⟩ }

/-- The approval of one party, who may give it only once. -/
def recordApproval (o : EscrowApproveOperation) (approved : Bool) (alreadyApproved : String)
    (f : Escrow → Escrow) : Eval Unit := do
  checkLogic (!approved) alreadyApproved
  when o.approve (changeEscrow o.fromAccount o.escrowId f)

/-- `escrow_approve_evaluator` -/
def escrowApprove (o : EscrowApproveOperation) : Eval Unit := do
  let s ← get
  let escrow ← getEscrow o.fromAccount o.escrowId
  checkLogic (escrow.toAccount = o.toAccount) "Operation 'to' ($o) does not match escrow 'to' ($e)."
  checkLogic (escrow.agent = o.agent) "Operation 'agent' ($a) does not match escrow 'agent' ($e)."
  checkLogic (s.head.time ≤ escrow.ratificationDeadline)
    "The escrow ratification deadline has passed. Escrow can no longer be ratified."
  when (o.who = o.toAccount) <|
    recordApproval o escrow.toApproved "Account 'to' ($t) has already approved the escrow."
      fun e => { e with toApproved := true }
  when (o.who = o.agent) <|
    recordApproval o escrow.agentApproved "Account 'agent' ($a) has already approved the escrow."
      fun e => { e with agentApproved := true }
  if o.approve then payEscrowAgent o.fromAccount o.escrowId o.agent
  else refundEscrow o.fromAccount o.escrowId

/-- `escrow_dispute_evaluator` -/
def escrowDispute (o : EscrowDisputeOperation) : Eval Unit := do
  let s ← get
  let _ ← getAccount o.fromAccount
  let escrow ← getEscrow o.fromAccount o.escrowId
  checkLogic (s.head.time < escrow.escrowExpiration) "Disputing the escrow must happen before expiration."
  checkLogic escrow.isApproved
    "The escrow must be approved by all parties before a dispute can be raised."
  checkLogic (!escrow.disputed) "The escrow is already under dispute."
  checkLogic (escrow.toAccount = o.toAccount) "Operation 'to' ($o) does not match escrow 'to' ($e)."
  checkLogic (escrow.agent = o.agent) "Operation 'agent' ($a) does not match escrow 'agent' ($e)."
  changeEscrow o.fromAccount o.escrowId fun e => { e with disputed := true }

/-- Who may release the funds of an escrow, and to whom. -/
def checkEscrowRelease (o : EscrowReleaseOperation) (escrow : Escrow) (now : Time) : Eval Unit :=
  if escrow.disputed then
    checkLogic (o.who = escrow.agent) "Only 'agent' ($a) can release funds in a disputed escrow."
  else do
    checkLogic (o.who = o.fromAccount ∨ o.who = escrow.toAccount)
      "Only 'from' ($f) and 'to' ($t) can release funds from a non-disputed escrow"
    when (now < escrow.escrowExpiration) <|
      if o.who = o.fromAccount then
        checkLogic (o.receiver = escrow.toAccount) "Only 'from' ($f) can release funds to 'to' ($t)."
      else if o.who = escrow.toAccount then
        checkLogic (o.receiver = o.fromAccount) "Only 'to' ($t) can release funds to 'from' ($t)."
      else pure ()

/-- `escrow_release_evaluator` -/
def escrowRelease (o : EscrowReleaseOperation) : Eval Unit := do
  let s ← get
  let _ ← getAccount o.fromAccount
  let _ ← getAccount o.receiver
  let escrow ← getEscrow o.fromAccount o.escrowId
  let tooMuch := "Release amount exceeds escrow balance. Amount: $a, Balance: $b"
  let steem ← amountIn escrow.steemBalance.symbol o.steemAmount
  checkLogic (steem ≤ escrow.steemBalance.amount) tooMuch
  let sbd ← amountIn escrow.sbdBalance.symbol o.sbdAmount
  checkLogic (sbd ≤ escrow.sbdBalance.amount) tooMuch
  checkLogic (escrow.toAccount = o.toAccount) "Operation 'to' ($o) does not match escrow 'to' ($e)."
  checkLogic (escrow.agent = o.agent) "Operation 'agent' ($a) does not match escrow 'agent' ($e)."
  checkLogic (o.receiver = o.fromAccount ∨ o.receiver = escrow.toAccount)
    "Funds must be released to 'from' ($f) or 'to' ($t)"
  checkLogic escrow.isApproved "Funds cannot be released prior to escrow approval."
  checkEscrowRelease o escrow s.head.time
  adjustBalance o.receiver o.steemAmount
  adjustBalance o.receiver o.sbdAmount
  changeEscrow o.fromAccount o.escrowId fun e => { e with
    steemBalance := ⟨e.steemBalance.amount - steem, e.steemBalance.symbol⟩
    sbdBalance := ⟨e.sbdBalance.amount - sbd, e.sbdBalance.symbol⟩ }
  when (escrow.steemBalance.amount - steem = 0 ∧ escrow.sbdBalance.amount - sbd = 0) <|
    removeEscrow o.fromAccount o.escrowId

/-! ## Footprints -/

section Footprints

set_option synthInstance.maxSize 1000000

variable {F : Footprint}

variable [Allows (F .supply)] [Allows (F .rates)] [Allows (F .balances)] [Allows (F .info)]
  [Allows (F .vesting)] [Allows (F .proxied)] [Allows (F .tally)] [Allows (F .savingsWithdraws)]
  [Allows (F .escrows)]

deriving instance Touches F for transfer, transferToVesting, transferToSavings, transferFromSavings,
  cancelTransferFromSavings, getEscrow, changeEscrow, removeEscrow, escrowTransfer, refundEscrow,
  payEscrowAgent, recordApproval, escrowApprove, escrowDispute, checkEscrowRelease, escrowRelease

end Footprints

end Evaluator

end Golos
