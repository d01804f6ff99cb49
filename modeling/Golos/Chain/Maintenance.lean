import Golos.Chain.Evaluator.Transfer
import Golos.Chain.Evaluator.Vesting

/-! # What falls due with a block

The steps of `_apply_block` that settle earlier requests once their time has come:
power-downs, savings withdrawals, unratified escrows, recovery requests, declined
voting rights and returned delegations.

Most loops of the source take the first due object of an index, remove it and start
over, so they run once over the due objects in index order.  A power-down is different:
its account stays in the index under a later time and can be due again.
-/

namespace Golos

open Stateful

/-! ## Power-down -/

/-- The vesting shares a route receives of those withdrawn. -/
def routeShare (toWithdraw : Int) (percent : Nat) : Int := toWithdraw * percent / 10000

abbrev Route := (AccountName × AccountName) × WithdrawVestingRoute

/-- The routes of an account in the order of `by_withdraw_route`. -/
def Database.routesInOrder (s : Database) (name : AccountName) : List Route :=
  (s.routesOf name).insertionSort fun a b => s.accountId a.1.2 ≤ s.accountId b.1.2

/-- The first pass over the routes: what is deposited as vesting shares. -/
def depositAsVests (toWithdraw : Int) : List Route → Eval Int
  | [] => pure 0
  | route :: rest => do
    let toDeposit := if route.2.autoVest then routeShare toWithdraw route.2.percent else 0
    when (0 < toDeposit) do
      modifyVestingShares route.1.2 (· + toDeposit)
      adjustProxiedWitnessVotes route.1.2 toDeposit
    let more ← depositAsVests toWithdraw rest
    pure (toDeposit + more)

/-- Vesting shares leave the fund at its current price; the GOLOS they are worth. -/
def convertVests (shares : Int) : Eval Int := do
  let s ← get
  let converted ← times (.vests shares) s.supply.vestingSharePrice
  amountIn steemSymbol converted

/-- `shares` and the GOLOS they were converted to are taken out of the vesting fund. -/
def takeFromFund (shares converted : Int) : Eval Unit :=
  modifySupply fun p => { p with
    totalVestingFundSteem := p.totalVestingFundSteem - converted
    totalVestingShares := p.totalVestingShares - shares }

/-- The second pass over the routes: what is deposited as GOLOS. -/
def depositAsSteem (toWithdraw : Int) : List Route → Eval Int
  | [] => pure 0
  | route :: rest => do
    if route.2.autoVest then depositAsSteem toWithdraw rest
    else do
      let _ ← getAccount route.1.2
      let toDeposit := routeShare toWithdraw route.2.percent
      let converted ← convertVests toDeposit
      when (0 < toDeposit) do
        modifyBalances route.1.2 fun b => { b with balance := b.balance + converted }
        takeFromFund toDeposit converted
      let more ← depositAsSteem toWithdraw rest
      pure (toDeposit + more)

/-- Both loops of `process_vesting_withdrawals` over the routes: the shares deposited as they are, and those
deposited as GOLOS. -/
def depositOnRoutes (toWithdraw : Int) (routes : List Route) : Eval (Int × Int) := do
  let asVests ← depositAsVests toWithdraw routes
  let asSteem ← depositAsSteem toWithdraw routes
  pure (asVests, asSteem)

/-- The vesting shares of the next payment of a power-down. -/
def Account.nextPayment (a : Account) : Int :=
  let w := a.withdrawal
  max 0 <|
    if w.toWithdraw - w.withdrawn < w.vestingWithdrawRate then
      min a.vestingShares (w.toWithdraw.tmod w.vestingWithdrawRate)
    else min a.vestingShares w.vestingWithdrawRate

/-- The power-down of an account after a payment. -/
def Withdrawal.advance (w : Withdrawal) (paid : Int) (nothingLeft hf19 : Bool) : Withdrawal :=
  if w.toWithdraw ≤ w.withdrawn + paid ∨ nothingLeft then
    { w with
      vestingWithdrawRate := 0
      nextVestingWithdrawal := Time.maximum
      withdrawn := if hf19 then 0 else w.withdrawn + paid
      toWithdraw := if hf19 then 0 else w.toWithdraw }
  else
    { w with
      withdrawn := w.withdrawn + paid
      nextVestingWithdrawal := w.nextVestingWithdrawal + vestingWithdrawInterval }

/-- The body of the loop of `process_vesting_withdrawals`. -/
def payWithdrawal (name : AccountName) : Eval Unit := do
  let s ← get
  let a ← getAccount name
  let toWithdraw := a.nextPayment
  let (asVests, asSteem) ← depositOnRoutes toWithdraw (s.routesInOrder name)
  let toConvert := max 0 (toWithdraw - asSteem - asVests)
  let converted ← convertVests toConvert
  modifyVestingShares name (· - toWithdraw)
  modifyBalances name fun b => { b with balance := b.balance + converted }
  let a ← getAccount name
  modifyWithdrawal name fun w => w.advance toWithdraw (a.vestingShares = 0) (s.hasHardfork 19)
  takeFromFund toConvert converted
  when (0 < toWithdraw) (adjustProxiedWitnessVotes name (-toWithdraw))

namespace Database

/-- `next_vesting_withdrawal` of an account. -/
def nextVestingWithdrawal (s : Database) (name : AccountName) : Time :=
  (s.accounts.find? name).elim Time.maximum (·.withdrawal.nextVestingWithdrawal)

/-- The order of `by_next_vesting_withdrawal`. -/
def withdrawsBefore (s : Database) (a b : AccountName) : Bool :=
  s.nextVestingWithdrawal a < s.nextVestingWithdrawal b ||
    (s.nextVestingWithdrawal a == s.nextVestingWithdrawal b && s.accountId a < s.accountId b)

/-- The due accounts still ahead of the iterator, once `name` has moved to its new place
in the index: an account that lands in front of the iterator is not seen again. -/
def requeue (s : Database) (name : AccountName) : List AccountName → List AccountName
  | [] => []
  | current :: rest =>
    if s.nextVestingWithdrawal name ≤ s.head.time ∧ s.withdrawsBefore current name then
      current :: rest.orderedInsert (fun a b => s.withdrawsBefore a b) name
    else current :: rest

end Database

/-- The loop of `process_vesting_withdrawals` over the due accounts. -/
def payWithdrawals : (fuel : Nat) → List AccountName → Eval Unit
  | 0, _ => pure ()
  | _, [] => pure ()
  | fuel + 1, name :: queue => do
    payWithdrawal name
    let s ← get
    payWithdrawals fuel (s.requeue name queue)

/-- `process_vesting_withdrawals`.  Every payment moves its account a week on, so no
account is due more often than weeks have passed. -/
def processVestingWithdrawals : Eval Unit := do
  let s ← get
  let due := s.accounts.keys.filter fun name => s.nextVestingWithdrawal name ≤ s.head.time
  payWithdrawals (due.length * (s.head.time / vestingWithdrawInterval + 1))
    (due.insertionSort fun a b => s.nextVestingWithdrawal a ≤ s.nextVestingWithdrawal b)

/-! ## Savings and escrows -/

/-- The body of the loop of `process_savings_withdraws`. -/
def completeSavingsWithdraw (key : AccountName × Nat) (request : SavingsWithdraw) : Eval Unit := do
  let _ ← getAccount request.toAccount
  adjustBalance request.toAccount request.amount
  modifyAccountInfo key.1 fun i => { i with savingsWithdrawRequests := i.savingsWithdrawRequests - 1 }
  remove (·.savingsWithdraws) updateSavingsWithdraws "savings_withdraw" key

/-- `process_savings_withdraws`, in the order of `by_complete_from_rid`. -/
def processSavingsWithdraws : Eval Unit := do
  let s ← get
  let due := s.savingsWithdraws.entries.filter fun e => e.2.complete ≤ s.head.time
  (due.insertionSort fun a b => a.2.complete < b.2.complete ∨ (a.2.complete = b.2.complete ∧
    (a.1.1.packed < b.1.1.packed ∨ (a.1.1 = b.1.1 ∧ a.1.2 ≤ b.1.2)))).forM fun e =>
      completeSavingsWithdraw e.1 e.2

/-- The body of the loop of `expire_escrow_ratification`. -/
def expireEscrow (key : AccountName × Nat) (e : Escrow) : Eval Unit := do
  let _ ← getAccount key.1
  adjustBalance key.1 e.steemBalance
  adjustBalance key.1 e.sbdBalance
  adjustBalance key.1 e.pendingFee
  remove (·.escrows) updateEscrows "escrow" key

/-- `expire_escrow_ratification` -/
def expireEscrowRatification : Eval Unit := do
  let s ← get
  let due := s.escrows.entries.filter fun e =>
    !e.2.isApproved ∧ e.2.ratificationDeadline ≤ s.head.time
  (due.insertionSort fun a b => a.2.ratificationDeadline ≤ b.2.ratificationDeadline).forM fun e =>
    expireEscrow e.1 e.2

/-! ## Requests of accounts -/

/-- `account_recovery_processing` -/
def accountRecoveryProcessing : Eval Unit := do
  let s ← get
  let now := s.head.time
  updateRecoveryRequests fun t => t.filter fun _ r => now < r.expires
  updateOwnerHistory fun l => l.dropWhile fun h => h.lastValidTime + ownerAuthRecoveryPeriod < now
  let due := s.changeRecoveryRequests.entries.filter fun e => e.2.effectiveOn ≤ now
  (due.insertionSort fun a b => a.2.effectiveOn ≤ b.2.effectiveOn).forM fun e => do
    modifyAccountInfo e.1 fun i => { i with recoveryAccount := e.2.recoveryAccount }
    remove (·.changeRecoveryRequests) updateChangeRecoveryRequests "change_recovery_account_request"
      e.1

/-- The body of the loop of `process_decline_voting_rights`. -/
def declineVotes (name : AccountName) : Eval Unit := do
  let a ← getAccount name
  adjustProxiedWitnessVotesArray name fun i => -a.voteArray i
  clearWitnessVotes name
  modifyActivity name fun x => { x with canVote := false }
  setProxy name .blank
  remove (·.declineRequests) updateDeclineRequests "decline_voting_rights_request" name

/-- `process_decline_voting_rights` -/
def processDeclineVotingRights : Eval Unit := do
  let s ← get
  let due := s.declineRequests.entries.filter fun e => e.2 ≤ s.head.time
  (due.insertionSort fun a b => a.2 ≤ b.2).forM fun e => declineVotes e.1

/-- The body of the loop of `clear_expired_delegations`. -/
def returnDelegation (id : Nat) (e : VestingDelegationExpiration) : Eval Unit := do
  modifyDelegated e.delegator fun d =>
    { d with delegatedVestingShares := d.delegatedVestingShares - e.vestingShares }
  remove (·.delegationExpirations) updateDelegationExpirations "vesting_delegation_expiration" id

/-- The objects the loop of `clear_expired_delegations` goes over. -/
def Database.dueDelegations (s : Database) : List (Nat × VestingDelegationExpiration) :=
  (s.delegationExpirations.entries.filter fun e => e.2.expiration < s.head.time).insertionSort
    fun a b => a.2.expiration ≤ b.2.expiration

/-- `clear_expired_delegations` -/
def clearExpiredDelegations : Eval Unit := do
  let s ← get
  s.dueDelegations.forM fun e => returnDelegation e.1 e.2

/-! ## Footprints -/

section Footprints

set_option synthInstance.maxSize 1000000

variable {F : Footprint}

section

variable {R : Database → Database → Prop} [Std.Refl R] [IsTrans Database R]

instance {toWithdraw routes} [Preserves R (depositAsVests toWithdraw routes)]
    [Preserves R (depositAsSteem toWithdraw routes)] : Preserves R (depositOnRoutes toWithdraw routes) := by
  unfold depositOnRoutes; infer_instance

instance [∀ name, Preserves R (payWithdrawal name)] {fuel queue} : Preserves R (payWithdrawals fuel queue) := by
  induction fuel generalizing queue with
  | zero => unfold payWithdrawals; infer_instance
  | succ fuel ih =>
    cases queue with
    | nil => unfold payWithdrawals; infer_instance
    | cons name queue => unfold payWithdrawals; infer_instance

variable [∀ name, Preserves R (payWithdrawal name)] [∀ n a, Preserves R (adjustBalance n a)]
  [∀ n f, Preserves R (modifyAccountInfo n f)] [∀ f, Preserves R (updateSavingsWithdraws f)]
  [∀ f, Preserves R (updateEscrows f)]

deriving instance Preserves R for convertVests, processVestingWithdrawals, completeSavingsWithdraw,
  processSavingsWithdraws, expireEscrow, expireEscrowRatification

end

instance {toWithdraw routes} [Allows (F .vesting)] [Allows (F .proxied)] [Allows (F .tally)] :
    Touches F (depositAsVests toWithdraw routes) := by
  induction routes with
  | nil => unfold depositAsVests; infer_instance
  | cons route rest ih => unfold depositAsVests; infer_instance

section

variable [Allows (F .supply)]

deriving instance Touches F for takeFromFund

instance [Allows (F .balances)] {toWithdraw routes} : Touches F (depositAsSteem toWithdraw routes) := by
  induction routes with
  | nil => unfold depositAsSteem; infer_instance
  | cons route rest ih => unfold depositAsSteem; infer_instance

end

variable [Allows (F .supply)] [Allows (F .balances)] [Allows (F .vesting)] [Allows (F .proxied)] [Allows (F .tally)]
  [Allows (F .withdrawal)] [Allows (F .info)] [Allows (F .ownerHistory)] [Allows (F .recoveryRequests)]
  [Allows (F .changeRecoveryRequests)] [Allows (F .proxy)] [Allows (F .votedFor)] [Allows (F .activity)]
  [Allows (F .witnessVotes)] [Allows (F .declineRequests)] [Allows (F .delegated)] [Allows (F .delegationExpirations)]

deriving instance Touches F for payWithdrawal, accountRecoveryProcessing, declineVotes, processDeclineVotingRights,
  returnDelegation, clearExpiredDelegations

end Footprints

end Golos
