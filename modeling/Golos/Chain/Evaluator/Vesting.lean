import Golos.Chain.Evaluator.Account

/-! # Power-down and delegation

`withdraw_vesting`, its routes, and the delegation of vesting shares.
-/

namespace Golos

open Stateful

/-- `account.id`: accounts are numbered in the order of their creation. -/
def Database.accountId (s : Database) (name : AccountName) : Nat := s.accounts.keys.idxOf name

/-- `STEEMIT_VESTING_WITHDRAW_INTERVAL_SECONDS` -/
def vestingWithdrawInterval : Nat := 60 * 60 * 24 * 7

/-- `STEEMIT_VESTING_WITHDRAW_INTERVALS`, before and from hardfork 16 on. -/
def vestingWithdrawIntervals (s : Database) : Int := if s.hasHardfork 16 then 13 else 104

/-- `STEEMIT_MAX_WITHDRAW_ROUTES` -/
def maxWithdrawRoutes : Nat := 10

/-- `STEEMIT_CASHOUT_WINDOW_SECONDS` -/
def cashoutWindow : Nat := 60 * 60 * 24 * 7

/-- `STEEMIT_VOTE_REGENERATION_SECONDS` -/
def voteRegeneration : Nat := 5 * 60 * 60 * 24

/-- The routes behind `upper_bound(from_account.id, account_id_type())`: those of the
account, except one to the first account of the chain. -/
def Database.routesOf (s : Database) (name : AccountName) :
    List ((AccountName × AccountName) × WithdrawVestingRoute) :=
  s.routes.entries.filter fun e => e.1.1 = name ∧ 0 < s.accountId e.1.2

namespace Evaluator

/-! ## Withdrawals -/

/-- `withdraw_vesting_evaluator` -/
def withdrawVesting (producing : Bool) (o : WithdrawVestingOperation) : Eval Unit := do
  let s ← get
  let account ← getAccount o.account
  check (0 ≤ account.vestingShares) (.insufficientFunds "vesting shares")
  let shares ← amountIn vestsSymbol o.vestingShares
  check (shares ≤ account.availableVestingShares false) (.insufficientFunds "having vesting shares")
  when (!account.info.mined ∧ s.hasHardfork 1) do
    let minVests ← times (.steem s.schedule.medianProps.accountCreationFee) s.supply.vestingSharePrice
    checkLogic (wrapInt64 (minVests.amount * 10) < account.vestingShares ∨ (s.hasHardfork 16 ∧ shares = 0))
      "Account registered by another account requires 10x account creation fee worth of Golos Power before it can be powered down."
  let unchanged := "This operation would not change the vesting withdraw rate."
  if shares = 0 then do
    when (producing ∨ s.hasHardfork 5) <|
      checkLogic (account.withdrawal.vestingWithdrawRate ≠ 0) unchanged
    modifyWithdrawal o.account fun w => { w with
      vestingWithdrawRate := 0
      nextVestingWithdrawal := Time.maximum
      toWithdraw := 0
      withdrawn := 0 }
  else do
    let rate := shares.tdiv (vestingWithdrawIntervals s)
    let rate := if rate = 0 then 1 else rate
    when (producing ∨ s.hasHardfork 5) <|
      checkLogic (account.withdrawal.vestingWithdrawRate ≠ rate) unchanged
    modifyWithdrawal o.account fun w => { w with
      vestingWithdrawRate := rate
      nextVestingWithdrawal := s.head.time + vestingWithdrawInterval
      toWithdraw := shares
      withdrawn := 0 }

/-- `set_withdraw_vesting_route_evaluator`.  The total is taken over `routesOf`, which
leaves out a route to the account with id 0. -/
def setWithdrawVestingRoute (o : SetWithdrawVestingRouteOperation) : Eval Unit := do
  let s ← get
  let account ← getAccount o.fromAccount
  let _ ← getAccount o.toAccount
  (if s.routes.find? (o.fromAccount, o.toAccount) = none then do
    checkLogic (o.percent ≠ 0) "Cannot create a 0% destination."
    checkLogic (account.withdrawal.withdrawRoutes < maxWithdrawRoutes)
      "Account already has the maximum number of routes ($max)."
    create (·.routes) updateRoutes "withdraw_vesting_route" (o.fromAccount, o.toAccount)
      ⟨o.percent, o.autoVest⟩
    modifyWithdrawal o.fromAccount fun w => { w with withdrawRoutes := w.withdrawRoutes + 1 }
  else if o.percent = 0 then do
    remove (·.routes) updateRoutes "withdraw_vesting_route" (o.fromAccount, o.toAccount)
    modifyWithdrawal o.fromAccount fun w => { w with withdrawRoutes := w.withdrawRoutes - 1 }
  else
    change (·.routes) updateRoutes "withdraw_vesting_route" (o.fromAccount, o.toAccount) fun _ =>
      ⟨o.percent, o.autoVest⟩)
  let s ← get
  checkLogic (((s.routesOf o.fromAccount).map fun e => e.2.percent).sum ≤ 10000)
    "More than 100% of vesting withdrawals allocated to destinations."

/-! ## Delegation -/

/-- `create<vesting_delegation_expiration_object>`; objects are numbered on creation. -/
def createDelegationExpiration (e : VestingDelegationExpiration) : Eval Unit :=
  updateDelegationExpirations fun t => t.insert ((t.keys.max?.map (· + 1)).getD 0) e

/-- The branch of `delegate_vesting_shares` for a larger delegation. -/
def increaseDelegation (op : DelegateVestingSharesOperation) (new : VestingDelegation)
    (shares delta minDelegation : Int) : Eval Unit := do
  let s ← get
  let delegator ← getAccount op.delegator
  checkAvailableVesting op.delegator (.vests delta)
  let regeneratedPower := 10000 * (s.head.time - delegator.activity.lastVoteTime) / voteRegeneration
  let currentPower := min (delegator.activity.votingPower + regeneratedPower) 10000
  let maxAllowed ← fromExcept <|
    toShare (toUint128 delegator.vestingShares * currentPower % 2 ^ 128 / 10000 % 2 ^ 64)
  checkLogic (delegator.delegated.delegatedVestingShares + delta ≤ maxAllowed)
    "Account allowed to delegate a maximum of $v with current voting power = $p"
  when (s.delegations.find? (op.delegator, op.delegatee) = none) do
    checkLogic (minDelegation ≤ shares) "Account must delegate a minimum of $v"
    create (·.delegations) updateDelegations "vesting_delegation" (op.delegator, op.delegatee) new
  modifyDelegated op.delegator fun d =>
    { d with delegatedVestingShares := d.delegatedVestingShares + delta }

/-- The branch of `delegate_vesting_shares` for a smaller delegation. -/
def decreaseDelegation (op : DelegateVestingSharesOperation) (shares delta minDelegation : Int) :
    Eval Unit := do
  let s ← get
  checkLogic (shares = 0 ∨ minDelegation ≤ shares)
    "Delegation must be removed or leave minimum delegation amount of $v"
  -- without a delegation the source reads through a null pointer here
  let delegation ← require (s.delegations.find? (op.delegator, op.delegatee))
    (.internal "delegation")
  createDelegationExpiration
    ⟨op.delegator, -delta, max (s.head.time + cashoutWindow) delegation.minDelegationTime⟩

/-- `delegate_vesting_shares`: `new` is the object `create_vdo` makes, `accepts` what
`validate_with_vdo` checks of an existing one. -/
def delegateVestingSharesWith (op : DelegateVestingSharesOperation) (interestRate : Nat)
    (payoutStrategy : DelegatorPayoutStrategy) (accepts : VestingDelegation → Eval Unit) :
    Eval Unit := do
  let s ← get
  let props := s.schedule.medianProps
  let _ ← getAccount op.delegator
  let _ ← getAccount op.delegatee
  let existing := s.delegations.find? (op.delegator, op.delegatee)
  existing.elim (pure ()) accepts
  let minDelegation ← times (.steem props.minDelegation) s.supply.vestingSharePrice
  let minUpdate ← times (.steem props.createAccountMinGolosFee) s.supply.vestingSharePrice
  let shares ← amountIn vestsSymbol op.vestingShares
  let delta := shares - existing.elim 0 (·.vestingShares)
  checkLogic (minUpdate.amount ≤ if 0 < delta then delta else -delta)
    "Delegation difference is not enough. min_update: $min"
  (if 0 < delta then
    increaseDelegation op ⟨shares, interestRate, payoutStrategy, s.head.time⟩ shares delta
      minDelegation.amount
  else decreaseDelegation op shares delta minDelegation.amount)
  modifyDelegated op.delegatee fun d =>
    { d with receivedVestingShares := d.receivedVestingShares + delta }
  existing.elim (pure ()) fun _ =>
    if 0 < shares then
      change (·.delegations) updateDelegations "vesting_delegation" (op.delegator, op.delegatee)
        fun d => { d with vestingShares := shares }
    else remove (·.delegations) updateDelegations "vesting_delegation" (op.delegator, op.delegatee)

/-- `delegate_vesting_shares_evaluator` -/
def delegateVestingShares (op : DelegateVestingSharesOperation) : Eval Unit :=
  delegateVestingSharesWith op 0 .toDelegator fun _ => pure ()

/-- `delegate_vesting_shares_with_interest_evaluator` -/
def delegateVestingSharesWithInterest (op : DelegateVestingSharesWithInterestOperation) :
    Eval Unit := do
  requireHardfork 19 "delegate_vesting_shares_with_interest_operation"
  let s ← get
  checkOpParam "op.interest_rate"
    (op.interestRate ≤ s.schedule.medianProps.maxDelegatedVestingInterestRate)
    "Exceeded limit value. Maximum allowed $max"
  delegateVestingSharesWith op.toDelegateVestingSharesOperation op.interestRate op.payoutStrategy fun d => do
    checkLogic (d.interestRate = op.interestRate)
      "Cannot change interest rate of already created delegation"
    checkLogic (d.payoutStrategy = op.payoutStrategy)
      "Cannot change payout strategy of already created delegation"

/-- `reject_vesting_shares_delegation_evaluator` -/
def rejectVestingSharesDelegation (op : RejectVestingSharesDelegationOperation) : Eval Unit := do
  requireHardfork 19 "reject_vesting_shares_delegation_operation"
  let s ← get
  let _ ← getAccount op.delegatee
  let delegation ← fetch (·.delegations) "vesting_delegation_object" (op.delegator, op.delegatee)
  modifyDelegated op.delegatee fun d =>
    { d with receivedVestingShares := d.receivedVestingShares - delegation.vestingShares }
  createDelegationExpiration
    ⟨op.delegator, delegation.vestingShares,
      max (s.head.time + cashoutWindow) delegation.minDelegationTime⟩
  remove (·.delegations) updateDelegations "vesting_delegation_object" (op.delegator, op.delegatee)

/-! ## Footprints -/

section Footprints

set_option synthInstance.maxSize 1000000

variable {F : Footprint} [Allows (F .withdrawal)] [Allows (F .routes)] [Allows (F .delegationExpirations)]
  [Allows (F .delegated)] [Allows (F .delegations)]

deriving instance Touches F for withdrawVesting, setWithdrawVestingRoute, createDelegationExpiration,
  increaseDelegation, decreaseDelegation

omit [Allows (F .withdrawal)] [Allows (F .routes)] in
instance {op interestRate payoutStrategy accepts} [∀ d, Touches F (accepts d)] :
    Touches F (delegateVestingSharesWith op interestRate payoutStrategy accepts) := by
  unfold delegateVestingSharesWith; infer_instance

deriving instance Touches F for delegateVestingShares, delegateVestingSharesWithInterest,
  rejectVestingSharesDelegation

end Footprints

end Evaluator

end Golos
