import Golos.Chain.WitnessVotes

/-! # Account evaluators

Creation, update, challenge and recovery of accounts.  `producing` is
`is_producing()`: some checks are made only by a node that is producing a block.
-/

namespace Golos

open Stateful

/-! ## Checks of the evaluators -/

/-- `GOLOS_CHECK_LOGIC` -/
abbrev checkLogic (c : Prop) [Decidable c] (message : String) : Eval Unit := check c (.logic message)

/-- `GOLOS_CHECK_OP_PARAM` around a `GOLOS_CHECK_VALUE` -/
abbrev checkOpParam (param : String) (c : Prop) [Decidable c] (message : String) : Eval Unit :=
  check c (.invalidParameter param message)

/-- `GOLOS_CHECK_OP_PARAM` around statements: an invalid value is reported as an
invalid parameter. -/
def inOpParam {α : Type} (param : String) (m : Eval α) : Eval α := fun s =>
  match m s with
  | .error (.invalidValue message) => .error (.invalidParameter param message)
  | r => r

@[simp] theorem ensures_inOpParam {α : Type} {param : String} {m : Eval α} {s : Database}
    {Q : α → Database → Prop} : Ensures s (inOpParam param m) Q ↔ Ensures s m Q := by
  have same : ∀ a t, inOpParam param m s = .ok (a, t) ↔ m s = .ok (a, t) := by
    intro a t
    unfold inOpParam
    split <;> simp [*]
  simp [Ensures, same]

instance {α : Type} {R : Database → Database → Prop} {param : String} {m : Eval α}
    [inner : Preserves R m] : Preserves R (inOpParam param m) :=
  ⟨fun s => ensures_inOpParam.mpr (inner.related s)⟩

/-- `ASSERT_REQ_HF` -/
def requireHardfork (hardfork : Nat) (feature : String) : Eval Unit := do
  let s ← get
  check (s.hasHardfork hardfork) (.unsupportedOperation (feature ++ " is not enabled until HF"))

/-- `GOLOS_CHECK_BALANCE(account, AVAILABLE_VESTING, shares)` -/
def checkAvailableVesting (name : AccountName) (shares : Asset) : Eval Unit := do
  let shares ← amountIn vestsSymbol shares
  let a ← getAccount name
  check (shares ≤ a.availableVestingShares true) (.insufficientFunds "available vesting shares")

/-- Check that the accounts an authority names exist. -/
def checkAccountAuths (auth : Authority) : Eval Unit :=
  auth.accountAuths.forM fun item => do
    let _ ← getAccount item.1
    pure ()

/-- `get_authority` -/
def getAuthority (name : AccountName) : Eval AccountAuthority :=
  fetch (·.authorities) "authority" name

/-- `create<account_authority_object>` -/
def createAuthority (name : AccountName) (owner active posting : Authority) : Eval Unit :=
  create (·.authorities) updateAuthorities "authority" name ⟨owner, active, posting, 0⟩

/-- `modify(get_authority(name), ...)` -/
def changeAuthority (name : AccountName) (f : AccountAuthority → AccountAuthority) : Eval Unit :=
  change (·.authorities) updateAuthorities "authority" name f

/-- `update_owner_authority`; `STEEMIT_OWNER_AUTH_HISTORY_TRACKING_START_BLOCK_NUM` is 1. -/
def updateOwnerAuthority (name : AccountName) (owner : Authority) : Eval Unit := do
  let s ← get
  when (1 ≤ s.head.headBlockNumber) do
    let auth ← getAuthority name
    updateOwnerHistory fun l => l ++ [⟨name, auth.owner, s.head.time⟩]
  changeAuthority name fun auth => { auth with owner := owner, lastOwnerUpdate := s.head.time }

/-- `STEEMIT_OWNER_UPDATE_LIMIT` -/
def ownerUpdateLimit : Nat := 60 * 60

/-- `STEEMIT_OWNER_AUTH_RECOVERY_PERIOD` -/
def ownerAuthRecoveryPeriod : Nat := 60 * 60 * 24 * 30

/-- `STEEMIT_ACCOUNT_RECOVERY_REQUEST_EXPIRATION_PERIOD` -/
def accountRecoveryRequestExpirationPeriod : Nat := 60 * 60 * 24

namespace Evaluator

/-! ## Creation and update -/

/-- `account_create_evaluator` -/
def accountCreate (producing : Bool) (o : AccountCreateOperation) : Eval Unit := do
  let _ ← getAccount o.creator
  checkBalance o.creator o.fee
  let s ← get
  when (s.hasHardfork 1) <|
    checkOpParam "fee" (o.fee.symbol = steemSymbol ∧
      s.schedule.medianProps.accountCreationFee ≤ o.fee.amount)
      "Insufficient Fee: $f required, $p provided."
  when (producing ∨ s.hasHardfork 15) do
    checkAccountAuths o.owner
    checkAccountAuths o.active
    checkAccountAuths o.posting
  let fee ← amountIn steemSymbol o.fee
  modifyBalances o.creator fun b => { b with balance := b.balance - fee }
  createAccount o.newAccountName
    { activity := { lastVoteTime := s.head.time }
      info := {
        memoKey := o.memoKey
        created := s.head.time
        mined := false
        recoveryAccount := if s.hasHardfork 11 then o.creator else .initMiner } }
  createAuthority o.newAccountName o.owner o.active o.posting
  when (0 < o.fee.amount) do
    let _ ← createVesting o.newAccountName o.fee
    pure ()

/-- `account_create_with_delegation_extension_visitor` -/
def applyReferralOptions (account : AccountName) (aro : AccountReferralOptions) : Eval Unit := do
  requireHardfork 19 "account_referral_options"
  let _ ← getAccount aro.referrer
  let s ← get
  let props := s.schedule.medianProps
  checkOpParam "aro.interest_rate" (aro.interestRate ≤ props.maxReferralInterestRate)
    "Exceeded limit value. Maximum allowed $max"
  checkOpParam "aro.end_date" (s.head.time ≤ aro.endDate) "End date should be in the future"
  checkOpParam "aro.end_date" (aro.endDate ≤ s.head.time + props.maxReferralTermSec)
    "Exceeded limit value. Maximum allowed $max"
  let breakFee ← amountIn steemSymbol aro.breakFee
  checkOpParam "aro.break_fee" (breakFee ≤ props.maxReferralBreakFee)
    "Exceeded limit value. Maximum allowed $max"
  modifyAccountInfo account fun i => { i with
    referrerAccount := aro.referrer
    referrerInterestRate := aro.interestRate
    referralEndDate := aro.endDate
    referralBreakFee := breakFee }

/-- `account_create_with_delegation_evaluator`; the operators of `asset` take `target` and the fee as an `int`. -/
def accountCreateWithDelegation (o : AccountCreateWithDelegationOperation) : Eval Unit := do
  let _ ← getAccount o.creator
  checkBalance o.creator o.fee
  checkAvailableVesting o.creator o.delegation
  let s ← get
  let props := s.schedule.medianProps
  let price := s.supply.vestingSharePrice
  let target := props.createAccountMinGolosFee + props.createAccountMinDelegation
  let targetDelegation ← times (.steem target) price
  let paid ← times ⟨(o.fee.amount * toInt32 target).tdiv (toInt32 props.accountCreationFee), o.fee.symbol⟩ price
  let delegation ← amountIn vestsSymbol o.delegation
  checkLogic (targetDelegation.amount ≤ paid.amount + delegation)
    "Insufficient Delegation $f required, $p provided."
  let fee ← amountIn steemSymbol o.fee
  checkOpParam "fee" (props.createAccountMinGolosFee ≤ fee)
    "Insufficient Fee: $f required, $p provided."
  checkAccountAuths o.owner
  checkAccountAuths o.active
  checkAccountAuths o.posting
  modifyBalances o.creator fun b => { b with balance := b.balance - fee }
  modifyDelegated o.creator fun d =>
    { d with delegatedVestingShares := d.delegatedVestingShares + delegation }
  createAccount o.newAccountName
    { activity := { lastVoteTime := s.head.time }
      delegated := { receivedVestingShares := delegation }
      info := {
        memoKey := o.memoKey
        created := s.head.time
        mined := false
        recoveryAccount := o.creator } }
  createAuthority o.newAccountName o.owner o.active o.posting
  when (0 < delegation) <|
    create (·.delegations) updateDelegations "vesting_delegation" (o.creator, o.newAccountName)
      { vestingShares := delegation
        minDelegationTime := s.head.time + props.createAccountDelegationTime }
  when (0 < fee) do
    let _ ← createVesting o.newAccountName o.fee
    pure ()
  o.extensions.forM fun e => applyReferralOptions o.newAccountName e

/-- `account_update_evaluator` -/
def accountUpdate (producing : Bool) (o : AccountUpdateOperation) : Eval Unit := do
  let s ← get
  let strict := s.hasHardfork 15 || producing
  when (s.hasHardfork 1) <|
    checkOpParam "account" (o.account ≠ .temp) "Cannot update temp account."
  when strict (o.posting.elim (pure ()) fun auth => fromExcept auth.validate)
  let _ ← getAccount o.account
  let current ← getAuthority o.account
  o.owner.elim (pure ()) fun auth => do
    when (s.hasHardfork 11) <|
      check (current.lastOwnerUpdate + ownerUpdateLimit < s.head.time)
        (.bandwidth "Owner authority can only be updated once an hour.")
    when strict (checkAccountAuths auth)
    updateOwnerAuthority o.account auth
  when strict (o.active.elim (pure ()) checkAccountAuths)
  when strict (o.posting.elim (pure ()) checkAccountAuths)
  modifyAccountInfo o.account fun i =>
    let proved := (o.active.isSome || o.owner.isSome) && i.activeChallenged
    { i with
      memoKey := if o.memoKey ≠ 0 then o.memoKey else i.memoKey
      activeChallenged := if proved then false else i.activeChallenged
      lastActiveProved := if proved then s.head.time else i.lastActiveProved
      lastAccountUpdate := s.head.time }
  when (o.active.isSome ∨ o.posting.isSome) <|
    changeAuthority o.account fun auth => { auth with
      active := o.active.getD auth.active
      posting := o.posting.getD auth.posting }

/-- `account_metadata_evaluator` -/
def accountMetadata (account : AccountName) : Eval Unit := do
  let s ← get
  modifyAccountInfo account fun i => { i with lastAccountUpdate := s.head.time }

/-- `break_free_referral_evaluator` -/
def breakFreeReferral (referral : AccountName) : Eval Unit := do
  requireHardfork 19 "break_free_referral_operation"
  let a ← getAccount referral
  let _ ← getAccount a.info.referrerAccount
  checkLogic (a.info.referralBreakFee ≠ 0) "This referral account has no right to break referral"
  checkBalance referral (.steem a.info.referralBreakFee)
  adjustBalance referral (.steem (-a.info.referralBreakFee))
  adjustBalance a.info.referrerAccount (.steem a.info.referralBreakFee)
  modifyAccountInfo referral fun i => { i with
    referrerAccount := .blank
    referrerInterestRate := 0
    referralEndDate := 0
    referralBreakFee := 0 }

/-! ## Challenges -/

/-- `STEEMIT_OWNER_CHALLENGE_FEE` -/
def ownerChallengeFee : Int := 30000

/-- `STEEMIT_ACTIVE_CHALLENGE_FEE` -/
def activeChallengeFee : Int := 2000

/-- `challenge_authority_evaluator`.  An account's reset account is the null account:
the operation that would change it is disabled. -/
def challengeAuthority (o : ChallengeAuthorityOperation) : Eval Unit := do
  let s ← get
  check (!s.hasHardfork 14)
    (.unsupportedOperation "Challenge authority operation is currently disabled.")
  let challenged ← getAccount o.challenged
  let challenger ← getAccount o.challenger
  if o.requireOwner then do
    check (AccountName.null = o.challenger)
      (.assertion "Owner authority can only be challenged by its reset account.")
    check (ownerChallengeFee ≤ challenger.balances.balance) (.assertion "challenger.balance")
    check (!challenged.info.ownerChallenged) (.assertion "!challenged.owner_challenged")
    check (60 * 60 * 24 < s.head.time - challenged.info.lastOwnerProved)
      (.assertion "STEEMIT_OWNER_CHALLENGE_COOLDOWN")
    adjustBalance o.challenger (.steem (-ownerChallengeFee))
    let _ ← createVesting o.challenged (.steem ownerChallengeFee)
    modifyAccountInfo o.challenged fun i => { i with ownerChallenged := true }
  else do
    check (activeChallengeFee ≤ challenger.balances.balance)
      (.assertion "Account does not have sufficient funds to pay challenge fee.")
    check (!(challenged.info.ownerChallenged || challenged.info.activeChallenged))
      (.assertion "Account is already challenged.")
    check (60 * 60 * 24 < s.head.time - challenged.info.lastActiveProved)
      (.assertion "Account cannot be challenged because it was recently challenged.")
    adjustBalance o.challenger (.steem (-activeChallengeFee))
    let _ ← createVesting o.challenged (.steem activeChallengeFee)
    modifyAccountInfo o.challenged fun i => { i with activeChallenged := true }

/-- `prove_authority_evaluator` -/
def proveAuthority (o : ProveAuthorityOperation) : Eval Unit := do
  let s ← get
  let challenged ← getAccount o.challenged
  checkLogic (challenged.info.ownerChallenged ∨ challenged.info.activeChallenged)
    "Account is not challeneged. No need to prove authority."
  modifyAccountInfo o.challenged fun i => { i with
    activeChallenged := false
    lastActiveProved := s.head.time
    ownerChallenged := if o.requireOwner then false else i.ownerChallenged
    lastOwnerProved := if o.requireOwner then s.head.time else i.lastOwnerProved }

/-! ## Recovery -/

/-- The witness with the most votes; ties go to the smaller name (`by_vote_name`). -/
def topWitness (s : Database) : Option AccountName :=
  (s.witnesses.entries.foldl (fun best e => match best with
    | none => some e
    | some b =>
      if b.2.tally.votes < e.2.tally.votes ∨
          (b.2.tally.votes = e.2.tally.votes ∧ e.1.packed < b.1.packed) then some e else some b)
    none).map Prod.fst

/-- `request_account_recovery_evaluator` -/
def requestAccountRecovery (o : RequestAccountRecoveryOperation) : Eval Unit := do
  let s ← get
  let account ← getAccount o.accountToRecover
  (if account.info.recoveryAccount ≠ .blank then
    checkLogic (account.info.recoveryAccount = o.recoveryAccount)
      "Cannot recover an account that does not have you as there recovery partner."
  else
    checkLogic (topWitness s = some o.recoveryAccount)
      "Top witness must recover an account with no recovery partner.")
  let impossible := "Cannot recover using an impossible authority."
  let request : AccountRecoveryRequest :=
    ⟨o.newOwnerAuthority, s.head.time + accountRecoveryRequestExpirationPeriod⟩
  if s.recoveryRequests.find? o.accountToRecover = none then do
    checkOpParam "new_owner_authority" (!o.newOwnerAuthority.isImpossible) impossible
    checkOpParam "new_owner_authority" (o.newOwnerAuthority.weightThreshold ≠ 0)
      "Cannot recover using an open authority."
    when (s.hasHardfork 15) (checkAccountAuths o.newOwnerAuthority)
    create (·.recoveryRequests) updateRecoveryRequests "account_recovery_request"
      o.accountToRecover request
  else if o.newOwnerAuthority.weightThreshold = 0 then
    remove (·.recoveryRequests) updateRecoveryRequests "account_recovery_request" o.accountToRecover
  else do
    checkOpParam "new_owner_authority" (!o.newOwnerAuthority.isImpossible) impossible
    when (s.hasHardfork 15) (checkAccountAuths o.newOwnerAuthority)
    change (·.recoveryRequests) updateRecoveryRequests "account_recovery_request"
      o.accountToRecover fun _ => request

/-- `stop_withdraw` -/
def stopWithdraw (account : AccountName) : Eval Unit :=
  modifyWithdrawal account fun w => { w with
    vestingWithdrawRate := 0
    nextVestingWithdrawal := Time.maximum
    withdrawn := 0
    toWithdraw := 0 }

/-- `remove_vesting_routes`.  The loop starts at `upper_bound(account.id)`, behind the
routes of the account, and stops at the first route of another account. -/
def removeVestingRoutes (account : AccountName) : Eval Unit := do
  let s ← get
  let id := s.accounts.keys.idxOf account
  let behind := s.routes.keys.filter fun k => id < s.accounts.keys.idxOf k.1
  (behind.takeWhile fun k => k.1 = account).forM fun k => updateRoutes fun t => t.erase k

/-- `reset_vesting_withdraw` -/
def resetVestingWithdraw (account : AccountName) : Eval Unit := do
  stopWithdraw account
  removeVestingRoutes account

/-- `recover_account_evaluator` -/
def recoverAccount (o : RecoverAccountOperation) : Eval Unit := do
  let s ← get
  let account ← getAccount o.accountToRecover
  when (s.hasHardfork 12) <|
    check (account.info.lastAccountRecovery + ownerUpdateLimit < s.head.time)
      (.bandwidth "Owner authority can only be updated once an hour.")
  let request ← require (s.recoveryRequests.find? o.accountToRecover)
    (.logic "There are no active recovery requests for this account.")
  checkLogic (request.newOwnerAuthority = o.newOwnerAuthority)
    "New owner authority does not match recovery request."
  checkLogic (∃ h ∈ s.ownerHistory, h.account = o.accountToRecover ∧
      h.previousOwnerAuthority = o.recentOwnerAuthority)
    "Recent authority not found in authority history."
  remove (·.recoveryRequests) updateRecoveryRequests "account_recovery_request" o.accountToRecover
  updateOwnerAuthority o.accountToRecover o.newOwnerAuthority
  modifyAccountInfo o.accountToRecover fun i => { i with lastAccountRecovery := s.head.time }
  when (s.hasHardfork 19) (resetVestingWithdraw o.accountToRecover)

/-- `change_recovery_account_evaluator` -/
def changeRecoveryAccount (o : ChangeRecoveryAccountOperation) : Eval Unit := do
  let s ← get
  let _ ← getAccount o.newRecoveryAccount
  let account ← getAccount o.accountToRecover
  let request : ChangeRecoveryAccountRequest :=
    ⟨o.newRecoveryAccount, s.head.time + ownerAuthRecoveryPeriod⟩
  if s.changeRecoveryRequests.find? o.accountToRecover = none then
    create (·.changeRecoveryRequests) updateChangeRecoveryRequests "change_recovery_account_request"
      o.accountToRecover request
  else if account.info.recoveryAccount ≠ o.newRecoveryAccount then
    change (·.changeRecoveryRequests) updateChangeRecoveryRequests "change_recovery_account_request"
      o.accountToRecover fun _ => request
  else
    remove (·.changeRecoveryRequests) updateChangeRecoveryRequests "change_recovery_account_request"
      o.accountToRecover

/-- `decline_voting_rights_evaluator` -/
def declineVotingRights (o : DeclineVotingRightsOperation) : Eval Unit := do
  let s ← get
  let _ ← getAccount o.account
  if o.decline then
    create (·.declineRequests) updateDeclineRequests "decline_voting_rights_request" o.account
      (s.head.time + ownerAuthRecoveryPeriod)
  else
    remove (·.declineRequests) updateDeclineRequests "decline_voting_rights_request" o.account

/-! ## Footprints -/

section Footprints

set_option synthInstance.maxSize 1000000

variable {F : Footprint}

variable [Allows (F .authorities)] [Allows (F .ownerHistory)] [Allows (F .supply)] [Allows (F .balances)]
  [Allows (F .vesting)] [Allows (F .proxy)] [Allows (F .proxied)] [Allows (F .votedFor)]
  [Allows (F .withdrawal)] [Allows (F .delegated)] [Allows (F .activity)] [Allows (F .rewards)]
  [Allows (F .info)] [Allows (F .tally)] [Allows (F .delegations)] [Allows (F .rates)]
  [Allows (F .recoveryRequests)] [Allows (F .routes)] [Allows (F .changeRecoveryRequests)]
  [Allows (F .declineRequests)]

deriving instance Touches F for requireHardfork, checkAvailableVesting, checkAccountAuths, getAuthority,
  createAuthority, changeAuthority, updateOwnerAuthority, accountCreate, applyReferralOptions,
  accountCreateWithDelegation, accountUpdate, accountMetadata, breakFreeReferral, challengeAuthority,
  proveAuthority, requestAccountRecovery, stopWithdraw, removeVestingRoutes, resetVestingWithdraw,
  recoverAccount, changeRecoveryAccount, declineVotingRights

end Footprints

end Evaluator

end Golos
