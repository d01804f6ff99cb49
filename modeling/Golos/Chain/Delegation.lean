import Mathlib.Algebra.Order.BigOperators.Group.List
import Mathlib.Algebra.Group.Prod
import Golos.Chain.Quantity
import Golos.Chain.Invariant
import Golos.Chain.Deposits

/-! # Delegated and received shares are on record

Every account counts the shares it has lent and the shares lent to it.  The first are
those of its outgoing delegations and of the delegations on their way back, the second
those of its incoming delegations.  `unrecorded` is what the accounts count less what the
objects record; creation with a delegation, increase, decrease, rejection, delegation
rewards and the return of expired delegations all leave it alone.
-/

namespace Golos

open Stateful Evaluator Store
open Database hiding pow

set_option synthInstance.maxSize 1000000

variable {e : VestingDelegationExpiration} {α : Type} {id : Nat} {s t : Database} {m : Eval α} {shares : Int}
  {d : VestingDelegation} {op : Operation} {o : AccountCreateWithDelegationOperation} {x name : AccountName}
  {step : BlockStep}

/-! ## Records -/

/-- Shares lent and shares borrowed, by account. -/
abbrev LentAndBorrowed := AccountName → Int × Int

def lent (name : AccountName) : Int →+ LentAndBorrowed :=
  (AddMonoidHom.single (fun _ : AccountName => Int × Int) name).comp (AddMonoidHom.inl Int Int)

def borrowed (name : AccountName) : Int →+ LentAndBorrowed :=
  (AddMonoidHom.single (fun _ : AccountName => Int × Int) name).comp (AddMonoidHom.inr Int Int)

def DelegatedShares.lentAndBorrowed (name : AccountName) (d : DelegatedShares) : LentAndBorrowed :=
  lent name d.delegatedVestingShares + borrowed name d.receivedVestingShares

/-- A delegation is lent by one account and borrowed by the other. -/
def VestingDelegation.lentAndBorrowed (key : AccountName × AccountName) (d : VestingDelegation) : LentAndBorrowed :=
  lent key.1 d.vestingShares + borrowed key.2 d.vestingShares

/-- Shares on their way back are still lent. -/
def VestingDelegationExpiration.lentAndBorrowed (e : VestingDelegationExpiration) : LentAndBorrowed :=
  lent e.delegator e.vestingShares

namespace Database

/-- What accounts count less what is on record. -/
def unrecorded (s : Database) : LentAndBorrowed :=
  (s.accounts.total fun name a =>
    a.delegated.lentAndBorrowed name) - s.delegations.total VestingDelegation.lentAndBorrowed -
    s.delegationExpirations.total fun _ => VestingDelegationExpiration.lentAndBorrowed

/-- The shares of the outgoing delegations of an account. -/
def outgoingDelegations (s : Database) (name : AccountName) : Int :=
  s.delegations.total fun key d => if key.1 = name then d.vestingShares else 0

/-- The shares of the incoming delegations of an account. -/
def incomingDelegations (s : Database) (name : AccountName) : Int :=
  s.delegations.total fun key d => if key.2 = name then d.vestingShares else 0

/-- The shares on their way back to an account. -/
def returningDelegations (s : Database) (name : AccountName) : Int :=
  s.delegationExpirations.total fun _ e => if e.delegator = name then e.vestingShares else 0

end Database

abbrev outsideDelegations : Footprint
  | .delegated | .delegations | .delegationExpirations => false
  | _ => true

theorem unrecorded_eq_of_within (frame : Within outsideDelegations s t) : t.unrecorded = s.unrecorded := by
  have accounts := total_eq_of_view (g := DelegatedShares.lentAndBorrowed) (frame .delegated rfl)
  have delegations : t.delegations = s.delegations := frame .delegations rfl
  have expirations : t.delegationExpirations = s.delegationExpirations := frame .delegationExpirations rfl
  rw [unrecorded, unrecorded, delegations, expirations]
  exact congrArg (fun total => total - _ - _) accounts

/-- What leaves delegations alone; a last resort of the search. -/
instance : Finer (Within outsideDelegations) (SameQuantity unrecorded) := ⟨fun _ _ => unrecorded_eq_of_within⟩

/-! ## Holders -/

theorem accounts_recordHolder : IsHolder unrecorded (·.accounts) updateAccounts
    fun name a => a.delegated.lentAndBorrowed name := by
  refine ⟨fun f s => ?_⟩
  simp only [updateAccounts, ensures_modify, unrecorded, true_and]
  abel

theorem delegations_recordHolder : IsHolder unrecorded (·.delegations) updateDelegations
    fun key d => -d.lentAndBorrowed key := by
  refine ⟨fun f s => ?_⟩
  simp only [updateDelegations, ensures_modify, unrecorded, true_and, total_neg]
  abel

theorem delegationExpirations_recordHolder : IsHolder unrecorded (·.delegationExpirations)
    updateDelegationExpirations fun _ e => -e.lentAndBorrowed := by
  refine ⟨fun f s => ?_⟩
  simp only [updateDelegationExpirations, ensures_modify, unrecorded, true_and, total_neg]
  abel

/-! ## Primitives -/

section Primitives

theorem moves_lend : Moves unrecorded s (modifyDelegated name fun d =>
      { d with delegatedVestingShares := d.delegatedVestingShares + shares }) fun _ => lent name shares := by
  refine accounts_recordHolder.moves_updateAccount fun a _ => ?_
  simp only [DelegatedShares.lentAndBorrowed, map_add]
  abel

theorem moves_borrow : Moves unrecorded s (modifyDelegated name fun d =>
      { d with receivedVestingShares := d.receivedVestingShares + shares }) fun _ => borrowed name shares := by
  refine accounts_recordHolder.moves_updateAccount fun a _ => ?_
  simp only [DelegatedShares.lentAndBorrowed, map_add]
  abel

/-- An object gets an id that is not in use. -/
theorem fresh_nextId {V : Type} {t : Store Nat V} : t.find? ((t.keys.max?.map (· + 1)).getD 0) = none := by
  refine find?_eq_none.mpr fun used => ?_
  cases largest : t.keys.max? with
  | none =>
    rw [List.max?_eq_none_iff.mp largest] at used
    cases used
  | some n =>
    rw [largest, Option.map_some, Option.getD_some] at used
    have := (List.max?_eq_some_iff.mp largest).2 _ used
    omega

theorem moves_createDelegationExpiration :
    Moves unrecorded s (createDelegationExpiration e) fun _ => -e.lentAndBorrowed :=
  delegationExpirations_recordHolder.moves_update (total_insert fresh_nextId)

/-- A new account that has not lent or borrowed anything. -/
instance {balances vestingShares proxy proxiedVsfVotes witnessesVotedFor withdrawal activity rewards info} :
    Preserves (SameQuantity unrecorded) (createAccount name
      ⟨balances, vestingShares, proxy, proxiedVsfVotes, witnessesVotedFor, withdrawal, {}, activity, rewards,
        info⟩) := by
  refine preserves_of_conserves fun s => accounts_recordHolder.moves_createAccount.congr fun _ _ _ => ?_
  simp [DelegatedShares.lentAndBorrowed]

end Primitives

/-! ## Operations -/

section Operations

variable {op : DelegateVestingSharesOperation} {delta minDelegation : Int}

abbrev keepsDelegations : Footprint
  | .delegations => false
  | _ => true

theorem delegation_kept {a : α} {key : AccountName × AccountName} [Touches keepsDelegations m] (run : m s = .ok (a, t))
    (found : s.delegations.find? key = some d) : t.delegations.find? key = some d := by
  have same : t.delegations = s.delegations := read_of_run keepsDelegations .delegations run rfl
  rw [same, found]

/-- A larger delegation: lent, and on record when it is new. -/
theorem moves_increaseDelegation {new : VestingDelegation} :
    Moves unrecorded s (increaseDelegation op new shares delta minDelegation) fun _ =>
      lent op.delegator delta - if s.delegations.find? (op.delegator, op.delegatee) = none then
          new.lentAndBorrowed (op.delegator, op.delegatee) else 0 := by
  simp only [increaseDelegation, checkAvailableVesting, bind_assoc, moves_get_bind, moves_getAccount_bind,
    moves_amountIn_bind, moves_check_bind, moves_fromExcept_bind]
  intro _ _ _ _ _ _ _ _ _
  split
  next isNew =>
    refine Moves.bind (d := fun _ => -new.lentAndBorrowed (op.delegator, op.delegatee)) ?_ fun _ _ _ => ?_
    · refine moves_when.mpr ⟨fun _ => moves_check_bind.mpr fun _ => ?_, fun old => absurd isNew old⟩
      exact delegations_recordHolder.moves_create
    · exact moves_lend.congr fun _ _ _ => by abel
  next old =>
    refine Conserves.bind (Conserves.when fun isNew => absurd isNew old) fun _ _ _ => ?_
    exact moves_lend.congr fun _ _ _ => by abel

theorem increaseDelegation_keeps {new : VestingDelegation}
    (found : s.delegations.find? (op.delegator, op.delegatee) = some d) :
    Ensures s (increaseDelegation op new shares delta minDelegation) fun _ t =>
      t.delegations.find? (op.delegator, op.delegatee) = some d := by
  simp only [increaseDelegation, checkAvailableVesting, getAccount, amountIn, ensures_steps]
  intro _ _ _ _ _ _ _ _ _
  refine ensures_when.mpr ⟨fun isNew => ?_, fun _ => fun _ _ run => delegation_kept run found⟩
  rw [found] at isNew
  cases isNew

theorem moves_decreaseDelegation :
    Moves unrecorded s (decreaseDelegation op shares delta minDelegation) fun _ => lent op.delegator delta := by
  simp only [decreaseDelegation, moves_get_bind, moves_check_bind, moves_require_bind]
  intro _ _ _
  refine moves_createDelegationExpiration.congr fun _ _ _ => ?_
  simp [VestingDelegationExpiration.lentAndBorrowed]

theorem conserves_delegateVestingSharesWith {interestRate : Nat}
    {payoutStrategy : DelegatorPayoutStrategy} {accepts : VestingDelegation → Eval Unit}
    [∀ F d, Touches F (accepts d)] (valid : 0 ≤ op.vestingShares.amount) :
    Conserves unrecorded s (delegateVestingSharesWith op interestRate payoutStrategy accepts) := by
  simp only [delegateVestingSharesWith, moves_get_bind, moves_getAccount_bind]
  intro _ _ _ _
  cases existing : s.delegations.find? (op.delegator, op.delegatee) with
  | none =>
    rw [Option.elim_none, pure_bind]
    refine moves_times_bind.mpr fun _ _ => moves_times_bind.mpr fun _ _ => moves_amountIn_bind.mpr fun _ => ?_
    refine moves_check_bind.mpr fun _ => ?_
    refine Moves.bind (d := fun _ => -borrowed op.delegatee op.vestingShares.amount)
      (moves_ite.mpr ⟨fun _ => ?_, fun _ => ?_⟩) fun _ _ _ => ?_
    · refine moves_increaseDelegation.congr fun _ _ _ => ?_
      rw [if_pos existing, VestingDelegation.lentAndBorrowed, Option.elim_none, sub_zero]
      abel
    · refine moves_get_bind.mpr <| moves_check_bind.mpr fun _ => moves_require_bind.mpr fun _ found => ?_
      rw [existing] at found
      cases found
    · refine moves_borrow.bind fun _ _ _ => ?_
      simp
  | some d =>
    refine conserves_of_preserves.bind fun _ t accepted => ?_
    refine moves_times_bind.mpr fun _ _ => moves_times_bind.mpr fun _ _ => moves_amountIn_bind.mpr fun _ => ?_
    refine moves_check_bind.mpr fun _ => ?_
    have found := delegation_kept accepted existing
    refine Moves.bind
      (moves_ite.mpr ⟨fun _ => ?_, fun _ => moves_decreaseDelegation⟩) fun _ u delegated => ?_
    · refine moves_increaseDelegation.congr fun _ _ _ => ?_
      simp [found]
    have found : u.delegations.find? (op.delegator, op.delegatee) = some d := by
      split at delegated
      · exact increaseDelegation_keeps found _ _ delegated
      · exact delegation_kept delegated found
    refine moves_borrow.bind fun _ v borrowed => ?_
    have found := delegation_kept borrowed found
    refine moves_ite.mpr ⟨fun _ => ?_, fun nothing => ?_⟩
    · refine (delegations_recordHolder.moves_change found).congr fun _ _ _ => ?_
      simp only [VestingDelegation.lentAndBorrowed, map_sub]
      abel
    · refine (delegations_recordHolder.moves_remove found).congr fun _ _ _ => ?_
      have : op.vestingShares.amount = 0 := by omega
      simp only [VestingDelegation.lentAndBorrowed, map_sub, this, map_zero]
      abel

theorem conserves_rejectVestingSharesDelegation {op : RejectVestingSharesDelegationOperation} :
    Conserves unrecorded s (rejectVestingSharesDelegation op) := by
  refine conserves_of_preserves.bind fun _ s _ => ?_
  simp only [moves_get_bind, moves_getAccount_bind, moves_fetch_bind]
  intro _ _ d found
  refine Moves.bind (d := fun _ => borrowed op.delegatee (-d.vestingShares)) ?_ fun _ t run => ?_
  · exact moves_borrow
  have found := delegation_kept run found
  refine moves_createDelegationExpiration.bind fun _ u run => ?_
  have found := delegation_kept run found
  refine (delegations_recordHolder.moves_remove found).congr fun _ _ _ => ?_
  simp only [VestingDelegation.lentAndBorrowed, VestingDelegationExpiration.lentAndBorrowed, map_neg]
  abel

/-- The creator lends what the new account starts with. -/
theorem conserves_createWithDelegation (valid : 0 ≤ o.delegation.amount) :
    Conserves unrecorded s (accountCreateWithDelegation o) := by
  simp only [accountCreateWithDelegation, moves_getAccount_bind]
  intro _ _
  refine conserves_of_preserves.bind fun _ _ _ => conserves_of_preserves.bind fun _ s _ => ?_
  simp only [moves_get_bind, moves_times_bind, moves_amountIn_bind, moves_check_bind]
  intro _ _ _ _ _ _ _ _
  refine conserves_of_preserves.bind fun _ _ _ => conserves_of_preserves.bind fun _ _ _ => ?_
  refine conserves_of_preserves.bind fun _ _ _ => conserves_of_preserves.bind fun _ _ _ => ?_
  refine moves_lend.bind fun _ _ _ => accounts_recordHolder.moves_createAccount.bind fun _ _ _ => ?_
  refine conserves_of_preserves.bind fun _ _ _ => ?_
  refine Moves.bind
    (d := fun _ => -(lent o.creator o.delegation.amount + borrowed o.newAccountName o.delegation.amount))
    (moves_when.mpr ⟨fun _ => delegations_recordHolder.moves_create, fun nothing => ?_⟩) fun _ _ _ => ?_
  · have : o.delegation.amount = 0 := by omega
    simp [this]
  refine Moves.congr (d := fun _ => 0) ?_ fun _ _ _ => ?_
  · exact conserves_of_preserves.bind fun _ _ _ => conserves_of_preserves
  · simp only [DelegatedShares.lentAndBorrowed, map_zero]
    abel

end Operations

/-! ## Rewards and returns -/

/-- A reward that is added to the delegation it was earned with. -/
instance {delegatee claim d} : Preserves (SameQuantity unrecorded) (payDelegator delegatee claim d) := by
  refine preserves_of_conserves fun s => moves_ite.mpr ⟨fun _ => moves_pure.mpr rfl, fun _ => ?_⟩
  refine conserves_of_preserves.bind fun vesting s _ => moves_get_bind.mpr ?_
  refine Conserves.bind (Conserves.when fun rewarded => ?_) fun _ _ _ => conserves_of_preserves
  obtain ⟨delegation, found⟩ := Option.isSome_iff_exists.mp rewarded.2
  refine moves_lend.bind fun _ t run => moves_borrow.bind fun _ u run' => ?_
  have found := delegation_kept run' (delegation_kept run found)
  refine (delegations_recordHolder.moves_change found).congr fun _ _ _ => ?_
  simp only [VestingDelegation.lentAndBorrowed, map_add]
  abel

instance : KeptByPayouts (SameQuantity unrecorded) where
  within _ _ within := unrecorded_eq_of_within within.widen
  createVesting _ _ := inferInstance
  payDelegator _ _ _ := inferInstance

abbrev outsideHead : Footprint
  | .head => false
  | _ => true

abbrev keepsDelegationExpirations : Footprint
  | .delegationExpirations => false
  | _ => true

theorem conserves_returnDelegation (found : s.delegationExpirations.find? id = some e) :
    Conserves unrecorded s (returnDelegation id e) := by
  refine Moves.bind moves_lend fun _ t run => ?_
  have kept : t.delegationExpirations = s.delegationExpirations :=
    read_of_run keepsDelegationExpirations .delegationExpirations run rfl
  refine (delegationExpirations_recordHolder.moves_remove (kept ▸ found)).congr fun _ _ _ => ?_
  simp [VestingDelegationExpiration.lentAndBorrowed]

theorem removes_returnDelegation :
    Ensures s (returnDelegation id e) fun _ t => t.delegationExpirations = s.delegationExpirations.erase id := by
  rw [returnDelegation, ensures_bind]
  intro _ t run
  have kept : t.delegationExpirations = s.delegationExpirations :=
    read_of_run keepsDelegationExpirations .delegationExpirations run rfl
  exact kept ▸ delegationExpirations_recordHolder.table_remove

theorem conserves_clearExpiredDelegations : Conserves unrecorded s clearExpiredDelegations :=
  moves_get_bind.mpr <| conserves_sweep lists_sorted
    (fun _ _ _ => conserves_returnDelegation) fun _ _ _ => removes_returnDelegation

/-- What is left on its way back after a block is not due yet. -/
theorem clearExpiredDelegations_leaves : Ensures s clearExpiredDelegations fun _ t =>
    ∀ id e, t.delegationExpirations.find? id = some e → t.head.time ≤ e.expiration := by
  have frame : Ensures s clearExpiredDelegations fun _ t => t.head = s.head :=
    fun _ _ run => read_of_run outsideHead .head run rfl
  have swept : Ensures s clearExpiredDelegations fun _ t => ∀ id, t.delegationExpirations.find? id =
      if id ∈ s.dueDelegations.map Prod.fst then none else s.delegationExpirations.find? id := by
    rw [clearExpiredDelegations, ensures_bind, ensures_get]
    exact sweep_erases (·.delegationExpirations) fun _ _ _ => removes_returnDelegation
  refine (frame.and swept).mono fun _ t ⟨time, left⟩ id e found => ?_
  rw [left id] at found
  split at found
  · cases found
  next notDue =>
    by_contra due
    refine notDue (List.mem_map.mpr ⟨(id, e), (List.mem_insertionSort _).mpr ?_, rfl⟩)
    rw [time] at due
    exact List.mem_filter.mpr ⟨find?_eq_some.mp found, by simpa using due⟩

/-! ## Amounts -/

/-- No delegation, and nothing on its way back, is of a negative amount. -/
structure Database.DelegationsNonneg (s : Database) : Prop where
  lent : ∀ key d, s.delegations.find? key = some d → 0 ≤ d.vestingShares
  returning : ∀ id e, s.delegationExpirations.find? id = some e → 0 ≤ e.vestingShares

abbrev NonnegKept := Keeps DelegationsNonneg

abbrev outsideDelegationTables : Footprint
  | .delegations | .delegationExpirations => false
  | _ => true

section Amounts

variable {type : String} {key : AccountName × AccountName}

theorem Within.delegationsNonneg (within : Within outsideDelegationTables s t) (nonneg : s.DelegationsNonneg) :
    t.DelegationsNonneg := by
  have delegations : t.delegations = s.delegations := within .delegations rfl
  have expirations : t.delegationExpirations = s.delegationExpirations := within .delegationExpirations rfl
  refine ⟨fun key d found => nonneg.lent key d ?_, fun id e found => nonneg.returning id e ?_⟩
  · rwa [delegations] at found
  · rwa [expirations] at found

instance : Finer (Within outsideDelegationTables) NonnegKept := ⟨fun _ _ => Within.delegationsNonneg⟩

theorem nonneg_createDelegation {new : VestingDelegation} (nonneg : 0 ≤ new.vestingShares) :
    Preserves NonnegKept (create (·.delegations) updateDelegations type key new) := by
  refine ⟨fun s => ?_⟩
  simp only [create, updateDelegations, ensures_steps]
  exact fun fresh before => ⟨fun k d => all_insert fresh nonneg before.lent, before.returning⟩

theorem nonneg_changeDelegation {f : VestingDelegation → VestingDelegation}
    (nonneg : ∀ d, 0 ≤ d.vestingShares → 0 ≤ (f d).vestingShares) :
    Preserves NonnegKept (change (·.delegations) updateDelegations type key f) := by
  refine ⟨fun s => ?_⟩
  simp only [change, fetch, updateDelegations, ensures_steps]
  exact fun _ _ before => ⟨fun k d => all_modify nonneg before.lent, before.returning⟩

instance : Preserves NonnegKept (remove (·.delegations) updateDelegations type key) := by
  refine ⟨fun s => ?_⟩
  simp only [remove, fetch, updateDelegations, ensures_steps]
  exact fun _ _ before => ⟨fun k d found => before.lent k d (find?_erase_eq_some.mp found).2, before.returning⟩

instance : Preserves NonnegKept (remove (·.delegationExpirations) updateDelegationExpirations type id) := by
  refine ⟨fun s => ?_⟩
  simp only [remove, fetch, updateDelegationExpirations, ensures_steps]
  exact fun _ _ before => ⟨before.lent, fun k e found => before.returning k e (find?_erase_eq_some.mp found).2⟩

theorem nonneg_createDelegationExpiration (nonneg : 0 ≤ e.vestingShares) :
    Preserves NonnegKept (createDelegationExpiration e) := by
  exact preserves_modify fun s before => ⟨before.lent, fun id e' => all_insert fresh_nextId nonneg before.returning⟩

theorem nonneg_delegateVestingSharesWith {op : DelegateVestingSharesOperation} {interestRate : Nat}
    {payoutStrategy : DelegatorPayoutStrategy} {accepts : VestingDelegation → Eval Unit}
    [∀ F d, Touches F (accepts d)] (valid : 0 ≤ op.vestingShares.amount) :
    Preserves NonnegKept (delegateVestingSharesWith op interestRate payoutStrategy accepts) := by
  have increased (time : Time) (delta minDelegation : Int) : Preserves NonnegKept
      (increaseDelegation op ⟨op.vestingShares.amount, interestRate, payoutStrategy, time⟩ op.vestingShares.amount delta
        minDelegation) := by
    have created := @nonneg_createDelegation "vesting_delegation" (op.delegator, op.delegatee)
      ⟨op.vestingShares.amount, interestRate, payoutStrategy, time⟩ valid
    unfold increaseDelegation; infer_instance
  have decreased (delta minDelegation : Int) (smaller : ¬0 < delta) : Preserves NonnegKept
      (decreaseDelegation op op.vestingShares.amount delta minDelegation) := by
    have created (time : Time) := @nonneg_createDelegationExpiration ⟨op.delegator, -delta, time⟩ (by dsimp only; omega)
    unfold decreaseDelegation; infer_instance
  have moved (time : Time) (delta minDelegation : Int) : Preserves NonnegKept
      (if 0 < delta then increaseDelegation op ⟨op.vestingShares.amount, interestRate, payoutStrategy, time⟩
        op.vestingShares.amount delta minDelegation
      else decreaseDelegation op op.vestingShares.amount delta minDelegation) := by
    split
    · infer_instance
    next smaller =>
      exact decreased _ _ smaller
  have changed := @nonneg_changeDelegation "vesting_delegation" (op.delegator, op.delegatee)
    (fun d => { d with vestingShares := op.vestingShares.amount }) fun _ _ => valid
  refine ⟨fun s => ensures_keeps fun kept => ?_⟩
  simp only [delegateVestingSharesWith, getAccount, amountIn, ensures_steps]
  intro _ _ _ _
  iterate 3 refine ensures_kept kept fun _ _ kept => ?_
  intro _ _
  iterate 3 refine ensures_kept kept fun _ _ kept => ?_
  exact kept

instance {op} : Preserves NonnegKept (rejectVestingSharesDelegation op) := by
  refine ⟨fun s => ensures_keeps fun before => ?_⟩
  rw [rejectVestingSharesDelegation, ensures_bind]
  refine ensures_kept before fun _ _ kept => ?_
  simp only [getAccount, fetch, ensures_steps]
  intro _ _ d found
  have created (time : Time) :=
    @nonneg_createDelegationExpiration ⟨op.delegator, d.vestingShares, time⟩ (kept.lent _ d found)
  iterate 3 refine ensures_kept kept fun _ _ kept => ?_
  exact kept

instance {o} : Preserves NonnegKept (accountCreateWithDelegation o) := by
  have created (delegation : Int) (time : Time) : Preserves NonnegKept (when (0 < delegation) <|
      create (·.delegations) updateDelegations "vesting_delegation" (o.creator, o.newAccountName)
        { vestingShares := delegation, minDelegationTime := time }) := by
    by_cases positive : 0 < delegation
    · have := @nonneg_createDelegation "vesting_delegation" (o.creator, o.newAccountName)
        { vestingShares := delegation, minDelegationTime := time } positive.le
      infer_instance
    · rw [when, if_neg positive]
      infer_instance
  unfold accountCreateWithDelegation; infer_instance

instance {delegatee claim d} : Preserves NonnegKept (payDelegator delegatee claim d) := by
  refine ⟨fun s => ensures_keeps fun kept => ?_⟩
  rw [payDelegator, ensures_ite]
  refine ⟨fun _ => ensures_pure.mpr kept, fun _ => ?_⟩
  simp only [ensures_steps, createVesting, times, amountIn]
  intro newVesting price _
  have nonneg : 0 ≤ newVesting.amount := Asset.mulPrice_nonneg price
  have changed := @nonneg_changeDelegation "vesting_delegation" (d.account, delegatee)
    (fun x => { x with vestingShares := x.vestingShares + newVesting.amount }) fun x before => by dsimp only; omega
  refine ensures_kept kept fun _ _ kept _ => ?_
  iterate 4 refine ensures_kept kept fun _ _ kept => ?_
  exact kept

instance : KeptByPayouts NonnegKept where
  within _ _ within := Within.delegationsNonneg within.widen
  createVesting _ _ := inferInstance
  payDelegator _ _ _ := inferInstance

deriving instance Preserves NonnegKept for returnDelegation, clearExpiredDelegations

end Amounts

/-! ## Runs -/

/-- Every account counts exactly the shares of its delegations and of those on their way back. -/
def Database.DelegationsOnRecord (s : Database) : Prop :=
  ∀ name a, s.accounts.find? name = some a →
    a.delegated.delegatedVestingShares = s.outgoingDelegations name + s.returningDelegations name ∧
      a.delegated.receivedVestingShares = s.incomingDelegations name

/-- What one account has lent, and borrowed. -/
def lentBy (name : AccountName) : LentAndBorrowed →+ Int :=
  (AddMonoidHom.fst Int Int).comp (Pi.evalAddMonoidHom _ name)

def borrowedBy (name : AccountName) : LentAndBorrowed →+ Int :=
  (AddMonoidHom.snd Int Int).comp (Pi.evalAddMonoidHom _ name)

@[simp] theorem lentBy_lent : lentBy name (lent x shares) = if x = name then shares else 0 := by
  by_cases same : x = name
  · subst same
    simp [lentBy, lent]
  · simp [lentBy, lent, same]

@[simp] theorem borrowedBy_borrowed : borrowedBy name (borrowed x shares) = if x = name then shares else 0 := by
  by_cases same : x = name
  · subst same
    simp [borrowedBy, borrowed]
  · simp [borrowedBy, borrowed, same]

@[simp] theorem lentBy_borrowed : lentBy name (borrowed x shares) = 0 := by
  by_cases same : x = name
  · subst same
    simp [lentBy, borrowed]
  · simp [lentBy, borrowed, Ne.symm same]

@[simp] theorem borrowedBy_lent : borrowedBy name (lent x shares) = 0 := by
  by_cases same : x = name
  · subst same
    simp [borrowedBy, lent]
  · simp [borrowedBy, lent, Ne.symm same]

theorem delegationsOnRecord_of_unrecorded (nothing : s.unrecorded = 0) : s.DelegationsOnRecord := by
  intro name a found
  have lending := congrArg (lentBy name) nothing
  have borrowing := congrArg (borrowedBy name) nothing
  simp only [unrecorded, map_sub, map_total, DelegatedShares.lentAndBorrowed,
    VestingDelegation.lentAndBorrowed, VestingDelegationExpiration.lentAndBorrowed, map_add, lentBy_lent,
    lentBy_borrowed, borrowedBy_lent, borrowedBy_borrowed, add_zero, zero_add, map_zero,
      total_zero] at lending borrowing
  rw [total_at found] at lending
  rw [total_at found] at borrowing
  rw [outgoingDelegations, returningDelegations, incomingDelegations]
  omega

section Runs

variable {net : Network}

theorem AccountCreateWithDelegationOperation.delegation_nonneg
    (valid : o.validate = .ok ()) : 0 ≤ o.delegation.amount := by
  simp only [validate, checkAssetGe0, except_bind_eq_ok, validThat_eq_ok] at valid
  obtain ⟨_, _, _, _, _, _, _, ⟨_, _, nonneg⟩, _⟩ := valid
  exact nonneg

theorem DelegateVestingSharesOperation.vestingShares_nonneg {o : DelegateVestingSharesOperation}
    (valid : o.validate = .ok ()) : 0 ≤ o.vestingShares.amount := by
  simp only [validate, checkAssetGe0, except_bind_eq_ok, validThat_eq_ok] at valid
  obtain ⟨_, _, _, _, _, _, _, _, nonneg⟩ := valid
  exact nonneg

instance {name key recoveryAccount} :
    Preserves (SameQuantity unrecorded) (createMinedAccount name key recoveryAccount) := by
  unfold createMinedAccount; infer_instance

theorem evaluate_unrecorded {producing nesting apply} (other : op.isProposal = false) (valid : op.validate = .ok ()) :
    Conserves unrecorded s (evaluate producing nesting apply op) := by
  cases op <;> unfold evaluate
  case accountCreateWithDelegation o =>
    exact conserves_createWithDelegation (AccountCreateWithDelegationOperation.delegation_nonneg valid)
  case delegateVestingShares o =>
    exact conserves_delegateVestingSharesWith (DelegateVestingSharesOperation.vestingShares_nonneg valid)
  case delegateVestingSharesWithInterest o =>
    refine conserves_of_preserves.bind fun _ t _ => moves_get_bind.mpr (moves_check_bind.mpr fun _ => ?_)
    exact conserves_delegateVestingSharesWith (DelegateVestingSharesOperation.vestingShares_nonneg valid)
  case rejectVestingSharesDelegation o => exact conserves_rejectVestingSharesDelegation
  case accountCreate o => unfold accountCreate; exact conserves_of_preserves
  case pow o => unfold pow; exact conserves_of_preserves
  case pow2 o => unfold pow2; exact conserves_of_preserves
  case proposalCreate | proposalUpdate | proposalDelete => cases other
  all_goals exact conserves_of_preserves

theorem run_unrecorded (other : step.appliesOperations = false) : Conserves unrecorded s (step.run net) := by
  have skipped {m : Eval Unit} (body : Conserves unrecorded s m) :
      Conserves unrecorded s (unlessTransit m) := moves_get_bind.mpr (Conserves.when fun _ => body)
  cases step <;> unfold BlockStep.run
  case applyTransaction | clearExpiredProposals => cases other
  case processCommentCashout => exact skipped conserves_of_preserves
  case clearExpiredDelegations => exact skipped conserves_clearExpiredDelegations
  all_goals exact conserves_of_preserves

instance {name balances info owner active posting} : Preserves (SameQuantity unrecorded)
      (createGenesisAccount name { balances, info } owner active posting) := by
  unfold createGenesisAccount; infer_instance

theorem recorded_keepsInvariant : net.KeepsInvariant (fun _ _ => True) fun s => s.unrecorded = 0 where
  genesis := by
    have genesis : Conserves unrecorded {} net.initGenesis := by
      unfold Network.initGenesis
      exact conserves_of_preserves
    exact genesis.mono fun _ s moved => by rw [moved]; rfl
  operations := {
    records := fun s t frame nothing =>
      (unrecorded_eq_of_within frame.widen).trans nothing
    evaluator := fun _ _ _ _ s other valid nothing =>
      (evaluate_unrecorded other valid).mono fun _ t moved => by rw [moved, nothing, add_zero] }
  step s step other _ nothing := (run_unrecorded other).mono fun _ t moved => by rw [moved, nothing, add_zero]

theorem evaluate_delegationsNonneg {producing nesting apply} (other : op.isProposal = false)
    (valid : op.validate = .ok ()) :
    Preserves NonnegKept (evaluate producing nesting apply op) := by
  cases op <;> unfold evaluate
  case delegateVestingShares o =>
    exact nonneg_delegateVestingSharesWith (DelegateVestingSharesOperation.vestingShares_nonneg valid)
  case delegateVestingSharesWithInterest o =>
    have accepts (d : VestingDelegation) (F : Footprint) : Touches F (do
      checkLogic (d.interestRate = o.interestRate) "Cannot change interest rate of already created delegation"
      checkLogic (d.payoutStrategy = o.payoutStrategy) "Cannot change payout strategy of already created delegation") :=
      inferInstance
    have := @nonneg_delegateVestingSharesWith o.toDelegateVestingSharesOperation o.interestRate o.payoutStrategy _
      (fun F d => accepts d F) (DelegateVestingSharesOperation.vestingShares_nonneg valid)
    unfold delegateVestingSharesWithInterest; infer_instance
  case proposalCreate | proposalUpdate | proposalDelete => cases other
  all_goals infer_instance

theorem run_delegationsNonneg (other : step.appliesOperations = false) : Preserves NonnegKept (step.run net) := by
  cases step <;> unfold BlockStep.run
  case applyTransaction | clearExpiredProposals => cases other
  all_goals infer_instance

/-- What accounts count is on record, and the records are of amounts that are not negative. -/
def Database.LendsNonneg (s : Database) : Prop := s.unrecorded = 0 ∧ s.DelegationsNonneg

theorem lendsNonneg_keepsInvariant : net.KeepsInvariant (fun _ _ => True) LendsNonneg := by
  refine recorded_keepsInvariant.and ?_ (fun s t frame before => ?_) (fun _ _ _ _ s other valid _ before => ?_)
    fun s step other _ _ before => ?_
  · have frame : Touches outsideDelegationTables net.initGenesis := inferInstance
    exact (frame.related _).mono fun _ s within => within.delegationsNonneg ⟨nofun, nofun⟩
  · exact Within.delegationsNonneg frame.widen before
  · exact ((evaluate_delegationsNonneg other valid).related s).mono fun _ t kept => kept before
  · exact ((run_delegationsNonneg other).related s).mono fun _ t kept => kept before

theorem total_nonneg {K V : Type} [DecidableEq K] {store : Store K V} {g : K → V → Int}
    (nonneg : ∀ k v, store.find? k = some v → 0 ≤ g k v) : 0 ≤ store.total g := by
  refine List.sum_nonneg fun x member => ?_
  obtain ⟨⟨k, v⟩, listed, rfl⟩ := List.mem_map.mp member
  exact nonneg k v (find?_eq_some.mpr listed)

/-- Nobody has lent a negative amount. -/
theorem Database.LendsNonneg.delegated_nonneg (lends : s.LendsNonneg) {a : Account}
    (found : s.accounts.find? name = some a) : 0 ≤ a.delegated.delegatedVestingShares := by
  rw [(delegationsOnRecord_of_unrecorded lends.1 name a found).1]
  refine Int.add_nonneg (total_nonneg fun key d recorded => ?_) (total_nonneg fun id e recorded => ?_)
  · split
    · exact lends.2.lent key d recorded
    · exact le_rfl
  · split
    · exact lends.2.returning id e recorded
    · exact le_rfl

/-- Nor has anybody borrowed one. -/
theorem Database.LendsNonneg.received_nonneg (lends : s.LendsNonneg) {a : Account}
    (found : s.accounts.find? name = some a) : 0 ≤ a.delegated.receivedVestingShares := by
  rw [(delegationsOnRecord_of_unrecorded lends.1 name a found).2]
  refine total_nonneg fun key d recorded => ?_
  split
  · exact lends.2.lent key d recorded
  · exact le_rfl

/-- In every state of a chain, and after every operation an evaluator accepts there, accounts
count as delegated what they have delegated or are getting back, and as received what is
delegated to them; what is due is given back in every block. -/
theorem delegations_on_record {net : Network} {s : Database} (reachable : net.Reachable s) : s.DelegationsOnRecord ∧
      (∀ producing stack nesting op, op.validate = .ok () →
        Ensures s (applyOperation producing stack nesting op) fun _ t => t.DelegationsOnRecord) ∧
      Ensures s clearExpiredDelegations fun _ t => t.DelegationsOnRecord ∧
        ∀ id e, t.delegationExpirations.find? id = some e → t.head.time ≤ e.expiration := by
  obtain ⟨blocks, rest, reached⟩ := reachable
  have keeps : net.KeepsInvariant (fun _ _ => True) fun s => s.unrecorded = 0 := recorded_keepsInvariant
  have recorded := keeps.reaches reached
  refine ⟨delegationsOnRecord_of_unrecorded recorded.1, fun producing stack nesting op valid => ?_, ?_⟩
  · exact (keeps.operations.applyOperation valid recorded).mono fun _ t => delegationsOnRecord_of_unrecorded
  · refine Ensures.and (conserves_clearExpiredDelegations.mono fun _ t moved => ?_) clearExpiredDelegations_leaves
    exact delegationsOnRecord_of_unrecorded (by rw [moved, recorded.1, add_zero])

/-- Alice has lent shares to Bob and is getting some of them back. -/
theorem delegations_on_record_inUse : ((usedFor 48).state.delegations.find? (.alice, .bob)).map (·.vestingShares) =
      some 1000000000000 ∧
    (usedFor 48).state.delegationExpirations.values.map (·.vestingShares) = [1000000000000] ∧
    (usedFor 48).state.DelegationsOnRecord ∧
    Ensures (usedFor 48).state (applyOperation false 8 {} (lending 3000000000000)) (fun _ t => t.DelegationsOnRecord) ∧
    Ensures (usedFor 48).state clearExpiredDelegations fun _ t => t.DelegationsOnRecord ∧
      ∀ id e, t.delegationExpirations.find? id = some e → t.head.time ≤ e.expiration := by
  obtain ⟨onRecord, accepted, cleared⟩ := delegations_on_record (usedFor_reachable 48)
  exact ⟨usedFor_busy.state.lent, usedFor_busy.state.returning, onRecord, accepted false 8 {} _ rfl, cleared⟩

end Runs

end Golos
