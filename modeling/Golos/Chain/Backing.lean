import Golos.Chain.Capacity
import Golos.Chain.CuratorPay
import Golos.Chain.OrderBook
import Golos.Chain.PowerDown

/-! # The shares behind a delegation

An account lends only shares it has and is not withdrawing, so that what it has lent is backed
by its own shares, up to a remainder of power-downs begun before hardfork 1: the split makes
their payments miss the end by less than an instalment.  The remainder is small against the
shares a vote needs, and the interest of delegators is at most 80%, so that the delegators of a
voter never have a claim to more than the reward of the vote.  The exception is the account
`null`, whose shares are burnt even if it has lent them.
-/

namespace Golos

open Stateful Store List
open Database hiding pow

set_option synthInstance.maxSize 1000000

variable {apply : Nesting → Operation → Eval Unit} {producing : Bool} {step : BlockStep} {nesting : Nesting}
  {α : Type} {op : Operation} {name delegatee : AccountName} {a : Account} {m : Eval α} {claim shares : Int}
  {d : DelegatorVoteInterestRate} {o : VoteOperation} {F : Footprint} {hardfork : Nat} {net : Network}
  {k : CommentKey × AccountName} {deed : Deed} {rates : List DelegatorVoteInterestRate}

/-! ## Free shares -/

/-- The shares of an account that it has not lent. -/
def Account.free (a : Account) : Int := a.vestingShares - a.delegated.delegatedVestingShares

/-- An account, which is empty before it is created. -/
def Database.accountAt (s : Database) (name : AccountName) : Account := (s.accounts.find? name).getD {}

theorem Database.accountAt_of_find? {s : Database} (found : s.accounts.find? name = some a) : s.accountAt name = a := by
  rw [accountAt, found, Option.getD_some]

/-- The power-down of the account goes on as it is, and its free shares do not get fewer. -/
structure FreeKept (name : AccountName) (s t : Database) : Prop where
  plan : (t.accountAt name).withdrawal.plan = (s.accountAt name).withdrawal.plan
  free : (s.accountAt name).free ≤ (t.accountAt name).free

instance : Std.Refl (FreeKept name) := ⟨fun _ => ⟨rfl, le_rfl⟩⟩

instance : IsTrans Database (FreeKept name) :=
  ⟨fun _ _ _ first second => ⟨second.plan.trans first.plan, first.free.trans second.free⟩⟩

abbrev outsideFree : Footprint
  | .vesting | .withdrawal | .delegated => false
  | _ => true

section Frames

variable {s t : Database} {name other : AccountName}

variable {f : Account → Account}

theorem accountAt_eq_of_view {β : Type} {g : Account → β} (same : t.accounts.view g = s.accounts.view g) :
    g (t.accountAt name) = g (s.accountAt name) := by
  have read (x : Option Account) : g (x.getD {}) = (x.map g).getD (g {}) := by cases x <;> rfl
  rw [accountAt, accountAt, read, read, find?_eq_of_view same]

theorem Within.withdrawal_accountAt (within : Within outsideFree s t) :
    (t.accountAt name).withdrawal = (s.accountAt name).withdrawal :=
  accountAt_eq_of_view (within .withdrawal rfl)

theorem Within.free_accountAt (within : Within outsideFree s t) :
    (t.accountAt name).free = (s.accountAt name).free := by
  have shares : (t.accountAt name).vestingShares = _ := accountAt_eq_of_view (within .vesting rfl)
  have lent : (t.accountAt name).delegated = _ := accountAt_eq_of_view (within .delegated rfl)
  rw [Account.free, shares, lent, Account.free]

theorem Within.freeKept (within : Within outsideFree s t) : FreeKept name s t :=
  ⟨by rw [within.withdrawal_accountAt], within.free_accountAt.ge⟩

instance : Finer (Within outsideFree) (FreeKept name) := ⟨fun _ _ => Within.freeKept⟩

theorem accountAt_updateAccount : Ensures s (updateAccount other f) fun _ t =>
    ∀ x, t.accountAt x = if x = other then f (s.accountAt x) else s.accountAt x := by
  simp only [updateAccount, getAccount, updateAccounts, ensures_steps]
  intro a found x
  simp only [accountAt, find?_modify]
  split
  next same =>
    rw [same, found]
    rfl
  · rfl

theorem freeKept_updateAccount (plan : ∀ a, (f a).withdrawal.plan = a.withdrawal.plan)
    (free : ∀ a, a.free ≤ (f a).free) : Preserves (FreeKept name) (updateAccount other f) := by
  refine ⟨fun s => accountAt_updateAccount.mono fun _ t updated => ?_⟩
  have located := updated name
  split at located
  · exact ⟨by rw [located, plan], by rw [located]; exact free _⟩
  · exact ⟨by rw [located], by rw [located]⟩

theorem freeKept_updateOther (different : other ≠ name) : Preserves (FreeKept name) (updateAccount other f) := by
  refine ⟨fun s => accountAt_updateAccount.mono fun _ t updated => ?_⟩
  have located := updated name
  rw [if_neg (Ne.symm different)] at located
  exact ⟨by rw [located], by rw [located]⟩

/-- A new account has no shares and has lent none. -/
instance {balances proxy proxiedVsfVotes witnessesVotedFor received activity rewards info} :
    Preserves (FreeKept name) (createAccount other
      ⟨balances, 0, proxy, proxiedVsfVotes, witnessesVotedFor, {}, ⟨0, received⟩, activity, rewards, info⟩) := by
  refine ⟨fun s => ?_⟩
  simp only [createAccount, updateAccounts, ensures_steps]
  intro fresh
  have located (x : AccountName) (a : Account) := find?_insert (j := x) (v := a) fresh
  by_cases same : name = other
  · constructor <;> simp [accountAt, located, same, fresh, Account.free]
  · constructor <;> simp [accountAt, located, same]

theorem freeKept_addVesting {delta : Int} (nonneg : 0 ≤ delta) :
    Preserves (FreeKept name) (modifyVestingShares other (· + delta)) := by
  refine freeKept_updateAccount (fun _ => rfl) fun a => ?_
  simp only [Account.free]
  omega

instance : KeptByDeposits (FreeKept name) where
  within _ _ within := Within.freeKept within.widen
  deposit _ _ nonneg := freeKept_addVesting nonneg

/-- What a deposit gives is free. -/
theorem createVesting_free {steem : Asset} : Ensures s (createVesting other steem) fun vesting t =>
    (t.accountAt name).withdrawal.plan = (s.accountAt name).withdrawal.plan ∧
      (t.accountAt name).free = (s.accountAt name).free + if name = other then vesting else 0 := by
  simp only [createVesting, times, ensures_steps, amountIn]
  intro newVesting _ _
  refine Ensures.mono accountAt_updateAccount fun _ t₁ updated _ => ?_
  refine ensures_frame (Within outsideFree) fun _ t₂ supplied => ?_
  refine ensures_frame (Within outsideFree) fun _ t₃ carried => ?_
  have rest := trans_of (Within outsideFree) supplied carried
  rw [rest.withdrawal_accountAt, rest.free_accountAt, updated name]
  split
  · refine ⟨rfl, ?_⟩
    simp only [Account.free]
    omega
  · exact ⟨rfl, (add_zero _).symm⟩

/-- A reward that a delegator adds to its delegation is lent, and no more than it. -/
theorem freeKept_payDelegator : Preserves (FreeKept name) (payDelegator delegatee claim d) := by
  refine ⟨fun s => ?_⟩
  rw [payDelegator, ensures_ite]
  refine ⟨fun _ => ensures_pure.mpr (refl_of _ _), fun _ => ensures_bind.mpr ?_⟩
  refine Ensures.mono ((@createVesting_free s name d.account _).framed (FreeKept name)) fun vesting t₁ after => ?_
  obtain ⟨more, credited⟩ := after
  have received : Preserves (FreeKept name) (modifyDelegated delegatee fun x =>
      { x with receivedVestingShares := x.receivedVestingShares + vesting }) :=
    freeKept_updateAccount (fun _ => rfl) fun _ => le_rfl
  simp only [ensures_steps]
  have lent : Ensures t₁ (when (d.payoutStrategy = .toDelegatedVesting ∧
      (t₁.delegations.find? (d.account, delegatee)).isSome) do
        modifyDelegated d.account fun x => { x with delegatedVestingShares := x.delegatedVestingShares + vesting }
        modifyDelegated delegatee fun x => { x with receivedVestingShares := x.receivedVestingShares + vesting }
        change (·.delegations) updateDelegations "vesting_delegation" (d.account, delegatee) fun x =>
          { x with vestingShares := x.vestingShares + vesting }) fun _ t => FreeKept name s t := by
    rw [ensures_when]
    refine ⟨fun _ => ensures_bind.mpr ?_, fun _ => ?_⟩
    · refine Ensures.mono accountAt_updateAccount fun _ t₂ lends => ensures_bind.mpr ?_
      refine ensures_frame (FreeKept name) fun _ t₃ borrowed => ?_
      refine ensures_frame (FreeKept name) fun _ t₄ changed => ?_
      refine trans_of (FreeKept name) ⟨?_, ?_⟩ (trans_of (FreeKept name) borrowed changed)
      · rw [lends name]
        split
        · exact credited.1
        · exact credited.1
      · rw [lends name]
        split
        next same =>
          have gained := credited.2
          rw [if_pos same] at gained
          simp only [Account.free] at gained ⊢
          omega
        next different =>
          rw [credited.2, if_neg different, add_zero]
    · exact more
  refine Ensures.mono lent fun _ t₂ kept => ?_
  exact ensures_frame (FreeKept name) fun _ t₃ rewarded => trans_of (FreeKept name) kept rewarded

instance : KeptByPayouts (FreeKept name) where
  within _ _ within := Within.freeKept within.widen
  createVesting _ _ := inferInstance
  payDelegator _ _ _ := freeKept_payDelegator

end Frames

/-! ## Backing -/

/-- The largest last payment of a power-down: the remainder of a division by the number of instalments. -/
def largestRemainder : Int := 103

/-- The rest of a power-down is covered by free shares.  One that has ended, or was stopped, may have taken
more than it should by `slack`. -/
structure Account.Backed (a : Account) (slack : Int) : Prop where
  nonneg : 0 ≤ a.withdrawal.toWithdraw
  remainder : 0 < a.withdrawal.vestingWithdrawRate →
    a.withdrawal.toWithdraw.tmod a.withdrawal.vestingWithdrawRate ≤ largestRemainder
  running : a.withdrawal.nextVestingWithdrawal ≠ Time.maximum → a.withdrawal.withdrawn < a.withdrawal.toWithdraw
  overdrawn : a.withdrawal.withdrawn ≤ a.withdrawal.toWithdraw + slack
  backed : a.withdrawal.toWithdraw - a.withdrawal.withdrawn ≤ a.free ∨
    (a.withdrawal.toWithdraw = 0 ∧ a.withdrawal.withdrawn = 0 ∧ 0 ≤ a.free + slack)

/-- Every account other than `null` is backed. -/
def Database.Backed (slack : Int) (s : Database) : Prop := ∀ name, name ≠ .null → (s.accountAt name).Backed slack

abbrev BackedKept (slack : Int) := Keeps (Backed slack)

section Accounts

variable {a' : Account} {slack : Int}

theorem Account.backed_empty (nonneg : 0 ≤ slack) : Account.Backed {} slack :=
  ⟨le_rfl, fun positive => absurd positive (lt_irrefl 0), fun next => absurd rfl next, by simpa using nonneg,
    .inl le_rfl⟩

/-- What an account has lent is backed by its own shares, but for the slack. -/
theorem Account.Backed.free_ge (backed : a.Backed slack) : -slack ≤ a.free := by
  have overdrawn := backed.overdrawn
  obtain enough | ⟨_, _, enough⟩ := backed.backed
  · omega
  · omega

theorem Account.Backed.mono {slack' : Int} (backed : a.Backed slack) (more : slack ≤ slack') : a.Backed slack' := by
  have overdrawn := backed.overdrawn
  refine ⟨backed.nonneg, backed.remainder, backed.running, by omega, ?_⟩
  exact backed.backed.imp_right fun ended => ⟨ended.1, ended.2.1, by omega⟩

theorem Account.Backed.of_free (backed : a.Backed slack) (plan : a'.withdrawal.plan = a.withdrawal.plan)
    (enough : a'.withdrawal.toWithdraw - a'.withdrawal.withdrawn ≤ a'.free ∨
      (a'.withdrawal.toWithdraw = 0 ∧ a'.withdrawal.withdrawn = 0 ∧ 0 ≤ a'.free + slack)) : a'.Backed slack := by
  simp only [Withdrawal.plan, Prod.mk.injEq] at plan
  obtain ⟨rate, toWithdraw, withdrawn, next⟩ := plan
  refine ⟨?_, ?_, ?_, ?_, enough⟩
  · rw [toWithdraw]
    exact backed.nonneg
  · rw [rate, toWithdraw]
    exact backed.remainder
  · rw [next, withdrawn, toWithdraw]
    exact backed.running
  · rw [withdrawn, toWithdraw]
    exact backed.overdrawn

theorem Account.Backed.keep (backed : a.Backed slack) (plan : a'.withdrawal.plan = a.withdrawal.plan)
    (free : a.free ≤ a'.free) : a'.Backed slack := by
  refine backed.of_free plan ?_
  simp only [Withdrawal.plan, Prod.mk.injEq] at plan
  obtain ⟨_, toWithdraw, withdrawn, _⟩ := plan
  rw [toWithdraw, withdrawn]
  refine backed.backed.imp (fun enough => enough.trans free) fun ended => ?_
  exact ⟨ended.1, ended.2.1, by omega⟩

/-- A payment misses the end of a power-down by less than the largest remainder. -/
theorem Account.Backed.nextPayment_le (backed : a.Backed slack)
    (running : a.withdrawal.withdrawn < a.withdrawal.toWithdraw) :
    a.withdrawal.withdrawn + a.nextPayment ≤ a.withdrawal.toWithdraw + largestRemainder := by
  have remainder := backed.remainder
  unfold largestRemainder at remainder ⊢
  unfold Account.nextPayment
  dsimp only
  split
  next last =>
    omega
  · omega

/-- A payment keeps the backing. -/
theorem Account.Backed.pay (backed : a.Backed slack) (enough : largestRemainder ≤ slack)
    (running : a.withdrawal.withdrawn < a.withdrawal.toWithdraw) {hf19 : Bool}
    (plan : a'.withdrawal.plan = (a.withdrawal.advance a.nextPayment (a'.vestingShares = 0) hf19).plan)
    (free : a.free - a.nextPayment ≤ a'.free) : a'.Backed slack := by
  have bound := backed.nextPayment_le running
  unfold largestRemainder at enough bound
  have covered : a.withdrawal.toWithdraw - a.withdrawal.withdrawn ≤ a.free := by
    refine backed.backed.resolve_right fun ended => ?_
    omega
  have nonneg := backed.nonneg
  have ended (toWithdraw withdrawn : Int) (plan : a'.withdrawal.plan = (0, toWithdraw, withdrawn, Time.maximum))
      (nonneg : 0 ≤ toWithdraw) (overdrawn : withdrawn ≤ toWithdraw + slack)
      (rest : toWithdraw - withdrawn ≤ a'.free ∨ (toWithdraw = 0 ∧ withdrawn = 0 ∧ 0 ≤ a'.free + slack)) :
      a'.Backed slack := by
    simp only [Withdrawal.plan, Prod.mk.injEq] at plan
    obtain ⟨rate, amount, taken, next⟩ := plan
    refine ⟨by omega, fun positive => absurd positive (by omega), fun running => absurd next running, by omega, ?_⟩
    rw [amount, taken]
    exact rest
  unfold Withdrawal.advance at plan
  split at plan
  · cases hf19 with
    | false => exact ended _ _ plan nonneg (by simp only [Bool.false_eq_true, if_false]; omega) (.inl (by
        simp only [Bool.false_eq_true, if_false]; omega))
    | true => exact ended _ _ plan le_rfl (by simp only [if_true]; omega) (.inr ⟨rfl, rfl, by omega⟩)
  next unfinished =>
    simp only [Withdrawal.plan, Prod.mk.injEq] at plan
    obtain ⟨rate, amount, taken, _⟩ := plan
    refine ⟨by omega, ?_, fun _ => by omega, by omega, .inl (by omega)⟩
    rw [rate, amount]
    exact backed.remainder

end Accounts

/-! ## Operations -/

section Operations

variable {s t : Database} {other : AccountName} {slack : Int}

open Evaluator

theorem Database.Backed.keep (backed : s.Backed slack) (kept : ∀ name, name ≠ .null → FreeKept name s t) :
    t.Backed slack :=
  fun name notNull => (backed name notNull).keep (kept name notNull).plan (kept name notNull).free

instance (priority := low) [frame : ∀ name, Preserves (FreeKept name) m] : Preserves (BackedKept slack) m :=
  ⟨fun s a t run backed => backed.keep fun name _ => (frame name).related s a t run⟩

/-- The update of one account that stays backed. -/
theorem Database.Backed.update {f : Account → Account} (backed : s.Backed slack)
    (one : (s.accountAt other).Backed slack → (f (s.accountAt other)).Backed slack) :
    Ensures s (updateAccount other f) fun _ t => t.Backed slack := by
  refine accountAt_updateAccount.mono fun _ t updated x notNull => ?_
  rw [updated x]
  split
  next same =>
    subst same
    exact one (backed x notNull)
  · exact backed x notNull

theorem Account.Backed.lend (backed : a.Backed slack)
    (available : shares ≤ a.availableVestingShares true) : Account.Backed { a with
      delegated :=
        { a.delegated with delegatedVestingShares := a.delegated.delegatedVestingShares + shares } } slack := by
  refine backed.of_free rfl (.inl ?_)
  simp only [Account.availableVestingShares, if_true, Account.free] at available ⊢
  omega

theorem availableVestingShares_congr {a' : Account} (plan : a'.withdrawal = a.withdrawal) (free : a'.free = a.free) :
    a'.availableVestingShares true = a.availableVestingShares true := by
  simp only [Account.availableVestingShares, if_true, plan]
  simp only [Account.free] at free
  omega

instance {op new shares delta minDelegation} :
    Preserves (BackedKept slack) (increaseDelegation op new shares delta minDelegation) := by
  refine ⟨fun s => ensures_keeps fun backed => ?_⟩
  simp only [increaseDelegation, getAccount, checkAvailableVesting, amountIn, ensures_steps]
  intro _ _ _ a found available maxAllowed _ _
  refine ensures_frame (Within outsideFree) fun _ t created => ?_
  have kept : t.Backed slack := backed.keep fun name _ => created.freeKept
  refine kept.update fun own => own.lend ?_
  rw [availableVestingShares_congr created.withdrawal_accountAt created.free_accountAt,
    accountAt_of_find? found]
  exact available

theorem backed_received {shares : Int → Int} : Preserves (BackedKept slack) (modifyDelegated other fun d =>
    { d with receivedVestingShares := shares d.receivedVestingShares }) := by
  have kept (name : AccountName) : Preserves (FreeKept name) (modifyDelegated other fun d =>
      { d with receivedVestingShares := shares d.receivedVestingShares }) :=
    freeKept_updateAccount (fun _ => rfl) fun _ => le_rfl
  infer_instance

instance {op interestRate payoutStrategy accepts} [∀ d, Preserves (BackedKept slack) (accepts d)] :
    Preserves (BackedKept slack) (delegateVestingSharesWith op interestRate payoutStrategy accepts) := by
  have received (delta : Int) := @backed_received op.delegatee slack (· + delta)
  unfold delegateVestingSharesWith; infer_instance

deriving instance Preserves (BackedKept slack) for delegateVestingShares, delegateVestingSharesWithInterest

instance {op} : Preserves (BackedKept slack) (rejectVestingSharesDelegation op) := by
  have returned (shares : Int) := @backed_received op.delegatee slack (· - shares)
  unfold rejectVestingSharesDelegation; infer_instance

instance {o} : Preserves (BackedKept slack) (accountCreateWithDelegation o) := by
  refine ⟨fun s => ensures_keeps fun backed => ?_⟩
  simp only [accountCreateWithDelegation, checkAvailableVesting, getAccount, times, amountIn, ensures_steps]
  intro _ _
  refine ensures_frame (Within outsideFree) fun _ s₁ paid => ?_
  intro _ a found available _ _ _ _ _ _ _ _
  have since := refl_of (Within outsideFree) s₁
  iterate 4 refine ensures_since _ since fun _ _ since => ?_
  rename_i t
  have kept : t.Backed slack := backed.keep fun name _ => (trans_of _ paid since).freeKept
  have lends : Ensures t (modifyDelegated o.creator fun d =>
      { d with delegatedVestingShares := d.delegatedVestingShares + o.delegation.amount }) fun _ u =>
        u.Backed slack := by
    refine kept.update fun own => own.lend ?_
    rw [availableVestingShares_congr since.withdrawal_accountAt since.free_accountAt, accountAt_of_find? found]
    exact available
  refine lends.mono fun _ u backed => ?_
  iterate 5 refine ensures_kept backed fun _ _ backed => ?_
  exact backed

instance {o} : Preserves (FreeKept name) (setWithdrawVestingRoute o) := by
  have counted (account : AccountName) (f : Nat → Nat) : Preserves (FreeKept name)
      (modifyWithdrawal account fun w => { w with withdrawRoutes := f w.withdrawRoutes }) :=
    freeKept_updateAccount (fun _ => rfl) fun _ => le_rfl
  unfold setWithdrawVestingRoute; infer_instance

/-- A power-down that is stopped may have taken too much. -/
theorem Account.Backed.stop (backed : a.Backed slack) (nonneg : 0 ≤ slack) : Account.Backed { a with
    withdrawal := { a.withdrawal with
      vestingWithdrawRate := 0
      nextVestingWithdrawal := Time.maximum
      withdrawn := 0
      toWithdraw := 0 } } slack := by
  have free := backed.free_ge
  refine ⟨le_rfl, fun positive => absurd positive (lt_irrefl 0), fun next => absurd rfl next, by simpa using nonneg, ?_⟩
  refine .inr ⟨rfl, rfl, ?_⟩
  simp only [Account.free] at free ⊢
  omega

theorem backed_recoverAccount {o : RecoverAccountOperation} (nonneg : 0 ≤ slack) :
    Preserves (BackedKept slack) (recoverAccount o) := by
  have stopped : Preserves (BackedKept slack) (stopWithdraw o.accountToRecover) :=
    ⟨fun s => ensures_keeps fun backed => backed.update fun own => own.stop nonneg⟩
  unfold recoverAccount resetVestingWithdraw; infer_instance

/-- The last instalment is a remainder of the division by the number of instalments. -/
theorem tmod_instalment {count : Int} (nonneg : 0 ≤ shares) (positive : 0 < count) (few : count ≤ 104) :
    shares.tmod (if shares.tdiv count = 0 then 1 else shares.tdiv count) ≤ largestRemainder := by
  unfold largestRemainder
  rw [Int.tdiv_eq_ediv_of_nonneg nonneg]
  have whole := Int.ediv_mul_add_emod shares count
  have below := Int.emod_lt_of_pos shares positive
  split
  · rw [Int.tmod_one]
    decide
  · have quotient : 0 ≤ shares / count := Int.ediv_nonneg nonneg positive.le
    have small := Int.emod_nonneg shares positive.ne'
    rw [Int.tmod_eq_emod_of_nonneg nonneg]
    calc shares % (shares / count) = (shares / count * count + shares % count) % (shares / count) := by rw [whole]
      _ = shares % count % (shares / count) := Int.mul_add_emod_self_left _ _ _
      _ ≤ shares % count := by
        have rest := Int.ediv_mul_add_emod (shares % count) (shares / count)
        have := Int.mul_nonneg (Int.ediv_nonneg small quotient) quotient
        omega
      _ ≤ 103 := by omega

/-- A new power-down is covered. -/
theorem backed_withdrawVesting {o : WithdrawVestingOperation} (slackNonneg : 0 ≤ slack)
    (nonneg : 0 ≤ o.vestingShares.amount) : Preserves (BackedKept slack) (withdrawVesting producing o) := by
  refine ⟨fun s => ensures_keeps fun backed => ?_⟩
  simp only [withdrawVesting, getAccount, amountIn, ensures_steps]
  intro a found _ _ available
  refine ensures_frame (Within outsideFree) fun _ s₁ allowed => ?_
  rw [ensures_ite]
  refine ⟨fun stops => ?_, fun begins => ?_⟩
  · rw [ensures_bind]
    refine ensures_frame (Within outsideFree) fun _ t checked => ?_
    have kept : t.Backed slack := backed.keep fun name _ => (trans_of _ allowed checked).freeKept
    exact kept.update fun own => own.stop slackNonneg
  · rw [ensures_bind]
    refine ensures_frame (Within outsideFree) fun _ t checked => ?_
    have within := trans_of (Within outsideFree) allowed checked
    have kept : t.Backed slack := backed.keep fun name _ => within.freeKept
    have free : o.vestingShares.amount ≤ (t.accountAt o.account).free := by
      rw [within.free_accountAt, accountAt_of_find? found]
      exact available
    have count : 0 < vestingWithdrawIntervals s ∧ vestingWithdrawIntervals s ≤ 104 := by
      unfold vestingWithdrawIntervals
      split <;> decide
    refine kept.update fun _ => ⟨nonneg, fun _ => tmod_instalment nonneg count.1 count.2, fun _ => ?_, ?_, .inl ?_⟩
    · exact lt_of_le_of_ne nonneg (Ne.symm begins)
    · exact Int.add_nonneg nonneg slackNonneg
    · exact (sub_zero _).trans_le free

theorem evaluate_backed (other : op.isProposal = false) (valid : op.validate = .ok ()) (nonneg : 0 ≤ slack) :
    Preserves (BackedKept slack) (evaluate producing nesting apply op) := by
  cases op <;> simp only [evaluate, transferToVesting, accountCreate, challengeAuthority, createMinedAccount,
    payPowReward,
    pow, pow2]
  case withdrawVesting o => exact backed_withdrawVesting nonneg (WithdrawVestingOperation.vestingShares_nonneg valid)
  case recoverAccount o => exact backed_recoverAccount nonneg
  case proposalCreate | proposalUpdate | proposalDelete => cases other
  all_goals infer_instance

end Operations

/-! ## Blocks -/

abbrev keepsLent : Footprint
  | .delegated => false
  | _ => true

section Steps

variable {s t : Database} {other current : AccountName} {slack : Int}

theorem freeKept_payWithdrawal (different : other ≠ name) : Preserves (FreeKept name) (payWithdrawal other) := by
  have taken (f : Int → Int) : Preserves (FreeKept name) (modifyVestingShares other f) := freeKept_updateOther different
  have advanced (f : Withdrawal → Withdrawal) : Preserves (FreeKept name) (modifyWithdrawal other f) :=
    freeKept_updateOther different
  unfold payWithdrawal; infer_instance

theorem backed_payWithdrawal (backed : s.Backed slack) (enough : largestRemainder ≤ slack)
    (due : s.nextVestingWithdrawal current ≠ Time.maximum) :
    Ensures s (payWithdrawal current) fun _ t => t.Backed slack := by
  intro x t run name notNull
  by_cases own : current = name
  · subst own
    cases found : s.accounts.find? current with
    | none =>
      rw [nextVestingWithdrawal, found] at due
      exact absurd rfl due
    | some a =>
      rw [nextVestingWithdrawal, found, Option.elim_some] at due
      obtain ⟨b, foundB, plan, shares⟩ := payWithdrawal_ensures found x t run
      have lent : (t.accounts.find? current).map Account.delegated =
        (s.accounts.find? current).map Account.delegated := by
        have frame : Within keepsLent s t := frame_of_run run
        exact find?_eq_of_view (frame .delegated rfl) current
      rw [found, foundB, Option.map_some, Option.map_some, Option.some.injEq] at lent
      have before := backed current notNull
      rw [accountAt_of_find? found] at before
      rw [accountAt_of_find? foundB]
      refine before.pay enough (before.running due) plan ?_
      rw [Account.free, Account.free, lent]
      omega
  · have kept := (freeKept_payWithdrawal own).related s x t run
    exact (backed name notNull).keep kept.plan kept.free

/-- The loop over the due accounts keeps the backing. -/
theorem backed_payWithdrawals {fuel : Nat} {queue : List AccountName} (backed : s.Backed slack)
    (enough : largestRemainder ≤ slack) (ready : s.DueQueue queue) (present : ∀ n ∈ queue, n ∈ s.accounts.keys)
    (representable : s.head.time < Time.maximum) : Ensures s (payWithdrawals fuel queue) fun _ t => t.Backed slack := by
  induction fuel generalizing s queue with
  | zero =>
    simp only [payWithdrawals, ensures_pure]
    exact backed
  | succ fuel ih =>
    cases queue with
    | nil =>
      simp only [payWithdrawals, ensures_pure]
      exact backed
    | cons current queue =>
      simp only [payWithdrawals, ensures_steps]
      intro x u run
      have due := ready.due current mem_cons_self
      have paid := backed_payWithdrawal backed enough (due.trans_lt representable).ne x u run
      obtain ⟨readyNext, _⟩ := ready.next (fun n member => present n (mem_cons_of_mem _ member)) representable x u run
      have head : u.head = s.head := read_of_run keepsHead .head run rfl
      have frame : Within keepsLent s u := frame_of_run run
      have keys : u.accounts.keys = s.accounts.keys := keys_eq_of_view (frame .delegated rfl)
      refine ih paid readyNext (fun n member => ?_) (head ▸ representable)
      rw [keys]
      exact present n (mem_of_mem_requeue member)

theorem backed_processVestingWithdrawals (backed : s.Backed slack) (enough : largestRemainder ≤ slack)
    (representable : s.head.time < Time.maximum) : Ensures s processVestingWithdrawals fun _ t => t.Backed slack := by
  simp only [processVestingWithdrawals]
  refine backed_payWithdrawals backed enough s.dueQueue (fun n member => ?_) representable
  exact (mem_dueWithdrawals.mp member).1

theorem backed_clearNullAccountBalance : Preserves (BackedKept slack) clearNullAccountBalance := by
  have kept (name : AccountName) (notNull : name ≠ .null) : Preserves (FreeKept name) clearNullAccountBalance := by
    have burnt (f : Int → Int) : Preserves (FreeKept name) (modifyVestingShares .null f) :=
      freeKept_updateOther (Ne.symm notNull)
    have drained : Preserves (FreeKept name) drainNullVesting := by
      unfold drainNullVesting; infer_instance
    unfold clearNullAccountBalance; infer_instance
  exact ⟨fun s x t run backed => backed.keep fun name notNull => (kept name notNull).related s x t run⟩

/-- What comes back is free again. -/
theorem backed_clearExpiredDelegations (backed : s.Backed slack) (nonneg : s.DelegationsNonneg) :
    Ensures s clearExpiredDelegations fun _ t => t.Backed slack := by
  simp only [clearExpiredDelegations]
  refine ensures_forM backed fun e member u before => ?_
  have listed := mem_of_mem_filter ((mem_insertionSort _).mp member)
  have positive := nonneg.returning e.1 e.2 (find?_eq_some.mpr listed)
  rw [returnDelegation, ensures_bind]
  refine Ensures.mono (before.update fun own => own.keep rfl ?_) fun _ v returned => ?_
  · simp only [Account.free]
    omega
  · exact ensures_frame (BackedKept slack) fun _ w removed => removed returned

end Steps

/-! ## The split of hardfork 1 -/

/-- By how much a power-down may have taken too much: the last remainder, which hardfork 1 multiplies. -/
def Database.slack (s : Database) : Int := if s.hasHardfork 1 then 10000 * largestRemainder else largestRemainder

/-- Every account is backed, and none has lent a negative amount. -/
structure Database.Lends (s : Database) : Prop where
  backed : s.Backed s.slack
  nonneg : ∀ name, 0 ≤ (s.accountAt name).delegated.delegatedVestingShares

section Split

variable {s t : Database} {slack : Int}

theorem Database.slack_mono (grown : HardforksGrow s t) : s.slack ≤ t.slack := by
  unfold HardforksGrow at grown
  unfold slack hasHardfork largestRemainder
  simp only [decide_eq_true_eq]
  split
  · rw [if_pos (by omega)]
  · split <;> decide

theorem Database.largestRemainder_le_slack : largestRemainder ≤ s.slack := by
  unfold slack largestRemainder
  split <;> decide

/-- The account as `perform_vesting_share_split` leaves it. -/
def Account.split (a : Account) (magnitude : Int) : Account :=
  { a with
    vestingShares := a.vestingShares * magnitude
    withdrawal := a.withdrawal.split magnitude
    proxiedVsfVotes := fun i => a.proxiedVsfVotes i * magnitude }

theorem accountAt_splitAccount {magnitude : Int} : Ensures s (splitAccount magnitude name) fun _ t =>
    ∀ x, t.accountAt x = if x = name then (s.accountAt x).split magnitude else s.accountAt x := by
  simp only [splitAccount, ensures_bind]
  refine Ensures.mono accountAt_updateAccount fun _ t₁ shares => ?_
  refine Ensures.mono accountAt_updateAccount fun _ t₂ plan => ?_
  refine Ensures.mono accountAt_updateAccount fun _ t₃ votes x => ?_
  rw [votes x, plan x, shares x]
  split <;> rfl

/-- The split multiplies what a power-down may have taken too much. -/
theorem Account.Backed.split (backed : a.Backed slack)
    (lent : 0 ≤ a.delegated.delegatedVestingShares) : (a.split 10000).Backed (10000 * slack) := by
  have toWithdraw := backed.nonneg
  have overdrawn := backed.overdrawn
  refine ⟨?_, fun _ => ?_, fun next => ?_, ?_, ?_⟩
  · simp only [Account.split, Withdrawal.split]
    omega
  · exact tmod_instalment (by simp only [Account.split, Withdrawal.split]; omega) (by decide) le_rfl
  · have running := backed.running next
    simp only [Account.split, Withdrawal.split]
    omega
  · simp only [Account.split, Withdrawal.split]
    omega
  · refine backed.backed.imp (fun enough => ?_) fun ended => ?_
    · simp only [Account.free, Account.split, Withdrawal.split] at enough ⊢
      omega
    · simp only [Account.free, Account.split, Withdrawal.split] at ended ⊢
      omega

/-- The loop over the accounts, each of which is listed once. -/
theorem backed_splitAccounts {names : List AccountName} (nodup : names.Nodup)
    (ready : ∀ x, x ≠ .null →
      if x ∈ names then (s.accountAt x).Backed slack else (s.accountAt x).Backed (10000 * slack))
    (nonneg : ∀ x, 0 ≤ (s.accountAt x).delegated.delegatedVestingShares) :
    Ensures s (names.forM fun name => splitAccount 10000 name) fun _ t => t.Backed (10000 * slack) := by
  induction names generalizing s with
  | nil =>
    simp only [forM_eq_forM, forM_nil, ensures_pure]
    exact fun x notNull => by simpa using ready x notNull
  | cons name rest ih =>
    obtain ⟨once, nodup⟩ := nodup_cons.mp nodup
    simp only [forM_eq_forM, forM_cons, ensures_bind] at ih ⊢
    refine Ensures.mono accountAt_splitAccount fun _ t split => ih nodup (fun x notNull => ?_) fun x => ?_
    · have before := ready x notNull
      rw [split x]
      by_cases own : x = name
      · subst own
        rw [if_pos mem_cons_self] at before
        rw [if_neg once, if_pos rfl]
        exact before.split (nonneg x)
      · rw [if_neg own]
        simpa only [mem_cons, own, false_or] using before
    · rw [split x]
      split <;> exact nonneg x

theorem Within.lent_accountAt (within : Within F s t) (outside : F .delegated = false) (name : AccountName) :
    (t.accountAt name).delegated = (s.accountAt name).delegated :=
  accountAt_eq_of_view (within .delegated outside)

theorem backed_performVestingShareSplit (backed : s.Backed slack) (slackNonneg : 0 ≤ slack)
    (nonneg : ∀ x, 0 ≤ (s.accountAt x).delegated.delegatedVestingShares) :
    Ensures s (performVestingShareSplit 10000) fun _ t => t.Backed (10000 * slack) := by
  simp only [performVestingShareSplit, ensures_bind]
  refine ensures_frame (Within outsideFree) fun _ s₁ supplied => ?_
  refine ensures_frame (Within outsideFree) fun _ s₂ cleared => ensures_get.mpr ?_
  have within := trans_of (Within outsideFree) supplied cleared
  have kept : s₂.Backed slack := backed.keep fun name _ => within.freeKept
  have split : Ensures s₂ (s₂.accounts.keys.forM fun name => splitAccount 10000 name) fun _ t =>
      t.Backed (10000 * slack) := by
    refine backed_splitAccounts s₂.accounts.nodup (fun x notNull => ?_) fun x => ?_
    · split
      · exact kept x notNull
      next absent =>
        have missing : s₂.accounts.find? x = none := by
          rw [← Option.not_isSome_iff_eq_none, Store.find?_isSome]
          exact absent
        rw [accountAt, missing]
        exact Account.backed_empty (Int.mul_nonneg (by decide) slackNonneg)
    · rw [within.lent_accountAt rfl]
      exact nonneg x
  refine split.mono fun _ t₁ splits => ?_
  refine ensures_frame (Within outsideFree) fun _ t₂ comments => ?_
  refine ensures_frame (Within outsideFree) fun _ t₃ recounted => ?_
  exact splits.keep fun name _ => (trans_of _ comments recounted).freeKept

theorem freeKept_rewrite (later : hardfork ≠ 1) : Preserves (FreeKept name) (net.rewrite hardfork) := by
  unfold Network.rewrite
  split
  all_goals first | exact absurd rfl later | infer_instance

/-- Hardforks are applied in order, and only the first one rewrites shares. -/
instance : Preserves (Keeps Lends) (net.applyHardfork hardfork) := by
  refine ⟨fun s => ensures_keeps fun lends => ?_⟩
  simp only [Network.applyHardfork, modifyHardforks, ensures_steps]
  intro x t rewritten last inOrder
  have frame : Within keepsLent s t := frame_of_run rewritten
  have forks : t.hardforks = s.hardforks := read_of_run keepsHardforks .hardforks rewritten rfl
  have nonneg (name : AccountName) : 0 ≤ (t.accountAt name).delegated.delegatedVestingShares := by
    rw [frame.lent_accountAt rfl]
    exact lends.nonneg name
  rw [forks] at last inOrder
  have before : s.hasHardfork 1 = decide (1 < hardfork) := by rw [hasHardfork, inOrder]
  refine ⟨?_, nonneg⟩
  have after (u : Database) (length : u.hardforks.processedHardforks.length = hardfork + 1) :
      u.slack = 10000 * largestRemainder := by
    rw [Database.slack, Database.hasHardfork, length, if_pos (by rw [decide_eq_true_eq]; omega)]
  rw [after _ (by rw [length_append, length_singleton, forks, inOrder])]
  by_cases first : hardfork = 1
  · subst first
    have slack : s.slack = largestRemainder := by
      rw [Database.slack, before]
      rfl
    have backed := lends.backed
    rw [slack] at backed
    exact backed_performVestingShareSplit backed (by decide) lends.nonneg x t rewritten
  · have slack : s.slack = 10000 * largestRemainder := by
      rw [Database.slack, before, if_pos (by rw [decide_eq_true_eq]; omega)]
    have backed := lends.backed
    rw [slack] at backed
    have kept : t.Backed (10000 * largestRemainder) :=
      backed.keep fun name _ => (freeKept_rewrite first).related s x t rewritten
    exact kept

end Split

/-! ## Runs -/

section Runs

variable {net : Network} {s t : Database} {deed : Deed}

theorem Database.LendsNonneg.accountAt (lends : s.LendsNonneg) (name : AccountName) :
    0 ≤ (s.accountAt name).delegated.delegatedVestingShares := by
  cases found : s.accounts.find? name with
  | none =>
    rw [Database.accountAt, found]
    exact le_rfl
  | some a =>
    rw [accountAt_of_find? found]
    exact lends.delegated_nonneg found

/-- Only where power-downs go on, delegations return or hardforks are applied, an account gets less free shares. -/
theorem run_backed (other : step.appliesOperations = false) (notHardforks : step ≠ .processHardforks)
    (backed : s.Backed s.slack) (lends : s.LendsNonneg) (representable : s.head.time < Time.maximum) :
    Ensures s (step.run net) fun _ t => t.Backed s.slack := by
  cases step <;> simp only [BlockStep.run, processFunds]
  case applyTransaction | clearExpiredProposals => cases other
  case processVestingWithdrawals =>
    exact ensures_unlessTransit backed
      (backed_processVestingWithdrawals backed largestRemainder_le_slack representable)
  case clearExpiredDelegations => exact ensures_unlessTransit backed (backed_clearExpiredDelegations backed lends.2)
  case clearNullAccountBalance =>
    have cleared := @backed_clearNullAccountBalance s.slack
    exact ensures_unlessTransit backed fun x t run => cleared.related s x t run backed
  case processHardforks => exact absurd rfl notHardforks
  all_goals exact fun x t run => backed.keep fun name _ => Preserves.related (R := FreeKept name) s x t run

/-- What is done keeps the backing, as long as times fit their type. -/
theorem Does.backed (done : Does net s deed t) (backed : s.Backed s.slack) (lends : s.LendsNonneg)
    (representable : s.head.time < Time.maximum) : t.Backed t.slack := by
  have widened (after : t.Backed s.slack) : t.Backed t.slack := fun name notNull =>
    (after name notNull).mono (slack_mono done.hardforksGrow)
  cases done using Does.byKind with
  | record _ frame => exact widened (backed.keep fun name _ => frame.widen.freeKept)
  | evaluated other valid run =>
    have nonneg : 0 ≤ s.slack := le_trans (by decide) largestRemainder_le_slack
    exact widened ((evaluate_backed other valid nonneg).after run backed)
  | @stepped _ _ step noOperations run =>
    by_cases hardforks : step = .processHardforks
    · subst hardforks
      have kept : Preserves (Keeps Lends) net.processHardforks := inferInstance
      exact (kept.related s () t run ⟨backed, lends.accountAt⟩).backed
    · exact widened (run_backed noOperations hardforks backed lends representable _ _ run)

end Runs

/-! ## Accepted interest rates -/

/-- No delegation asks for more than 80% of the rewards. -/
def Database.RatesAccepted (s : Database) : Prop :=
  ∀ key d, s.delegations.find? key = some d → d.interestRate ≤ 8000

abbrev AcceptedKept := Keeps RatesAccepted

section Rates

variable {s t : Database}

open Evaluator

variable {type : String} {key : AccountName × AccountName}

theorem Within.ratesAccepted (within : Within keepsDelegations s t) (accepted : s.RatesAccepted) : t.RatesAccepted := by
  have same : t.delegations = s.delegations := within .delegations rfl
  rw [RatesAccepted, same]
  exact accepted

instance : Finer (Within keepsDelegations) AcceptedKept := ⟨fun _ _ => Within.ratesAccepted⟩

theorem ratesAccepted_create {new : VestingDelegation} (accepted : new.interestRate ≤ 8000) :
    Preserves AcceptedKept (create (·.delegations) updateDelegations type key new) := by
  refine ⟨fun s => ?_⟩
  simp only [create, updateDelegations, ensures_steps]
  exact fun fresh before k d => all_insert fresh accepted before

theorem ratesAccepted_change {f : VestingDelegation → VestingDelegation}
    (same : ∀ d, (f d).interestRate = d.interestRate) :
    Preserves AcceptedKept (change (·.delegations) updateDelegations type key f) := by
  refine ⟨fun s => ?_⟩
  simp only [change, fetch, updateDelegations, ensures_steps]
  exact fun _ _ before k d => all_modify (fun d => (same d).trans_le) before

instance : Preserves AcceptedKept (remove (·.delegations) updateDelegations type key) := by
  refine ⟨fun s => ?_⟩
  simp only [remove, fetch, updateDelegations, ensures_steps]
  exact fun _ _ before k d found => before k d (find?_erase_eq_some.mp found).2

theorem ratesAccepted_delegateVestingSharesWith {op : DelegateVestingSharesOperation} {interestRate : Nat}
    {payoutStrategy : DelegatorPayoutStrategy} {accepts : VestingDelegation → Eval Unit}
    [∀ d, Preserves AcceptedKept (accepts d)] (accepted : interestRate ≤ 8000) :
    Preserves AcceptedKept (delegateVestingSharesWith op interestRate payoutStrategy accepts) := by
  have created (shares : Int) (time : Time) := @ratesAccepted_create "vesting_delegation" (op.delegator, op.delegatee)
    ⟨shares, interestRate, payoutStrategy, time⟩ accepted
  have changed (shares : Int) := @ratesAccepted_change "vesting_delegation" (op.delegator, op.delegatee)
    (fun d => { d with vestingShares := shares }) fun _ => rfl
  have increased (shares' shares delta minDelegation : Int) (time : Time) : Preserves AcceptedKept
      (increaseDelegation op ⟨shares', interestRate, payoutStrategy, time⟩ shares delta minDelegation) := by
    unfold increaseDelegation; infer_instance
  unfold delegateVestingSharesWith; infer_instance

instance {op} : Preserves AcceptedKept (delegateVestingShares op) :=
  ratesAccepted_delegateVestingSharesWith (by decide)

/-- The rate an evaluator accepts is at most the median, which witnesses may only vote up to 80%. -/
theorem ratesAccepted_delegateWithInterest {op : DelegateVestingSharesWithInterestOperation} (valid : s.PropsValid) :
    Ensures s (delegateVestingSharesWithInterest op) fun _ t => Keeps RatesAccepted s t := by
  simp only [delegateVestingSharesWithInterest, requireHardfork, ensures_steps]
  intro _ accepted
  have := @ratesAccepted_delegateVestingSharesWith op.toDelegateVestingSharesOperation op.interestRate op.payoutStrategy
    (fun d => do
      checkLogic (d.interestRate = op.interestRate) "Cannot change interest rate of already created delegation"
      checkLogic (d.payoutStrategy = op.payoutStrategy) "Cannot change payout strategy of already created delegation")
    inferInstance (accepted.trans valid.median.maxDelegatedVestingInterestRate)
  exact ensures_frame AcceptedKept fun _ t kept => kept

deriving instance Preserves AcceptedKept for rejectVestingSharesDelegation

instance {o} : Preserves AcceptedKept (accountCreateWithDelegation o) := by
  have created (shares : Int) (time : Time) := @ratesAccepted_create "vesting_delegation" (o.creator, o.newAccountName)
    { vestingShares := shares, minDelegationTime := time } (Nat.zero_le _)
  unfold accountCreateWithDelegation; infer_instance

instance : KeptByPayouts AcceptedKept where
  within _ _ within := Within.ratesAccepted within.widen
  createVesting _ _ := inferInstance
  payDelegator delegatee claim d := by
    have changed (shares : Int) := @ratesAccepted_change "vesting_delegation" (d.account, delegatee)
      (fun x => { x with vestingShares := x.vestingShares + shares }) fun _ => rfl
    unfold payDelegator; infer_instance

theorem evaluate_ratesAccepted (other : op.isProposal = false) (valid : s.PropsValid) :
    Ensures s (evaluate producing nesting apply op) fun _ t => Keeps RatesAccepted s t := by
  cases op <;> unfold evaluate
  case delegateVestingSharesWithInterest o => exact ratesAccepted_delegateWithInterest valid
  case proposalCreate | proposalUpdate | proposalDelete => cases other
  all_goals exact ensures_frame AcceptedKept fun _ t kept => kept

theorem run_ratesAccepted (other : step.appliesOperations = false) : Preserves AcceptedKept (step.run net) := by
  cases step <;> unfold BlockStep.run
  case applyTransaction | clearExpiredProposals => cases other
  all_goals infer_instance

theorem ratesAccepted_keepsInvariant :
    net.KeepsInvariant (fun _ _ => True) fun s => s.PropsValid ∧ s.RatesAccepted := by
  refine propsValid_keepsInvariant.and ?_ (fun s t frame before => ?_) (fun _ _ _ _ s other _ valid before => ?_)
    fun s step other _ _ before => ?_
  · have frame : Touches keepsDelegations net.initGenesis := inferInstance
    refine (frame.related _).mono fun _ s within => within.ratesAccepted fun _ _ found => ?_
    cases found
  · exact Within.ratesAccepted frame.widen before
  · exact (evaluate_ratesAccepted other valid).mono fun _ t kept => kept before
  · exact ((run_ratesAccepted other).related s).mono fun _ t kept => kept before

end Rates

/-! ## The rates of one vote -/

/-- What holds in every state of a run and bounds the rates of a vote. -/
structure Database.DelegatorsBounded (s : Database) : Prop where
  backed : s.Backed s.slack
  lends : s.LendsNonneg
  accepted : s.RatesAccepted

section Vote

variable {s t : Database} {voter : AccountName} {a : Account}

open Evaluator

/-- The sum of the rates that are listed. -/
def rateSum (rates : List DelegatorVoteInterestRate) : Nat := (rates.map (·.interestRate)).sum

theorem rateSum_filterMap {l : List α} {rate : α → Nat} {account : α → AccountName}
    {strategy : α → DelegatorPayoutStrategy} :
    rateSum (l.filterMap fun e => if 0 < rate e then some ⟨account e, rate e, strategy e⟩ else none) =
      (l.map rate).sum := by
  induction l with
  | nil => rfl
  | cons e l ih =>
    rw [filterMap_cons, map_cons, sum_cons, ← ih]
    by_cases listed : 0 < rate e
    · simp [listed, rateSum]
    · simp [Nat.eq_zero_of_not_pos listed]

/-- The delegations to a voter. -/
def Database.delegationsTo (s : Database) (voter : AccountName) :
    List ((AccountName × AccountName) × VestingDelegation) :=
  s.delegations.entries.filter fun e => e.1.2 = voter

theorem sum_delegationsTo : ((s.delegationsTo voter).map fun e => e.2.vestingShares).sum =
    s.incomingDelegations voter := by
  rw [delegationsTo, incomingDelegations, total]
  induction s.delegations.entries with
  | nil => rfl
  | cons e l ih =>
    rw [map_cons, sum_cons, ← ih, filter_cons]
    by_cases own : e.1.2 = voter <;> simp [own]

theorem rateSum_delegatorRates_le (late : s.hasHardfork 20 = true) : rateSum (delegatorRates s voter a) ≤
    ((s.delegationsTo voter).map fun e =>
      toUint128 (e.2.vestingShares * e.2.interestRate) / toUint128 a.effectiveVestingShares).sum := by
  unfold delegatorRates
  split
  · have sorted := perm_insertionSort (fun x y : (AccountName × AccountName) × VestingDelegation =>
      x.1.1.packed ≤ y.1.1.packed) (s.delegationsTo voter)
    refine (rateSum_filterMap.trans (sorted.map _).sum_eq).trans_le (sum_le_sum fun e _ => ?_)
    rw [delegatorRate, if_neg (by simp [late])]
    exact Nat.mod_le _ _
  · exact Nat.zero_le _

theorem Database.DelegatorsBounded.mem_delegationsTo (bounded : s.DelegatorsBounded)
    {e : (AccountName × AccountName) × VestingDelegation} (member : e ∈ s.delegationsTo voter) :
    0 ≤ e.2.vestingShares ∧ e.2.interestRate ≤ 8000 := by
  have found : s.delegations.find? e.1 = some e.2 := find?_eq_some.mpr (mem_of_mem_filter member)
  exact ⟨bounded.lends.2.lent _ _ found, bounded.accepted _ _ found⟩

theorem toUint128_le {x : Int} (nonneg : 0 ≤ x) : (toUint128 x : Int) ≤ x := by
  unfold toUint128
  omega

/-- The rate of a delegation is at most 80% of its share in what the voter has. -/
theorem rate_mul_le {effective : Int} {rate : Nat} (nonneg : 0 ≤ shares) (accepted : rate ≤ 8000)
    (positive : 0 ≤ effective) (fits : effective < 2 ^ 63) :
    ((toUint128 (shares * rate) / toUint128 effective : Nat) : Int) * effective ≤ 8000 * shares := by
  have product : 0 ≤ shares * rate := Int.mul_nonneg nonneg (Int.natCast_nonneg _)
  have isEffective : (toUint128 effective : Int) = effective := toUint128_of_lt positive (fits.trans (by decide))
  calc ((toUint128 (shares * rate) / toUint128 effective : Nat) : Int) * effective
      = ((toUint128 (shares * rate) / toUint128 effective * toUint128 effective : Nat) : Int) := by
        rw [Nat.cast_mul, isEffective]
    _ ≤ (toUint128 (shares * rate) : Int) := by exact_mod_cast Nat.div_mul_le_self _ _
    _ ≤ shares * rate := toUint128_le product
    _ ≤ shares * 8000 := Int.mul_le_mul_of_nonneg_left (by exact_mod_cast accepted) nonneg
    _ = 8000 * shares := Int.mul_comm _ _

theorem rateSum_mul_le (bounded : s.DelegatorsBounded) (late : s.hasHardfork 20 = true)
    (positive : 0 ≤ a.effectiveVestingShares) (fits : a.effectiveVestingShares < 2 ^ 63) :
    (rateSum (delegatorRates s voter a) : Int) * a.effectiveVestingShares ≤ 8000 * s.incomingDelegations voter := by
  refine (Int.mul_le_mul_of_nonneg_right (Int.ofNat_le.mpr (rateSum_delegatorRates_le late)) positive).trans ?_
  rw [← sum_delegationsTo]
  have each := fun e (member : e ∈ s.delegationsTo voter) => bounded.mem_delegationsTo member
  generalize s.delegationsTo voter = listed at each ⊢
  induction listed with
  | nil => simp
  | cons e l ih =>
    obtain ⟨first, others⟩ := forall_mem_cons.mp each
    have rest := ih others
    have one := rate_mul_le first.1 first.2 positive fits
    simp only [map_cons, sum_cons, Nat.cast_add, Int.add_mul, Int.mul_add] at rest one ⊢
    exact Int.add_le_add one rest

/-- A voter who has lent more than it has does not grant any rate. -/
theorem rateSum_eq_zero (bounded : s.DelegatorsBounded) (late : s.hasHardfork 20 = true)
    (nothing : a.effectiveVestingShares ≤ 0) (almost : -(10000 * largestRemainder) ≤ a.effectiveVestingShares)
    (few : s.incomingDelegations voter ≤ 10000 * largestRemainder) : rateSum (delegatorRates s voter a) = 0 := by
  refine Nat.eq_zero_of_le_zero ((rateSum_delegatorRates_le late).trans_eq ?_)
  refine sum_eq_zero fun x member => ?_
  obtain ⟨e, listed, rfl⟩ := mem_map.mp member
  obtain ⟨nonneg, accepted⟩ := bounded.mem_delegationsTo listed
  have small : e.2.vestingShares ≤ s.incomingDelegations voter := by
    rw [← sum_delegationsTo]
    refine single_le_sum (fun x member => ?_) _ (mem_map_of_mem listed)
    obtain ⟨e', listed', rfl⟩ := mem_map.mp member
    exact (bounded.mem_delegationsTo listed').1
  have product : e.2.vestingShares * e.2.interestRate ≤ 10000 * largestRemainder * 8000 :=
    Int.mul_le_mul (small.trans few) (by exact_mod_cast accepted) (Int.natCast_nonneg _) (by decide)
  have atMost := toUint128_le (Int.mul_nonneg nonneg (Int.natCast_nonneg e.2.interestRate))
  unfold largestRemainder at almost product
  by_cases zero : a.effectiveVestingShares = 0
  · rw [zero]
    exact Nat.div_zero _
  · refine Nat.div_eq_of_lt ?_
    have wrapped : (2 ^ 128 - 10000 * 103 : Int) ≤ toUint128 a.effectiveVestingShares := by
      unfold toUint128
      omega
    omega

/-- The rates stored with a vote sum to at most 100%. -/
theorem rateSum_le (bounded : s.DelegatorsBounded) (late : s.hasHardfork 20 = true) (notNull : voter ≠ .null)
    (found : s.accounts.find? voter = some a) (fits : a.effectiveVestingShares < 2 ^ 63)
    (strong : 0 < a.effectiveVestingShares → 30000000 < a.effectiveVestingShares) :
    rateSum (delegatorRates s voter a) ≤ 10000 := by
  have free := (bounded.backed voter notNull).free_ge
  have early : s.hasHardfork 1 = true := hasHardfork_mono (by decide) late
  rw [accountAt_of_find? found, slack, if_pos early] at free
  have received := (delegationsOnRecord_of_unrecorded bounded.lends.1 voter a found).2
  have incoming : 0 ≤ s.incomingDelegations voter := received ▸ bounded.lends.received_nonneg found
  have effective : a.effectiveVestingShares = a.free + s.incomingDelegations voter := by
    rw [Account.effectiveVestingShares, received, Account.free]
  by_cases positive : 0 < a.effectiveVestingShares
  · have enough := strong positive
    have product := @rateSum_mul_le s voter a bounded late positive.le fits
    unfold largestRemainder at free
    refine Int.ofNat_le.mp (le_of_mul_le_mul_right (product.trans ?_) positive)
    omega
  · rw [rateSum_eq_zero bounded late (by omega) (by omega) (by omega)]
    exact Nat.zero_le _

end Vote

/-! ## Stored rates -/

/-- The rates stored with the votes are those from before, or sum to at most 100%. -/
def RatesKept (s t : Database) : Prop :=
  ∀ k v, k.2 ≠ .null → t.commentVotes.find? k = some v →
    (∃ v', s.commentVotes.find? k = some v' ∧ v'.delegatorVoteInterestRates = v.delegatorVoteInterestRates) ∨
      rateSum v.delegatorVoteInterestRates ≤ 10000

instance : Std.Refl RatesKept := ⟨fun _ _ v _ found => .inl ⟨v, found, rfl⟩⟩

instance : IsTrans Database RatesKept := by
  refine ⟨fun s t u first second k v notNull found => ?_⟩
  obtain ⟨v', found', same⟩ | bounded := second k v notNull found
  · rw [← same]
    exact first k v' notNull found'
  · exact .inr bounded

abbrev keepsCommentVotes : Footprint
  | .commentVotes => false
  | _ => true

/-- The amounts and times of a state fit their types. -/
structure Database.InRange (s : Database) : Prop where
  time : s.head.time < Time.maximum
  shares : ∀ name a, s.accounts.find? name = some a → a.effectiveVestingShares < 2 ^ 63

section Stored

variable {s t : Database}

open Evaluator

theorem Within.ratesKept (within : Within keepsCommentVotes s t) : RatesKept s t := by
  have same : t.commentVotes = s.commentVotes := within .commentVotes rfl
  exact fun k v _ found => .inl ⟨v, same ▸ found, rfl⟩

instance : Finer (Within keepsCommentVotes) RatesKept := ⟨fun _ _ => Within.ratesKept⟩

theorem ratesKept_change {f : CommentVote → CommentVote}
    (kept : ∀ v, (f v).delegatorVoteInterestRates = v.delegatorVoteInterestRates ∨
      (f v).delegatorVoteInterestRates = []) :
    Preserves RatesKept (change (·.commentVotes) updateCommentVotes "comment_vote" k f) := by
  refine ⟨fun s => ?_⟩
  simp only [change, fetch, updateCommentVotes, ensures_steps]
  intro _ _ k' v _ found
  obtain ⟨rfl, v', found', rfl⟩ | ⟨_, found⟩ := find?_modify_eq_some.mp found
  · obtain same | absent := kept v'
    · exact .inl ⟨v', found', same.symm⟩
    · rw [absent]
      exact .inr (Nat.zero_le _)
  · exact .inl ⟨v, found, rfl⟩

theorem ratesKept_create {new : CommentVote} (bounded : k.2 ≠ .null → rateSum new.delegatorVoteInterestRates ≤ 10000) :
    Preserves RatesKept (create (·.commentVotes) updateCommentVotes "comment_vote" k new) := by
  refine ⟨fun s => ?_⟩
  simp only [create, updateCommentVotes, ensures_steps]
  intro fresh k' v notNull found
  obtain ⟨rfl, rfl⟩ | ⟨_, found⟩ := (find?_insert_eq_some fresh).mp found
  · exact .inr (bounded notNull)
  · exact .inl ⟨v, found, rfl⟩

instance {key} : Preserves RatesKept (cashoutCommentHelper key) := by
  have marked : Preserves RatesKept (updateCommentVotes fun t => t.mapValues fun k v =>
      if k.1 = key then { v with numChanges := -1 - v.numChanges } else v) := by
    refine preserves_modify fun s k v _ found => ?_
    rw [find?_mapValues, Option.map_eq_some_iff] at found
    obtain ⟨v', before, rfl⟩ := found
    refine .inl ⟨v', before, ?_⟩
    split <;> rfl
  unfold cashoutCommentHelper; infer_instance

instance {producing o} : Preserves RatesKept (deleteComment producing o) := by
  have removed : Preserves RatesKept (updateCommentVotes fun t => t.filter fun k _ =>
    k.1 ≠ (o.author, o.permlink)) := by
    refine preserves_modify fun s k v _ found => ?_
    exact .inl ⟨v, (find?_filter.mp found).1, rfl⟩
  unfold deleteComment; infer_instance

instance {o} : Preserves RatesKept (lateVote o) := by
  have created (now : Time) := @ratesKept_create ((o.author, o.permlink), o.voter)
    { votePercent := o.weight, lastUpdate := now, numChanges := -2 } fun _ => Nat.zero_le _
  have changed (now : Time) := @ratesKept_change ((o.author, o.permlink), o.voter)
    (fun v => { v with votePercent := o.weight, lastUpdate := now }) fun _ => .inl rfl
  unfold lateVote; infer_instance

instance {o strength vote} : Preserves RatesKept (changeVote o strength vote) := by
  have changed (now : Time) := @ratesKept_change ((o.author, o.permlink), o.voter) (fun v => { v with
    rshares := if o.weight < 0 then -strength.absRshares else strength.absRshares
    votePercent := o.weight
    lastUpdate := now
    numChanges := v.numChanges + 1
    delegatorVoteInterestRates := [] }) fun _ => .inr rfl
  unfold changeVote; infer_instance

/-- A first vote stores the rates of the delegators of its voter. -/
theorem firstVote_rates {strength : VoteStrength}
    (bounded : o.weight ≠ 0 → ∀ a, s.accounts.find? o.voter = some a → o.voter ≠ .null →
      rateSum (delegatorRates s o.voter a) ≤ 10000) : Ensures s (firstVote o strength) fun _ t => RatesKept s t := by
  rw [firstVote, ensures_bind, ensures_get, ensures_bind, ensures_getComment]
  intro c _
  rw [ensures_bind, ensures_getAccount]
  intro a isVoter
  rw [checkOpParam, ensures_bind, ensures_check]
  intro weighty
  have created (c : Comment) (rshares : Int) := @ratesKept_create ((o.author, o.permlink), o.voter)
    (newVote s c o rshares (delegatorRates s o.voter a)) fun notNull => by
      unfold newVote
      dsimp only
      split
      · exact bounded weighty a isVoter notNull
      · exact Nat.zero_le _
  exact ensures_frame RatesKept fun _ t kept => kept

/-- A part of some shares is not more than the shares. -/
theorem toInt64_part_le {used : Int} (positive : 0 ≤ shares) (fits : shares < 2 ^ 63) (nonneg : 0 ≤ used)
    (most : used ≤ 10000) : toInt64 (toUint128 (toUint128 shares * used) / 10000 % 2 ^ 64) ≤ shares := by
  have exactly : (toUint128 shares : Int) = shares := toUint128_of_lt positive (fits.trans (by decide))
  have product : 0 ≤ shares * used ∧ shares * used ≤ shares * 10000 :=
    ⟨Int.mul_nonneg positive nonneg, Int.mul_le_mul_of_nonneg_left most positive⟩
  have part : (toUint128 (toUint128 shares * used) : Int) = shares * used := by
    rw [exactly]
    exact toUint128_of_lt product.1 (by omega)
  unfold toInt64
  split <;> omega

/-- Enough shares are needed for a vote. -/
theorem voteStrength_strong {voter : AccountName} {weight : Int} (late : s.hasHardfork 20 = true) :
    Ensures s (voteStrength voter weight) fun _ t => t = s ∧ (weight ≠ 0 → ∀ a, s.accounts.find? voter = some a →
      a.effectiveVestingShares < 2 ^ 63 → 0 < a.effectiveVestingShares → 30000000 < a.effectiveVestingShares) := by
  have hf14 : s.hasHardfork 14 = true := hasHardfork_mono (by decide) late
  have hf13 : s.hasHardfork 13 = true := hasHardfork_mono (by decide) late
  simp only [voteStrength, ensures_steps, ensures_getAccount, ensures_when, hf14, hf13, not_true_eq_false,
    IsEmpty.forall_iff, and_true, true_implies]
  intro a found power denominator most enough
  refine ⟨trivial, fun weighty b found' fits positive => ?_⟩
  cases found.symm.trans found'
  have strong := enough.resolve_right weighty
  refine strong.trans_le (toInt64_part_le positive.le fits ?_ (most.trans (min_le_right _ _)))
  refine Int.ediv_nonneg ?_ denominator.le
  have used := Int.ediv_nonneg (Int.mul_nonneg power.le (Int.natCast_nonneg weight.natAbs))
    (by decide : (0 : Int) ≤ 10000)
  omega

theorem Within.delegatorsBounded (within : Within activityOnly s t) (bounded : s.DelegatorsBounded) :
    t.DelegatorsBounded := by
  have free : Within outsideFree s t := within.widen
  have forks : t.hardforks = s.hardforks := within .hardforks rfl
  refine ⟨?_, ⟨?_, ?_⟩, ?_⟩
  · rw [slack, hasHardfork, forks]
    exact bounded.backed.keep fun name _ => free.freeKept
  · exact (unrecorded_eq_of_within within.widen).trans
      bounded.lends.1
  · exact Within.delegationsNonneg within.widen bounded.lends.2
  · exact Within.ratesAccepted within.widen bounded.accepted

theorem Within.effectiveVestingShares (within : Within F s t) (vesting : F .vesting = false)
    (delegated : F .delegated = false) (found : t.accounts.find? name = some a) :
    ∃ b, s.accounts.find? name = some b ∧ b.effectiveVestingShares = a.effectiveVestingShares := by
  have shares : (t.accounts.find? name).map (·.vestingShares) = (s.accounts.find? name).map (·.vestingShares) :=
    find?_eq_of_view (within .vesting vesting) name
  have lent : (t.accounts.find? name).map (·.delegated) = (s.accounts.find? name).map (·.delegated) :=
    find?_eq_of_view (within .delegated delegated) name
  rw [found, Option.map_some, eq_comm, Option.map_eq_some_iff] at shares
  obtain ⟨b, before, same⟩ := shares
  rw [found, before, Option.map_some, Option.map_some, Option.some.injEq] at lent
  exact ⟨b, before, by rw [Account.effectiveVestingShares, Account.effectiveVestingShares, same, lent]⟩

/-- A vote stores rates that sum to at most 100%. -/
theorem vote_rates (late : s.hasHardfork 20 = true) (bounded : s.DelegatorsBounded)
    (inRange : s.InRange) : Ensures s (vote o) fun _ t => RatesKept s t := by
  rw [vote, ensures_bind, ensures_getComment]
  intro c _
  rw [ensures_bind, ensures_getAccount]
  intro voter _
  have checked := refl_of (Within activityOnly) s
  iterate 3 refine ensures_bind.mpr (ensures_since _ checked fun _ _ checked => ?_)
  refine ensures_bind.mpr (ensures_since _ checked fun _ s₄ checked => ?_)
  have kept (u : Database) (within : Within activityOnly s u) : RatesKept s u :=
    Within.ratesKept within.widen
  refine ensures_ite.mpr ⟨fun _ => ?_, fun _ => ensures_bind.mpr ?_⟩
  · exact ensures_frame RatesKept fun _ t voted => trans_of RatesKept (kept s₄ checked) voted
  · refine ensures_since _ checked fun _ s₅ within => ensures_bind.mpr ?_
    have late₅ : s₅.hasHardfork 20 = true := by
      have forks : s₅.hardforks = s.hardforks := within .hardforks rfl
      rw [hasHardfork, forks]
      exact late
    refine Ensures.mono (voteStrength_strong late₅) fun strength t₀ strong => ?_
    obtain ⟨rfl, strong⟩ := strong
    rw [ensures_bind, ensures_get]
    cases t₀.commentVotes.find? ((o.author, o.permlink), o.voter) with
    | none =>
      refine (firstVote_rates fun weighty a found notNull => ?_).mono fun _ t voted =>
        trans_of RatesKept (kept t₀ within) voted
      obtain ⟨b, before, same⟩ := within.effectiveVestingShares rfl rfl found
      have fits : a.effectiveVestingShares < 2 ^ 63 := same ▸ inRange.shares _ b before
      exact rateSum_le (within.delegatorsBounded bounded) late₅ notNull found fits (strong weighty a found fits)
    | some v =>
      rw [Option.elim_some]
      exact ensures_frame RatesKept fun _ t voted => trans_of RatesKept (kept t₀ within) voted

theorem evaluate_ratesKept
    (other : op.isProposal = false) (late : s.hasHardfork 20 = true) (bounded : s.DelegatorsBounded)
    (inRange : s.InRange) : Ensures s (evaluate producing nesting apply op) fun _ t => RatesKept s t := by
  cases op <;> unfold evaluate
  case vote o => exact vote_rates late bounded inRange
  case proposalCreate | proposalUpdate | proposalDelete => cases other
  all_goals exact ensures_frame RatesKept fun _ t kept => kept

theorem run_ratesKept (other : step.appliesOperations = false) : Preserves RatesKept (step.run net) := by
  cases step <;> unfold BlockStep.run
  case applyTransaction | clearExpiredProposals => cases other
  all_goals infer_instance

theorem Does.ratesKept (done : Does net s deed t) (late : s.hasHardfork 20 = true)
    (bounded : s.DelegatorsBounded) (inRange : s.InRange) : RatesKept s t := by
  cases done using Does.byKind with
  | record _ frame => exact Within.ratesKept frame.widen
  | evaluated other _ run => exact evaluate_ratesKept other late bounded inRange _ _ run
  | stepped other run => exact (run_ratesKept other).after run

end Stored

/-! ## Histories -/

/-- These rates were stored with the vote before hardfork 20. -/
def Moment.StoredEarly (m : Moment) (key : CommentKey × AccountName) (rates : List DelegatorVoteInterestRate) : Prop :=
  ∃ e ∈ m.past, e.1.hasHardfork 20 = false ∧
    ∃ v, e.1.commentVotes.find? key = some v ∧ v.delegatorVoteInterestRates = rates

/-- Rates that were not stored before hardfork 20 sum to at most 100%. -/
def Moment.RatesBounded (m : Moment) : Prop :=
  m.state.hasHardfork 20 = true → ∀ key v, key.2 ≠ .null → m.state.commentVotes.find? key = some v →
    m.StoredEarly key v.delegatorVoteInterestRates ∨ rateSum v.delegatorVoteInterestRates ≤ 10000

section Histories

variable {net : Network} {s : Database}

theorem Moment.RatesBounded.next {m : Moment} {t : Database} (before : m.RatesBounded)
    (bounded : m.state.DelegatorsBounded) (inRange : m.state.InRange) (done : Does net m.state deed t) :
    (m.next deed t).RatesBounded := by
  intro late key v notNull found
  change t.hasHardfork 20 = true at late
  cases already : m.state.hasHardfork 20 with
  | true =>
    obtain ⟨v', found', same⟩ | few := done.ratesKept already bounded inRange key v notNull found
    · refine (before already key v' notNull found').imp (fun early => ?_) fun few => ?_
      · obtain ⟨e, member, early⟩ := early
        exact ⟨e, mem_cons_of_mem _ member, same ▸ early⟩
      · rw [← same]
        exact few
    · exact .inr few
  | false =>
    -- hardfork 20 is being applied
    have kept : RatesKept m.state t := by
      cases notStep : deed.isStep with
      | false =>
        have forks : t.hardforks = m.state.hardforks := done.within notStep .hardforks rfl
        rw [hasHardfork, forks] at late
        exact absurd (already.symm.trans late) Bool.false_ne_true
      | true =>
        cases done with
        | stepped other run => exact (run_ratesKept other).after run
        | _ => cases notStep
    refine (kept key v notNull found).imp_left fun stored => ?_
    exact ⟨(m.state, deed), mem_cons_self, already, stored⟩

/-- The history stayed in the range of the types of the code. -/
def Moment.InRange (m : Moment) : Prop := ∀ e ∈ m.past, e.1.InRange

theorem genesis_backed (start : net.initGenesis {} = .ok ((), s)) : s.Backed s.slack := by
  have kept (name : AccountName) : Preserves (FreeKept name) net.initGenesis := by
    unfold Network.initGenesis createGenesisAccount
    infer_instance
  have nothing : Backed s.slack {} := by
    intro name _
    exact Account.backed_empty (le_trans (by decide) largestRemainder_le_slack)
  exact nothing.keep fun name _ => (kept name).after start

theorem genesis_commentVotes (start : net.initGenesis {} = .ok ((), s)) : s.commentVotes = .empty := by
  have frame : Touches keepsCommentVotes net.initGenesis := inferInstance
  exact frame.after start .commentVotes rfl

theorem Network.Chronicle.ratesBounded {rest : List BlockStep} {m : Moment}
    (chronicle : net.Chronicle (fun _ _ => True) rest m) (inRange : m.InRange) : m.RatesBounded := by
  have lends := @lendsNonneg_keepsInvariant net
  have accepts := @ratesAccepted_keepsInvariant net
  have rule := @Network.Chronicle.invariant net (fun _ _ => True) fun m => m.state.LendsNonneg ∧
    (m.state.PropsValid ∧ m.state.RatesAccepted) ∧ (m.InRange → m.state.Backed m.state.slack ∧ m.RatesBounded)
  refine ((rule (fun s start => ?_) (fun m deed t meets before done => ?_) chronicle).2.2 inRange).2
  · refine ⟨lends.genesis _ _ start, accepts.genesis _ _ start,
      fun _ => ⟨genesis_backed start, fun _ key v _ found => ?_⟩⟩
    rw [genesis_commentVotes start] at found
    cases found
  · obtain ⟨lent, accepted, ranged⟩ := before
    refine ⟨lends.does meets lent done, accepts.does meets accepted done, fun inRange => ?_⟩
    obtain ⟨here, earlier⟩ := forall_mem_cons.mp inRange
    obtain ⟨backed, rates⟩ := ranged earlier
    exact ⟨done.backed backed lent here.time, rates.next ⟨backed, lent, accepted.2⟩ here done⟩

/-- Payments to delegators whose rates sum to at most 100% leave the curator a share. -/
theorem payDelegators_le (nonneg : 0 ≤ claim) (few : rateSum rates ≤ 10000) :
    Ensures s (payDelegators delegatee claim rates) fun paid _ => 0 ≤ paid ∧ paid ≤ claim := by
  refine (payDelegators_pays nonneg).mono fun paid t pays => ⟨pays.1.nonneg, ?_⟩
  have all : claim * ((rates.map (·.interestRate)).sum : Nat) ≤ claim * 10000 :=
    mul_le_mul_of_nonneg_left (by exact_mod_cast few) nonneg
  linarith [pays.2]

theorem interestRate_le_rateSum (member : d ∈ rates) : d.interestRate ≤ rateSum rates :=
  single_le_sum (fun _ _ => Nat.zero_le _) _ (mem_map_of_mem member)

/-- In every history, the rates stored with a vote since hardfork 20 sum to at most 100% unless
the voter is `null`: no product of the payout overflows, and the delegators are paid at most the
claim. -/
theorem delegator_rates_bounded (reachable : net.Reachable s) :
    (∃ past rest, net.Chronicle (fun _ _ => True) rest ⟨past, s⟩) ∧
      ∀ past rest, net.Chronicle (fun _ _ => True) rest ⟨past, s⟩ → Moment.InRange ⟨past, s⟩ →
        s.hasHardfork 20 = true → ∀ key v, key.2 ≠ .null → s.commentVotes.find? key = some v →
          Moment.StoredEarly ⟨past, s⟩ key v.delegatorVoteInterestRates ∨
            (rateSum v.delegatorVoteInterestRates ≤ 10000 ∧ ∀ claim : Int, 0 ≤ claim → claim ≤ maxShareSupply →
                (∀ d ∈ v.delegatorVoteInterestRates, claim * d.interestRate < 2 ^ 64) ∧
                ∀ u, Ensures u (payDelegators key.2 claim v.delegatorVoteInterestRates) fun paid _ =>
                  0 ≤ paid ∧ paid ≤ claim) := by
  refine ⟨reachable.chronicled, fun past rest chronicle inRange late key v notNull found => ?_⟩
  refine (chronicle.ratesBounded inRange late key v notNull found).imp_right fun few =>
    ⟨few, fun claim nonneg most => ?_⟩
  refine ⟨fun d member => ?_, fun u => payDelegators_le nonneg few⟩
  have rate : (d.interestRate : Int) ≤ 10000 := by exact_mod_cast (interestRate_le_rateSum member).trans few
  rw [maxShareSupply] at most
  nlinarith

/-- Bob's vote with the shares lent by Alice: its rates were stored after hardfork 20. -/
theorem delegator_rates_bounded_inUse : ∃ v, (usedFor 48).state.commentVotes.find? ((.alice, "post"), .bob) = some v ∧
    v.delegatorVoteInterestRates.map (·.interestRate) = [90] ∧ ∀ claim : Int, 0 ≤ claim → claim ≤ maxShareSupply →
      (∀ d ∈ v.delegatorVoteInterestRates, claim * d.interestRate < 2 ^ 64) ∧
      ∀ u, Ensures u (payDelegators .bob claim v.delegatorVoteInterestRates) fun paid _ => 0 ≤ paid ∧ paid ≤ claim := by
  obtain ⟨v, found, rates⟩ := Option.map_eq_some_iff.mp usedFor_busy.state.rates
  have inRange : (usedFor 48).InRange := fun e member =>
    ⟨(usedFor_busy.small e member).1, fun name a found =>
      (usedFor_busy.small e member).2 a (List.mem_map.mpr ⟨_, Store.find?_eq_some.mp found, rfl⟩)⟩
  obtain early | ⟨-, bounded⟩ := (delegator_rates_bounded (usedFor_reachable 48)).2 _ _ (usedFor_chronicle 48) inRange
    usedFor_busy.state.hardfork _ v (by decide) found
  · obtain ⟨e, member, before, v', found', -⟩ := early
    have isKey := Store.find?_isSome.mp (Option.isSome_of_eq_some found')
    rw [usedFor_busy.votes e member before] at isKey
    cases isKey
  · exact ⟨v, found, rates, bounded⟩

end Histories

/-! ## The account `null`

In an exempt block anybody can lend shares of `null`, which are burnt at the end of the block.  Its
posting authority needs no signature. -/

/-- A state before the first exempt block, with hardfork 20. -/
def beforeNullLends : Database :=
  { beforeExemptBlock with
    head := { beforeExemptBlock.head with time := 1600000000 }
    hardforks := { bareGenesis.hardforks with
      processedHardforks := hardforkTimes.take 21
      lastHardfork := 20
      currentHardforkVersion := hardforkVersion 20 } }

def nullLendsBlock : Block := { exemptBlock with
  timestamp := 1600000003
  extensions := [.version (hardforkVersion 20)]
  transactions :=
    [{ exemptTransaction with
        expiration := 1600000030
        operations := [
          .transferToVesting ⟨.initMiner, .null, .steem 175000000⟩,
          .transferToVesting ⟨.initMiner, .temp, .steem 100000000⟩,
          .transferToVesting ⟨.initMiner, .initMiner, .steem 100000000⟩,
          .delegateVestingShares ⟨.null, .miners, .vests 175000000000⟩] },
      { exemptTransaction with
        id := 2
        expiration := 1600000030
        operations := [.comment ⟨.blank, "golos", .initMiner, "first"⟩] }] }

def afterNullLends : Database := stateAfter (Network.bare.applyBlock nullLendsBlock) beforeNullLends

def lendToNull (delegator : AccountName) : DelegateVestingSharesWithInterestOperation where
  delegator := delegator
  delegatee := .null
  vestingShares := .vests 100000000000
  interestRate := 2500
  payoutStrategy := .toDelegator

def nullVote : CommentKey × AccountName := ((.initMiner, "first"), .null)

def nullVotesBlock : Block := { exemptBlock with
  previous := afterNullLends.head.headBlockId
  timestamp := 1600000006
  extensions := [.version (hardforkVersion 20)]
  transactions :=
    [{ exemptTransaction with
        id := 3
        expiration := 1600000030
        operations := [
          .delegateVestingSharesWithInterest (lendToNull .initMiner),
          .delegateVestingSharesWithInterest (lendToNull .temp)] },
      { exemptTransaction with
        id := 4
        expiration := 1600000030
        operations := [.vote ⟨.null, .initMiner, "first", 10000⟩]
        signatureKeys := [] }] }

def afterNullVotes : Database := stateAfter (Network.bare.applyBlock nullVotesBlock) afterNullLends

def nullVoteRates : List DelegatorVoteInterestRate :=
  (afterNullVotes.commentVotes.find? nullVote).elim [] (·.delegatorVoteInterestRates)

/-- Each of two delegators has a claim to all of the reward of the vote of `null`, and both are paid. -/
theorem delegator_rates_of_null : beforeNullLends.hasHardfork 20 = true ∧
      (Network.bare.applyBlock nullLendsBlock beforeNullLends).isOk = true ∧
      (afterNullLends.accountAt .null).free = -175000000000 ∧
      (Network.bare.applyBlock nullVotesBlock afterNullLends).isOk = true ∧
      nullVoteRates.map (·.interestRate) = [10000, 10000] ∧
      (payDelegators .null 1000 nullVoteRates afterNullVotes).toOption.map (·.1) = some 2000 :=
  ⟨by decide +kernel, by decide +kernel, by decide +kernel, by decide +kernel, by decide +kernel, by decide +kernel⟩

end Golos
