import Mathlib.Data.Rat.Floor
import Golos.Chain.Clock
import Golos.Chain.Delegation
import Golos.Chain.Routes

/-! # Power-downs

A power-down pays an amount back in weekly instalments: full ones as long as they fit, and
then what is left, which the code computes as a remainder.  The remainder is the right
last instalment because all instalments before were full, and these are full because nothing
but its own power-down takes vesting shares from an account.  The exception is the account
`null`, whose shares the chain burns in every block.
-/

namespace Golos

open Stateful List Option
open Database hiding pow

set_option synthInstance.maxSize 1000000

variable {o : WithdrawVestingOperation} {producing : Bool} {paid : List Int} {hf19 : Bool} {name : AccountName}
  {a : Account} {m : Moment} {f : Account → Account} {amount : Int} {start : Time}

/-! ## Instalments -/

/-- The full instalment of an amount: a thirteenth, and at least one. -/
def instalment (amount : Int) : Int := max 1 (amount / 13)

/-- The instalments an amount is paid in. -/
def instalments (amount : Int) : List Int :=
  replicate (amount / instalment amount).toNat (instalment amount) ++
    if amount % instalment amount = 0 then [] else [amount % instalment amount]

section Instalments

variable {k : Nat}

theorem instalment_pos : 0 < instalment amount := by
  unfold instalment
  omega

theorem sum_instalments (nonneg : 0 ≤ amount) : (instalments amount).sum = amount := by
  have positive : 0 < instalment amount := instalment_pos
  have full : 0 ≤ amount / instalment amount := Int.ediv_nonneg nonneg positive.le
  have whole := Int.ediv_mul_add_emod amount (instalment amount)
  rw [instalments, sum_append, sum_replicate, nsmul_eq_mul, Int.natCast_toNat_eq_self.mpr full]
  split
  next exactly =>
    rw [exactly] at whole
    simpa using whole
  · simpa using whole

/-- The number of instalments is the amount by the full instalment, rounded up. -/
theorem length_instalments (nonneg : 0 ≤ amount) :
    ((instalments amount).length : Int) = ⌈(amount : ℚ) / max 1 ⌊(amount : ℚ) / 13⌋⌉ := by
  have floor : (⌊(amount : ℚ) / 13⌋ : Int) = amount / 13 := by
    have := Rat.floor_intCast_div_natCast amount 13
    simpa using this
  have rate : max 1 ⌊(amount : ℚ) / 13⌋ = instalment amount := by rw [floor, instalment]
  have positive : 0 < instalment amount := instalment_pos
  have full : 0 ≤ amount / instalment amount := Int.ediv_nonneg nonneg positive.le
  have whole := Int.ediv_mul_add_emod amount (instalment amount)
  have below := Int.emod_lt_of_pos amount positive
  have above := Int.emod_nonneg amount positive.ne'
  have positiveRat : (0 : ℚ) < instalment amount := by exact_mod_cast positive
  rw [rate, eq_comm, Int.ceil_eq_iff, lt_div_iff₀ positiveRat, div_le_iff₀ positiveRat, instalments, length_append,
    length_replicate, Nat.cast_add, Int.natCast_toNat_eq_self.mpr full]
  norm_cast
  split
  · rw [length_nil, Nat.cast_zero, add_zero, sub_mul, one_mul]
    constructor <;> linarith
  next inexact =>
    have := lt_of_le_of_ne above (Ne.symm inexact)
    rw [length_singleton, Nat.cast_one, add_sub_cancel_right, add_mul, one_mul]
    constructor <;> linarith

/-- The instalments are full, and the last one is what is left. -/
theorem getElem?_instalments (running : k * instalment amount < amount) :
    (instalments amount)[k]? = some (min (instalment amount) (amount - k * instalment amount)) := by
  have positive : 0 < instalment amount := instalment_pos
  have whole := Int.ediv_mul_add_emod amount (instalment amount)
  have below := Int.emod_lt_of_pos amount positive
  have upTo : (k : Int) ≤ amount / instalment amount := (Int.le_ediv_iff_mul_le positive).mpr running.le
  rw [instalments]
  rcases upTo.lt_or_eq with early | last
  · have left : instalment amount ≤ amount - k * instalment amount := by
      have := Int.mul_le_mul_of_nonneg_right (Int.add_one_le_of_lt early) positive.le
      rw [add_mul, one_mul] at this
      have := Int.emod_nonneg amount positive.ne'
      omega
    have inside : k < (amount / instalment amount).toNat := by omega
    rw [getElem?_append_left (by rwa [length_replicate]), getElem?_replicate, if_pos inside,
      min_eq_left left]
  · have left : amount - k * instalment amount = amount % instalment amount := by
      rw [last]
      omega
    have position : (amount / instalment amount).toNat = k := by omega
    have inexact : amount % instalment amount ≠ 0 := by omega
    rw [getElem?_append_right (by rw [length_replicate, position]), length_replicate, position,
      Nat.sub_self, if_neg inexact, left, min_eq_right below.le]
    rfl

theorem lt_length_instalments (nonneg : 0 ≤ amount) :
    k < (instalments amount).length ↔ k * instalment amount < amount := by
  have positive : 0 < instalment amount := instalment_pos
  have quotient : 0 ≤ amount / instalment amount := Int.ediv_nonneg nonneg positive.le
  refine ⟨fun inside => ?_, fun running => ?_⟩
  · by_contra finished
    have whole := Int.ediv_mul_add_emod amount (instalment amount)
    have above := Int.emod_nonneg amount positive.ne'
    have full : amount / instalment amount ≤ k := by
      refine Int.ediv_le_of_le_mul positive ?_
      omega
    rw [instalments, length_append, length_replicate] at inside
    split at inside
    · rw [length_nil] at inside
      omega
    next inexact =>
      rw [length_singleton] at inside
      have same : amount / instalment amount = k := by omega
      rw [same] at whole
      omega
  · have found := getElem?_instalments running
    exact (List.getElem?_eq_some_iff.mp found).1

theorem instalment_at_pos (running : k * instalment amount < amount) :
    0 < min (instalment amount) (amount - k * instalment amount) :=
  lt_min instalment_pos (by omega)

end Instalments

/-! ## The plan of a power-down -/

/-- The power-down of `amount` begun at `start`, after `k` instalments. -/
def Withdrawal.After (w : Withdrawal) (amount : Int) (start : Time) (k : Nat) : Prop :=
  if k * instalment amount < amount then
    w.vestingWithdrawRate = instalment amount ∧ w.toWithdraw = amount ∧ w.withdrawn = k * instalment amount ∧
      w.nextVestingWithdrawal = start + (k + 1) * vestingWithdrawInterval
  else w.vestingWithdrawRate = 0 ∧ w.withdrawn = w.toWithdraw ∧ w.nextVestingWithdrawal = Time.maximum

/-- The plan without the number of routes. -/
def Withdrawal.plan (w : Withdrawal) : Int × Int × Int × Time :=
  (w.vestingWithdrawRate, w.toWithdraw, w.withdrawn, w.nextVestingWithdrawal)

theorem Withdrawal.plan_advance {w w' : Withdrawal} {paid : Int} {nothingLeft : Bool} (same : w.plan = w'.plan) :
    (w.advance paid nothingLeft hf19).plan = (w'.advance paid nothingLeft hf19).plan := by
  simp only [Withdrawal.plan, Prod.mk.injEq] at same
  obtain ⟨rate, toWithdraw, withdrawn, next⟩ := same
  simp only [Withdrawal.advance, toWithdraw, withdrawn]
  split <;> simp [Withdrawal.plan, rate, next]

/-- The account after `k` instalments of a power-down, with enough shares for the rest. -/
structure Account.After (a : Account) (amount : Int) (start : Time) (k : Nat) : Prop where
  plan : a.withdrawal.After amount start k
  shares : amount - k * instalment amount ≤ a.vestingShares
  nonneg : 0 ≤ a.vestingShares

section Plans

variable {w w' : Withdrawal} {a a' : Account} {amount : Int} {start : Time} {k : Nat}

theorem Withdrawal.After.congr (same : w'.plan = w.plan) (after : w.After amount start k) :
    w'.After amount start k := by
  simp only [Withdrawal.plan, Prod.mk.injEq] at same
  obtain ⟨rate, toWithdraw, withdrawn, next⟩ := same
  rw [Withdrawal.After, rate, toWithdraw, withdrawn, next]
  exact after

theorem Account.After.congr (after : a.After amount start k) (plan : a'.withdrawal.plan = a.withdrawal.plan)
    (shares : a.vestingShares ≤ a'.vestingShares) : a'.After amount start k :=
  ⟨after.plan.congr plan, after.shares.trans shares, after.nonneg.trans shares⟩

/-- What is withdrawn is never more than what is to be withdrawn. -/
theorem Withdrawal.After.withdrawn_le (after : w.After amount start k) : w.withdrawn ≤ w.toWithdraw := by
  unfold Withdrawal.After at after
  split at after
  · omega
  · omega

/-- The remainder is only computed for a rate that is not zero. -/
theorem Withdrawal.After.rate_ne_zero (after : w.After amount start k)
    (remainder : w.toWithdraw - w.withdrawn < w.vestingWithdrawRate) : w.vestingWithdrawRate ≠ 0 := by
  have := after.withdrawn_le
  omega

/-- The next payment is the next instalment. -/
theorem Account.After.nextPayment (after : a.After amount start k) (running : k * instalment amount < amount) :
    a.nextPayment = min (instalment amount) (amount - k * instalment amount) := by
  have plan := after.plan
  rw [Withdrawal.After, if_pos running] at plan
  obtain ⟨rate, toWithdraw, withdrawn, _⟩ := plan
  have positive : 0 < instalment amount := instalment_pos
  have shares := after.shares
  rw [Account.nextPayment, rate, toWithdraw, withdrawn]
  split
  next last =>
    have remainder : amount.tmod (instalment amount) = amount - k * instalment amount := by
      have nonneg : 0 ≤ amount := by
        have := Int.mul_nonneg (Int.natCast_nonneg k) positive.le
        omega
      rw [Int.tmod_eq_emod_of_nonneg nonneg, Int.emod_eq_iff (by omega)]
      refine ⟨by omega, ?_, ⟨-k, by ring⟩⟩
      omega
    omega
  · omega

theorem Account.After.nextPayment_finished (after : a.After amount start k)
    (finished : ¬k * instalment amount < amount) :
    a.nextPayment = 0 := by
  have plan := after.plan
  rw [Withdrawal.After, if_neg finished] at plan
  obtain ⟨rate, withdrawn, _⟩ := plan
  have nonneg := after.nonneg
  rw [Account.nextPayment, rate, withdrawn, sub_self, if_neg (lt_irrefl _), min_eq_right nonneg, max_self]

/-- The last payment ends the power-down. -/
theorem Withdrawal.advance_last {w : Withdrawal} {paid : Int} {nothingLeft : Bool}
    (last : w.withdrawn + paid = w.toWithdraw) : (w.advance paid nothingLeft hf19).vestingWithdrawRate = 0 ∧
      (w.advance paid nothingLeft hf19).withdrawn = (w.advance paid nothingLeft hf19).toWithdraw ∧
      (w.advance paid nothingLeft hf19).nextVestingWithdrawal = Time.maximum := by
  rw [Withdrawal.advance, if_pos (.inl last.ge)]
  cases hf19 <;> exact ⟨rfl, by simp [last], rfl⟩

/-- A payment brings the account to its next instalment. -/
theorem Account.After.advance (after : a.After amount start k) (running : k * instalment amount < amount)
    (plan : a'.withdrawal.plan = (a.withdrawal.advance a.nextPayment (a'.vestingShares = 0) hf19).plan)
    (shares : a.vestingShares - a.nextPayment ≤ a'.vestingShares) : a'.After amount start (k + 1) := by
  have paid := after.nextPayment running
  have enough := after.shares
  have before := after.plan
  rw [Withdrawal.After, if_pos running] at before
  obtain ⟨rate, toWithdraw, withdrawn, next⟩ := before
  have step : ((k + 1 : Nat) : Int) * instalment amount = k * instalment amount + instalment amount := by
    rw [Nat.cast_succ, add_mul, one_mul]
  refine ⟨Withdrawal.After.congr plan ?_, by omega, by omega⟩
  rw [Withdrawal.After]
  by_cases more : ((k + 1 : Nat) : Int) * instalment amount < amount
  · -- after a full instalment that leaves something, there are shares left as well
    have unfinished : ¬(a.withdrawal.toWithdraw ≤ a.withdrawal.withdrawn + a.nextPayment ∨
        decide (a'.vestingShares = 0) = true) := by
      rw [decide_eq_true_eq]
      omega
    rw [if_pos more, Withdrawal.advance, if_neg unfinished]
    refine ⟨rate, toWithdraw, by dsimp only; omega, ?_⟩
    rw [next, add_assoc, ← Nat.succ_mul]
  · rw [if_neg more]
    exact Withdrawal.advance_last (by omega)

theorem Account.After.advance_finished (after : a.After amount start k) (finished : ¬k * instalment amount < amount)
    (plan : a'.withdrawal.plan = (a.withdrawal.advance a.nextPayment (a'.vestingShares = 0) hf19).plan)
    (shares : a.vestingShares - a.nextPayment ≤ a'.vestingShares) : a'.After amount start k := by
  have paid := after.nextPayment_finished finished
  have before := after.plan
  rw [Withdrawal.After, if_neg finished] at before
  have nonneg := after.nonneg
  refine ⟨Withdrawal.After.congr plan ?_, by omega, by omega⟩
  rw [Withdrawal.After, if_neg finished]
  exact Withdrawal.advance_last (by omega)

end Plans

/-! ## What leaves a power-down alone -/

/-- The power-down of the account goes on as it is, and its shares do not get fewer. -/
def PlanKept (name : AccountName) (s t : Database) : Prop :=
  ∀ a, s.accounts.find? name = some a → ∃ a', t.accounts.find? name = some a' ∧
    a'.withdrawal.plan = a.withdrawal.plan ∧ a.vestingShares ≤ a'.vestingShares

instance : Std.Refl (PlanKept name) := ⟨fun _ a found => ⟨a, found, rfl, le_rfl⟩⟩

instance : IsTrans Database (PlanKept name) := by
  refine ⟨fun s t u first second a found => ?_⟩
  obtain ⟨b, foundB, planB, sharesB⟩ := first a found
  obtain ⟨c, foundC, planC, sharesC⟩ := second b foundB
  exact ⟨c, foundC, planC.trans planB, sharesB.trans sharesC⟩

abbrev outsidePlans : Footprint
  | .vesting | .withdrawal => false
  | _ => true

section Frames

variable {s t : Database} {name other : AccountName}

theorem Within.samePlan (within : Within outsidePlans s t) (found : s.accounts.find? name = some a) :
    ∃ a', t.accounts.find? name = some a' ∧ a'.withdrawal = a.withdrawal ∧ a'.vestingShares = a.vestingShares := by
  have shares : (t.accounts.find? name).map (·.vestingShares) = (s.accounts.find? name).map (·.vestingShares) :=
    Store.find?_eq_of_view (within .vesting rfl) name
  have plans : (t.accounts.find? name).map (·.withdrawal) = (s.accounts.find? name).map (·.withdrawal) :=
    Store.find?_eq_of_view (within .withdrawal rfl) name
  rw [found, map_some, map_eq_some_iff] at shares plans
  obtain ⟨b, foundB, sameShares⟩ := shares
  obtain ⟨c, foundC, samePlan⟩ := plans
  cases foundB.symm.trans foundC
  exact ⟨b, foundB, samePlan, sameShares⟩

theorem Within.planKept (within : Within outsidePlans s t) : PlanKept name s t := by
  intro a found
  obtain ⟨b, foundB, plan, shares⟩ := within.samePlan found
  exact ⟨b, foundB, by rw [plan], shares.ge⟩

instance : Finer (Within outsidePlans) (PlanKept name) := ⟨fun _ _ => Within.planKept⟩

/-- The update of an account that keeps the plan and takes no shares. -/
theorem planKept_updateAccount (plan : ∀ a, (f a).withdrawal.plan = a.withdrawal.plan)
    (shares : ∀ a, a.vestingShares ≤ (f a).vestingShares) : Preserves (PlanKept name) (updateAccount other f) := by
  refine ⟨fun s => find?_updateAccount.mono fun _ t updated a found => ?_⟩
  rw [updated, found]
  split
  · exact ⟨f a, rfl, plan a, shares a⟩
  · exact ⟨a, rfl, rfl, le_rfl⟩

/-- The update of another account. -/
theorem planKept_updateOther (different : other ≠ name) : Preserves (PlanKept name) (updateAccount other f) := by
  refine ⟨fun s => find?_updateAccount.mono fun _ t updated a found => ?_⟩
  rw [updated, if_neg (Ne.symm different)]
  exact ⟨a, found, rfl, le_rfl⟩

instance {account : Account} : Preserves (PlanKept name) (createAccount other account) := by
  refine ⟨fun s => ?_⟩
  simp only [createAccount, updateAccounts, ensures_steps]
  intro fresh a found
  rw [Store.find?_insert fresh]
  split
  next same =>
    rw [same, fresh] at found
    cases found
  · exact ⟨a, found, rfl, le_rfl⟩

theorem planKept_addVesting {delta : Int} (nonneg : 0 ≤ delta) :
    Preserves (PlanKept name) (modifyVestingShares other (· + delta)) :=
  planKept_updateAccount (fun _ => rfl) fun _ => Int.le_add_of_nonneg_right nonneg

instance : KeptByDeposits (PlanKept name) where
  within _ _ within := Within.planKept within.widen
  deposit _ _ nonneg := planKept_addVesting nonneg

/-- A payment takes the next instalment, wherever it goes. -/
theorem payWithdrawal_ensures (found : s.accounts.find? name = some a) :
    Ensures s (payWithdrawal name) fun _ t => ∃ a', t.accounts.find? name = some a' ∧
      a'.withdrawal.plan = (a.withdrawal.advance a.nextPayment (a'.vestingShares = 0) (s.hasHardfork 19)).plan ∧
      a.vestingShares - a.nextPayment ≤ a'.vestingShares := by
  simp only [payWithdrawal, getAccount, ensures_steps]
  rintro _ same
  cases found.symm.trans same
  have kept := refl_of (PlanKept name) s
  iterate 2 refine ensures_since _ kept fun _ _ kept => ?_
  obtain ⟨b, foundB, planB, sharesB⟩ := kept a found
  refine Ensures.mono find?_updateAccount fun _ t₄ taken => ?_
  refine Ensures.mono find?_updateAccount fun _ t₅ credited => ?_
  replace taken := taken name
  rw [if_pos rfl, foundB] at taken
  replace credited := credited name
  rw [if_pos rfl, taken] at credited
  intro c foundC
  rw [credited, map_some, map_some, some.injEq] at foundC
  refine Ensures.mono find?_updateAccount fun _ t₆ advanced => ?_
  replace advanced := advanced name
  rw [if_pos rfl, credited, map_some, map_some] at advanced
  refine ensures_frame (Within outsidePlans) fun _ t₇ funded => ?_
  refine ensures_since _ funded fun _ t₈ within => ?_
  obtain ⟨d, foundD, plan, shares⟩ := within.samePlan advanced
  subst foundC
  refine ⟨d, foundD, ?_, by rw [shares]; exact Int.sub_le_sub_right sharesB _⟩
  rw [plan, shares]
  exact Withdrawal.plan_advance planB

theorem planKept_payWithdrawal (different : other ≠ name) : Preserves (PlanKept name) (payWithdrawal other) := by
  have taken (f : Int → Int) : Preserves (PlanKept name) (modifyVestingShares other f) := planKept_updateOther different
  have advanced (f : Withdrawal → Withdrawal) : Preserves (PlanKept name) (modifyWithdrawal other f) :=
    planKept_updateOther different
  unfold payWithdrawal; infer_instance

end Frames

/-! ## Payments -/

/-- The vesting shares a payment takes from its account: those it has less afterwards, and those that came back
over a route to the account itself. -/
def Database.sharesTaken (s t : Database) (name : AccountName) : Int :=
  (s.sharesOf name).getD 0 - (t.sharesOf name).getD 0 +
    routeBack ((s.accounts.find? name).elim 0 Account.nextPayment) (s.routesInOrder name) name

theorem exists_of_payWithdrawal {s t : Database} {x : Unit} (run : payWithdrawal name s = .ok (x, t)) :
    ∃ a, s.accounts.find? name = some a := by
  simp only [payWithdrawal, getAccount, bind_eq_ok, require_eq_ok] at run
  obtain ⟨_, _, ⟨rfl, rfl⟩, a, _, ⟨_, _, ⟨rfl, rfl⟩, found, _⟩, _⟩ := run
  exact ⟨a, found⟩

/-- What is taken is the next payment. -/
theorem sharesTaken_eq {s t : Database} {x : Unit} (run : payWithdrawal name s = .ok (x, t)) :
    s.sharesTaken t name = (s.accounts.find? name).elim 0 Account.nextPayment := by
  obtain ⟨a, found⟩ := exists_of_payWithdrawal run
  obtain ⟨u, leftOver, paid, taken, -⟩ := payWithdrawal_pays found _ _ run
  have before : s.sharesOf name = some a.vestingShares := by rw [sharesOf, found, map_some]
  rw [sharesTaken, taken, if_pos rfl, paid.back, before, found, elim_some, map_some, map_some, getD_some, getD_some]
  omega

/-- What the loop of `process_vesting_withdrawals` takes from the account, payment by payment. -/
def paymentsIn (name : AccountName) : (fuel : Nat) → List AccountName → Database → List Int
  | 0, _, _ => []
  | _, [], _ => []
  | fuel + 1, current :: queue, s =>
    match payWithdrawal current s with
    | .error _ => []
    | .ok (_, t) =>
      let paid := if current = name then s.sharesTaken t name else 0
      (if 0 < paid then [paid] else []) ++ paymentsIn name fuel (t.requeue current queue) t

namespace Database

/-- The accounts that are due. -/
def dueWithdrawals (s : Database) : List AccountName :=
  (s.accounts.keys.filter fun name => s.nextVestingWithdrawal name ≤ s.head.time).insertionSort fun a b =>
    s.nextVestingWithdrawal a ≤ s.nextVestingWithdrawal b

/-- What `process_vesting_withdrawals` takes from the account. -/
def paymentsFrom (s : Database) (name : AccountName) : List Int :=
  paymentsIn name (s.dueWithdrawals.length * (s.head.time / vestingWithdrawInterval + 1)) s.dueWithdrawals s

/-- The account has got the given part of a power-down of `amount` begun at `start`. -/
structure PowersDown (s : Database) (name : AccountName) (amount : Int) (start : Time) (paid : List Int) : Prop where
  schedule : paid <+: instalments amount
  account : ∃ a, s.accounts.find? name = some a ∧ a.After amount start paid.length

end Database

section Payments

variable {s t : Database} {name : AccountName} {amount : Int} {start : Time} {paid : List Int}

theorem Database.PowersDown.planKept (down : s.PowersDown name amount start paid) (kept : PlanKept name s t) :
    t.PowersDown name amount start paid := by
  obtain ⟨a, found, after⟩ := down.account
  obtain ⟨b, foundB, plan, shares⟩ := kept a found
  exact ⟨down.schedule, b, foundB, after.congr plan shares⟩

/-- What is withdrawn of a power-down that goes on tells what was paid. -/
theorem Database.PowersDown.paid_eq {k : Nat} (down : s.PowersDown name amount start paid)
    (found : s.accounts.find? name = some a) (whole : a.withdrawal.toWithdraw = amount)
    (withdrawn : a.withdrawal.withdrawn = k * instalment amount) (running : k * instalment amount < amount) :
    paid = (instalments amount).take k := by
  obtain ⟨b, foundB, after⟩ := down.account
  cases found.symm.trans foundB
  have plan := after.plan
  rw [Withdrawal.After, whole, withdrawn] at plan
  split at plan
  next =>
    have length : paid.length = k := by exact_mod_cast (mul_right_cancel₀ instalment_pos.ne' plan.2.2.1).symm
    rw [← length]
    exact prefix_iff_eq_take.mp down.schedule
  next => exact absurd plan.2.1 running.ne

theorem isPrefix_concat {α : Type} {l l' : List α} {x : α} (before : l <+: l') (next : l'[l.length]? = some x) :
    l ++ [x] <+: l' := by
  obtain ⟨rest, rfl⟩ := before
  rw [getElem?_append_right le_rfl, Nat.sub_self] at next
  cases rest with
  | nil => cases next
  | cons y rest =>
    cases next
    exact ⟨rest, by simp⟩

/-- A payment of the account itself is the next instalment, or nothing once all are paid. -/
theorem Database.PowersDown.pays (down : s.PowersDown name amount start paid) :
    Ensures s (payWithdrawal name) fun _ t => t.PowersDown name amount start
      (paid ++ if 0 < (s.accounts.find? name).elim 0 Account.nextPayment then
        [(s.accounts.find? name).elim 0 Account.nextPayment] else []) := by
  obtain ⟨a, found, after⟩ := down.account
  refine (payWithdrawal_ensures found).mono fun _ t advanced => ?_
  obtain ⟨b, foundB, plan, shares⟩ := advanced
  rw [found, elim_some]
  by_cases running : paid.length * instalment amount < amount
  · have payment := after.nextPayment running
    have next := getElem?_instalments running
    rw [← payment] at next
    rw [if_pos (payment ▸ instalment_at_pos running)]
    refine ⟨isPrefix_concat down.schedule next, b, foundB, ?_⟩
    rw [length_append, length_singleton]
    exact after.advance running plan shares
  · rw [after.nextPayment_finished running, if_neg (lt_irrefl _), append_nil]
    exact ⟨down.schedule, b, foundB, after.advance_finished running plan shares⟩

theorem Database.PowersDown.paymentsIn (down : s.PowersDown name amount start paid) {fuel : Nat}
    {queue : List AccountName} :
    Ensures s (payWithdrawals fuel queue) fun _ t =>
      t.PowersDown name amount start (paid ++ Golos.paymentsIn name fuel queue s) := by
  induction fuel generalizing s queue paid with
  | zero =>
    simp only [payWithdrawals, ensures_pure, Golos.paymentsIn, append_nil]
    exact down
  | succ fuel ih =>
    cases queue with
    | nil =>
      simp only [payWithdrawals, ensures_pure, Golos.paymentsIn, append_nil]
      exact down
    | cons current queue =>
      simp only [payWithdrawals, ensures_steps]
      intro _ t run
      rw [Golos.paymentsIn, run]
      rw [← append_assoc]
      by_cases own : current = name
      · subst own
        rw [if_pos rfl, sharesTaken_eq run]
        exact ih (down.pays _ _ run)
      · rw [if_neg own, if_neg (lt_irrefl _), append_nil]
        exact ih (down.planKept ((planKept_payWithdrawal own).after run))

theorem Database.PowersDown.processed (down : s.PowersDown name amount start paid) :
    Ensures s processVestingWithdrawals fun _ t => t.PowersDown name amount start (paid ++ s.paymentsFrom name) := by
  simp only [processVestingWithdrawals]
  have run := @PowersDown.paymentsIn s name amount start paid down
    (s.dueWithdrawals.length * (s.head.time / vestingWithdrawInterval + 1)) s.dueWithdrawals
  rw [dueWithdrawals, length_insertionSort] at run
  rw [paymentsFrom, dueWithdrawals, length_insertionSort]
  exact run

end Payments

/-! ## Every due account is paid -/

/-- How often the account is due by the time `now`. -/
def Database.timesDue (s : Database) (now : Time) (name : AccountName) : Nat :=
  (now - s.nextVestingWithdrawal name) / vestingWithdrawInterval + 1

/-- The queue lists accounts that are due, each once. -/
structure Database.DueQueue (s : Database) (queue : List AccountName) : Prop where
  nodup : queue.Nodup
  due : ∀ n ∈ queue, s.nextVestingWithdrawal n ≤ s.head.time

section Queue

variable {s t : Database} {name current : AccountName} {queue : List AccountName} {fuel : Nat}

theorem Database.requeue_cases : t.requeue current queue = queue ∨
    t.nextVestingWithdrawal current ≤ t.head.time ∧ (t.requeue current queue).Perm (current :: queue) := by
  cases queue with
  | nil => exact .inl rfl
  | cons next rest =>
    rw [requeue]
    split
    next again =>
      refine .inr ⟨again.1, ?_⟩
      exact ((perm_orderedInsert _ _ _).cons next).trans (Perm.swap _ _ _)
    · exact .inl rfl

theorem Database.mem_of_mem_requeue (member : name ∈ t.requeue current queue) : name ∈ current :: queue := by
  rcases @requeue_cases t current queue with same | ⟨_, perm⟩
  · rw [same] at member
    exact mem_cons_of_mem _ member
  · exact perm.mem_iff.mp member

/-- A payment moves its account a week on, or to the end, and no other account. -/
theorem next_payWithdrawal : Ensures s (payWithdrawal current) fun _ t => t.head = s.head ∧
    (t.nextVestingWithdrawal current = s.nextVestingWithdrawal current + vestingWithdrawInterval ∨
      t.nextVestingWithdrawal current = Time.maximum) ∧
    ∀ n a, n ≠ current → s.accounts.find? n = some a → t.nextVestingWithdrawal n = s.nextVestingWithdrawal n := by
  intro x t run
  have head : t.head = s.head := read_of_run keepsHead .head run rfl
  refine ⟨head, ?_, fun n a different found => ?_⟩
  · obtain ⟨a, found⟩ := exists_of_payWithdrawal run
    obtain ⟨b, foundB, plan, _⟩ := payWithdrawal_ensures found x t run
    simp only [Withdrawal.plan, Prod.mk.injEq] at plan
    rw [nextVestingWithdrawal, foundB, elim_some, plan.2.2.2, nextVestingWithdrawal, found,
      elim_some, Withdrawal.advance]
    split
    · exact .inr rfl
    · exact .inl rfl
  · obtain ⟨b, foundB, plan, _⟩ := (planKept_payWithdrawal (Ne.symm different)).after run a found
    simp only [Withdrawal.plan, Prod.mk.injEq] at plan
    rw [nextVestingWithdrawal, nextVestingWithdrawal, foundB, found, elim_some, elim_some,
      plan.2.2.2]

theorem Database.timesDue_advance {now : Time}
    (later : t.nextVestingWithdrawal name = s.nextVestingWithdrawal name + vestingWithdrawInterval)
    (due : t.nextVestingWithdrawal name ≤ now) : t.timesDue now name + 1 = s.timesDue now name := by
  rw [timesDue, timesDue, later]
  unfold vestingWithdrawInterval Time at *
  omega

/-- A payment shortens the queue, or the time its account is still behind. -/
theorem Database.DueQueue.next (ready : s.DueQueue (current :: queue)) (present : ∀ n ∈ queue, n ∈ s.accounts.keys)
    (representable : s.head.time < Time.maximum) : Ensures s (payWithdrawal current) fun _ t =>
      t.DueQueue (t.requeue current queue) ∧ ((t.requeue current queue).map (t.timesDue s.head.time)).sum <
        ((current :: queue).map (s.timesDue s.head.time)).sum := by
  refine next_payWithdrawal.mono fun _ t paid => ?_
  obtain ⟨head, own, others⟩ := paid
  obtain ⟨fresh, nodup⟩ := nodup_cons.mp ready.nodup
  have same : ∀ n ∈ queue, t.nextVestingWithdrawal n = s.nextVestingWithdrawal n := by
    intro n member
    obtain ⟨a, found⟩ := isSome_iff_exists.mp (Store.find?_isSome.mpr (present n member))
    exact others n a (fun equal => fresh (equal ▸ member)) found
  have sameTimes : queue.map (t.timesDue s.head.time) = queue.map (s.timesDue s.head.time) :=
    map_congr_left fun n member => by rw [timesDue, timesDue, same n member]
  have stillDue : ∀ n ∈ queue, t.nextVestingWithdrawal n ≤ t.head.time := fun n member => by
    rw [same n member, head]
    exact ready.due n (mem_cons_of_mem _ member)
  rcases @requeue_cases t current queue with left | ⟨again, perm⟩
  · rw [left, sameTimes, map_cons, sum_cons]
    exact ⟨⟨nodup, stillDue⟩, Nat.lt_add_of_pos_left (Nat.succ_pos _)⟩
  · rw [head] at again
    have later : t.nextVestingWithdrawal current = s.nextVestingWithdrawal current + vestingWithdrawInterval :=
      own.resolve_right fun ended => absurd again (by rw [ended]; exact Nat.not_le_of_lt representable)
    have fewer := timesDue_advance later again
    refine ⟨⟨perm.nodup_iff.mpr ready.nodup, fun n member => ?_⟩, ?_⟩
    · rcases mem_cons.mp (perm.mem_iff.mp member) with rfl | member
      · rw [head]
        exact again
      · exact stillDue n member
    · rw [(perm.map _).sum_eq, map_cons, map_cons, sum_cons, sum_cons, sameTimes]
      omega

/-- An account in the queue is paid before the loop ends. -/
theorem Database.PowersDown.paymentsIn_ne_nil {x : Unit}
    (down : s.PowersDown name amount start paid) (running : paid.length * instalment amount < amount)
    (ready : s.DueQueue queue) (present : ∀ n ∈ queue, n ∈ s.accounts.keys)
    (representable : s.head.time < Time.maximum) (enough : (queue.map (s.timesDue s.head.time)).sum ≤ fuel)
    (member : name ∈ queue) (run : payWithdrawals fuel queue s = .ok (x, t)) :
      Golos.paymentsIn name fuel queue s ≠ [] := by
  induction fuel generalizing s queue with
  | zero =>
    have positive : 0 < s.timesDue s.head.time name := Nat.succ_pos _
    have atMost : s.timesDue s.head.time name ≤ _ := le_sum_of_mem (mem_map_of_mem member)
    omega
  | succ fuel ih =>
    cases queue with
    | nil => cases member
    | cons current queue =>
      simp only [payWithdrawals, bind_eq_ok] at run
      obtain ⟨_, u, first, _, _, ⟨rfl, rfl⟩, others⟩ := run
      rw [Golos.paymentsIn, first]
      by_cases own : current = name
      · subst own
        obtain ⟨a, found, after⟩ := down.account
        have positive : 0 < a.nextPayment := after.nextPayment running ▸ instalment_at_pos running
        simp [sharesTaken_eq first, found, positive]
      · dsimp only
        rw [if_neg own, if_neg (lt_irrefl _), nil_append]
        have kept := (planKept_payWithdrawal own).after first
        obtain ⟨readyNext, fewer⟩ := ready.next
          (fun n member => present n (mem_cons_of_mem _ member)) representable _ _ first
        have head : u.head = s.head := read_of_run keepsHead .head first rfl
        have frame : Within outsideDelegations s u := frame_of_run first
        have keys : u.accounts.keys = s.accounts.keys := Store.keys_eq_of_view (frame .delegated rfl)
        have still : name ∈ u.requeue current queue := by
          have behind := (mem_cons.mp member).resolve_left (Ne.symm own)
          rcases @requeue_cases u current queue with same | ⟨_, perm⟩
          · rwa [same]
          · exact perm.mem_iff.mpr (mem_cons_of_mem _ behind)
        refine ih (down.planKept kept) readyNext (fun n member => ?_) (head ▸ representable) ?_ still others
        · rw [keys]
          exact present n (mem_of_mem_requeue member)
        · rw [head]
          omega

theorem paymentsIn_eq_nil (absent : name ∉ queue) : paymentsIn name fuel queue s = [] := by
  induction fuel generalizing s queue with
  | zero => rfl
  | succ fuel ih =>
    cases queue with
    | nil => rfl
    | cons current queue =>
      have different : name ≠ current := fun same => absent (same ▸ mem_cons_self)
      rw [paymentsIn]
      split
      · rfl
      next t _ =>
        dsimp only
        rw [if_neg (Ne.symm different), if_neg (lt_irrefl _), nil_append]
        exact ih fun member => absent (mem_of_mem_requeue member)

theorem Database.mem_dueWithdrawals : name ∈ s.dueWithdrawals ↔
    name ∈ s.accounts.keys ∧ s.nextVestingWithdrawal name ≤ s.head.time := by
  simp [dueWithdrawals]

theorem Database.dueQueue (s : Database) : s.DueQueue s.dueWithdrawals where
  nodup := (perm_insertionSort _ _).nodup_iff.mpr (s.accounts.nodup.filter _)
  due _ member := (mem_dueWithdrawals.mp member).2

/-- No account is due more often than weeks have passed. -/
theorem Database.sum_timesDue_le (s : Database) : (queue.map (s.timesDue s.head.time)).sum ≤
    queue.length * (s.head.time / vestingWithdrawInterval + 1) := by
  have each : ∀ x ∈ queue.map (s.timesDue s.head.time), x ≤ s.head.time / vestingWithdrawInterval + 1 := by
    intro x member
    obtain ⟨n, _, rfl⟩ := mem_map.mp member
    exact Nat.succ_le_succ (Nat.div_le_div_right (Nat.sub_le _ _))
  have total := sum_le_card_nsmul _ _ each
  rwa [length_map, nsmul_eq_mul, Nat.cast_id] at total

/-- A running power-down is paid exactly when it is due. -/
theorem Database.PowersDown.paymentsFrom_ne_nil
    (down : s.PowersDown name amount start paid) (running : paid.length * instalment amount < amount)
    (representable : s.head.time < Time.maximum) (run : processVestingWithdrawals s = .ok ((), t)) :
    s.paymentsFrom name ≠ [] ↔ s.nextVestingWithdrawal name ≤ s.head.time := by
  obtain ⟨a, found, _⟩ := down.account
  have known : name ∈ s.accounts.keys := Store.find?_isSome.mp (found ▸ rfl)
  rw [paymentsFrom]
  refine ⟨fun pays => ?_, fun due => ?_⟩
  · by_contra early
    exact pays (paymentsIn_eq_nil fun member => early (mem_dueWithdrawals.mp member).2)
  · simp only [processVestingWithdrawals, bind_eq_ok] at run
    obtain ⟨_, _, ⟨rfl, rfl⟩, run⟩ := run
    rw [← length_insertionSort (fun a b => s.nextVestingWithdrawal a ≤ s.nextVestingWithdrawal b)] at run
    exact down.paymentsIn_ne_nil running s.dueQueue (fun n member => (mem_dueWithdrawals.mp member).1) representable
      s.sum_timesDue_le (mem_dueWithdrawals.mpr ⟨known, due⟩) run

end Queue

/-! ## Deeds -/

section Deeds

variable {s t : Database} {other : AccountName}

open Evaluator

variable {net : Network}

instance {o} : Preserves (PlanKept name) (setWithdrawVestingRoute o) := by
  have counted (account : AccountName) (f : Nat → Nat) : Preserves (PlanKept name)
      (modifyWithdrawal account fun w => { w with withdrawRoutes := f w.withdrawRoutes }) :=
    planKept_updateAccount (fun _ => rfl) fun _ => le_rfl
  unfold setWithdrawVestingRoute; infer_instance

theorem planKept_withdrawVesting (different : o.account ≠ name) :
    Preserves (PlanKept name) (withdrawVesting producing o) := by
  have changed (f : Withdrawal → Withdrawal) : Preserves (PlanKept name) (modifyWithdrawal o.account f) :=
    planKept_updateOther different
  unfold withdrawVesting; infer_instance

theorem planKept_recoverAccount {o : RecoverAccountOperation} (different : o.accountToRecover ≠ name) :
    Preserves (PlanKept name) (recoverAccount o) := by
  have changed (f : Withdrawal → Withdrawal) : Preserves (PlanKept name) (modifyWithdrawal o.accountToRecover f) :=
    planKept_updateOther different
  have stopped : Preserves (PlanKept name) (resetVestingWithdraw o.accountToRecover) := by
    unfold resetVestingWithdraw stopWithdraw; infer_instance
  unfold recoverAccount; infer_instance

theorem evaluate_planKept {nesting apply} {op : Operation}
    (other : op.isProposal = false) (undisturbed : ¬Deed.interrupts name (.evaluated op)) :
    Preserves (PlanKept name) (evaluate producing nesting apply op) := by
  cases op <;> simp only [evaluate, transferToVesting, accountCreate, accountCreateWithDelegation, challengeAuthority,
    createMinedAccount, payPowReward, pow, pow2]
  case withdrawVesting o => exact planKept_withdrawVesting undisturbed
  case recoverAccount o => exact planKept_recoverAccount undisturbed
  case proposalCreate | proposalUpdate | proposalDelete => cases other
  all_goals infer_instance

/-- The shares of the null account are burnt, and those of no other. -/
theorem planKept_clearNullAccountBalance (notNull : name ≠ .null) :
    Preserves (PlanKept name) clearNullAccountBalance := by
  have burnt (f : Int → Int) : Preserves (PlanKept name) (modifyVestingShares .null f) :=
    planKept_updateOther (Ne.symm notNull)
  have drained : Preserves (PlanKept name) drainNullVesting := by
    unfold drainNullVesting; infer_instance
  unfold clearNullAccountBalance; infer_instance

/-- From hardfork 16 on, the power-down of the account goes on. -/
def LatePlanKept (name : AccountName) (s t : Database) : Prop :=
  s.hasHardfork 16 = true → PlanKept name s t ∧ t.hasHardfork 16 = true

instance : Std.Refl (LatePlanKept name) := ⟨fun s late => ⟨refl_of (PlanKept name) s, late⟩⟩

instance : IsTrans Database (LatePlanKept name) := by
  refine ⟨fun s t u first second late => ?_⟩
  obtain ⟨kept, lateT⟩ := first late
  obtain ⟨keptU, lateU⟩ := second lateT
  exact ⟨trans_of (PlanKept name) kept keptU, lateU⟩

theorem planKept_rewrite {hardfork : Nat} (late : 16 < hardfork) :
    Preserves (PlanKept name) (net.rewrite hardfork) := by
  unfold Network.rewrite
  split
  all_goals first | omega | infer_instance

/-- Hardforks are applied in order, and those after the sixteenth do not rewrite power-downs. -/
instance {hardfork : Nat} : Preserves (LatePlanKept name) (net.applyHardfork hardfork) := by
  refine ⟨fun s => ?_⟩
  simp only [Network.applyHardfork, modifyHardforks, ensures_steps]
  intro x t rewritten _ inOrder late
  have forks : t.hardforks = s.hardforks := read_of_run keepsHardforks .hardforks rewritten rfl
  rw [hasHardfork, decide_eq_true_eq] at late
  rw [forks] at inOrder
  have kept := (@planKept_rewrite name net hardfork (by omega)).after rewritten
  refine ⟨kept, ?_⟩
  simp only [hasHardfork, decide_eq_true_eq, length_append, forks]
  omega

/-! ### Rewards -/

instance : KeptByPayouts (PlanKept name) where
  within _ _ within := Within.planKept within.widen
  createVesting _ _ := inferInstance
  payDelegator _ _ _ := by unfold payDelegator; infer_instance

end Deeds

/-! ## Histories -/

/-- What a deed takes from the account for its power-down. -/
def Deed.payments (name : AccountName) (s : Database) : Deed → List Int
  | .stepped .processVestingWithdrawals => if s.isTransitEnabled then [] else s.paymentsFrom name
  | _ => []

/-- What was taken from the account, payment by payment; deeds stand newest first. -/
def paymentsSince (name : AccountName) : List (Database × Deed) → List Int
  | [] => []
  | (s, deed) :: past => paymentsSince name past ++ deed.payments name s

/-- Since a power-down of `amount` was begun at `start`, the account was paid its instalments, each when it
was due. -/
structure DrawnDown (name : AccountName) (amount : Int) (start : Time) (since : List (Database × Deed)) (s : Database) :
    Prop where
  down : s.PowersDown name amount start (paymentsSince name since)
  late : s.hasHardfork 16 = true
  punctual : ∀ later u earlier, since = later ++ (u, .stepped .processVestingWithdrawals) :: earlier →
    u.isTransitEnabled = false → u.head.time < Time.maximum →
    (paymentsSince name earlier).length < (instalments amount).length →
      (u.paymentsFrom name ≠ [] ↔
        start + ((paymentsSince name earlier).length + 1) * vestingWithdrawInterval ≤ u.head.time)

section Histories

variable {net : Network} {s t : Database} {name : AccountName} {amount : Int} {start : Time} {deed : Deed}
  {since : List (Database × Deed)}

theorem WithdrawVestingOperation.vestingShares_nonneg (valid : o.validate = .ok ()) : 0 ≤ o.vestingShares.amount := by
  simp only [WithdrawVestingOperation.validate, except_bind_eq_ok, validThat_eq_ok] at valid
  obtain ⟨_, _, _, _, nonneg⟩ := valid
  exact nonneg

/-- An accepted operation begins a power-down that the account has the shares for. -/
theorem powersDown_withdrawVesting (lends : s.LendsNonneg)
    (late : s.hasHardfork 16 = true) (positive : 0 < o.vestingShares.amount) :
    Ensures s (Evaluator.withdrawVesting producing o) fun _ t =>
      t.PowersDown o.account o.vestingShares.amount s.head.time [] := by
  simp only [Evaluator.withdrawVesting, getAccount, amountIn, ensures_steps]
  intro a found nonneg _ enough
  refine ensures_frame (PlanKept o.account) fun _ t kept => ?_
  rw [if_neg positive.ne', ensures_bind]
  refine ensures_frame (PlanKept o.account) fun _ u checked => ?_
  obtain ⟨b, foundB, _, sharesB⟩ := trans_of (PlanKept o.account) kept checked a found
  refine Ensures.mono find?_updateAccount fun _ v begun => ?_
  replace begun := begun o.account
  rw [if_pos rfl, foundB, map_some] at begun
  have lent := lends.delegated_nonneg found
  have available : o.vestingShares.amount ≤ a.vestingShares := by
    simp only [Account.availableVestingShares, Bool.false_eq_true, if_false] at enough
    omega
  have rate : (if o.vestingShares.amount.tdiv (vestingWithdrawIntervals s) = 0 then 1
      else o.vestingShares.amount.tdiv (vestingWithdrawIntervals s)) = instalment o.vestingShares.amount := by
    rw [vestingWithdrawIntervals, if_pos late, Int.tdiv_eq_ediv_of_nonneg positive.le, instalment]
    split <;> omega
  refine ⟨ nil_prefix, _, begun, ?_, ?_, nonneg.trans sharesB⟩
  · rw [Withdrawal.After, if_pos (by simpa using positive)]
    exact ⟨rate, rfl, by simp, by simp⟩
  · simp only [length_nil, Nat.cast_zero, zero_mul, sub_zero]
    exact available.trans sharesB

theorem DrawnDown.keep (drawn : DrawnDown name amount start since s) (kept : PlanKept name s t)
    (late : t.hasHardfork 16 = true) (idle : deed = .stepped .processVestingWithdrawals → s.isTransitEnabled = true) :
    DrawnDown name amount start ((s, deed) :: since) t := by
  have nothing : deed.payments name s = [] := by
    unfold Deed.payments
    split
    · rw [idle rfl]
      rfl
    · rfl
  refine ⟨?_, late, fun later u earlier split noTransit => ?_⟩
  · rw [paymentsSince, nothing, append_nil]
    exact drawn.down.planKept kept
  · cases later with
    | nil =>
      cases split
      rw [idle rfl] at noTransit
      cases noTransit
    | cons _ later =>
      cases split
      exact drawn.punctual later u earlier rfl noTransit

theorem DrawnDown.process (drawn : DrawnDown name amount start since s) (positive : 0 < amount)
    (run : processVestingWithdrawals s = .ok ((), t)) (late : t.hasHardfork 16 = true)
      (noTransit : s.isTransitEnabled = false) :
    DrawnDown name amount start ((s, .stepped .processVestingWithdrawals) :: since) t := by
  have payments : Deed.payments name s (.stepped .processVestingWithdrawals) = s.paymentsFrom name := by
    rw [Deed.payments, noTransit]
    rfl
  refine ⟨?_, late, fun later u earlier split noTransit early unfinished => ?_⟩
  · rw [paymentsSince, payments]
    exact drawn.down.processed _ _ run
  · cases later with
    | nil =>
      cases split
      have running := (lt_length_instalments positive.le).mp unfinished
      rw [drawn.down.paymentsFrom_ne_nil running early run]
      obtain ⟨a, found, after⟩ := drawn.down.account
      have plan := after.plan
      rw [Withdrawal.After, if_pos running] at plan
      rw [nextVestingWithdrawal, found, elim_some, plan.2.2.2]
    | cons _ later =>
      cases split
      exact drawn.punctual later u earlier rfl noTransit early unfinished

theorem DrawnDown.next (drawn : DrawnDown name amount start since s) (positive : 0 < amount) (notNull : name ≠ .null)
    (undisturbed : ¬deed.interrupts name) (done : Does net s deed t) :
    DrawnDown name amount start ((s, deed) :: since) t := by
  have late := done.hasHardfork drawn.late
  cases done using Does.byKind with
  | record record frame =>
    refine drawn.keep (Within.planKept frame.widen) late fun same => ?_
    rw [same] at record
    cases record
  | evaluated other valid run =>
    refine drawn.keep ((evaluate_planKept other undisturbed).after run) late fun same => ?_
    cases same
  | @stepped _ _ step noOperations run =>
    have cleared := planKept_clearNullAccountBalance notNull
    cases step <;> simp only [BlockStep.run, processFunds] at run
    case applyTransaction | clearExpiredProposals => cases noOperations
    case processVestingWithdrawals =>
      simp only [unlessTransit, bind_eq_ok] at run
      obtain ⟨_, _, ⟨rfl, rfl⟩, run⟩ := run
      cases transit : s.isTransitEnabled with
      | false =>
        rw [transit] at run
        exact drawn.process positive run late transit
      | true =>
        rw [transit] at run
        obtain ⟨_, rfl⟩ := pure_eq_ok.mp run
        exact drawn.keep (refl_of (PlanKept name) s) late fun _ => transit
    case processHardforks =>
      have kept := (inferInstance : Preserves (LatePlanKept name) net.processHardforks).after run drawn.late
      refine drawn.keep kept.1 late fun same => ?_
      cases same
    all_goals
      refine drawn.keep (frame_of_run run) late fun same => ?_
      cases same

/-- What holds of every power-down begun from hardfork 16 on that nothing has interrupted since. -/
def Moment.DrawsDown (m : Moment) : Prop :=
  ∀ since earlier s o, m.past = since ++ (s, .evaluated (.withdrawVesting o)) :: earlier → s.hasHardfork 16 = true →
    o.vestingShares.amount ≠ 0 → o.account ≠ .null → (∀ e ∈ since, ¬e.2.interrupts o.account) →
      0 < o.vestingShares.amount ∧ DrawnDown o.account o.vestingShares.amount s.head.time since m.state

theorem Moment.DrawsDown.next (draws : m.DrawsDown) (lends : m.state.LendsNonneg)
    (done : Does net m.state deed t) : (m.next deed t).DrawsDown := by
  intro since earlier s o split late nonzero notNull undisturbed
  cases since with
  | nil =>
    -- the power-down has just begun
    cases split
    have still := done.hasHardfork late
    cases done with
    | evaluated other valid run =>
      have positive : 0 < o.vestingShares.amount :=
        lt_of_le_of_ne (WithdrawVestingOperation.vestingShares_nonneg valid) (Ne.symm nonzero)
      refine ⟨positive, powersDown_withdrawVesting lends late positive _ _ run, still, fun later u earlier split => ?_⟩
      cases later <;> cases split
  | cons newest since =>
    obtain ⟨rfl, before⟩ := cons.inj split
    obtain ⟨positive, drawn⟩ := draws since earlier s o before late nonzero notNull fun e member =>
      undisturbed e (mem_cons_of_mem _ member)
    exact ⟨positive, drawn.next positive notNull (undisturbed _ mem_cons_self) done⟩

theorem Network.Chronicle.drawsDown {allowed : Database → BlockStep → Prop} {rest : List BlockStep}
    (chronicle : net.Chronicle allowed rest m) : m.DrawsDown := by
  have keeps : net.KeepsInvariant (fun _ _ => True) LendsNonneg := lendsNonneg_keepsInvariant
  have rule := @Network.Chronicle.invariant net allowed fun m => m.state.LendsNonneg ∧ m.DrawsDown
  refine (rule (fun s begun => ⟨keeps.genesis _ _ begun, fun since earlier _ _ split => ?_⟩)
    (fun m deed t _ before done => ⟨?_, before.2.next before.1 done⟩) chronicle).2
  · cases since <;> cases split
  · exact keeps.does (fun _ _ => trivial) before.1 done

/-- Every state has a history, and in every history a power-down of an account other than `null` that was
begun from hardfork 16 on and not interrupted is paid in instalments that add up to its amount. -/
theorem withdrawals_exact (reachable : net.Reachable s) :
    (∃ past rest, net.Chronicle (fun _ _ => True) rest ⟨past, s⟩) ∧
      ∀ past rest, net.Chronicle (fun _ _ => True) rest ⟨past, s⟩ →
        ∀ since earlier s₀ o, past = since ++ (s₀, .evaluated (.withdrawVesting o)) :: earlier →
          s₀.hasHardfork 16 = true → o.vestingShares.amount ≠ 0 → o.account ≠ .null →
          (∀ e ∈ since, ¬e.2.interrupts o.account) → DrawnDown o.account o.vestingShares.amount s₀.head.time since s ∧
            (instalments o.vestingShares.amount).sum = o.vestingShares.amount ∧
            ((instalments o.vestingShares.amount).length : Int) =
              ⌈(o.vestingShares.amount : ℚ) / max 1 ⌊(o.vestingShares.amount : ℚ) / 13⌋⌉ ∧
            ∀ a, s.accounts.find? o.account = some a → a.withdrawal.withdrawn ≤ a.withdrawal.toWithdraw ∧
              (a.withdrawal.toWithdraw - a.withdrawal.withdrawn < a.withdrawal.vestingWithdrawRate →
                a.withdrawal.vestingWithdrawRate ≠ 0) := by
  refine ⟨reachable.chronicled, fun past rest chronicle since earlier s₀ o split late nonzero notNull undisturbed => ?_⟩
  obtain ⟨positive, drawn⟩ := chronicle.drawsDown since earlier s₀ o split late nonzero notNull undisturbed
  refine ⟨drawn, sum_instalments positive.le, length_instalments positive.le, fun a found => ?_⟩
  obtain ⟨b, foundB, after⟩ := drawn.down.account
  cases found.symm.trans foundB
  exact ⟨after.plan.withdrawn_le, after.plan.rate_ne_zero⟩

/-- Three instalments of Alice's power-down have been paid, one in each of the last three blocks, and her shares
went down by each of them. -/
theorem withdrawals_exact_inUse : ∃ since earlier s₀,
    (usedFor 68).past = since ++ (s₀, .evaluated (.withdrawVesting ⟨.alice, .vests 1300000000000⟩)) :: earlier ∧
      (∀ e ∈ since, ¬e.2.interrupts .alice) ∧
      DrawnDown .alice 1300000000000 s₀.head.time since (usedFor 68).state ∧
      paymentsSince .alice since = [100000000000, 100000000000, 100000000000] := by
  obtain ⟨⟨s₀, deed⟩, begun, powerDown⟩ := (Option.any_eq_true _ _).mp usedFor_quiet.begun
  obtain ⟨-, since, earlier, split, undisturbed⟩ := find?_eq_some_iff_append.mp begun
  obtain ⟨o, rfl, isAlice, amount, late⟩ : ∃ o, deed = .evaluated (.withdrawVesting o) ∧ o.account = .alice ∧
      o.vestingShares = .vests 1300000000000 ∧ s₀.hasHardfork 16 = true := by
    split at powerDown
    next o isDeed => exact ⟨o, isDeed, of_decide_eq_true powerDown⟩
    next => cases powerDown
  obtain rfl : o = ⟨.alice, .vests 1300000000000⟩ := by rw [← isAlice, ← amount]
  have undisturbed : ∀ e ∈ since, ¬e.2.interrupts .alice := fun e member => by simpa using undisturbed e member
  obtain ⟨drawn, -⟩ := (withdrawals_exact (usedFor_reachable 68)).2 _ _ (usedFor_chronicle 68) since earlier s₀ _ split
    late (by decide) (by decide) undisturbed
  refine ⟨since, earlier, s₀, split, undisturbed, drawn, ?_⟩
  obtain ⟨a, found, -⟩ := drawn.down.account
  have numbers := usedFor_quiet.withdrawn
  rw [found, map_some, some.injEq, Prod.mk.injEq] at numbers
  exact (drawn.down.paid_eq (k := 3) found numbers.1 (numbers.2.trans (by decide)) (by decide)).trans (by decide)

end Histories

/-! ## The account `null`

In the blocks that are exempt from the check of active authorities, anybody can begin a power-down of
`null`.  Its shares are burnt at the end of the block. -/

/-- A state before the first exempt block, with hardfork 16. -/
def beforeExemptBlock : Database :=
  { bareGenesis with
    head := { bareGenesis.head with headBlockNumber := 3705110, headBlockId := ⟨3705110, 7⟩, time := 1500000000 }
    lastIrreversibleBlockNum := 3705100
    hardforks := { bareGenesis.hardforks with
      processedHardforks := hardforkTimes.take 17
      lastHardfork := 16
      currentHardforkVersion := hardforkVersion 16 } }

def nullPowerDown : WithdrawVestingOperation := ⟨.null, .vests 13000⟩

def exemptTransaction : Transaction where
  id := 1
  refBlockNum := 0
  refBlockPrefix := 0
  expiration := 1500000030
  operations := [.transferToVesting ⟨.initMiner, .null, .steem 13000⟩, .withdrawVesting nullPowerDown]
  signatureKeys := [1]

def exemptBlock : Block where
  previous := beforeExemptBlock.head.headBlockId
  timestamp := 1500000003
  witness := .initMiner
  transactionMerkleRoot := 0
  extensions := [.version (hardforkVersion 16)]
  transactions := [exemptTransaction]
  digest := 1
  merkleRoot := 0
  signee := 1
  size := 1000

def afterExemptBlock : Database := stateAfter (Network.bare.applyBlock exemptBlock) beforeExemptBlock

/-- A week later, when the first instalment is due. -/
def weekAfterExemptBlock : Database :=
  { afterExemptBlock with head := { afterExemptBlock.head with time := 1500604803 } }

/-- Of the 13000 to be withdrawn nothing is, and the power-down ends. -/
theorem withdrawal_of_null :
    beforeExemptBlock.hasHardfork 16 = true ∧ (Network.bare.applyBlock exemptBlock beforeExemptBlock).isOk = true ∧
      (afterExemptBlock.accounts.find? .null).map (fun a => (a.withdrawal.plan, a.vestingShares)) =
        some ((1000, 13000, 0, 1500604800), 0) ∧ weekAfterExemptBlock.paymentsFrom .null = [] ∧
      ((stateAfter processVestingWithdrawals weekAfterExemptBlock).accounts.find? .null).map
        (fun a => a.withdrawal.plan) = some (0, 13000, 0, Time.maximum) :=
  ⟨by decide +kernel, by decide +kernel, by decide +kernel, by decide +kernel, by decide +kernel⟩

end Golos
