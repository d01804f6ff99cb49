import Mathlib.Algebra.Order.Ring.Nat
import Mathlib.Data.List.Basic
import Mathlib.Tactic.Common
import Mathlib.Tactic.Linarith
import Mathlib.Tactic.Ring

/-! # Token buckets

A bucket of a given size fills by one unit a second, and every action takes its cost out of it.  What
is taken in any period is then at most what the bucket holds and what comes in: `Spent` is the
invariant that carries this through a run, and `accepted_greedy` says that the bound is reached.
-/

namespace TokenBucket

open List

/-- What is left after one more action, `elapsed` seconds after the last one; nothing if there is not
enough. -/
def take (size cost level elapsed : Nat) : Option Nat :=
  if cost ≤ min (level + elapsed) size then some (min (level + elapsed) size - cost) else none

/-- The attempts that succeed, of those made at the given times. -/
def accepted (size cost : Nat) : (level last : Nat) → List Nat → List Nat
  | _, _, [] => []
  | level, last, now :: times =>
    match take size cost level (now - last) with
    | some left => now :: accepted size cost left now times
    | none => accepted size cost level last times

/-! ## What is spent in a period -/

/-- In the period from `start` on there were `count` actions, and `level` was left at the time `last`. -/
structure Spent (size cost start count level last : Nat) : Prop where
  since : start ≤ last
  bound : count * cost + level ≤ size + (last - start)

section Spent

variable {size cost start count level last now left : Nat}

theorem take_eq_some {elapsed : Nat} :
    take size cost level elapsed = some left ↔ left + cost = min (level + elapsed) size := by
  unfold take
  split
  · rw [Option.some.injEq]
    omega
  · refine iff_of_false nofun ?_
    omega

theorem Spent.first (since : start ≤ now) (fits : left + cost ≤ size) : Spent size cost start 1 left now :=
  ⟨since, by omega⟩

theorem Spent.next (spent : Spent size cost start count level last) (later : last ≤ now)
    (fits : left + cost ≤ level + (now - last)) : Spent size cost start (count + 1) left now := by
  obtain ⟨since, bound⟩ := spent
  refine ⟨since.trans later, ?_⟩
  rw [Nat.succ_mul]
  omega

/-- Waiting without being credited for it. -/
theorem Spent.wait (spent : Spent size cost start count level last) (later : last ≤ now) :
    Spent size cost start count level now := by
  obtain ⟨since, bound⟩ := spent
  exact ⟨since.trans later, by omega⟩

theorem Spent.count_mul_le (spent : Spent size cost start count level last) {period : Nat}
    (ended : last ≤ start + period) :
    count * cost ≤ size + period := by
  have := spent.bound
  omega

end Spent

/-! ## Runs -/

section Runs

variable {size cost start period level last : Nat} {times : List Nat}

theorem accepted_sublist : (accepted size cost level last times).Sublist times := by
  induction times generalizing level last with
  | nil => exact .slnil
  | cons now times ih =>
    unfold accepted
    split
    · exact ih.cons_cons now
    · exact ih.cons now

/-- Whether an attempt falls into the period. -/
def inPeriod (start period t : Nat) : Bool := start ≤ t && t ≤ start + period

/-- The attempts that succeed in a period in which `count` have succeeded already. -/
theorem Spent.accepted {count : Nat} (spent : Spent size cost start count level last)
    (ended : last ≤ start + period) (order : (last :: times).Pairwise (· ≤ ·)) :
    (count + (accepted size cost level last times).countP (inPeriod start period)) * cost ≤ size + period := by
  induction times generalizing count level last with
  | nil => exact spent.count_mul_le ended
  | cons now times ih =>
    rw [pairwise_cons, pairwise_cons] at order
    obtain ⟨before, later, sorted⟩ := order
    have ordered := before now mem_cons_self
    unfold TokenBucket.accepted
    cases taken : take size cost level (now - last) with
    | none =>
      refine ih spent ended (pairwise_cons.mpr ⟨fun t member => ?_, sorted⟩)
      exact before t (mem_cons_of_mem _ member)
    | some left =>
      have fits := take_eq_some.mp taken
      have next := spent.next ordered (fits.le.trans (Nat.min_le_left ..))
      by_cases inside : now ≤ start + period
      · have counted : inPeriod start period now = true := by
          have := spent.since.trans ordered
          simp [inPeriod, this, inside]
        rw [countP_cons_of_pos counted, Nat.add_comm _ 1, ← Nat.add_assoc]
        exact ih next inside (pairwise_cons.mpr ⟨later, sorted⟩)
      · -- the period is over, and nothing after this counts
        have outside : (now :: TokenBucket.accepted size cost left now times).countP (inPeriod start period) = 0 := by
          rw [countP_eq_zero, forall_mem_cons]
          refine ⟨by simp [inPeriod, inside], fun t member => ?_⟩
          have := later t (accepted_sublist.subset member)
          simp only [inPeriod, Bool.and_eq_true, decide_eq_true_eq]
          omega
        rw [outside]
        exact spent.count_mul_le ended

/-- In any period, what the actions cost is at most the size of the bucket and what comes in. -/
theorem accepted_le (order : (last :: times).Pairwise (· ≤ ·)) :
    (accepted size cost level last times).countP (inPeriod start period) * cost ≤ size + period := by
  induction times generalizing level last with
  | nil => simp [accepted]
  | cons now times ih =>
    rw [pairwise_cons, pairwise_cons] at order
    obtain ⟨before, later, sorted⟩ := order
    unfold accepted
    cases taken : take size cost level (now - last) with
    | none =>
      refine ih (pairwise_cons.mpr ⟨fun t member => ?_, sorted⟩)
      exact before t (mem_cons_of_mem _ member)
    | some left =>
      have order' : (now :: times).Pairwise (· ≤ ·) := pairwise_cons.mpr ⟨later, sorted⟩
      cases counted : inPeriod start period now with
      | false =>
        rw [countP_cons_of_neg (by simp [counted])]
        exact ih order'
      | true =>
        simp only [inPeriod, Bool.and_eq_true, decide_eq_true_eq] at counted
        have fits := (take_eq_some.mp taken).le.trans (Nat.min_le_right ..)
        rw [countP_cons_of_pos (by simpa [inPeriod] using counted), Nat.add_comm]
        exact (Spent.first counted.1 fits).accepted counted.2 order'

/-! ## A run that reaches the bound -/

/-- Attempts at even intervals of `cost`. -/
def steady (cost : Nat) : (count last : Nat) → List Nat
  | 0, _ => []
  | count + 1, last => (last + cost) :: steady cost count (last + cost)

/-- As many attempts at once as a full bucket allows, and then one as soon as each is paid for. -/
def greedy (cost burst later : Nat) : List Nat := replicate burst 0 ++ steady cost later 0

variable {burst later count : Nat}

theorem mem_steady {t : Nat} (member : t ∈ steady cost count last) : last ≤ t ∧ t ≤ last + count * cost := by
  induction count generalizing last with
  | zero => cases member
  | succ count ih =>
    rw [steady, mem_cons] at member
    rw [Nat.succ_mul]
    obtain rfl | member := member
    · omega
    · have := ih member
      omega

theorem length_steady : (steady cost count last).length = count := by
  induction count generalizing last with
  | zero => rfl
  | succ count ih => rw [steady, length_cons, ih]

theorem steady_sorted : (steady cost count last).Pairwise (· ≤ ·) := by
  induction count generalizing last with
  | zero => exact .nil
  | succ count ih =>
    rw [steady, pairwise_cons]
    exact ⟨fun t member => (mem_steady member).1, ih⟩

theorem greedy_sorted : (0 :: greedy cost burst later).Pairwise (· ≤ ·) := by
  rw [pairwise_cons, greedy, pairwise_append]
  refine ⟨fun t _ => Nat.zero_le t, ?_, steady_sorted, fun x first y _ => ?_⟩
  · exact pairwise_replicate.mpr (.inr (Nat.le_refl 0))
  · rw [eq_of_mem_replicate first]
    exact Nat.zero_le y

theorem accepted_steady (fits : level + cost ≤ size) :
    accepted size cost level last (steady cost count last) = steady cost count last := by
  induction count generalizing last with
  | zero => rfl
  | succ count ih =>
    have taken : take size cost level (last + cost - last) = some level := take_eq_some.mpr (by omega)
    rw [steady, accepted, taken]
    dsimp only
    rw [ih]

/-- From a full bucket they all succeed. -/
theorem accepted_greedy (positive : 1 ≤ burst) (fits : burst * cost ≤ size) :
    accepted size cost size 0 (greedy cost burst later) = greedy cost burst later := by
  have bursts (n level : Nat) (enough : n * cost ≤ level) (le : level ≤ size) (rest : List Nat) :
      accepted size cost level 0 (replicate n 0 ++ rest) =
        replicate n 0 ++ accepted size cost (level - n * cost) 0 rest := by
    induction n generalizing level with
    | zero => rw [Nat.zero_mul, Nat.sub_zero]; rfl
    | succ n ih =>
      rw [Nat.succ_mul] at enough ⊢
      have taken : take size cost level (0 - 0) = some (level - cost) := take_eq_some.mpr (by omega)
      rw [replicate_succ, cons_append, accepted, taken]
      dsimp only
      rw [ih (level - cost) (by omega) (by omega), Nat.sub_sub, Nat.add_comm cost]
      rfl
  rw [greedy, bursts burst size fits (Nat.le_refl size), accepted_steady]
  have : cost ≤ burst * cost := Nat.le_mul_of_pos_left cost positive
  omega

theorem mem_greedy {t : Nat} (member : t ∈ greedy cost burst later) : t ≤ later * cost := by
  rw [greedy, mem_append] at member
  obtain first | second := member
  · rw [eq_of_mem_replicate first]
    exact Nat.zero_le _
  · simpa using (mem_steady second).2

/-- And they all fall into the time the later ones take. -/
theorem countP_greedy : (greedy cost burst later).countP (inPeriod 0 (later * cost)) = burst + later := by
  have all : ∀ t ∈ greedy cost burst later, inPeriod 0 (later * cost) t = true := by
    intro t member
    rw [inPeriod, Bool.and_eq_true, decide_eq_true_eq, decide_eq_true_eq, Nat.zero_add]
    exact ⟨Nat.zero_le _, mem_greedy member⟩
  rw [countP_eq_length.mpr all, greedy, length_append, length_replicate, length_steady]

/-! ## Rates

A limit of `items` actions in `size` seconds is kept by a bucket of that size when an action costs
`size / items` and nothing is lost in the division.  What is lost adds up over time. -/

variable {items : Nat}

theorem rate_of_cost {count : Nat} (divides : items ∣ size) (bound : count * (size / items) ≤ size + period) :
    count * size ≤ items * (size + period) :=
  calc count * size = items * (count * (size / items)) := by rw [Nat.mul_left_comm, Nat.mul_div_cancel' divides]
    _ ≤ items * (size + period) := Nat.mul_le_mul_left _ bound

/-- With anything lost, the attempts at even intervals get one action ahead of the limit, and more. -/
theorem rate_exceeded (positive : 1 ≤ items) (lost : ¬items ∣ size) :
    items * (size + (size + 1) * (size / items)) + size <
      (accepted size (size / items) size 0 (greedy (size / items) items (size + 1))).countP
        (inPeriod 0 ((size + 1) * (size / items))) * size := by
  have fits : items * (size / items) ≤ size := Nat.mul_div_le size items
  have less : items * (size / items) + 1 ≤ size := by
    refine Nat.lt_of_le_of_ne fits fun exactly => lost ⟨size / items, exactly.symm⟩
  rw [accepted_greedy positive fits, countP_greedy]
  -- a second for every second of the window is lost on the way
  nlinarith

end Runs

end TokenBucket
