import Mathlib.Algebra.BigOperators.Group.List.Basic
import Mathlib.Algebra.Order.Ring.Nat
import Mathlib.Tactic.Linarith
import Mathlib.Tactic.Ring

/-! # Shares rounded down

An amount is shared in proportion to weights, every share rounded down.  However the total is
taken, if no weight is missing in it the shares are never more than the amount.
-/

namespace Shares

variable {α : Type} {amount total : Nat}

/-- The share of a weight in an amount. -/
def share (amount total weight : Nat) : Nat := amount * weight / total

theorem share_mul_le (amount total weight : Nat) : share amount total weight * total ≤ amount * weight :=
  Nat.div_mul_le_self ..

/-- A weight of no more than all gives no more than all. -/
theorem share_le {weight : Nat} (part : weight ≤ total) : share amount total weight ≤ amount := by
  by_cases nothing : total = 0
  · simp [share, nothing]
  · refine Nat.le_of_mul_le_mul_right ?_ (Nat.pos_of_ne_zero nothing)
    exact (share_mul_le amount total weight).trans (Nat.mul_le_mul_left amount part)

/-- All shares together, of what is weighed by `w`. -/
theorem sum_share_mul_le {l : List α} {w : α → Nat} :
    (l.map fun a => share amount total (w a)).sum * total ≤ amount * (l.map w).sum := by
  induction l with
  | nil => simp
  | cons a l ih =>
    have first := share_mul_le amount total (w a)
    simp only [List.map_cons, List.sum_cons, add_mul, mul_add]
    omega

theorem sum_share_le {l : List α} {w : α → Nat} (positive : 0 < total) (all : (l.map w).sum ≤ total) :
    (l.map fun a => share amount total (w a)).sum ≤ amount := by
  refine Nat.le_of_mul_le_mul_right ?_ positive
  exact sum_share_mul_le.trans (Nat.mul_le_mul_left _ all)

/-- Every share loses less than one. -/
theorem lt_sum_share_add_length {l : List α} {w : α → Nat} (nonempty : l ≠ []) (positive : 0 < total)
    (whole : (l.map w).sum = total) : amount < (l.map fun a => share amount total (w a)).sum + l.length := by
  have below {l : List α} : amount * (l.map w).sum + l.length ≤
      ((l.map fun a => share amount total (w a)).sum + l.length) * total := by
    induction l with
    | nil => simp
    | cons a l ih =>
      have first : amount * w a < (share amount total (w a) + 1) * total :=
        Nat.lt_mul_of_div_lt (Nat.lt_succ_self _) positive
      simp only [List.map_cons, List.sum_cons, List.length_cons, add_mul, mul_add, one_mul] at *
      omega
  refine Nat.lt_of_mul_lt_mul_right (a := total) (Nat.lt_of_lt_of_le ?_ below)
  rw [whole]
  exact Nat.lt_add_of_pos_right (List.length_pos_iff.mpr nonempty)

/-- A part of the amount is set aside by its weight and shared again, by the same weights or some of
them. -/
theorem sum_share_add_le {l : List α} {w w' : α → Nat} {part rest : Nat} (positive : 0 < total)
    (all : part + (l.map w).sum ≤ total) (again : (l.map w').sum ≤ rest) :
    (l.map fun a => share amount total (w a)).sum + (l.map fun a => share (share amount total part) rest (w' a)).sum ≤
      amount := by
  have second : (l.map fun a => share (share amount total part) rest (w' a)).sum ≤ share amount total part := by
    by_cases nothing : rest = 0
    · simp [share, nothing]
    · exact sum_share_le (Nat.pos_of_ne_zero nothing) again
  refine Nat.le_of_mul_le_mul_right ?_ positive
  calc ((l.map fun a => share amount total (w a)).sum +
          (l.map fun a => share (share amount total part) rest (w' a)).sum) * total
      ≤ ((l.map fun a => share amount total (w a)).sum + share amount total part) * total :=
        Nat.mul_le_mul_right _ (Nat.add_le_add_left second _)
    _ ≤ amount * (l.map w).sum + amount * part := by
        rw [add_mul]
        exact Nat.add_le_add sum_share_mul_le (share_mul_le ..)
    _ = amount * (part + (l.map w).sum) := by ring
    _ ≤ amount * total := Nat.mul_le_mul_left _ all

end Shares
