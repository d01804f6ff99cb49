import Mathlib.Algebra.Order.Ring.Int
import Mathlib.Tactic.Linarith
import Mathlib.Tactic.Ring

/-! # Exchange at a rate, in whole units

An offer of `offered` units at the rate of `base` units for `quote` units of another
good, and a buyer with a budget in that good.  Amounts are whole, so what a side gets
is rounded down.  `exchange` is what is paid and what is received; the lemmas bound the
rounding by less than one unit, for the rate of the offer and for any rate of the
buyer's that the offer meets.
-/

namespace Exchange

/-- What the buyer pays and what the buyer receives: the whole budget is spent if the offer
is worth it, else the whole offer is bought. -/
def exchange (offered base quote budget : Int) : Int × Int :=
  if budget ≤ offered * quote / base then (budget, budget * base / quote)
  else (offered * quote / base, offered)

section

variable {offered base quote budget : Int}

/-- One side gives everything it has. -/
theorem exchange_exhausts :
    (exchange offered base quote budget).1 = budget ∨ (exchange offered base quote budget).2 = offered := by
  unfold exchange
  split <;> simp

theorem exchange_paid_le : (exchange offered base quote budget).1 ≤ budget := by
  unfold exchange
  split
  · exact le_rfl
  · exact le_of_lt (not_le.mp ‹_›)

variable (basePos : 0 < base) (quotePos : 0 < quote)

include basePos quotePos

theorem exchange_received_le : (exchange offered base quote budget).2 ≤ offered := by
  unfold exchange
  split
  next affordable =>
    have worth : budget * base ≤ offered * quote := (Int.le_ediv_iff_mul_le basePos).mp affordable
    exact Int.ediv_le_of_le_mul quotePos worth
  · exact le_rfl

/-- The seller gets the value of what is sold, less than one unit short. -/
theorem exchange_fair_to_seller :
    (exchange offered base quote budget).2 * quote < ((exchange offered base quote budget).1 + 1) * base := by
  unfold exchange
  split
  · have sold := Int.ediv_mul_le (budget * base) (ne_of_gt quotePos)
    have : (budget + 1) * base = budget * base + base := by rw [add_mul, one_mul]
    simp only
    omega
  · exact Int.lt_ediv_add_one_mul_self _ basePos

/-- The buyer gets the value of what is paid, less than one unit short. -/
theorem exchange_fair_to_buyer :
    (exchange offered base quote budget).1 * base < ((exchange offered base quote budget).2 + 1) * quote := by
  unfold exchange
  split
  · exact Int.lt_ediv_add_one_mul_self _ quotePos
  · have paid := Int.ediv_mul_le (offered * quote) (ne_of_gt basePos)
    have : (offered + 1) * quote = offered * quote + quote := by rw [add_mul, one_mul]
    simp only
    omega

/-- A buyer with a rate of one's own, `base'` for `quote'`, that the offer meets gets what that
rate asks, less than one unit short. -/
theorem exchange_meets_rate {base' quote' : Int} (basePos' : 0 < base')
    (meets : quote * quote' ≤ base * base') (paidNonneg : 0 ≤ (exchange offered base quote budget).1) :
    (exchange offered base quote budget).1 * quote' < ((exchange offered base quote budget).2 + 1) * base' := by
  have fair := @exchange_fair_to_buyer offered base quote budget basePos quotePos
  generalize (exchange offered base quote budget).1 = paid at *
  generalize (exchange offered base quote budget).2 = received at *
  have scaled : quote * (paid * quote') < quote * ((received + 1) * base') := by
    calc
      quote * (paid * quote') = paid * (quote * quote') := by ring
      _ ≤ paid * (base * base') := mul_le_mul_of_nonneg_left meets paidNonneg
      _ = paid * base * base' := by ring
      _ < (received + 1) * quote * base' := mul_lt_mul_of_pos_right fair basePos'
      _ = quote * ((received + 1) * base') := by ring
  exact lt_of_mul_lt_mul_left scaled quotePos.le

/-- Something is traded when the offer is worth one unit and the budget buys one. -/
theorem exchange_pos (sellable : base ≤ offered * quote) (affordable : quote ≤ budget * base)
    (budgetPos : 0 < budget) (offeredPos : 0 < offered) :
    0 < (exchange offered base quote budget).1 ∧ 0 < (exchange offered base quote budget).2 := by
  unfold exchange
  split
  · refine ⟨budgetPos, ?_⟩
    exact (Int.le_ediv_iff_mul_le quotePos).mpr (by rwa [zero_add, one_mul])
  · refine ⟨?_, offeredPos⟩
    exact (Int.le_ediv_iff_mul_le basePos).mpr (by rwa [zero_add, one_mul])

end

end Exchange
