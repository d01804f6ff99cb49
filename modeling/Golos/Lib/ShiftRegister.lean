import Mathlib.Data.List.Count
import Mathlib.Data.Nat.Init

/-! # Shift registers

A register of `w` bits that takes in one bit after the other.  It shows the last `w` bits of
what was pushed (`Shows`), and above them the ones it started with; a counter of its set
bits can be kept up from the bit that comes in and the one that falls out.
-/

namespace ShiftRegister

open List

variable {w : Nat} {r : BitVec w} {bit : Bool} {bits : List Bool}

def setBits (r : BitVec w) : Nat := (range w).countP r.getLsbD

/-- The register has taken in these bits, newest first, since it was all ones. -/
def Shows (r : BitVec w) (bits : List Bool) : Prop := ∀ i < w, r.getLsbD i = bits.getD i true

theorem shiftLeft_add : (r <<< 1) + (if bit then 1 else 0) = r.shiftConcat bit := by
  have apart : (r <<< 1) &&& (if bit then 1 else 0) = 0 := by
    ext i inside
    cases i <;> cases bit <;> simp
  rw [BitVec.add_eq_or_of_and_eq_zero _ _ apart]
  ext i inside
  cases i <;> cases bit <;> simp [BitVec.getElem_shiftConcat]

theorem shows_allOnes : Shows (BitVec.allOnes w) [] := by
  intro i inside
  simp [inside]

theorem Shows.push (shown : Shows r bits) : Shows (r.shiftConcat bit) (bit :: bits) := by
  intro i inside
  rw [BitVec.getLsbD_shiftConcat]
  cases i with
  | zero => simp [inside]
  | succ i => simp [inside, shown i (by omega)]

/-- A bit that comes in is counted, the one that falls out no longer. -/
theorem setBits_push (positive : 0 < w) :
    setBits (r.shiftConcat bit) = setBits r - (if r.msb then 1 else 0) + if bit then 1 else 0 := by
  obtain ⟨n, rfl⟩ := Nat.exists_eq_succ_of_ne_zero (Nat.ne_of_gt positive)
  have shifted : setBits (r.shiftConcat bit) = (range n).countP r.getLsbD + if bit then 1 else 0 := by
    rw [setBits, range_succ_eq_map, countP_cons, countP_map]
    congr 1
    · refine countP_congr fun i member => ?_
      have inside := mem_range.mp member
      rw [Function.comp_apply, BitVec.getLsbD_shiftConcat]
      simp [inside]
    · rw [BitVec.getLsbD_shiftConcat]
      simp
  have unshifted : setBits r = (range n).countP r.getLsbD + if r.msb then 1 else 0 := by
    rw [setBits, range_succ, countP_append, BitVec.msb_eq_getLsbD_last]
    simp
  rw [shifted, unshifted]
  omega

theorem countP_getD {n : Nat} :
    (range n).countP (fun i => bits.getD i true) = (bits.take n).count true + (n - bits.length) := by
  induction bits generalizing n with
  | nil => simp
  | cons bit bits ih =>
    cases n with
    | zero => simp
    | succ n =>
      rw [range_succ_eq_map, countP_cons, countP_map]
      have rest : (fun i => (bit :: bits).getD i true) ∘ Nat.succ = fun i => bits.getD i true := rfl
      rw [rest, ih, take_succ_cons, count_cons, length_cons]
      cases bit
      · simp
      · simp only [beq_self_eq_true, if_true, getD_cons_zero]
        omega

theorem Shows.setBits_eq (shown : Shows r bits) : setBits r = (bits.take w).count true + (w - bits.length) := by
  rw [← countP_getD]
  exact countP_congr fun i member => by rw [shown i (mem_range.mp member)]

end ShiftRegister
