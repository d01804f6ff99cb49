import Golos.Chain.StoredVotes
import Mathlib.Algebra.Order.BigOperators.Group.List
import Mathlib.Data.Nat.Bitwise
import Mathlib.Tactic.Linarith
import Mathlib.Tactic.Ring

/-! # The weights of curators

`comment_curation_info` gives every vote a weight, the rise of a curve over the shares voted so
far, and splits it: a vote in the auction window loses a part of its weight to the window, and
a changed vote loses the rest.  The sums are `uint64_t`.

* `CurationCurve.weigh` — the weights in integers;
* `curveWeights` — the weights as the code computes them, and `curationInfo_sums`, their sums;
* `ExactWeights` — the `uint64_t` sums are the sums of the integer weights, none of which is negative;
* `curationInfo_exact_iff` — this is so exactly if no vote that still counts has been changed into
  one against the comment under the linear curve, and the sums fit.
-/

namespace Golos

open Stateful Database List CurationCurve

variable {old : UInt64} {e : WeighedVote} {voter : AccountName} {u : UInt64} {l : List WeighedVote} {st' : WeightState}

/-! ## The curves -/

section SquareRoot

variable {x y : Nat}

/-- `msb_x_bit`, the leading bits below it that are kept, and `mantissa_z_hi`. -/
def rootLow (x : Nat) : Nat := (x - 2 ^ x.log2) / 2 ^ (x.log2 - x.log2 / 2)

def rootHigh (x : Nat) : Nat := if x.log2 % 2 = 1 then 2 ^ (x.log2 / 2) else 0

theorem rootLow_lt (positive : x ≠ 0) : rootLow x < 2 ^ (x.log2 / 2) := by
  have high : x < 2 ^ (x.log2 + 1) := ((Nat.log2_eq_iff positive).mp rfl).2
  have parts : 2 ^ (x.log2 / 2) * 2 ^ (x.log2 - x.log2 / 2) = 2 ^ x.log2 := by
    rw [← Nat.pow_add]
    congr 1
    omega
  rw [rootLow, Nat.div_lt_iff_lt_mul (Nat.two_pow_pos _), parts]
  rw [Nat.pow_succ] at high
  omega

theorem rootHigh_le : rootHigh x ≤ 2 ^ (x.log2 / 2) := by
  unfold rootHigh
  split <;> simp

/-- `approx_sqrt` without a bound on the numbers. -/
def unboundedSqrt (x : Nat) : Nat := if x = 0 then 0 else 2 ^ (x.log2 / 2) ||| ((rootHigh x ||| rootLow x) / 2)

theorem unboundedSqrt_parts (positive : x ≠ 0) :
    unboundedSqrt x = 2 ^ (x.log2 / 2) + (rootHigh x + rootLow x) / 2 ∧ unboundedSqrt x < 2 * 2 ^ (x.log2 / 2) := by
  have low := rootLow_lt positive
  have high : rootHigh x ≤ 2 ^ (x.log2 / 2) := rootHigh_le
  have mantissa : rootHigh x ||| rootLow x = rootHigh x + rootLow x := by
    unfold rootHigh
    split
    · have or := Nat.two_pow_add_eq_or_of_lt low 1
      rw [Nat.mul_one] at or
      exact or.symm
    · rw [Nat.zero_or, Nat.zero_add]
  have half : (rootHigh x + rootLow x) / 2 < 2 ^ (x.log2 / 2) := by omega
  have sum := Nat.two_pow_add_eq_or_of_lt half 1
  rw [Nat.mul_one] at sum
  rw [unboundedSqrt, if_neg positive, mantissa, ← sum]
  exact ⟨rfl, by omega⟩

/-- No step of `approx_sqrt` is cut off. -/
theorem approxSqrt_eq (small : x < 2 ^ 128) : (approxSqrt x).toNat = unboundedSqrt x := by
  by_cases zero : x = 0
  · simp [zero, approxSqrt, unboundedSqrt]
  have msb : x.log2 < 128 := (Nat.log2_lt zero).mpr small
  have power : 2 ^ (x.log2 / 2) ≤ 2 ^ 63 := Nat.pow_le_pow_right (by decide) (by omega)
  have inRange : 2 ^ x.log2 ≤ x ∧ x < 2 ^ (x.log2 + 1) := (Nat.log2_eq_iff zero).mp rfl
  have rest : x % 2 ^ x.log2 = x - 2 ^ x.log2 := by
    rw [Nat.mod_eq_sub_mod inRange.1, Nat.mod_eq_of_lt (by omega)]
  have kept : (x % 2 ^ x.log2) / 2 ^ (x.log2 - x.log2 / 2) % 2 ^ 64 = rootLow x := by
    rw [rest, Nat.mod_eq_of_lt]
    · rfl
    · exact (rootLow_lt zero).trans_le (power.trans (by decide))
  have bound := (unboundedSqrt_parts zero).2
  rw [unboundedSqrt, if_neg zero] at bound ⊢
  simp only [approxSqrt, zero, if_false, kept]
  rw [UInt64.toNat_ofNat', Nat.mod_eq_of_lt]
  · rfl
  · exact bound.trans_le (by omega)

/-! `approx_sqrt` is one step of Heron's method from a power of two. -/

/-- The power of two that is nearest to the root. -/
def rootBase (x : Nat) : Nat := 2 ^ ((x.log2 + 1) / 2)

theorem unboundedSqrt_eq (positive : x ≠ 0) :
    unboundedSqrt x = (rootBase x ^ 2 + x) / (2 * rootBase x) ∧ rootBase x ^ 2 ≤ 2 * x ∧ x < 2 * rootBase x ^ 2 := by
  obtain ⟨least, most⟩ : 2 ^ x.log2 ≤ x ∧ x < 2 ^ (x.log2 + 1) := (Nat.log2_eq_iff positive).mp rfl
  rw [(unboundedSqrt_parts positive).1, rootHigh, rootLow, rootBase]
  have power : 0 < 2 ^ (x.log2 / 2) := Nat.two_pow_pos _
  obtain even | odd : x.log2 = 2 * (x.log2 / 2) ∨ x.log2 = 2 * (x.log2 / 2) + 1 := by omega
  · have square : 2 ^ x.log2 = 2 ^ (x.log2 / 2) * 2 ^ (x.log2 / 2) := by rw [← Nat.pow_add]; congr 1; omega
    rw [Nat.pow_succ, square] at most
    rw [square] at least
    rw [if_neg (by omega), show x.log2 - x.log2 / 2 = x.log2 / 2 by omega, show (x.log2 + 1) / 2 = x.log2 / 2 by omega,
      square]
    generalize 2 ^ (x.log2 / 2) = base at *
    refine ⟨?_, by nlinarith, by nlinarith⟩
    rw [Nat.zero_add, Nat.div_div_eq_div_mul, ← Nat.mul_add_div (by omega : 0 < base * 2)]
    congr 1
    · rw [Nat.mul_comm base 2, Nat.pow_two, Nat.mul_assoc]
      omega
    · exact Nat.mul_comm ..
  · have square : 2 ^ x.log2 = 2 * (2 ^ (x.log2 / 2) * 2 ^ (x.log2 / 2)) := by
      rw [← Nat.pow_add, ← Nat.pow_succ']
      congr 1
      omega
    rw [Nat.pow_succ, square] at most
    rw [square] at least
    rw [if_pos (by omega), show x.log2 - x.log2 / 2 = x.log2 / 2 + 1 by omega,
      show (x.log2 + 1) / 2 = x.log2 / 2 + 1 by omega, square, Nat.pow_succ]
    generalize 2 ^ (x.log2 / 2) = base at *
    refine ⟨?_, by nlinarith, by nlinarith⟩
    have mantissa : base + (x - 2 * (base * base)) / (base * 2) = x / (base * 2) := by
      rw [Nat.add_comm, ← Nat.add_mul_div_right _ _ (by omega : 0 < base * 2)]
      congr 1
      rw [Nat.mul_comm base (base * 2), Nat.mul_comm base 2, Nat.mul_assoc]
      omega
    rw [mantissa, Nat.div_div_eq_div_mul, ← Nat.mul_add_div (by omega : 0 < base * 2 * 2)]
    congr 1
    · ring
    · ring

theorem sqrt_le_heron {base : Nat} (positive : 0 < base) : x.sqrt ≤ (base ^ 2 + x) / (2 * base) := by
  rw [Nat.le_div_iff_mul_le (by omega)]
  have below := Nat.sqrt_le' x
  zify at *
  nlinarith [sq_nonneg ((x.sqrt : Int) - base)]

theorem heron_sq_le {base : Nat} (positive : 0 < base) (least : base ^ 2 ≤ 2 * x) (most : x < 2 * base ^ 2) :
    ((base ^ 2 + x) / (2 * base)) ^ 2 * 8 ≤ 9 * x := by
  have floor := Nat.div_mul_le_self (base ^ 2 + x) (2 * base)
  generalize (base ^ 2 + x) / (2 * base) = root at *
  have squares := Nat.pow_le_pow_left floor 2
  have middle : 2 * (base ^ 2 + x) ^ 2 ≤ 9 * x * base ^ 2 := by
    zify at *
    nlinarith [mul_nonneg (sub_nonneg.mpr least) (sub_nonneg.mpr most.le)]
  refine Nat.le_of_mul_le_mul_right (c := 4 * base ^ 2) ?_ (by positivity)
  calc root ^ 2 * 8 * (4 * base ^ 2) = 8 * (root * (2 * base)) ^ 2 := by ring
    _ ≤ 8 * (base ^ 2 + x) ^ 2 := Nat.mul_le_mul_left 8 squares
    _ ≤ 9 * x * (4 * base ^ 2) := by linarith

theorem unboundedSqrt_mono (le : x ≤ y) : unboundedSqrt x ≤ unboundedSqrt y := by
  by_cases zero : x = 0
  · simp [zero, unboundedSqrt]
  have positive : y ≠ 0 := by omega
  obtain ⟨root, least, most⟩ := unboundedSqrt_eq zero
  obtain ⟨root', least', most'⟩ := unboundedSqrt_eq positive
  have logs : x.log2 ≤ y.log2 := (Nat.le_log2 positive).mpr ((Nat.log2_self_le zero).trans le)
  have base : 0 < rootBase x := Nat.two_pow_pos _
  rw [root, root']
  obtain same | smaller : (x.log2 + 1) / 2 = (y.log2 + 1) / 2 ∨ (x.log2 + 1) / 2 < (y.log2 + 1) / 2 := by omega
  · rw [rootBase, rootBase, same]
    exact Nat.div_le_div_right (by omega)
  · -- the roots are on the two sides of three quarters of the larger base
    have double : 2 * rootBase x ≤ rootBase y := by
      rw [rootBase, ← Nat.pow_succ']
      exact Nat.pow_le_pow_right (by decide) smaller
    have floor := Nat.div_mul_le_self (rootBase x ^ 2 + x) (2 * rootBase x)
    rw [Nat.le_div_iff_mul_le (by omega)]
    generalize (rootBase x ^ 2 + x) / (2 * rootBase x) = a at *
    have quarters : 2 * a ≤ 3 * rootBase x := by nlinarith
    nlinarith

theorem approxSqrt_mono (le : x ≤ y) (small : y < 2 ^ 128) : (approxSqrt x).toNat ≤ (approxSqrt y).toNat := by
  rw [approxSqrt_eq (by omega), approxSqrt_eq small]
  exact unboundedSqrt_mono le

end SquareRoot

/-- The curve over the shares voted so far.  The linear one does not look at them. -/
def CurationCurve.value : CurationCurve → Nat → Nat
  | .bounded, r => r * (2 ^ 64 - 1) / (2 * contentConstantS.toNat + r)
  | .squareRoot, r => (approxSqrt r).toNat
  | .linear, _ | .detect, _ => 0

theorem contentConstantS_toNat : contentConstantS.toNat = 2000000000000 := rfl

section Curves

variable {curve : CurationCurve} {r r' : Nat}

theorem boundedWeight_eq (small : r < 2 ^ 63) : (boundedWeight r).toNat = bounded.value r := by
  have shares : (BitVec.ofInt 128 (r : Int)).toNat = r := by
    rw [BitVec.toNat_ofInt]
    omega
  have product : (BitVec.ofInt 128 (r : Int) * BitVec.ofNat 128 (2 ^ 64 - 1)).toNat = r * (2 ^ 64 - 1) := by
    rw [BitVec.toNat_mul, shares, BitVec.toNat_ofNat]
    omega
  have divisor : (2 * contentConstantS + BitVec.ofInt 128 (r : Int)).toNat = 2 * contentConstantS.toNat + r := by
    have double : (2 * contentConstantS).toNat = 4000000000000 := rfl
    rw [BitVec.toNat_add, double, shares, contentConstantS_toNat]
    omega
  have bound : r * (2 ^ 64 - 1) / (2 * contentConstantS.toNat + r) < 2 ^ 64 := by
    refine Nat.div_lt_of_lt_mul ?_
    rw [contentConstantS_toNat]
    omega
  simp only [boundedWeight, BitVec.toNat_udiv, product, divisor, value]
  rw [UInt64.toNat_ofNat', Nat.mod_eq_of_lt bound]

theorem CurationCurve.value_mono (le : r ≤ r') (small : r' < 2 ^ 63) : curve.value r ≤ curve.value r' := by
  cases curve with
  | bounded =>
    simp only [value]
    have positive : 0 < 2 * contentConstantS.toNat + r' := by
      rw [contentConstantS_toNat]
      omega
    rw [Nat.le_div_iff_mul_le positive]
    -- the quotient is below the bound, and so is what the difference adds
    have quotient := Nat.div_mul_le_self (r * (2 ^ 64 - 1)) (2 * contentConstantS.toNat + r)
    have bounded : r * (2 ^ 64 - 1) / (2 * contentConstantS.toNat + r) ≤ 2 ^ 64 - 1 := by
      refine Nat.div_le_of_le_mul ?_
      exact Nat.mul_le_mul_right _ (Nat.le_add_left ..)
    have added := Nat.mul_le_mul_right (r' - r) bounded
    generalize r * (2 ^ 64 - 1) / (2 * contentConstantS.toNat + r) = q at *
    obtain ⟨d, rfl⟩ := Nat.exists_eq_add_of_le le
    rw [Nat.add_sub_cancel_left] at added
    calc q * (2 * contentConstantS.toNat + (r + d))
        = q * (2 * contentConstantS.toNat + r) + q * d := by ring
      _ ≤ r * (2 ^ 64 - 1) + (2 ^ 64 - 1) * d := Nat.add_le_add quotient added
      _ = (r + d) * (2 ^ 64 - 1) := by ring
  | squareRoot => exact approxSqrt_mono le (small.trans (by decide))
  | linear => exact le_rfl
  | detect => exact le_rfl

theorem CurationCurve.value_lt (small : r < 2 ^ 63) : curve.value r < 2 ^ 64 := by
  cases curve with
  | bounded => rw [← boundedWeight_eq small]; exact UInt64.toNat_lt _
  | squareRoot => exact UInt64.toNat_lt _
  | linear => exact Nat.two_pow_pos 64
  | detect => exact Nat.two_pow_pos 64

end Curves

/-! ## The weights in integers -/

/-- The vote was changed after it was cast. -/
def CommentVote.Changed (v : CommentVote) : Prop := v.numChanges ≠ 0 ∧ v.numChanges ≠ -1

instance {v : CommentVote} : Decidable v.Changed := inferInstanceAs (Decidable (_ ∧ _))

/-- A vote and what it weighs. -/
structure WeighedVote where
  vote : CommentVote
  weight : Int

namespace WeighedVote

variable (window : Nat) (e : WeighedVote)

/-- What the auction window leaves of the weight. -/
def kept : Int := if e.vote.auctionTime = window then e.weight else e.weight * e.vote.auctionTime / window

/-- What it takes. -/
def lost : Int := e.weight - e.kept window

/-- What the voter is paid for. -/
def counted : Int := if e.vote.Changed then 0 else e.kept window

/-- A changed vote only counts for what the auction window takes of it. -/
def Counts : Prop := ¬(e.vote.Changed ∧ e.vote.auctionTime = window)

end WeighedVote

/-- The weight of a vote after `before` shares. -/
def CurationCurve.weight (curve : CurationCurve) (before : Nat) (vote : CommentVote) : Int :=
  if curve = .linear then vote.rshares
  else curve.value (before + vote.origRshares.toNat) - curve.value before

/-- The votes with a weight, and the weights. -/
def CurationCurve.weigh (curve : CurationCurve) : Nat → List (AccountName × CommentVote) → List WeighedVote
  | _, [] => []
  | before, (_, vote) :: rest =>
    if vote.origRshares ≤ 0 then curve.weigh before rest
    else ⟨vote, curve.weight before vote⟩ :: curve.weigh (before + vote.origRshares.toNat) rest

/-- The `uint64_t` weights of the votes after `voteRshares` shares, before the auction window takes
its part. -/
def curveWeights (curve : CurationCurve) : (voteRshares : Int) → (oldVoteWeight : UInt64) →
    List (AccountName × CommentVote) → Except Error (List WeighedVote)
  | _, _, [] => pure []
  | voteRshares, oldVoteWeight, (_, vote) :: rest =>
    if vote.origRshares ≤ 0 then curveWeights curve voteRshares oldVoteWeight rest
    else do
      let voteRshares ← addShares voteRshares vote.origRshares
      let (weight, st) ← ({ voteRshares, oldVoteWeight } : WeightState).calculateCurve curve vote
      let others ← curveWeights curve voteRshares st.oldVoteWeight rest
      pure (⟨vote, weight.toNat⟩ :: others)

/-! ## One vote -/

section Step

variable {curve : CurationCurve} {window before : Nat} {vote : CommentVote} {st : WeightState}

theorem toNat_ofInt {x : Int} (nonneg : 0 ≤ x) (small : x < 2 ^ 64) : ((UInt64.ofInt x).toNat : Int) = x := by
  rw [UInt64.ofInt, UInt64.toNat_ofNat']
  omega

/-- The curve only looks at the shares so far and its last value. -/
theorem calculateCurve_eq : st.calculateCurve curve vote =
    (({ voteRshares := st.voteRshares, oldVoteWeight := st.oldVoteWeight } : WeightState).calculateCurve curve vote).map
      fun r => (r.1, { st with oldVoteWeight := r.2.oldVoteWeight }) := by
  cases curve <;> rfl

/-- A weight that is not negative is computed exactly. -/
theorem calculateCurve_weight (known : curve ≠ .detect) (isOld : old.toNat = curve.value before)
    (positive : 0 < vote.origRshares) (fits : before + vote.origRshares.toNat < 2 ^ 63)
      (small : vote.rshares < 2 ^ 64) :
    ∃ weight st, ({ voteRshares := (before + vote.origRshares.toNat : Nat), oldVoteWeight := old } :
        WeightState).calculateCurve curve vote = .ok (weight, st) ∧
      st.oldVoteWeight.toNat = curve.value (before + vote.origRshares.toNat) ∧
      (0 ≤ curve.weight before vote → (weight.toNat : Int) = curve.weight before vote) := by
  have rises (new : UInt64) (isNew : new.toNat = curve.value (before + vote.origRshares.toNat)) :
      ((new - old).toNat : Int) = curve.value (before + vote.origRshares.toNat) - curve.value before := by
    have le : curve.value before ≤ curve.value (before + vote.origRshares.toNat) :=
      value_mono (Nat.le_add_right ..) fits
    rw [UInt64.toNat_sub_of_le _ _ (by rw [UInt64.le_iff_toNat_le, isOld, isNew]; exact le), isNew, isOld]
    omega
  cases curve with
  | bounded =>
    have new := boundedWeight_eq fits
    refine ⟨_, _, rfl, new, fun _ => ?_⟩
    rw [weight, if_neg (by decide)]
    exact rises _ new
  | linear => exact ⟨_, _, rfl, isOld, fun nonneg => toNat_ofInt nonneg small⟩
  | squareRoot =>
    have same : toUint128 (before + vote.origRshares.toNat : Nat) = before + vote.origRshares.toNat := by
      rw [toUint128]
      omega
    refine ⟨_, _, rfl, ?_, fun _ => ?_⟩
    · rw [value, same]
    · rw [weight, if_neg (by decide), same]
      exact rises _ (by rw [value])
  | detect => exact absurd rfl known

/-- The window leaves a part of a weight. -/
theorem WeighedVote.parts (inWindow : e.vote.auctionTime ≤ window) (nonneg : 0 ≤ e.weight) :
    0 ≤ e.kept window ∧ 0 ≤ e.lost window := by
  rw [WeighedVote.lost, WeighedVote.kept]
  split
  · exact ⟨nonneg, by omega⟩
  · have bound : e.weight * e.vote.auctionTime / window ≤ e.weight := by
      refine Int.ediv_le_of_le_mul (by omega) ?_
      exact mul_le_mul_of_nonneg_left (by omega) nonneg
    exact ⟨Int.ediv_nonneg (mul_nonneg nonneg (by omega)) (by omega), by omega⟩

/-- The sums after a vote. -/
structure WeightState.Adds (window : Nat) (e : WeighedVote) (st st' : WeightState) : Prop where
  total : (st'.totalVoteWeight.toNat : Int) = st.totalVoteWeight.toNat + e.lost window + e.counted window
  auction : (st'.auctionWindowWeight.toNat : Int) = st.auctionWindowWeight.toNat + e.lost window
  inside : (st'.votesInAuctionWindowWeight.toNat : Int) =
    st.votesInAuctionWindowWeight.toNat + if e.vote.auctionTime = window then 0 else e.counted window

theorem toNat_add_of_lt {a b : UInt64} (room : a.toNat + b.toNat < 2 ^ 64) : (a + b).toNat = a.toNat + b.toNat := by
  rw [UInt64.toNat_add, Nat.mod_eq_of_lt room]

/-- The split of a `uint64_t` weight. -/
theorem toNat_kept {weight : UInt64} (inWindow : e.vote.auctionTime ≤ window)
    (exactly : (weight.toNat : Int) = e.weight) :
    let kept := if 0 < weight ∧ e.vote.auctionTime ≠ window then .ofNat (weight.toNat * e.vote.auctionTime / window)
      else weight
    (kept.toNat : Int) = e.kept window ∧ ((weight - kept).toNat : Int) = e.lost window := by
  intro kept
  have isKept : (kept.toNat : Int) = e.kept window := by
    by_cases atEnd : e.vote.auctionTime = window
    · simp only [kept, atEnd, ne_eq, not_true_eq_false, and_false, if_false, WeighedVote.kept, if_true, exactly]
    by_cases zero : weight = 0
    · have isZero : e.weight = 0 := by
        rw [← exactly, zero]
        rfl
      simp [kept, zero, WeighedVote.kept, isZero]
    · have positive : 0 < weight := UInt64.pos_iff_ne_zero.mpr zero
      have bound : weight.toNat * e.vote.auctionTime / window ≤ weight.toNat := by
        refine Nat.div_le_of_le_mul ?_
        rw [Nat.mul_comm]
        exact Nat.mul_le_mul_right _ inWindow
      have small := UInt64.toNat_lt weight
      simp only [kept, positive, atEnd, ne_eq, not_false_eq_true, and_self, if_true, WeighedVote.kept, if_false,
        ← exactly]
      rw [UInt64.toNat_ofNat', Nat.mod_eq_of_lt (by omega)]
      rfl
  refine ⟨isKept, ?_⟩
  have parts := WeighedVote.parts (e := e) inWindow (by omega)
  have le : kept ≤ weight := by
    rw [UInt64.le_iff_toNat_le]
    have := parts.2
    rw [WeighedVote.lost] at this
    omega
  rw [UInt64.toNat_sub_of_le _ _ le, WeighedVote.lost, ← isKept, ← exactly]
  have := UInt64.le_iff_toNat_le.mp le
  omega

theorem calculateWeight_adds {weight : UInt64} {voteRshares : Int} {next : WeightState}
    (positive : 0 < vote.origRshares) (added : addShares st.voteRshares vote.origRshares = .ok voteRshares)
    (curved : ({ voteRshares, oldVoteWeight := st.oldVoteWeight } : WeightState).calculateCurve curve vote =
      .ok (weight, next)) (inWindow : vote.auctionTime ≤ window)
    (below : st.auctionWindowWeight.toNat + st.votesInAuctionWindowWeight.toNat ≤ st.totalVoteWeight.toNat)
    (room : st.totalVoteWeight.toNat + (⟨vote, weight.toNat⟩ : WeighedVote).lost window +
      (⟨vote, weight.toNat⟩ : WeighedVote).counted window < 2 ^ 64) :
    ∃ u st', st.calculateWeight curve window vote = .ok (u, st') ∧ st'.voteRshares = voteRshares ∧
      st'.oldVoteWeight = next.oldVoteWeight ∧ (u.toNat : Int) = (⟨vote, weight.toNat⟩ : WeighedVote).counted window ∧
      st.Adds window ⟨vote, weight.toNat⟩ st' := by
  have unfolded := WeightState.calculateWeight.eq_1 st curve window vote
  rw [if_neg (not_le.mpr positive), added] at unfolded
  simp only [bind, Except.bind, pure, Except.pure] at unfolded
  rw [calculateCurve_eq, curved] at unfolded
  dsimp only [Except.map] at unfolded
  refine ⟨_, _, unfolded, rfl, rfl, ?_⟩
  obtain ⟨isKept, isLost⟩ := toNat_kept (e := ⟨vote, weight.toNat⟩) inWindow rfl
  generalize (if 0 < weight ∧ vote.auctionTime ≠ window then UInt64.ofNat (weight.toNat * vote.auctionTime / window)
    else weight) = kept at *
  have isCounted : ((if vote.numChanges ≠ 0 ∧ vote.numChanges ≠ -1 then 0 else kept : UInt64).toNat : Int) =
      (⟨vote, weight.toNat⟩ : WeighedVote).counted window := by
    rw [WeighedVote.counted, ← isKept]
    by_cases changed : vote.numChanges ≠ 0 ∧ vote.numChanges ≠ -1
    · rw [if_pos changed, if_pos (show vote.Changed from changed)]
      rfl
    · rw [if_neg changed, if_neg (show ¬vote.Changed from changed)]
  have first := toNat_add_of_lt (a := st.totalVoteWeight) (b := weight - kept) (by omega)
  refine ⟨isCounted, ?_, ?_, ?_⟩
  · rw [toNat_add_of_lt (by omega), first]
    omega
  · rw [toNat_add_of_lt (by omega)]
    omega
  · by_cases atEnd : vote.auctionTime = window
    · simp [atEnd]
    by_cases adds : (0 < weight ∧ vote.auctionTime ≠ window) ∧ ¬(vote.numChanges ≠ 0 ∧ vote.numChanges ≠ -1)
    · rw [if_neg adds.2] at isCounted
      rw [if_pos adds, if_neg atEnd, toNat_add_of_lt (by omega)]
      omega
    · -- a vote without a weight, or a changed one
      have nothing : (⟨vote, weight.toNat⟩ : WeighedVote).counted window = 0 := by
        by_cases changed : vote.Changed
        · simp [WeighedVote.counted, changed]
        · have zero : weight = 0 := by
            by_contra present
            exact adds ⟨⟨UInt64.pos_iff_ne_zero.mpr present, atEnd⟩, changed⟩
          simp [WeighedVote.counted, WeighedVote.kept, zero]
      rw [if_neg adds, if_neg atEnd, nothing, add_zero]

end Step

/-! ## All votes -/

namespace WeighedVote

/-- What the auction window takes of all votes. -/
def lostSum (window : Nat) (l : List WeighedVote) : Int := (l.map fun e => e.lost window).sum

/-- What the voters are paid for. -/
def countedSum (window : Nat) (l : List WeighedVote) : Int := (l.map fun e => e.counted window).sum

/-- The part of those who voted in the auction window. -/
def insideSum (window : Nat) (l : List WeighedVote) : Int :=
  (l.map fun e => if e.vote.auctionTime = window then 0 else e.counted window).sum

/-- The part of those who voted after it. -/
def afterSum (window : Nat) (l : List WeighedVote) : Int :=
  (l.map fun e => if e.vote.auctionTime = window then e.counted window else 0).sum

theorem insideSum_add_afterSum (window : Nat) (l : List WeighedVote) :
    insideSum window l + afterSum window l = countedSum window l := by
  rw [insideSum, afterSum, countedSum, ← sum_map_add]
  congr 1
  refine map_congr_left fun e _ => ?_
  split <;> simp

end WeighedVote

/-- The shares the curves are taken at, all together. -/
def origSum (votes : List (AccountName × CommentVote)) : Nat := (votes.map fun v => v.2.origRshares.toNat).sum

/-- The weights of a list of votes, those after the auction window, and those of all. -/
def listedAfter (window : Nat) (l : List VoteInfo) : Nat :=
  (l.map fun v => if v.vote.auctionTime = window then v.weight.toNat else 0).sum

def listedSum (l : List VoteInfo) : Nat := (l.map fun v => v.weight.toNat).sum

theorem origSum_cons {vote : CommentVote} {votes : List (AccountName × CommentVote)} :
    origSum ((voter, vote) :: votes) = vote.origRshares.toNat + origSum votes :=
  sum_cons

section Votes

variable {curve : CurationCurve} {window before : Nat} {fullList : Bool} {vote : CommentVote}
  {votes : List (AccountName × CommentVote)} {st : WeightState}

open WeighedVote

variable {l : List WeighedVote} {e : WeighedVote} {list : List VoteInfo}

/-- The sums after all votes, and the list of those that are paid. -/
structure WeightState.AddsAll (window : Nat) (l : List WeighedVote) (st : WeightState) (list : List VoteInfo)
    (st' : WeightState) : Prop where
  total : (st'.totalVoteWeight.toNat : Int) = st.totalVoteWeight.toNat + lostSum window l + countedSum window l
  auction : (st'.auctionWindowWeight.toNat : Int) = st.auctionWindowWeight.toNat + lostSum window l
  inside : (st'.votesInAuctionWindowWeight.toNat : Int) = st.votesInAuctionWindowWeight.toNat + insideSum window l
  listed : (listedSum list : Int) = countedSum window l
  after : (listedAfter window list : Int) = afterSum window l

/-- The two parts of a weight are not negative. -/
theorem sums_nonneg (inWindow : ∀ e ∈ l, e.vote.auctionTime ≤ window)
    (nonneg : ∀ e ∈ l, 0 ≤ e.weight) : 0 ≤ lostSum window l ∧ 0 ≤ countedSum window l := by
  have each : ∀ e ∈ l, 0 ≤ e.lost window ∧ 0 ≤ e.counted window := by
    intro e member
    obtain ⟨kept, lost⟩ := WeighedVote.parts (inWindow e member) (nonneg e member)
    refine ⟨lost, ?_⟩
    rw [counted]
    split
    · exact le_rfl
    · exact kept
  refine ⟨sum_nonneg ?_, sum_nonneg ?_⟩
  · simpa using fun e member => (each e member).1
  · simpa using fun e member => (each e member).2

theorem inWindow_of_mem (inWindow : ∀ v ∈ votes, v.2.auctionTime ≤ window) (member : vote ∈ votes.map Prod.snd) :
    vote.auctionTime ≤ window := by
  obtain ⟨v, isVote, rfl⟩ := mem_map.mp member
  exact inWindow v isVote

/-- The weights are those of votes, and as `uint64_t` not negative. -/
theorem curveWeights_mem {shares : Int} (weighed : curveWeights curve shares old votes = .ok l) (member : e ∈ l) :
    0 ≤ e.weight ∧ e.vote ∈ votes.map Prod.snd := by
  induction votes generalizing shares old l with
  | nil =>
    cases weighed
    cases member
  | cons v votes ih =>
    rw [curveWeights] at weighed
    split at weighed
    · exact (ih weighed member).imp_right (mem_cons_of_mem _)
    · simp only [except_bind_eq_ok, Prod.exists] at weighed
      obtain ⟨_, _, weight, st, _, others, rest, done⟩ := weighed
      cases done
      cases member with
      | head => exact ⟨Int.natCast_nonneg _, mem_cons_self⟩
      | tail _ member => exact (ih rest member).imp_right (mem_cons_of_mem _)

/-- A vote without a weight is not listed, and adds nothing. -/
theorem sum_if_pos {vote : CommentVote} (f : VoteInfo → Nat) (zero : u = 0 → f ⟨voter, vote, u⟩ = 0) :
    ((if 0 < u ∨ fullList then ⟨voter, vote, u⟩ :: list else list).map f).sum =
      f ⟨voter, vote, u⟩ + (list.map f).sum := by
  split
  · rw [map_cons, sum_cons]
  next absent =>
    rw [zero (UInt64.le_zero_iff.mp (UInt64.not_lt.mp (not_or.mp absent).1)), Nat.zero_add]

theorem WeightState.Adds.trans
    {st₁ st₂ : WeightState} (adds : st.Adds window e st₁) (isCounted : (u.toNat : Int) = e.counted window)
    (addsAll : st₁.AddsAll window l list st₂) :
    st.AddsAll window (e :: l) (if 0 < u ∨ fullList then ⟨voter, e.vote, u⟩ :: list else list) st₂ := by
  obtain ⟨total, auction, inside⟩ := adds
  obtain ⟨totals, auctions, insides, listed, after⟩ := addsAll
  simp only [lostSum, countedSum, insideSum, afterSum, listedSum, listedAfter] at *
  refine ⟨?_, ?_, ?_, ?_, ?_⟩
  · simp only [lostSum, countedSum, map_cons, sum_cons]
    omega
  · simp only [lostSum, map_cons, sum_cons]
    omega
  · simp only [insideSum, map_cons, sum_cons]
    omega
  · rw [listedSum, sum_if_pos fun v => v.weight.toNat]
    · simp only [countedSum, map_cons, sum_cons]
      omega
    · intro absent
      simp [absent]
  · rw [listedAfter, sum_if_pos fun v => if v.vote.auctionTime = window then v.weight.toNat else 0]
    · simp only [afterSum, map_cons, sum_cons]
      split <;> omega
    · intro absent
      simp [absent]

theorem weighVotes_adds (st : WeightState) (fullList : Bool)
    (weighed : curveWeights curve st.voteRshares st.oldVoteWeight votes = .ok l)
    (inWindow : ∀ v ∈ votes, v.2.auctionTime ≤ window)
    (below : st.auctionWindowWeight.toNat + st.votesInAuctionWindowWeight.toNat ≤ st.totalVoteWeight.toNat)
    (room : st.totalVoteWeight.toNat + lostSum window l + countedSum window l < 2 ^ 64) :
    ∃ list st', weighVotes curve window fullList votes st = .ok (list, st') ∧ st.AddsAll window l list st' := by
  induction votes generalizing st l with
  | nil =>
    cases weighed
    exact ⟨[], st, rfl, by simp [lostSum, countedSum], by simp [lostSum], by simp [insideSum], rfl, rfl⟩
  | cons v votes ih =>
    obtain ⟨voter, vote⟩ := v
    rw [forall_mem_cons] at inWindow
    rw [curveWeights] at weighed
    split at weighed
    next negative =>
      obtain ⟨list, st₂, others, addsAll⟩ := ih _ weighed inWindow.2 below room
      refine ⟨if (0 : UInt64) < 0 ∨ fullList then ⟨voter, vote, 0⟩ :: list else list, st₂, ?_, ?_⟩
      · simp [weighVotes, bind, Except.bind, WeightState.calculateWeight, negative, others, pure, Except.pure]
      · refine { addsAll with listed := ?_, after := ?_ }
        · rw [← addsAll.listed, listedSum, sum_if_pos fun v => v.weight.toNat]
          · simp [listedSum]
          · simp
        · rw [← addsAll.after, listedAfter,
            sum_if_pos fun v => if v.vote.auctionTime = window then v.weight.toNat else 0]
          · simp [listedAfter]
          · simp
    next positive =>
      simp only [except_bind_eq_ok, Prod.exists] at weighed
      obtain ⟨voteRshares, added, weight, next, curved, others, rest, done⟩ := weighed
      cases done
      simp only [lostSum, countedSum, map_cons, sum_cons] at room
      have restParts : 0 ≤ lostSum window others ∧ 0 ≤ countedSum window others := by
        refine sums_nonneg (fun e member => ?_) fun e member => (curveWeights_mem rest member).1
        exact inWindow_of_mem inWindow.2 (curveWeights_mem rest member).2
      rw [lostSum, countedSum] at restParts
      obtain ⟨u, st₁, isWeight, shares, old, isCounted, adds⟩ :=
        calculateWeight_adds (not_le.mp positive) added curved inWindow.1 below (by omega)
      rw [← shares, ← old] at rest
      obtain ⟨addsTotal, addsAuction, addsInside⟩ := id adds
      have below₁ :
        st₁.auctionWindowWeight.toNat + st₁.votesInAuctionWindowWeight.toNat ≤ st₁.totalVoteWeight.toNat := by
        split at addsInside <;> omega
      obtain ⟨list, st₂, isRest, addsAll⟩ := ih _ rest inWindow.2 below₁ (by
        rw [lostSum, countedSum]
        omega)
      refine ⟨if 0 < u ∨ fullList then ⟨voter, vote, u⟩ :: list else list, st₂, ?_, adds.trans isCounted addsAll⟩
      simp only [weighVotes, bind, Except.bind, isWeight, isRest, pure, Except.pure]

/-- The curves rise, and the rises add up to less than `2 ^ 64`. -/
theorem weigh_curve (other : curve ≠ .linear) (fits : before + origSum votes < 2 ^ 63) :
    (∀ e ∈ curve.weigh before votes, 0 ≤ e.weight) ∧
      ((curve.weigh before votes).map (·.weight)).sum = curve.value (before + origSum votes) - curve.value before := by
  induction votes generalizing before with
  | nil => simp [CurationCurve.weigh, origSum]
  | cons v votes ih =>
    obtain ⟨voter, vote⟩ := v
    rw [origSum_cons, ← Nat.add_assoc] at fits ⊢
    rw [CurationCurve.weigh]
    split
    next negative =>
      rw [Int.toNat_of_nonpos negative, Nat.add_zero] at fits ⊢
      exact ih fits
    · obtain ⟨nonneg, sum⟩ := ih fits
      have rises : curve.value before ≤ curve.value (before + vote.origRshares.toNat) :=
        value_mono (Nat.le_add_right ..) (by omega)
      refine ⟨forall_mem_cons.mpr ⟨?_, nonneg⟩, ?_⟩
      · change 0 ≤ curve.weight before vote
        rw [CurationCurve.weight, if_neg other]
        omega
      · rw [map_cons, sum_cons, sum, CurationCurve.weight, if_neg other]
        dsimp only
        omega

theorem sums_le (window : Nat) (inWindow : ∀ e ∈ l, e.vote.auctionTime ≤ window) (nonneg : ∀ e ∈ l, 0 ≤ e.weight) :
    lostSum window l + countedSum window l ≤ (l.map (·.weight)).sum := by
  rw [lostSum, countedSum, ← sum_map_add]
  refine sum_le_sum fun e member => ?_
  have kept := (WeighedVote.parts (inWindow e member) (nonneg e member)).1
  rw [lost, counted]
  split <;> omega

theorem weigh_mem (member : e ∈ curve.weigh before votes) : e.vote ∈ votes.map Prod.snd := by
  induction votes generalizing before with
  | nil => cases member
  | cons v votes ih =>
    rw [CurationCurve.weigh] at member
    split at member
    · exact mem_cons_of_mem _ (ih member)
    · cases member with
      | head => exact mem_cons_self
      | tail _ member => exact mem_cons_of_mem _ (ih member)

/-- A `uint64_t` weight of the same vote, and the same weight unless that is negative. -/
structure WeighedVote.Computes (e' e : WeighedVote) : Prop where
  vote : e'.vote = e.vote
  weight : 0 ≤ e.weight → e'.weight = e.weight

theorem curveWeights_computes (before : Nat) (known : curve ≠ .detect) (isOld : old.toNat = curve.value before)
    (fits : before + origSum votes < 2 ^ 63) (small : ∀ v ∈ votes, v.2.rshares < 2 ^ 64) :
    ∃ l, curveWeights curve before old votes = .ok l ∧ Forall₂ WeighedVote.Computes l (curve.weigh before votes) := by
  induction votes generalizing before old with
  | nil => exact ⟨[], rfl, .nil⟩
  | cons v votes ih =>
    obtain ⟨voter, vote⟩ := v
    rw [origSum_cons] at fits
    rw [forall_mem_cons] at small
    rw [curveWeights, CurationCurve.weigh]
    split
    · exact ih _ isOld (by omega) small.2
    next positive =>
      have share : addShares before vote.origRshares = .ok ((before + vote.origRshares.toNat : Nat) : Int) := by
        have sum : (before : Int) + vote.origRshares = (before + vote.origRshares.toNat : Nat) := by omega
        rw [addShares, sum, if_pos]
        rw [isShare]
        omega
      obtain ⟨weight, st, curved, isNew, exactly⟩ :=
        calculateCurve_weight known isOld (not_le.mp positive) (by omega) small.1
      obtain ⟨others, rest, computes⟩ := ih _ isNew (by omega) small.2
      refine ⟨⟨vote, weight.toNat⟩ :: others, ?_, .cons ⟨rfl, exactly⟩ computes⟩
      simp only [share, bind, Except.bind, curved, rest, pure, Except.pure]

/-- The square root curve rises with the shares. -/
theorem calculateCurve_squareRoot (vote : CommentVote) {before : Nat} (isOld : st.oldVoteWeight = approxSqrt before)
    (rises : (before : Int) ≤ st.voteRshares) (fits : st.voteRshares < 2 ^ 63) :
    ∃ weight, st.calculateCurve .squareRoot vote =
        .ok (weight, { st with oldVoteWeight := approxSqrt st.voteRshares.toNat }) ∧
      (weight.toNat : Int) = (approxSqrt st.voteRshares.toNat).toNat - (approxSqrt before).toNat := by
  have same : toUint128 st.voteRshares = st.voteRshares.toNat := by
    rw [toUint128]
    omega
  have le : approxSqrt before ≤ approxSqrt st.voteRshares.toNat :=
    UInt64.le_iff_toNat_le.mpr (approxSqrt_mono (by omega) (by omega))
  refine ⟨approxSqrt st.voteRshares.toNat - approxSqrt before, ?_, ?_⟩
  · rw [WeightState.calculateCurve, same, isOld]
  · rw [UInt64.toNat_sub_of_le _ _ le]
    have := UInt64.le_iff_toNat_le.mp le
    omega

theorem curveWeights_squareRoot {before : Nat}
    (weighed : curveWeights .squareRoot before (approxSqrt before) votes = .ok l) :
    l = squareRoot.weigh before votes := by
  induction votes generalizing before l with
  | nil =>
    cases weighed
    rfl
  | cons v votes ih =>
    obtain ⟨voter, vote⟩ := v
    rw [curveWeights] at weighed
    rw [CurationCurve.weigh]
    split at weighed
    next negative =>
      rw [if_pos negative]
      exact ih weighed
    next positive =>
      simp only [except_bind_eq_ok, Prod.exists] at weighed
      obtain ⟨shares, added, weight, st, curved, others, rest, done⟩ := weighed
      unfold addShares at added
      split at added
      next fits =>
        have sum : (before : Int) + vote.origRshares = (before + vote.origRshares.toNat : Nat) := by omega
        rw [isShare] at fits
        cases added
        rw [sum] at curved rest fits
        have old : ({ voteRshares := (before + vote.origRshares.toNat : Nat), oldVoteWeight := approxSqrt before } :
          WeightState).oldVoteWeight = approxSqrt before := rfl
        obtain ⟨weight', curved', exactly⟩ :=
          calculateCurve_squareRoot vote old (by dsimp only; omega) (by dsimp only; omega)
        rw [curved'] at curved
        cases curved
        cases done
        rw [if_neg positive, ih rest, CurationCurve.weight, if_neg (by decide), exactly]
        rfl
      next => cases added

/-- `approx_sqrt` keeps the order, is not below the root and at most the square root of 9/8 times it, and never leaves
64 bits; so the weights of the square root curve are the differences of its values, none of which is negative: for any
shares that do not decrease, and for the votes on a comment. -/
theorem approxSqrt_approximates :
    (∀ x < 2 ^ 128, (approxSqrt x).toNat = unboundedSqrt x ∧ x.sqrt ≤ (approxSqrt x).toNat ∧
      (approxSqrt x).toNat ^ 2 * 8 ≤ 9 * x) ∧
    (∀ x y, x ≤ y → y < 2 ^ 128 → approxSqrt x ≤ approxSqrt y) ∧
    (∀ (st : WeightState) (vote : CommentVote) (before : Nat), st.oldVoteWeight = approxSqrt before →
      (before : Int) ≤ st.voteRshares → st.voteRshares < 2 ^ 63 → ∃ weight, st.calculateCurve .squareRoot vote =
        .ok (weight, { st with oldVoteWeight := approxSqrt st.voteRshares.toNat }) ∧
      (weight.toNat : Int) = (approxSqrt st.voteRshares.toNat).toNat - (approxSqrt before).toNat) ∧
    ∀ votes l, curveWeights .squareRoot 0 0 votes = .ok l →
      l = squareRoot.weigh 0 votes ∧ ∀ e ∈ l, 0 ≤ e.weight := by
  refine ⟨fun x small => ?_, fun x y le small => ?_, fun st vote before => calculateCurve_squareRoot vote,
    fun votes l weighed => ?_⟩
  · rw [approxSqrt_eq small]
    by_cases zero : x = 0
    · simp [zero, unboundedSqrt]
    obtain ⟨root, least, most⟩ := unboundedSqrt_eq zero
    have base : 0 < rootBase x := Nat.two_pow_pos _
    rw [root]
    exact ⟨rfl, sqrt_le_heron base, heron_sq_le base least most⟩
  · exact UInt64.le_iff_toNat_le.mpr (approxSqrt_mono le small)
  · exact ⟨curveWeights_squareRoot weighed, fun e member => (curveWeights_mem weighed member).1⟩

/-- What does not count is the same whatever the weight. -/
theorem WeighedVote.Computes.parts {e' : WeighedVote} (computes : e'.Computes e)
    (nonneg : e.Counts window → 0 ≤ e.weight) :
    e'.lost window = e.lost window ∧ e'.counted window = e.counted window := by
  rw [lost, lost, counted, counted, kept, kept, computes.vote]
  by_cases counts : e.Counts window
  · rw [computes.weight (nonneg counts)]
    exact ⟨rfl, rfl⟩
  · rw [Counts, not_not] at counts
    simp [counts.1, counts.2]

theorem sums_eq {l' : List WeighedVote} (computes : Forall₂ WeighedVote.Computes l' l)
    (nonneg : ∀ e ∈ l, e.Counts window → 0 ≤ e.weight) :
    lostSum window l' = lostSum window l ∧ countedSum window l' = countedSum window l ∧
      insideSum window l' = insideSum window l ∧ afterSum window l' = afterSum window l := by
  induction computes with
  | nil => simp
  | cons first _ ih =>
    rw [forall_mem_cons] at nonneg
    obtain ⟨lost, counted⟩ := first.parts nonneg.1
    obtain ⟨losts, counteds, insides, afters⟩ := ih nonneg.2
    simp only [lostSum, countedSum, insideSum, afterSum] at losts counteds insides afters
    simp only [lostSum, countedSum, insideSum, afterSum, map_cons, sum_cons, lost, counted, first.vote, losts,
      counteds, insides, afters, and_self]

/-- The linear curve looks at one vote at a time. -/
theorem mem_weigh_linear : e ∈ linear.weigh before votes ↔
      ∃ v ∈ votes, 0 < v.2.origRshares ∧ e = ⟨v.2, v.2.rshares⟩ := by
  induction votes generalizing before with
  | nil => simp [CurationCurve.weigh]
  | cons v votes ih =>
    rw [CurationCurve.weigh]
    split
    next negative =>
      rw [ih]
      simp [not_lt.mpr negative]
    next positive =>
      rw [mem_cons, ih]
      simp [CurationCurve.weight, not_le.mp positive]

theorem calculateWeight_shares {weight : UInt64} (run : st.calculateWeight curve window vote = .ok (weight, st')) :
    st'.voteRshares = st.voteRshares + vote.origRshares.toNat ∧
      (0 < vote.origRshares → isShare (st.voteRshares + vote.origRshares)) := by
  rw [WeightState.calculateWeight] at run
  split at run
  next negative =>
    cases run
    omega
  · simp only [except_bind_eq_ok, Prod.exists] at run
    obtain ⟨voteRshares, added, weight, st₁, curved, done⟩ := run
    cases done
    rw [addShares] at added
    split at added
    next share =>
      cases added
      refine ⟨?_, fun _ => share⟩
      change st₁.voteRshares = _
      have kept : st₁.voteRshares = st.voteRshares + vote.origRshares := by
        cases curve <;> cases curved <;> rfl
      omega
    · cases added

/-- The shares are added up as a `share_type`. -/
theorem weighVotes_fits (before : Nat) (shares : st.voteRshares = before)
    (small : before < 2 ^ 63) (run : weighVotes curve window fullList votes st = .ok (list, st')) :
    before + origSum votes < 2 ^ 63 := by
  induction votes generalizing before st list st' with
  | nil => simpa [origSum] using small
  | cons v votes ih =>
    obtain ⟨voter, vote⟩ := v
    simp only [weighVotes, except_bind_eq_ok, Prod.exists] at run
    obtain ⟨weight, st₁, first, list, st₂, others, -⟩ := run
    obtain ⟨added, share⟩ := calculateWeight_shares first
    have next : before + vote.origRshares.toNat < 2 ^ 63 := by
      by_cases positive : 0 < vote.origRshares
      · have bound := (share positive).2
        omega
      · omega
    rw [origSum_cons, ← Nat.add_assoc]
    exact ih _ (by omega) next others

end Votes

/-! ## Exactness -/

section Exactness

open WeighedVote

variable {s : Database} {key : CommentKey} {p : CommentPayout} {fullList : Bool} {info : CurationInfo}

/-- The votes that are weighed, and their weights. -/
def Database.weighed (s : Database) (key : CommentKey) (p : CommentPayout) (fullList : Bool) : List WeighedVote :=
  if p.lastPayout ≠ 0 ∧ !fullList then [] else (s.curationCurve p).weigh 0 (s.votesOn key)

/-- Their weights as `uint64_t`. -/
def Database.curveWeights (s : Database) (key : CommentKey) (p : CommentPayout) (fullList : Bool) :
    Except Error (List WeighedVote) :=
  if p.lastPayout ≠ 0 ∧ !fullList then pure [] else Golos.curveWeights (s.curationCurve p) 0 0 (s.votesOn key)

/-- The sums of weights, and the weights of the votes that are listed. -/
structure CurationInfo.Sums (info : CurationInfo) (window : Nat) (l : List WeighedVote) : Prop where
  total : (info.totalVoteWeight.toNat : Int) = lostSum window l + countedSum window l
  auction : (info.auctionWindowWeight.toNat : Int) = lostSum window l
  inside : (info.votesInAuctionWindowWeight.toNat : Int) = insideSum window l
  after : (info.votesAfterAuctionWindowWeight.toNat : Int) = afterSum window l
  listed : (listedSum info.voteList : Int) = countedSum window l
  listedAfter : (listedAfter window info.voteList : Int) = afterSum window l

/-- The sums do not wrap around if all weights together fit. -/
theorem curationInfo_sums (weighed : s.curveWeights key p fullList = .ok l)
    (inWindow : ∀ v ∈ s.votesOn key, v.2.auctionTime ≤ p.auctionWindowSize)
    (room : lostSum p.auctionWindowSize l + countedSum p.auctionWindowSize l < 2 ^ 64) :
    ∃ info, s.curationInfo key p fullList = .ok info ∧ info.Sums p.auctionWindowSize l := by
  rw [Database.curveWeights] at weighed
  rw [curationInfo]
  split at weighed
  · cases weighed
    refine ⟨{}, if_pos ‹_›, ?_, ?_, ?_, ?_, ?_, ?_⟩
    all_goals simp [lostSum, countedSum, insideSum, afterSum, listedSum, listedAfter]
  next present =>
    obtain ⟨list, st, run, adds⟩ := weighVotes_adds {} fullList weighed inWindow (le_refl _)
      (by simpa using room)
    have zero : (0 : UInt64).toNat = 0 := rfl
    obtain ⟨total, auction, inside, listed, after⟩ := adds
    simp only [zero, Nat.cast_zero, zero_add] at total auction inside
    have both := insideSum_add_afterSum p.auctionWindowSize l
    have rest := UInt64.toNat_sub_of_le st.totalVoteWeight st.votesInAuctionWindowWeight
      (UInt64.le_iff_toNat_le.mpr (by omega))
    have isAfter := UInt64.toNat_sub_of_le (st.totalVoteWeight - st.votesInAuctionWindowWeight) st.auctionWindowWeight
      (UInt64.le_iff_toNat_le.mpr (by omega))
    rw [if_neg present, run]
    refine ⟨_, rfl, total, auction, inside, ?_, ?_, ?_⟩
    · dsimp only
      omega
    · -- the votes are listed by weight, which changes no sum
      rw [← listed]
      exact congrArg Nat.cast ((perm_insertionSort _ list).map _).sum_eq
    · rw [← after]
      exact congrArg Nat.cast ((perm_insertionSort _ list).map _).sum_eq

/-- `comment_curation_info` gives the sums of weights that are not negative. -/
structure ExactWeights (s : Database) (key : CommentKey) (p : CommentPayout) (fullList : Bool) (info : CurationInfo) :
    Prop where
  nonneg : ∀ e ∈ s.weighed key p fullList, e.Counts p.auctionWindowSize → 0 ≤ e.weight
  auction : (info.auctionWindowWeight.toNat : Int) = lostSum p.auctionWindowSize (s.weighed key p fullList)
  inside : (info.votesInAuctionWindowWeight.toNat : Int) = insideSum p.auctionWindowSize (s.weighed key p fullList)
  after : (info.votesAfterAuctionWindowWeight.toNat : Int) = afterSum p.auctionWindowSize (s.weighed key p fullList)
  total : info.totalVoteWeight.toNat = info.auctionWindowWeight.toNat + info.votesInAuctionWindowWeight.toNat +
    info.votesAfterAuctionWindowWeight.toNat
  listed : listedSum info.voteList ≤ info.totalVoteWeight.toNat

/-- What keeps the sums exact: no vote that still counts was changed into one against the comment
under the linear curve, and the sums are in range. -/
structure WeighsExactly (s : Database) (key : CommentKey) (p : CommentPayout) : Prop where
  shares : origSum (s.votesOn key) < 2 ^ 63
  upvotes : s.curationCurve p = .linear → ∀ v ∈ s.votesOn key, 0 < v.2.origRshares →
    ¬(v.2.Changed ∧ v.2.auctionTime = p.auctionWindowSize) → 0 ≤ v.2.rshares
  weights : s.curationCurve p = .linear →
    lostSum p.auctionWindowSize (linear.weigh 0 (s.votesOn key)) +
      countedSum p.auctionWindowSize (linear.weigh 0 (s.votesOn key)) < 2 ^ 64

/-- The conditions on the weights themselves. -/
theorem WeighsExactly.weighed (exactly : WeighsExactly s key p)
    (inWindow : ∀ v ∈ s.votesOn key, v.2.auctionTime ≤ p.auctionWindowSize) :
    (∀ e ∈ (s.curationCurve p).weigh 0 (s.votesOn key), e.Counts p.auctionWindowSize → 0 ≤ e.weight) ∧
      lostSum p.auctionWindowSize ((s.curationCurve p).weigh 0 (s.votesOn key)) +
        countedSum p.auctionWindowSize ((s.curationCurve p).weigh 0 (s.votesOn key)) < 2 ^ 64 := by
  by_cases linear : s.curationCurve p = .linear
  · rw [linear]
    refine ⟨fun e member counts => ?_, exactly.weights linear⟩
    obtain ⟨v, isVote, positive, rfl⟩ := mem_weigh_linear.mp member
    exact exactly.upvotes linear v isVote positive counts
  · have fits : 0 + origSum (s.votesOn key) < 2 ^ 63 := by
      rw [Nat.zero_add]
      exact exactly.shares
    obtain ⟨nonneg, sum⟩ := weigh_curve linear fits
    refine ⟨fun e member _ => nonneg e member, ?_⟩
    have le := sums_le p.auctionWindowSize (fun e member => inWindow_of_mem inWindow (weigh_mem member)) nonneg
    have bound : (s.curationCurve p).value (0 + origSum (s.votesOn key)) < 2 ^ 64 := value_lt fits
    omega

theorem WeighsExactly.exact (exactly : p.lastPayout = 0 ∨ fullList → WeighsExactly s key p)
    (known : s.curationCurve p ≠ .detect) (stored : ∀ v ∈ s.votesOn key, v.2.Stored p.auctionWindowSize) :
    ∃ info, s.curationInfo key p fullList = .ok info ∧ ExactWeights s key p fullList info := by
  have inWindow : ∀ v ∈ s.votesOn key, v.2.auctionTime ≤ p.auctionWindowSize :=
    fun v isVote => (stored v isVote).inWindow
  have computed : (∃ l, s.curveWeights key p fullList = .ok l ∧
    Forall₂ WeighedVote.Computes l (s.weighed key p fullList)) ∧
      (∀ e ∈ s.weighed key p fullList, e.Counts p.auctionWindowSize → 0 ≤ e.weight) ∧
      lostSum p.auctionWindowSize (s.weighed key p fullList) +
        countedSum p.auctionWindowSize (s.weighed key p fullList) < 2 ^ 64 := by
    rw [Database.curveWeights, Database.weighed]
    split
    · exact ⟨⟨[], rfl, .nil⟩, by simp, by simp [lostSum, countedSum]⟩
    next present =>
      have holds : WeighsExactly s key p := exactly (by
        cases fullList with
        | true => exact .inr rfl
        | false => simpa using present)
      refine ⟨?_, holds.weighed inWindow⟩
      have start : (0 : UInt64).toNat = (s.curationCurve p).value 0 := by
        cases s.curationCurve p with
        | bounded => rw [value, Nat.zero_mul, Nat.zero_div]; rfl
        | squareRoot => rfl
        | linear => rfl
        | detect => rfl
      exact curveWeights_computes 0 known start (by rw [Nat.zero_add]; exact holds.shares) fun v isVote =>
        (stored v isVote).fits
  obtain ⟨⟨l, weighed, computes⟩, nonneg, room⟩ := computed
  obtain ⟨losts, counteds, insides, afters⟩ := sums_eq computes nonneg
  rw [← losts, ← counteds] at room
  obtain ⟨info, run, sums⟩ := curationInfo_sums weighed inWindow room
  obtain ⟨total, auction, inside, after, listed, -⟩ := sums
  have both := insideSum_add_afterSum p.auctionWindowSize l
  exact ⟨info, run, nonneg, losts ▸ auction, insides ▸ inside, afters ▸ after, by omega, by omega⟩

/-- For a comment in any state and each of the three curves, the sums are exact if and only if no
vote that still counts was changed into one against the comment while the curve is linear, and
the sums are in range. -/
theorem curationInfo_exact_iff {c : Comment} (fullList : Bool) (votesStored : s.VotesStored)
    (found : s.comments.find? key = some c)
    (known : s.curationCurve c.payout ≠ .detect) :
    (∃ info, s.curationInfo key c.payout fullList = .ok info ∧ ExactWeights s key c.payout fullList info) ↔
      (c.payout.lastPayout = 0 ∨ fullList → WeighsExactly s key c.payout) := by
  have stored := votesStored.votesOn found
  generalize c.payout = p at *
  constructor
  · rintro ⟨info, run, isExact⟩ weighs
    have present : ¬(p.lastPayout ≠ 0 ∧ !fullList) := by
      rintro ⟨paid, short⟩
      cases fullList with
      | true => cases short
      | false => exact paid (by simpa using weighs)
    have isWeighed : s.weighed key p fullList = (s.curationCurve p).weigh 0 (s.votesOn key) := if_neg present
    refine ⟨?_, ?_, ?_⟩
    · rw [curationInfo, if_neg present] at run
      simp only [except_bind_eq_ok, Prod.exists] at run
      obtain ⟨list, st, weighed, -⟩ := run
      simpa using weighVotes_fits 0 rfl (by omega) weighed
    · intro linear v isVote positive counts
      refine isExact.nonneg ⟨v.2, v.2.rshares⟩ ?_ counts
      rw [isWeighed, linear]
      exact mem_weigh_linear.mpr ⟨v, isVote, positive, rfl⟩
    · intro linear
      have bound := info.totalVoteWeight.toNat_lt
      obtain ⟨-, auction, inside, after, total, -⟩ := isExact
      have both := insideSum_add_afterSum p.auctionWindowSize (CurationCurve.linear.weigh 0 (s.votesOn key))
      rw [isWeighed, linear] at auction inside after
      omega
  · exact fun exactly => WeighsExactly.exact exactly known stored

/-- A post of Bob, open for votes. -/
def openPost : Database :=
  { head := { time := 1600000000 }
    hardforks := { processedHardforks := replicate 21 0 }
    accounts := (Store.empty.insert .alice { vestingShares := 1000000000000 }).insert .bob
      { vestingShares := 2000000000000 }
    comments := Store.empty.insert (.bob, "post")
      { place := { rootComment := (.bob, "post") }
        payout := { created := 1600000000, cashoutTime := 1600604800, curationRewardCurve := .linear } } }

/-- A vote of some account on the post. -/
def votedAt (time : Time) (voter : AccountName) (weight : Int) (s : Database) : Database :=
  stateAfter (Evaluator.vote ⟨voter, .bob, "post", weight⟩) { s with head := { s.head with time } }

/-- Alice votes for the post at once, Bob after the auction window. -/
def upvoted : Database := votedAt 1600001800 .bob 10000 (votedAt 1600000000 .alice 10000 openPost)

/-- Later Alice votes against it. -/
def withdrawn : Database := votedAt 1600003600 .alice (-5000) upvoted

/-- What is read of the post when its votes are weighed. -/
def Database.postTerms (s : Database) : Option (Time × Nat × CurationCurve) :=
  (s.comments.find? (.bob, "post")).map fun c =>
    (c.payout.lastPayout, c.payout.auctionWindowSize, c.payout.curationRewardCurve)

theorem curationInfo_post {c : Comment} (terms : s.postTerms = some (0, 1800, .linear))
    (found : s.comments.find? (.bob, "post") = some c) :
    s.curationInfo (.bob, "post") c.payout false = (do
      let (votes, st) ← weighVotes .linear 1800 false (s.votesOn (.bob, "post")) {}
      pure
        { voteList := votes.insertionSort fun a b =>
            b.weight < a.weight ∨ (a.weight = b.weight ∧ s.accountId a.voter ≤ s.accountId b.voter)
          totalVoteWeight := st.totalVoteWeight
          auctionWindowWeight := st.auctionWindowWeight
          votesInAuctionWindowWeight := st.votesInAuctionWindowWeight
          votesAfterAuctionWindowWeight :=
            st.totalVoteWeight - st.votesInAuctionWindowWeight - st.auctionWindowWeight }) := by
  rw [postTerms, found] at terms
  simp only [Option.map_some, Option.some.injEq, Prod.mk.injEq] at terms
  obtain ⟨unpaid, window, curve⟩ := terms
  rw [curationInfo, curationCurve, unpaid, window, curve]
  rfl

def firstAlice : CommentVote :=
  { rshares := 5000000000, origRshares := 5000000000, votePercent := 10000, lastUpdate := 1600000000 }

def firstBob : CommentVote :=
  { rshares := 10000000000, origRshares := 10000000000, votePercent := 10000, auctionTime := 1800,
    lastUpdate := 1600001800 }

def secondAlice : CommentVote :=
  { firstAlice with rshares := -2500000000, votePercent := -5000, lastUpdate := 1600003600, numChanges := 1 }

theorem entries_upvoted : upvoted.commentVotes.entries =
    [(((.bob, "post"), .alice), firstAlice), (((.bob, "post"), .bob), firstBob)] := by
  decide +kernel

theorem votesOn_withdrawn : withdrawn.votesOn (.bob, "post") = [(.alice, secondAlice), (.bob, firstBob)] := by
  decide +kernel

theorem votesOn_upvoted : upvoted.votesOn (.bob, "post") = [(.alice, firstAlice), (.bob, firstBob)] := by
  rw [votesOn, entries_upvoted]
  rfl

theorem postTerms_upvoted : upvoted.postTerms = some (0, 1800, .linear) := by decide +kernel

theorem upvoted_stored : upvoted.VotesStored := by
  obtain ⟨c, found, same⟩ := Option.map_eq_some_iff.mp postTerms_upvoted
  have isWindow : upvoted.windowOf (.bob, "post") = some 1800 := by
    rw [windowOf, found]
    exact congrArg (fun x => some x.2.1) same
  intro key voter v isVote
  have member := Store.find?_eq_some.mp isVote
  rw [entries_upvoted, mem_cons, mem_singleton] at member
  obtain same | same := member <;> cases same <;> exact ⟨1800, isWindow, by decide, by decide⟩

theorem curationInfo_exact_upvoted : ∃ c info, upvoted.comments.find? (.bob, "post") = some c ∧
      upvoted.curationInfo (.bob, "post") c.payout false = .ok info ∧
      ExactWeights upvoted (.bob, "post") c.payout false info := by
  obtain ⟨c, found, same⟩ := Option.map_eq_some_iff.mp postTerms_upvoted
  simp only [Prod.mk.injEq] at same
  obtain ⟨unpaid, window, curve⟩ := same
  have linear : upvoted.curationCurve c.payout = .linear := by
    rw [curationCurve, curve]
    rfl
  have exactly : WeighsExactly upvoted (.bob, "post") c.payout := by
    refine ⟨?_, fun _ => ?_, fun _ => ?_⟩ <;> rw [votesOn_upvoted]
    · decide
    all_goals
      rw [window]
      decide
  obtain ⟨info, run, isExact⟩ := (curationInfo_exact_iff false upvoted_stored found (by
    rw [linear]
    decide)).mpr fun _ => exactly
  exact ⟨c, info, found, run, isExact⟩

/-- Her weight is `uint64_t(-2500000000)` then: it wraps around, and Bob alone has more than all. -/
theorem curationInfo_wraps : ∃ c info, withdrawn.comments.find? (.bob, "post") = some c ∧
      withdrawn.curationInfo (.bob, "post") c.payout false = .ok info ∧
      info.totalVoteWeight.toNat < listedSum info.voteList ∧
      ¬ExactWeights withdrawn (.bob, "post") c.payout false info := by
  have terms : withdrawn.postTerms = some (0, 1800, .linear) := by decide +kernel
  obtain ⟨c, found, -⟩ := Option.map_eq_some_iff.mp terms
  have weighed : weighVotes .linear 1800 false [(.alice, secondAlice), (.bob, firstBob)] {} =
      .ok ([⟨.bob, firstBob, 10000000000⟩], ⟨15000000000, 0, 7500000000, 18446744071209551616, 0⟩) := rfl
  have run := curationInfo_post terms found
  rw [votesOn_withdrawn, weighed] at run
  have heavier : (7500000000 : UInt64).toNat < listedSum [⟨.bob, firstBob, 10000000000⟩] := by decide
  exact ⟨c, _, found, run, heavier, fun exactly => absurd exactly.listed (not_le.mpr heavier)⟩

end Exactness

end Golos
