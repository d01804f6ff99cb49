import Golos.Chain.Slots

/-! # Bandwidth

Every block sets `max_virtual_bandwidth` from the maximum block size and the reserve ratio, and
`update_account_bandwidth` holds the average traffic of an account against its part of it.  The
product is taken in 64 bits.  It is what it should be as long as it fits, and no longer.
-/

namespace Golos

open Stateful

/-! ## The traffic of an account -/

/-- `STEEMIT_BANDWIDTH_PRECISION` -/
def bandwidthPrecision : Nat := 1000000

/-- `STEEMIT_BANDWIDTH_AVERAGE_WINDOW_SECONDS` -/
def bandwidthAverageWindow : Nat := 60 * 60 * 24 * 7

/-- `account_bandwidth_object` of the types `forum`, `market` and `custom_json`. -/
structure AccountBandwidth where
  averageBandwidth : Int := 0
  lifetimeBandwidth : Int := 0
  lastBandwidthUpdate : Time := 0

/-- The average fades over the window, and the transaction is added to it. -/
def AccountBandwidth.charge (band : AccountBandwidth) (now : Time) (trxSize : Nat) : AccountBandwidth :=
  let trxBandwidth : Int := (trxSize * bandwidthPrecision : Nat)
  let elapsed := now - band.lastBandwidthUpdate
  let faded : Nat :=
    if bandwidthAverageWindow < elapsed then 0
    else toUint128 ((bandwidthAverageWindow - elapsed : Nat) * toUint128 band.averageBandwidth) /
      bandwidthAverageWindow % 2 ^ 64
  { averageBandwidth := toInt64 faded + trxBandwidth
    lifetimeBandwidth := band.lifetimeBandwidth + trxBandwidth
    lastBandwidthUpdate := now }

/-- `has_bandwidth`, a comparison of products of 128 bits. -/
def hasBandwidth (vshares average totalVshares : Int) (maxVirtualBandwidth : Nat) : Bool :=
  toUint128 (toUint128 average * toUint128 totalVshares) < toUint128 (toUint128 vshares * maxVirtualBandwidth)

/-- `update_account_bandwidth`: the answer, and the object afterwards.  A negative answer is an
error only while a block is produced. -/
def updateAccountBandwidth (s : Database) (a : Account) (trxSize : Nat) (band : Option AccountBandwidth) :
    Bool × Option AccountBandwidth :=
  if 0 < s.supply.totalVestingShares then
    let charged := (band.getD {}).charge s.head.time trxSize
    (hasBandwidth a.effectiveVestingShares charged.averageBandwidth s.supply.totalVestingShares
      s.rates.maxVirtualBandwidth, some charged)
  else (true, band)

/-! ## The limit -/

/-- The product under `max_virtual_bandwidth`, as an integer. -/
def Rates.bandwidthProduct (r : Rates) : Nat :=
  r.maximumBlockSize * r.currentReserveRatio * bandwidthPrecision * bandwidthAverageWindow

theorem toUint128_natCast {x : Nat} (fits : x < 2 ^ 128) : toUint128 x = x := by
  unfold toUint128
  omega

/-- A product that does not fit in a word is not restored by the division. -/
theorem mod_div_blockInterval_eq_iff {x : Nat} : x % 2 ^ 64 / blockInterval = x / blockInterval ↔ x < 2 ^ 64 := by
  unfold blockInterval
  omega

theorem Rates.bandwidthProduct_mono {r r' : Rates} (size : r.maximumBlockSize ≤ r'.maximumBlockSize)
    (ratio : r.currentReserveRatio ≤ r'.currentReserveRatio) : r.bandwidthProduct ≤ r'.bandwidthProduct :=
  Nat.mul_le_mul_right _ (Nat.mul_le_mul_right _ (Nat.mul_le_mul size ratio))

theorem hasBandwidth_mono {vshares average totalVshares : Int} {m m' : Nat} (positive : 0 ≤ vshares)
    (fits : vshares < 2 ^ 64) (word : m' < 2 ^ 64) (le : m ≤ m')
    (has : hasBandwidth vshares average totalVshares m = true) :
    hasBandwidth vshares average totalVshares m' = true := by
  obtain ⟨n, rfl⟩ := Int.eq_ofNat_of_zero_le positive
  have small : n < 2 ^ 64 := by omega
  -- neither product leaves its 128 bits, so they are compared as numbers
  have product : ∀ k : Nat, k < 2 ^ 64 → toUint128 ((toUint128 (n : Nat) : Int) * k) = n * k := by
    intro k below
    rw [toUint128_natCast (by omega), ← Nat.cast_mul]
    refine toUint128_natCast ?_
    calc n * k < 2 ^ 64 * 2 ^ 64 := Nat.mul_lt_mul'' small below
      _ = 2 ^ 128 := (Nat.pow_add 2 64 64).symm
  rw [hasBandwidth, decide_eq_true_eq] at has ⊢
  rw [product _ (by omega)] at has
  rw [product _ word]
  exact Nat.lt_of_lt_of_le has (Nat.mul_le_mul_left n le)

/-- What a block leaves as its limit. -/
theorem updateGlobalDynamicData_rates {s : Database} {number size : Nat} {id : BlockId} {time : Time}
    {producer : AccountName} : Ensures s (updateGlobalDynamicData number id time producer size) fun _ t =>
      t.rates.maxVirtualBandwidth = t.rates.bandwidthProduct % 2 ^ 64 / blockInterval := by
  simp only [updateGlobalDynamicData, modifyHead, modifyRates, ensures_steps]
  intro _ t _ _
  rfl

/-- The limit is the product as an integer exactly when it fits in 64 bits; and then no larger block
size or reserve ratio allows an account less. -/
theorem bandwidth_limit_exact_iff {net : Network} {b : Block} {s t : Database}
    (run : (BlockStep.updateGlobalDynamicData b).run net s = .ok ((), t)) :
    (t.rates.maxVirtualBandwidth = t.rates.bandwidthProduct / blockInterval ↔ t.rates.bandwidthProduct < 2 ^ 64) ∧
      (t.rates.bandwidthProduct < 2 ^ 64 →
        ∀ b' s' t', (BlockStep.updateGlobalDynamicData b').run net s' = .ok ((), t') →
          t'.rates.maximumBlockSize ≤ t.rates.maximumBlockSize →
          t'.rates.currentReserveRatio ≤ t.rates.currentReserveRatio →
          ∀ (a : Account) (trxSize : Nat) (band : Option AccountBandwidth) (u : Database),
            0 ≤ a.effectiveVestingShares → a.effectiveVestingShares < 2 ^ 63 →
            (updateAccountBandwidth { u with rates := t'.rates } a trxSize band).1 = true →
            (updateAccountBandwidth { u with rates := t.rates } a trxSize band).1 = true) := by
  have limit := updateGlobalDynamicData_rates _ _ run
  refine ⟨by rw [limit]; exact mod_div_blockInterval_eq_iff, fun fits b' s' t' run' size ratio => ?_⟩
  have limit' := updateGlobalDynamicData_rates _ _ run'
  have le := Rates.bandwidthProduct_mono size ratio
  intro a trxSize band u positive below
  unfold updateAccountBandwidth
  split
  · refine hasBandwidth_mono positive (by omega) ?_ ?_
    · simp only [limit]
      unfold blockInterval
      omega
    · simp only [limit, limit']
      unfold blockInterval
      omega
  · exact fun _ => rfl

/-! ## The first blocks

The genesis has the largest maximum block size, and already the first block wraps. -/

/-- Blocks without transactions, slot after slot. -/
def Network.produce (net : Network) : Nat → Eval Unit
  | 0 => pure ()
  | n + 1 => do
    net.produce n
    let s ← get
    net.applyBlock s.nextBlock

/-- Rounds that apply a block each extend the chain. -/
theorem Network.Chain.rounds {net : Network} {blocks : List Block} {s t : Database} {n : Nat} {next : Database → Block}
    {m : Nat → Eval Unit} (chain : net.Chain blocks s) (first : m 0 = pure ())
    (later : ∀ n, m (n + 1) = do
      m n
      let s ← get
      net.applyBlock (next s))
    (run : m n s = .ok ((), t)) : ∃ more, net.Chain more t := by
  induction n generalizing t with
  | zero =>
    rw [first] at run
    obtain ⟨-, rfl⟩ := pure_eq_ok.mp run
    exact ⟨blocks, chain⟩
  | succ n ih =>
    rw [later] at run
    obtain ⟨_, u, before, rest⟩ := bind_eq_ok.mp run
    obtain ⟨_, _, read, last⟩ := bind_eq_ok.mp rest
    obtain ⟨rfl, rfl⟩ := get_eq_ok.mp read
    obtain ⟨more, reached⟩ := ih before
    exact ⟨_, reached.block last⟩

/-- The genesis with the default of the witnesses as its maximum block size. -/
def smallBlocks : Database :=
  { bareGenesis with rates := { bareGenesis.rates with maximumBlockSize := 131072 } }

theorem bandwidth_limit_exact_smallBlocks :
    (stateAfter ((BlockStep.updateGlobalDynamicData smallBlocks.nextBlock).run Network.bare)
      smallBlocks).rates.maxVirtualBandwidth = 131072 * 1 * 1000000 * 604800 / 3 :=
  (bandwidth_limit_exact_iff (stateAfter_eq (by decide +kernel))).1.mpr (by decide +kernel)

/-- The bare network after some blocks. -/
def bareAfter (n : Nat) : Database := stateAfter (Network.bare.produce n) bareGenesis

theorem bareAfter_reachable {n : Nat} (succeeds : (Network.bare.produce n bareGenesis).isOk = true) :
    Network.bare.Reachable (bareAfter n) := by
  obtain ⟨blocks, chain⟩ := (Network.Chain.genesis bareGenesis_eq).rounds rfl (fun _ => rfl) (stateAfter_eq succeeds)
  exact ⟨blocks, [], chain.reaches⟩

/-- The limit of the first block is no more what it should be, and in the twentieth block, where the
reserve ratio rises from 1 to 2, it falls. -/
theorem bandwidth_limit_wraps : Network.bare.Reachable (bareAfter 1) ∧
      (bareAfter 1).rates.maxVirtualBandwidth ≠ (bareAfter 1).rates.bandwidthProduct / blockInterval ∧
    Network.bare.Reachable (bareAfter 20) ∧
      (bareAfter 1).rates.maximumBlockSize = (bareAfter 20).rates.maximumBlockSize ∧
      (bareAfter 1).rates.currentReserveRatio < (bareAfter 20).rates.currentReserveRatio ∧
      (bareAfter 20).rates.maxVirtualBandwidth < (bareAfter 1).rates.maxVirtualBandwidth :=
  ⟨bareAfter_reachable (by decide +kernel), by decide +kernel, bareAfter_reachable (by decide +kernel),
    by decide +kernel, by decide +kernel, by decide +kernel⟩

end Golos
