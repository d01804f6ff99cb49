import Golos.Chain.Invariant
import Golos.Chain.Round
import Golos.Lib.Shares

/-! # The pay of a round

From hardfork 16 on `process_funds` pays the producer of a block 21 times the witness share of a block, times the
weight of its class, divided by `witness_pay_normalization_factor`.  `update_witness_schedule4` makes that factor
the sum of the weights of the witnesses it schedules, so one block by each of them always costs 21 shares, also when
there are fewer witnesses than 21.
-/

namespace Golos

open Stateful Shares Database List

variable {s : Database} {kind : WitnessScheduleType} {time : WitnessSchedule → Uint128} {active : List AccountName}
  {now : Time} {number n : Nat} {net : Network} {w : WitnessSchedule}

/-! ## The reward of a block -/

def WitnessSchedule.weight (w : WitnessSchedule) : WitnessScheduleType → Nat
  | .timeshare => w.timeshareWeight
  | .miner => w.minerWeight
  | .top19 => w.top19Weight
  | .none => 1

/-- What `process_funds` makes of the witness share of a block. -/
def WitnessSchedule.reward (w : WitnessSchedule) (kind : WitnessScheduleType) (share : Int) : Int :=
  (share * maxWitnesses * w.weight kind).tdiv w.witnessPayNormalizationFactor

/-- The part of the new tokens of a block that is neither for content nor for the vesting fund. -/
def Database.witnessShare (s : Database) : Int :=
  let rate : Int := max (1515 - (s.head.headBlockNumber / 250000 : Nat)) 95
  let newSteem := (s.rates.virtualSupply * rate).tdiv (10000 * blocksPerYear)
  newSteem - (newSteem * 6667).tdiv 10000 - (newSteem * 2667).tdiv 10000

theorem Database.inflation_witness : (s.inflation kind).2.2 = s.schedule.reward kind s.witnessShare := by
  cases kind <;> rfl

/-- The class a witness was scheduled in. -/
def Database.kindOf (s : Database) (name : AccountName) : WitnessScheduleType := (s.markOf name).getD .none

/-- The rewards of one block by each scheduled witness. -/
def Database.roundPay (s : Database) (share : Int) : Int :=
  (s.scheduled.map fun name => s.schedule.reward (s.kindOf name) share).sum

/-! ## The weights -/

/-- The weights `witness_schedule_object` starts with. -/
structure WitnessSchedule.Weighted (w : WitnessSchedule) : Prop where
  top19 : w.top19Weight = 1
  timeshare : w.timeshareWeight = 5
  miner : w.minerWeight = 1

/-- Nothing changes them. -/
abbrev SameWeights : Database → Database → Prop := Keeps fun s => s.schedule.Weighted

abbrev keepsSchedule : Footprint
  | .schedule => false
  | _ => true

section Frames

set_option synthInstance.maxSize 1000000

theorem Within.weighted {t : Database} (within : Within keepsSchedule s t) (weighted : s.schedule.Weighted) :
    t.schedule.Weighted := by
  have same : t.schedule = s.schedule := within .schedule rfl
  rwa [same]

instance : Finer (Within keepsSchedule) SameWeights := ⟨fun _ _ within => within.weighted⟩

theorem weighted_modifySchedule {f : WitnessSchedule → WitnessSchedule}
    (same : ∀ w, (f w).top19Weight = w.top19Weight ∧ (f w).timeshareWeight = w.timeshareWeight ∧
      (f w).minerWeight = w.minerWeight) : Preserves SameWeights (modifySchedule f) := by
  refine preserves_modify fun s weighted => ?_
  obtain ⟨top19, timeshare, miner⟩ := same s.schedule
  exact ⟨top19.trans weighted.top19, timeshare.trans weighted.timeshare, miner.trans weighted.miner⟩

instance {props : ChainProperties} : Preserves SameWeights (modifySchedule fun w => { w with medianProps := props }) :=
  weighted_modifySchedule fun _ => ⟨rfl, rfl, rfl⟩

instance {time : Uint128} : Preserves SameWeights (modifySchedule fun w => { w with currentVirtualTime := time }) :=
  weighted_modifySchedule fun _ => ⟨rfl, rfl, rfl⟩

instance {factor version : WitnessSchedule → Nat} : Preserves SameWeights (modifySchedule fun w =>
      { w.activate active now number with
        witnessPayNormalizationFactor := factor w
        currentVirtualTime := time w
        majorityVersion := version w }) :=
  weighted_modifySchedule fun _ => ⟨rfl, rfl, rfl⟩

instance : Preserves SameWeights (modifySchedule fun w =>
      { w.activate active now number with currentVirtualTime := time w }) :=
  weighted_modifySchedule fun _ => ⟨rfl, rfl, rfl⟩

instance : Preserves SameWeights updateWitnessSchedule4 := by
  simp only [updateWitnessSchedule4, updateMedianWitnessProps, resetVirtualScheduleTime, advanceVirtualTime]
  infer_instance

instance {net hardfork} : Preserves SameWeights (Network.rewrite net hardfork) := by
  unfold Network.rewrite resetVirtualScheduleTime
  split <;> infer_instance

theorem run_sameWeights {step : BlockStep} (other : step.appliesOperations = false) :
    Preserves SameWeights (step.run net) := by
  cases step <;> simp only [BlockStep.run, updateWitnessSchedule, updateWitnessScheduleByPow, updateMedianWitnessProps]
  case applyTransaction | clearExpiredProposals => cases other
  all_goals infer_instance

theorem weighted_keepsInvariant : net.KeepsInvariant (fun _ _ => True) fun s => s.schedule.Weighted where
  genesis := by
    have shuffled : Preserves SameWeights
      (modifySchedule fun w => { w with currentShuffledWitnesses := [.initMiner] }) :=
      weighted_modifySchedule fun _ => ⟨rfl, rfl, rfl⟩
    have kept : Preserves SameWeights net.initGenesis := by
      unfold Network.initGenesis; infer_instance
    exact (kept.related _).mono fun _ _ keeps => keeps ⟨rfl, rfl, rfl⟩
  operations :=
    { records := fun _ _ within => Within.weighted within.widen
      evaluator := fun _ _ _ _ _ other _ weighted =>
        ((evaluate_dispatchCells other).related _).mono fun _ _ within => Within.weighted within.widen weighted }
  step := fun _ _ other _ weighted => ((run_sameWeights other).related _).mono fun _ _ keeps => keeps weighted

theorem reachable_weighted (reachable : net.Reachable s) : s.schedule.Weighted := by
  obtain ⟨_, _, reaches⟩ := reachable
  exact (weighted_keepsInvariant.reaches reaches).1

end Frames

/-! ## Shares of the factor -/

section Pay

variable {t : Database} {top miners timeshare : List AccountName}

theorem Database.roundPay_eq : t.roundPay n = ((t.scheduled.map fun name => Shares.share (n * maxWitnesses)
      t.schedule.witnessPayNormalizationFactor (t.schedule.weight (t.kindOf name))).sum : Nat) := by
  have cast := map_list_sum (Nat.castAddMonoidHom Int) (t.scheduled.map fun name => Shares.share (n * maxWitnesses)
    t.schedule.witnessPayNormalizationFactor (t.schedule.weight (t.kindOf name)))
  rw [map_map] at cast
  exact cast.symm

theorem sum_weight_of_kind {names : List AccountName} (same : ∀ name ∈ names, t.kindOf name = kind) :
    (names.map fun name => t.schedule.weight (t.kindOf name)).sum = t.schedule.weight kind * names.length := by
  have constant : (names.map fun name => t.schedule.weight (t.kindOf name)) =
      names.map fun _ => t.schedule.weight kind :=
    map_congr_left fun name member => by rw [same name member]
  rw [constant, map_const', sum_replicate_nat, Nat.mul_comm]

/-- Every witness of the round counts in the factor with the weight it is paid by. -/
theorem Round.weights (round : Round s t top miners timeshare)
    (normalised : t.schedule.NormalisesPay top miners timeshare) :
    (t.scheduled.map fun name => t.schedule.weight (t.kindOf name)).sum = t.schedule.witnessPayNormalizationFactor := by
  have kind {name : AccountName} (listed : name ∈ top ++ miners ++ timeshare) :=
    round.marked (round.perm.mem_iff.mpr listed)
  have ofTop : ∀ name ∈ top, t.kindOf name = .top19 := fun name member => by
    rw [kindOf, (kind (by simp [member])).1.mp member, Option.getD_some]
  have ofMiners : ∀ name ∈ miners, t.kindOf name = .miner := fun name member => by
    rw [kindOf, (kind (by simp [member])).2.1.mp member, Option.getD_some]
  have ofTimeshare : ∀ name ∈ timeshare, t.kindOf name = .timeshare := fun name member => by
    rw [kindOf, (kind (by simp [member])).2.2.mp member, Option.getD_some]
  rw [(round.perm.map _).sum_eq, map_append, map_append, sum_append, sum_append,
    sum_weight_of_kind ofTop, sum_weight_of_kind ofMiners, sum_weight_of_kind ofTimeshare, normalised]
  rfl

theorem WitnessSchedule.NormalisesPay.positive (normalised : w.NormalisesPay top miners timeshare)
    (weighted : w.Weighted) (nonempty : top ++ miners ++ timeshare ≠ []) : 0 < w.witnessPayNormalizationFactor := by
  have present := length_pos_iff.mpr nonempty
  rw [length_append, length_append] at present
  rw [normalised, weighted.top19, weighted.timeshare, weighted.miner]
  omega

/-- One block by each witness of the round costs 21 shares, less the rounding. -/
theorem Round.roundPay (round : Round s t top miners timeshare)
    (normalised : t.schedule.NormalisesPay top miners timeshare) (weighted : t.schedule.Weighted)
    (nonempty : t.scheduled ≠ []) (n : Nat) :
    t.roundPay n ≤ n * maxWitnesses ∧ (n * maxWitnesses : Int) < t.roundPay n + t.scheduled.length := by
  have listed : top ++ miners ++ timeshare ≠ [] := fun absent => nonempty (perm_nil.mp (absent ▸ round.perm))
  have positive := normalised.positive weighted listed
  have whole := round.weights normalised
  rw [roundPay_eq]
  exact ⟨by exact_mod_cast sum_share_le positive whole.le,
    by exact_mod_cast lt_sum_share_add_length nonempty positive whole⟩

theorem witness_pay_normalised_iff (weighted : s.schedule.Weighted) (hardfork : s.hasHardfork 16 = true)
    (eligible : ∃ name, s.HasKey name) (run : updateWitnessSchedule4 s = .ok ((), t)) : 1 ≤ t.scheduled.length ∧
    ((∀ share : Int, 0 ≤ share → t.roundPay share ≤ t.scheduled.length * share ∧
        t.scheduled.length * share - t.scheduled.length < t.roundPay share) ↔ t.scheduled.length = maxWitnesses) := by
  have kept : SameWeights s t := frame_of_run run
  have nonempty : s.keyed ≠ [] := by
    obtain ⟨name, hasKey⟩ := eligible
    exact ne_nil_of_mem (mem_keyed.mpr hasKey)
  obtain ⟨top, miners, timeshare, round, normalised⟩ :=
    updateWitnessSchedule4_round (hasHardfork_mono (by decide) hardfork) nonempty _ _ run
  have length : t.scheduled.length = min maxWitnesses s.keyed.length := by rw [round.perm.length_eq, round.length]
  have present := length_pos_iff.mpr nonempty
  have scheduled : t.scheduled ≠ [] := by
    rw [← length_pos_iff, length]
    exact lt_min (by decide) present
  have pays := round.roundPay normalised (kept weighted) scheduled
  refine ⟨length_pos_iff.mpr scheduled, fun exactly => ?_, fun full share nonneg => ?_⟩
  · -- with fewer witnesses a share of 20 already overshoots
    have above := (exactly 20 (by decide)).1
    have cost := (pays 20).2
    simp only [maxWitnesses, Nat.cast_ofNat] at *
    omega
  · obtain ⟨n, rfl⟩ := Int.eq_ofNat_of_zero_le nonneg
    have cost := pays n
    rw [full] at *
    simp only [maxWitnesses] at *
    omega

end Pay

/-- The full round of a network in use, with witnesses of all three classes, costs 21 shares up to the rounding. -/
theorem witness_pay_normalised_iff_inUse : (usedFor 48).state.nextRound.scheduled.length = 21 ∧
    ∀ share : Int, 0 ≤ share → (usedFor 48).state.nextRound.roundPay share ≤ 21 * share ∧
      21 * share - 21 < (usedFor 48).state.nextRound.roundPay share := by
  have full := usedFor_busy.state.full
  have exactly := (witness_pay_normalised_iff (reachable_weighted (usedFor_reachable 48))
    (hasHardfork_mono (by decide) usedFor_busy.state.hardfork) ⟨_, initMiner_hasKey⟩
    nextRound_eq).2.mpr full
  rw [full] at exactly
  exact ⟨full, exactly⟩

/-! ## A single witness -/

/-- The genesis with hardfork 16 applied. -/
def paidRound : Database := { bareGenesis with hardforks := { bareGenesis.hardforks with
  processedHardforks := replicate 17 0 } }

/-- A single witness is paid for 21 blocks with each block. -/
theorem single_witness_pay : updateWitnessSchedule4 paidRound = .ok ((), stateAfter updateWitnessSchedule4 paidRound) ∧
    (stateAfter updateWitnessSchedule4 paidRound).scheduled = [.initMiner] ∧
    (stateAfter updateWitnessSchedule4 paidRound).roundPay 1000 = 21000 :=
  ⟨stateAfter_eq (by decide +kernel), by decide +kernel, by decide +kernel⟩

end Golos
