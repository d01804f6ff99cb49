import Golos.Chain.Invariant
import Golos.Chain.Median

/-! # Valid chain properties

Witnesses vote with properties that were validated, and a median of valid properties is valid.  So
every limit the chain reads from `median_props` is a valid one, in every state of every run.
-/

namespace Golos

open Stateful ChainProperties

set_option synthInstance.maxSize 1000000

variable {f : WitnessInfo → WitnessInfo} {time : WitnessSchedule → Uint128} {now : Time} {active : List AccountName}
  {number : Nat}

structure Database.PropsValid (s : Database) : Prop where
  witnesses : ∀ name w, s.witnesses.find? name = some w → w.info.props.Valid
  median : s.schedule.medianProps.Valid
  scheduled : 1 ≤ s.schedule.numScheduledWitnesses

abbrev PropsKept := Keeps Database.PropsValid

theorem ChainProperties.valid_default : ({} : ChainProperties).Valid := validate_eq_ok.mp rfl

/-- Older versions of the properties replace their own part. -/
theorem ChainProperties.Valid.assign {p : ChainProperties} (valid : p.Valid) {props : VersionedChainProperties}
    (validated : props.validate = .ok ()) : (Evaluator.ChainProperties.assign p props).Valid := by
  cases props with
  | v17 props =>
    rw [VersionedChainProperties.validate, ChainProperties17.validate] at validated
    simp only [except_bind_eq_ok, validThat_eq_ok, exists_const] at validated
    obtain ⟨fee, size, interest⟩ := validated
    cases valid
    constructor <;> assumption
  | v18 props =>
    rw [VersionedChainProperties.validate, ChainProperties18.validate, ChainProperties17.validate] at validated
    simp only [except_bind_eq_ok, validThat_eq_ok, exists_const] at validated
    obtain ⟨⟨fee, size, interest⟩, golosFee, delegation, minDelegation, delegationTime⟩ := validated
    cases valid
    constructor <;> assumption
  | v19 props => exact validate_eq_ok.mp validated

abbrev outsideProps : Footprint
  | .witnessInfo | .schedule => false
  | _ => true

section Frames

open Evaluator

variable {s t : Database} {name : AccountName}

theorem Within.propsValid (within : Within outsideProps s t) (valid : s.PropsValid) : t.PropsValid := by
  have schedule : t.schedule = s.schedule := within .schedule rfl
  have infos (name : AccountName) : (t.witnesses.find? name).map (·.info) = (s.witnesses.find? name).map (·.info) :=
    Store.find?_eq_of_view (within .witnessInfo rfl) name
  refine ⟨fun name w found => ?_, by rw [schedule]; exact valid.median, by rw [schedule]; exact valid.scheduled⟩
  have same := infos name
  rw [found, Option.map_some] at same
  obtain ⟨w', found', info⟩ := Option.map_eq_some_iff.mp same.symm
  rw [← info]
  exact valid.witnesses name w' found'

instance : Finer (Within outsideProps) PropsKept := ⟨fun _ _ => Within.propsValid⟩

theorem propsValid_modifyWitnessInfo (kept : ∀ i, i.props.Valid → (f i).props.Valid) :
    Preserves PropsKept (modifyWitnessInfo name f) := by
  refine ⟨fun s => ?_⟩
  simp only [modifyWitnessInfo, updateWitness, getWitness, updateWitnesses, ensures_steps]
  intro _ _ valid
  exact ⟨fun other w => Store.all_modify (fun w => kept w.info) valid.witnesses, valid.median, valid.scheduled⟩

theorem propsValid_createWitness {info : WitnessInfo} {tally : WitnessVotes} (new : info.props.Valid) :
    Preserves PropsKept (createWitness name info tally) := by
  refine ⟨fun s => ?_⟩
  simp only [createWitness, updateWitnesses, ensures_steps]
  intro fresh valid
  exact ⟨fun other w => Store.all_insert fresh new valid.witnesses, valid.median, valid.scheduled⟩

instance {created update time transit : WitnessInfo → Time} {missed pow work version vote : WitnessInfo → Nat}
    {key : WitnessInfo → PublicKey} {rate : WitnessInfo → Price} {schedule : WitnessInfo → WitnessScheduleType} :
    Preserves PropsKept (modifyWitnessInfo name fun i => ⟨created i, missed i, pow i, key i, i.props,
      rate i, update i, schedule i, work i, version i, vote i, time i, transit i⟩) :=
  propsValid_modifyWitnessInfo fun _ => id

theorem propsValid_upsertWitness (kept : ∀ i, i.props.Valid → (f i).props.Valid) :
    Preserves PropsKept (upsertWitness name now f) := by
  have new : Preserves PropsKept (createWitness name (f { created := now }) {}) :=
    propsValid_createWitness (kept _ valid_default)
  have old : Preserves PropsKept (modifyWitnessInfo name f) := propsValid_modifyWitnessInfo kept
  unfold upsertWitness; infer_instance

theorem propsValid_witnessUpdate {o : WitnessUpdateOperation} (valid : o.validate = .ok ()) :
    Preserves PropsKept (witnessUpdate o) := by
  have props : (VersionedChainProperties.v17 o.props).validate = .ok () := by
    simp only [WitnessUpdateOperation.validate, except_bind_eq_ok] at valid
    obtain ⟨_, _, _, _, props⟩ := valid
    exact props
  have updated (s : Database) : Preserves PropsKept (upsertWitness o.owner s.head.time fun w => { w with
      signingKey := o.blockSigningKey
      props := if s.hasHardfork 18 then w.props else ChainProperties.assign w.props (.v17 o.props) }) := by
    refine propsValid_upsertWitness fun i old => ?_
    split
    · exact old
    · exact old.assign props
  unfold witnessUpdate; infer_instance

theorem propsValid_chainPropertiesUpdate {o : ChainPropertiesUpdateOperation} (valid : o.validate = .ok ()) :
    Preserves PropsKept (chainPropertiesUpdate o) := by
  have props : o.props.validate = .ok () := by
    simp only [ChainPropertiesUpdateOperation.validate, except_bind_eq_ok] at valid
    obtain ⟨_, _, props⟩ := valid
    exact props
  have updated (s : Database) : Preserves PropsKept (upsertWitness o.owner s.head.time fun w =>
      { w with props := ChainProperties.assign w.props o.props }) :=
    propsValid_upsertWitness fun i old => old.assign props
  unfold chainPropertiesUpdate; infer_instance

theorem propsValid_pow {producing : Bool} {o : PowOperation} (valid : o.validate = .ok ()) :
    Preserves PropsKept (pow producing o) := by
  have props : (VersionedChainProperties.v17 o.props).validate = .ok () := by
    simp only [PowOperation.validate, except_bind_eq_ok] at valid
    obtain ⟨_, props, _⟩ := valid
    exact props
  have new (t : Database) : Preserves PropsKept (createWitness o.workerAccount
      { props := ChainProperties.assign {} (.v17 o.props)
        signingKey := o.worker
        powWorker := t.pow.totalPow
        lastWork := o.work } {}) :=
    propsValid_createWitness (valid_default.assign props)
  have old (t : Database) : Preserves PropsKept (modifyWitnessInfo o.workerAccount fun w => { w with
      props := ChainProperties.assign w.props (.v17 o.props)
      powWorker := t.pow.totalPow
      lastWork := o.work }) :=
    propsValid_modifyWitnessInfo fun _ before => before.assign props
  unfold pow; infer_instance

theorem propsValid_pow2 {o : Pow2Operation} (valid : o.validate = .ok ()) : Preserves PropsKept (pow2 o) := by
  have props : (VersionedChainProperties.v17 o.props).validate = .ok () := by
    simp only [Pow2Operation.validate, except_bind_eq_ok] at valid
    obtain ⟨_, props, _⟩ := valid
    exact props
  have new (s : Database) (key : PublicKey) : Preserves PropsKept (createWitness o.workerAccount
      { props := ChainProperties.assign {} (.v17 o.props)
        signingKey := key
        powWorker := s.pow.totalPow } {}) :=
    propsValid_createWitness (valid_default.assign props)
  have old (s : Database) : Preserves PropsKept (modifyWitnessInfo o.workerAccount fun w => { w with
      props := ChainProperties.assign w.props (.v17 o.props)
      powWorker := s.pow.totalPow }) :=
    propsValid_modifyWitnessInfo fun _ before => before.assign props
  unfold pow2; infer_instance

theorem evaluate_propsValid {producing nesting apply} {op : Operation} (other : op.isProposal = false)
    (valid : op.validate = .ok ()) :
    Preserves PropsKept (evaluate producing nesting apply op) := by
  cases op <;> simp only [evaluate, transitToCyberway, feedPublish]
  case witnessUpdate => exact propsValid_witnessUpdate valid
  case chainPropertiesUpdate => exact propsValid_chainPropertiesUpdate valid
  case pow => exact propsValid_pow valid
  case pow2 => exact propsValid_pow2 valid
  case proposalCreate | proposalUpdate | proposalDelete => cases other
  all_goals infer_instance

/-! ## The schedule -/

theorem propsValid_modifySchedule {f : WitnessSchedule → WitnessSchedule}
    (median : ∀ w, (f w).medianProps = w.medianProps)
    (scheduled : ∀ w, 1 ≤ w.numScheduledWitnesses → 1 ≤ (f w).numScheduledWitnesses) :
    Preserves PropsKept (modifySchedule f) := by
  refine preserves_modify fun s valid => ⟨valid.witnesses, ?_, scheduled _ valid.scheduled⟩
  rw [median]
  exact valid.median

instance {time : Uint128} : Preserves PropsKept
    (modifySchedule fun w => { w with currentVirtualTime := time }) :=
  propsValid_modifySchedule (fun _ => rfl) fun _ => id

instance {factor version : WitnessSchedule → Nat} : Preserves PropsKept (modifySchedule fun w =>
      { w.activate active now number with
        witnessPayNormalizationFactor := factor w
        currentVirtualTime := time w
        majorityVersion := version w }) :=
  propsValid_modifySchedule (fun _ => rfl) fun _ _ => Nat.le_max_right _ _

instance : Preserves PropsKept (modifySchedule fun w =>
      { w.activate active now number with currentVirtualTime := time w }) :=
  propsValid_modifySchedule (fun _ => rfl) fun _ _ => Nat.le_max_right _ _

theorem mapM_getWitness {names : List AccountName} : Ensures s (names.mapM getWitness) fun witnesses t => t = s ∧
    witnesses.length = names.length ∧ ∀ w ∈ witnesses, ∃ name, s.witnesses.find? name = some w := by
  induction names with
  | nil => exact ensures_pure.mpr ⟨rfl, rfl, List.forall_mem_nil _⟩
  | cons name names ih =>
    simp only [List.mapM_cons, getWitness, ensures_bind, ensures_get, ensures_require]
    refine fun w found => Ensures.mono ih fun others t rest => ?_
    obtain ⟨rfl, length, members⟩ := rest
    rw [ensures_pure, List.length_cons, List.length_cons, length]
    exact ⟨rfl, rfl, List.forall_mem_cons.mpr ⟨⟨name, found⟩, members⟩⟩

/-- The witnesses a schedule finds are among those of the state. -/
theorem scheduledWitnesses_mem : Ensures s scheduledWitnesses fun witnesses t => t = s ∧
    witnesses.length = s.schedule.numScheduledWitnesses ∧ ∀ w ∈ witnesses, ∃ name, s.witnesses.find? name = some w := by
  rw [scheduledWitnesses, ensures_bind, ensures_get]
  refine Ensures.mono mapM_getWitness fun witnesses t found => ?_
  rw [Database.scheduled, List.length_map, List.length_range] at found
  exact found

instance : Preserves PropsKept updateMedianWitnessProps := by
  refine ⟨fun s => ensures_keeps fun valid => ?_⟩
  simp only [updateMedianWitnessProps, modifySchedule, modifyRates, ensures_steps]
  refine Ensures.mono scheduledWitnesses_mem fun active t found => ?_
  obtain ⟨rfl, length, members⟩ := found
  refine ⟨valid.witnesses, ?_, valid.scheduled⟩
  have nonempty : active ≠ [] := by
    rintro rfl
    have := valid.scheduled
    rw [← length] at this
    cases this
  refine Valid.median (medianProps_computes nonempty) fun p member => ?_
  obtain ⟨w, listed, rfl⟩ := List.mem_map.mp member
  obtain ⟨name, there⟩ := members w listed
  exact valid.witnesses name w there

instance {voted queue selected} : Preserves PropsKept (selectMiners voted queue selected) := by
  induction queue generalizing selected with
  | nil => unfold selectMiners; infer_instance
  | cons name queue ih => unfold selectMiners; infer_instance

instance {net hardfork} : Preserves PropsKept (Network.rewrite net hardfork) := by
  unfold Network.rewrite resetVirtualScheduleTime
  split <;> infer_instance

instance {b} : Preserves PropsKept (processHeaderExtensions b) := by
  have extension (e : HeaderExtension) : Preserves PropsKept (modifyWitnessInfo b.witness fun i =>
      match e with
      | .void => i
      | .version runningVersion => { i with runningVersion }
      | .hardforkVersionVote version time =>
        { i with hardforkVersionVote := version, hardforkTimeVote := time }) := by
    refine propsValid_modifyWitnessInfo fun i valid => ?_
    cases e <;> exact valid
  unfold processHeaderExtensions; infer_instance

theorem run_propsValid {net : Network} {step : BlockStep} (other : step.appliesOperations = false) :
    Preserves PropsKept (step.run net) := by
  cases step <;> simp only [BlockStep.run, updateWitnessSchedule, updateWitnessSchedule4, updateWitnessScheduleByPow,
    resetVirtualScheduleTime, advanceVirtualTime, updateGlobalDynamicData, missSlot]
  case applyTransaction | clearExpiredProposals => cases other
  all_goals infer_instance

end Frames

/-! ## Runs -/

section Runs

variable {net : Network} {allowed : Database → BlockStep → Prop} {s : Database}

theorem propsValid_keepsInvariant : net.KeepsInvariant allowed Database.PropsValid where
  genesis := by
    have created : Preserves PropsKept (createWitness .initMiner
        { signingKey := net.initPublicKey, schedule := .miner } {}) :=
      propsValid_createWitness valid_default
    have shuffled : Preserves PropsKept
        (modifySchedule fun w => { w with currentShuffledWitnesses := [.initMiner] }) :=
      propsValid_modifySchedule (fun _ => rfl) fun _ => id
    have kept : Preserves PropsKept net.initGenesis := by
      unfold Network.initGenesis; infer_instance
    refine (kept.related _).mono fun _ s keeps => keeps ⟨?_, valid_default, Nat.le_refl 1⟩
    intro name w found
    cases found
  operations :=
    { records := fun _ _ within =>
        Within.propsValid within.widen
      evaluator := fun _ _ _ _ _ other validated valid =>
        ((evaluate_propsValid other validated).related _).mono fun _ _ keeps => keeps valid }
  step := fun _ _ other _ valid => ((run_propsValid other).related _).mono fun _ _ keeps => keeps valid

theorem Does.propsValid {t : Database} {deed : Deed} (done : Does net s deed t) (valid : s.PropsValid) : t.PropsValid :=
  (@propsValid_keepsInvariant net fun _ _ => True).does (fun _ _ => trivial) valid done

/-- The properties that count are valid in every state of every run. -/
theorem reachable_propsValid (reachable : net.Reachable s) : s.PropsValid := by
  obtain ⟨_, _, reached⟩ := reachable
  exact (propsValid_keepsInvariant.reaches reached).1

/-- Three votes in five seconds have become the median. -/
theorem reachable_propsValid_inUse : (usedFor 68).state.schedule.medianProps.votesWindow = 5 ∧
    (usedFor 68).state.schedule.medianProps.votesPerWindow = 3 ∧ (usedFor 68).state.PropsValid :=
  ⟨usedFor_quiet.window, usedFor_quiet.perWindow, reachable_propsValid (usedFor_reachable 68)⟩

end Runs

end Golos
