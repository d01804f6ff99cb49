import Golos.Chain.Bandwidth
import Golos.Chain.Invariant
import Golos.Chain.Round

/-! # The mining queue

A witness waits for the block its proof of work has earned as long as its `pow_worker` is positive, and
`num_pow_witnesses` is to count those that wait.  `pow_worker` is taken from `total_pow`, which starts
at the largest number of its type, so that the first work of the chain is number zero: it is counted,
and never waits.

* `mining_queue_counted_iff` — the count is right until the first work, and too large ever after.
-/

namespace Golos

open Stateful Evaluator Store
open Database hiding pow

set_option synthInstance.maxSize 1000000

variable {s t : Database} {m : Moment} {info : WitnessInfo} {tally : WitnessVotes} {op : Operation} {deed : Deed}

/-- The number of witnesses that wait. -/
def Database.waitingMiners (s : Database) : Nat := s.witnesses.total fun _ w => if 0 < w.info.powWorker then 1 else 0

/-! ## What leaves the queue alone -/

/-- The counters and everybody's place are the same. -/
structure SameQueue (s t : Database) : Prop where
  pow : t.pow = s.pow
  places : t.witnesses.view (·.info.powWorker) = s.witnesses.view (·.info.powWorker)

instance : Std.Refl SameQueue := ⟨fun _ => ⟨rfl, rfl⟩⟩

instance : IsTrans Database SameQueue :=
  ⟨fun _ _ _ first second => ⟨second.pow.trans first.pow, second.places.trans first.places⟩⟩

/-- Whoever leaves is no longer counted, and nobody joins. -/
def Drains (s t : Database) : Prop :=
  s.waitingMiners ≤ s.pow.numPowWitnesses →
    t.waitingMiners ≤ t.pow.numPowWitnesses ∧ t.pow.totalPow = s.pow.totalPow ∧
      t.pow.numPowWitnesses - t.waitingMiners = s.pow.numPowWitnesses - s.waitingMiners

instance : Std.Refl Drains := ⟨fun _ counted => ⟨counted, rfl, rfl⟩⟩

instance : IsTrans Database Drains where
  trans _ _ _ first second counted := by
    obtain ⟨counted, total, same⟩ := first counted
    obtain ⟨counted', total', same'⟩ := second counted
    exact ⟨counted', total'.trans total, same'.trans same⟩

theorem SameQueue.waitingMiners (same : SameQueue s t) : t.waitingMiners = s.waitingMiners :=
  total_eq_of_view (g := fun _ place => if 0 < place then 1 else 0) same.places

theorem SameQueue.drains (same : SameQueue s t) : Drains s t := by
  intro counted
  rw [same.waitingMiners, same.pow]
  exact ⟨counted, rfl, rfl⟩

theorem SameQueue.place (same : SameQueue s t) (name : AccountName) :
    (t.witnesses.find? name).map (·.info.powWorker) = (s.witnesses.find? name).map (·.info.powWorker) :=
  find?_eq_of_view same.places name

abbrev keepsQueue : Footprint
  | .pow | .witnessInfo => false
  | _ => true

theorem Within.sameQueue (within : Within keepsQueue s t) : SameQueue s t := by
  have infos : t.witnesses.view (·.info) = s.witnesses.view (·.info) := within .witnessInfo rfl
  refine ⟨within .pow rfl, ?_⟩
  have places := congrArg (List.map fun e : AccountName × WitnessInfo => (e.1, e.2.powWorker)) infos
  simpa [view, Function.comp_def] using places

instance : Finer (Within keepsQueue) SameQueue := ⟨fun _ _ => Within.sameQueue⟩

instance : Finer SameQueue Drains := ⟨fun _ _ => SameQueue.drains⟩

theorem sameQueue_modifyWitnessInfo {name : AccountName} {f : WitnessInfo → WitnessInfo}
    (kept : ∀ i, (f i).powWorker = i.powWorker) : Preserves SameQueue (modifyWitnessInfo name f) := by
  refine ⟨fun s => ensures_modifyWitnessInfo.mpr fun w found u isU => ?_⟩
  subst isU
  exact ⟨rfl, view_modify fun w => kept w.info⟩

instance {name : AccountName} {created update time transit : WitnessInfo → Time}
    {missed work version vote : WitnessInfo → Nat} {key : WitnessInfo → PublicKey}
    {props : WitnessInfo → ChainProperties} {rate : WitnessInfo → Price}
    {schedule : WitnessInfo → WitnessScheduleType} :
    Preserves SameQueue (modifyWitnessInfo name fun i => ⟨created i, missed i, i.powWorker, key i, props i, rate i,
      update i, schedule i, work i, version i, vote i, time i, transit i⟩) :=
  sameQueue_modifyWitnessInfo fun _ => rfl

/-- A witness that is created with no work does not wait. -/
theorem drains_createWitness {name : AccountName}
    (idle : info.powWorker = 0) : Preserves Drains (createWitness name info tally) := by
  refine ⟨fun s => ?_⟩
  simp only [createWitness, updateWitnesses, ensures_steps]
  intro fresh counted
  have same : waitingMiners { s with witnesses := s.witnesses.insert name { info, tally } } = s.waitingMiners := by
    rw [waitingMiners, total_insert fresh, idle]
    rfl
  rw [same]
  exact ⟨counted, rfl, rfl⟩

theorem drains_upsertWitness {name : AccountName} {now : Time} {f : WitnessInfo → WitnessInfo}
    (kept : ∀ i, (f i).powWorker = i.powWorker) : Preserves Drains (upsertWitness name now f) := by
  have new : Preserves Drains (createWitness name (f { created := now }) {}) := drains_createWitness (kept _)
  have old : Preserves SameQueue (modifyWitnessInfo name f) := sameQueue_modifyWitnessInfo kept
  unfold upsertWitness; infer_instance

instance {o} : Preserves Drains (witnessUpdate o) := by
  have updated (s : Database) : Preserves Drains (upsertWitness o.owner s.head.time fun w => { w with
      signingKey := o.blockSigningKey
      props := if s.hasHardfork 18 then w.props else ChainProperties.assign w.props (.v17 o.props) }) :=
    drains_upsertWitness fun _ => rfl
  unfold witnessUpdate; infer_instance

instance {o} : Preserves Drains (chainPropertiesUpdate o) := by
  have updated (s : Database) : Preserves Drains (upsertWitness o.owner s.head.time fun w =>
      { w with props := ChainProperties.assign w.props o.props }) := drains_upsertWitness fun _ => rfl
  unfold chainPropertiesUpdate; infer_instance

/-! ## Leaving the queue -/

section Leaving

variable {s : Database}

/-- A witness waits. -/
def Database.Waits (s : Database) (name : AccountName) : Prop :=
  ∃ place, (s.witnesses.find? name).map (·.info.powWorker) = some place ∧ 0 < place

theorem SameQueue.waits (same : SameQueue s t) {name : AccountName} : t.Waits name ↔ s.Waits name := by
  rw [Waits, Waits, same.place]

theorem waits_powQueue {e : AccountName × Witness} (member : e ∈ s.powQueue) : s.Waits e.1 := by
  have listed := (List.mem_insertionSort _).mp member
  obtain ⟨entry, waits⟩ := List.mem_filter.mp listed
  have found : s.witnesses.find? e.1 = some e.2 := find?_eq_some.mpr entry
  exact ⟨e.2.info.powWorker, by rw [found]; rfl, by simpa using waits⟩

/-- The state after a witness has left. -/
def Database.dismiss (s : Database) (name : AccountName) (f : WitnessInfo → WitnessInfo) : Database :=
  { s with
    witnesses := s.witnesses.modify name (Witness.mapInfo f)
    pow := { s.pow with numPowWitnesses := s.pow.numPowWitnesses - 1 } }

theorem drains_dismiss {name : AccountName} {f : WitnessInfo → WitnessInfo} (leaves : ∀ i, (f i).powWorker = 0)
    (waits : s.Waits name) : Drains s (s.dismiss name f) := by
  intro counted
  obtain ⟨place, found, positive⟩ := waits
  obtain ⟨w, there, rfl⟩ := Option.map_eq_some_iff.mp found
  have fewer : (s.dismiss name f).waitingMiners + 1 = s.waitingMiners := by
    have moved := total_modify (f := Witness.mapInfo f) (g := fun _ w => if 0 < w.info.powWorker then 1 else 0) there
    simpa [waitingMiners, dismiss, Witness.mapInfo, leaves, positive] using moved
  have number : (s.dismiss name f).pow.numPowWitnesses = s.pow.numPowWitnesses - 1 := rfl
  refine ⟨?_, rfl, ?_⟩ <;> omega

theorem waits_dismiss {name other : AccountName} {f : WitnessInfo → WitnessInfo} (differ : other ≠ name)
    (waits : s.Waits other) : (s.dismiss name f).Waits other := by
  rw [Waits, dismiss, find?_modify, if_neg differ]
  exact waits

/-- Everybody the loop looks at leaves. -/
theorem selectMiners_drains {voted queue selected : List AccountName} (nodup : queue.Nodup)
    (waits : ∀ name ∈ queue, s.Waits name) : Ensures s (selectMiners voted queue selected) fun _ t => Drains s t := by
  induction queue generalizing s selected with
  | nil => exact ensures_pure.mpr (refl_of Drains s)
  | cons name queue ih =>
    obtain ⟨absent, nodup⟩ := List.nodup_cons.mp nodup
    obtain ⟨first, others⟩ := List.forall_mem_cons.mp waits
    rw [selectMiners]
    refine ensures_ite.mpr ⟨fun _ => ensures_pure.mpr (refl_of Drains s), fun _ => ?_⟩
    simp only [getWitness, modifyPow, ensures_steps]
    intro w found
    refine ensures_modifyWitnessInfo.mpr fun _ _ u isU => ?_
    subst isU
    have step := @drains_dismiss s name (fun i => { i with
      powWorker := 0
      schedule := if name ∉ voted ∧ s.canSign w then .miner else i.schedule }) (fun _ => rfl) first
    refine (ih nodup fun other member => waits_dismiss ?_ (others other member)).mono
      fun _ t rest => trans_of Drains step rest
    rintro rfl
    exact absent member

theorem updateWitnessSchedule4_drains : Preserves Drains updateWitnessSchedule4 := by
  refine ⟨fun s => ?_⟩
  rw [updateWitnessSchedule4, ensures_bind, ensures_get, ensures_bind]
  refine ensures_frame SameQueue fun _ t₁ marked => ?_
  rw [ensures_bind]
  have waits : ∀ name ∈ s.powQueue.map Prod.fst, t₁.Waits name := by
    intro name member
    obtain ⟨e, listed, rfl⟩ := List.mem_map.mp member
    exact marked.waits.mpr (waits_powQueue listed)
  refine (selectMiners_drains lists_sorted.nodup waits).mono fun miners t₂ drained => ?_
  refine ensures_frame SameQueue fun _ t₃ rest => ?_
  exact trans_of Drains (trans_of Drains marked.drains drained) rest.drains

/-- Before hardfork 4 the first in the queue leaves when there are too many. -/
theorem popMiner_drains (same : SameQueue s t) :
    Ensures t (when (maxWitnesses < s.pow.numPowWitnesses) <| (s.powQueue.head?).elim (pure ()) fun e => do
        modifyWitnessInfo e.1 fun i => { i with powWorker := 0 }
        modifyPow fun p => { p with numPowWitnesses := p.numPowWitnesses - 1 }) fun _ u => Drains s u := by
  refine ensures_when.mpr ⟨fun _ => ?_, fun _ => same.drains⟩
  cases first : s.powQueue.head? with
  | none => exact ensures_pure.mpr same.drains
  | some e =>
    have waits := same.waits.mpr (waits_powQueue (List.mem_of_head? first))
    simp only [Option.elim_some, modifyPow, ensures_steps]
    refine ensures_modifyWitnessInfo.mpr fun _ _ u isU => ?_
    subst isU
    exact trans_of Drains same.drains (@drains_dismiss t e.1 (fun i => { i with powWorker := 0 }) (fun _ => rfl) waits)

theorem updateWitnessScheduleByPow_drains : Preserves Drains updateWitnessScheduleByPow := by
  refine ⟨fun s => ?_⟩
  rw [updateWitnessScheduleByPow, ensures_bind, ensures_get]
  refine ensures_ite.mpr ⟨fun _ => ?_, fun _ => ?_⟩
  all_goals
    rw [ensures_bind]
    refine ensures_frame SameQueue fun elected t₁ voted => ?_
    rw [ensures_bind]
    refine (popMiner_drains voted).mono fun _ t₂ drained => ?_
    exact ensures_frame SameQueue fun _ t₃ rest => trans_of Drains drained rest.drains

instance : Preserves Drains updateWitnessSchedule := by
  have later := updateWitnessSchedule4_drains
  have early := updateWitnessScheduleByPow_drains
  unfold updateWitnessSchedule; infer_instance

instance {net hardfork} : Preserves SameQueue (Network.rewrite net hardfork) := by
  unfold Network.rewrite
  split <;> infer_instance

instance {b} : Preserves SameQueue (processHeaderExtensions b) := by
  have extension (e : HeaderExtension) : Preserves SameQueue (modifyWitnessInfo b.witness fun i =>
      match e with
      | .void => i
      | .version runningVersion => { i with runningVersion }
      | .hardforkVersionVote version time =>
        { i with hardforkVersionVote := version, hardforkTimeVote := time }) := by
    refine sameQueue_modifyWitnessInfo fun i => ?_
    cases e <;> rfl
  unfold processHeaderExtensions; infer_instance

theorem run_drains {net : Network} {step : BlockStep} (other : step.appliesOperations = false) :
    Preserves Drains (step.run net) := by
  cases step <;> simp only [BlockStep.run, updateGlobalDynamicData, missSlot]
  case applyTransaction | clearExpiredProposals => cases other
  all_goals infer_instance

end Leaving

/-! ## Joining the queue -/

section Joining

variable {s : Database}

/-- An operation that hands in a proof of work. -/
def Operation.isWork : Operation → Bool
  | .pow _ | .pow2 _ => true
  | _ => false

/-- The next work is counted, and waits under its number, which may be zero. -/
structure Joins (s t : Database) : Prop where
  total : t.pow.totalPow = (s.pow.totalPow + 1) % 2 ^ 64
  counted : t.pow.numPowWitnesses = s.pow.numPowWitnesses + 1
  waits : t.waitingMiners = s.waitingMiners + if 0 < t.pow.totalPow then 1 else 0

/-- Somebody waits under the number of the last work. -/
structure Enqueues (s t : Database) : Prop where
  pow : t.pow = s.pow
  waits : t.waitingMiners = s.waitingMiners + if 0 < s.pow.totalPow then 1 else 0

/-- The state after a work is counted. -/
def Database.countWork (s : Database) : Database :=
  { s with pow := ⟨(s.pow.totalPow + 1) % 2 ^ 64, s.pow.numPowWitnesses + 1⟩ }

theorem countPow_counts : Ensures s countPow fun _ t => t = s.countWork := by
  simp only [countPow, modifyPow, ensures_modify]
  rfl

theorem enqueues_createWitness {name : AccountName}
    (joins : info.powWorker = s.pow.totalPow) : Ensures s (createWitness name info tally) fun _ t => Enqueues s t := by
  simp only [createWitness, updateWitnesses, ensures_steps]
  intro fresh
  refine ⟨rfl, ?_⟩
  rw [waitingMiners, total_insert fresh, joins]
  rfl

theorem enqueues_modifyWitnessInfo {name : AccountName} {f : WitnessInfo → WitnessInfo} {w : Witness}
    (found : s.witnesses.find? name = some w) (idle : w.info.powWorker = 0)
    (joins : ∀ i, (f i).powWorker = s.pow.totalPow) : Ensures s (modifyWitnessInfo name f) fun _ t => Enqueues s t := by
  refine ensures_modifyWitnessInfo.mpr fun _ _ u isU => ?_
  subst isU
  refine ⟨rfl, ?_⟩
  have moved := total_modify (f := Witness.mapInfo f) (g := fun _ w => if 0 < w.info.powWorker then 1 else 0) found
  simpa [waitingMiners, Witness.mapInfo, joins, idle] using moved

theorem joins_of_enqueues {u v : Database} (before : SameQueue s t) (joined : Enqueues t.countWork u)
    (after : SameQueue u v) : Joins s v := by
  obtain ⟨pow, waits⟩ := joined
  have total : v.pow.totalPow = (s.pow.totalPow + 1) % 2 ^ 64 := by
    rw [after.pow, pow, ← before.pow]
    rfl
  have number : v.pow.numPowWitnesses = s.pow.numPowWitnesses + 1 := by
    rw [after.pow, pow, ← before.pow]
    rfl
  refine ⟨total, number, ?_⟩
  rw [after.waitingMiners, waits, total, ← before.waitingMiners, ← before.pow]
  rfl

theorem pow_joins {producing : Bool} {o : PowOperation} : Ensures s (pow producing o) fun _ t => Joins s t := by
  rw [pow, ensures_bind, ensures_get]
  have before := refl_of SameQueue s
  iterate 3 refine ensures_bind.mpr (ensures_since _ before fun _ _ before => ?_)
  refine ensures_bind.mpr (ensures_since _ before fun _ s₄ before => ?_)
  rw [ensures_bind]
  refine countPow_counts.mono ?_
  rintro _ _ rfl
  rw [ensures_bind, ensures_get, ensures_bind]
  refine Ensures.mono ?_ fun _ u joined =>
    ensures_frame SameQueue fun _ v paid => joins_of_enqueues before joined paid
  cases found : s₄.countWork.witnesses.find? o.workerAccount with
  | none => exact enqueues_createWitness rfl
  | some w =>
    simp only [Option.elim_some, ensures_steps]
    exact fun idle => enqueues_modifyWitnessInfo found idle fun _ => rfl

theorem pow2_joins {o : Pow2Operation} : Ensures s (pow2 o) fun _ t => Joins s t := by
  rw [pow2, ensures_bind]
  refine ensures_frame SameQueue fun _ s₁ checked => ?_
  rw [ensures_bind]
  refine countPow_counts.mono ?_
  rintro _ _ rfl
  rw [ensures_bind, ensures_get, ensures_bind]
  refine Ensures.mono ?_ fun _ u joined =>
    ensures_frame SameQueue fun _ v paid => joins_of_enqueues checked joined paid
  refine ensures_ite.mpr ⟨fun unknown => ?_, fun known => ?_⟩
  · rw [ensures_bind, ensures_require]
    intro key _
    rw [ensures_bind]
    refine ensures_frame SameQueue fun _ u created => ?_
    have number : u.pow = s₁.countWork.pow := created.pow
    refine (enqueues_createWitness (by rw [number])).mono fun _ v joined => ?_
    exact ⟨joined.pow.trans number, by rw [joined.waits, created.waitingMiners, number]⟩
  · simp only [ensures_steps]
    exact fun _ w found idle => enqueues_modifyWitnessInfo found idle fun _ => rfl

end Joining

/-! ## Histories -/

section Histories

variable {net : Network} {s : Database}

/-- A proof of work was accepted before. -/
def Moment.Worked (m : Moment) : Prop := ∃ tr ∈ m.transitions, ∃ op, tr.deed = .evaluated op ∧ op.isWork = true

/-- The count is right until the first work, and too large from then on. -/
structure Moment.Queued (m : Moment) : Prop where
  before : ¬ m.Worked → m.state.pow.totalPow = 2 ^ 64 - 1 ∧ m.state.pow.numPowWitnesses = m.state.waitingMiners
  after : m.Worked → m.state.waitingMiners < m.state.pow.numPowWitnesses

theorem Moment.Queued.counted (queued : m.Queued) : m.state.waitingMiners ≤ m.state.pow.numPowWitnesses := by
  by_cases worked : m.Worked
  · exact (queued.after worked).le
  · exact (queued.before worked).2.ge

theorem Moment.worked_next : (m.next deed t).Worked ↔ (∃ op, deed = .evaluated op ∧ op.isWork = true) ∨ m.Worked := by
  simp only [Moment.Worked, Moment.transitions_next, List.mem_cons, exists_eq_or_imp]

/-- What only drains the queue is no work. -/
theorem Moment.Queued.drain (queued : m.Queued) (drains : Drains m.state t)
    (idle : ∀ op, deed = .evaluated op → op.isWork = false) : (m.next deed t).Queued := by
  obtain ⟨counted, total, same⟩ := drains queued.counted
  have worked : (m.next deed t).Worked ↔ m.Worked := by
    rw [Moment.worked_next]
    refine ⟨?_, .inr⟩
    rintro (⟨op, isOp, work⟩ | earlier)
    · rw [idle op isOp] at work
      cases work
    · exact earlier
  constructor
  · intro absent
    obtain ⟨start, exactly⟩ := queued.before (mt worked.mpr absent)
    exact ⟨total.trans start, by simp only [Moment.next]; omega⟩
  · intro present
    have more := queued.after (worked.mp present)
    simp only [Moment.next]
    omega

theorem Moment.Queued.join (queued : m.Queued) (joins : Joins m.state t)
    (work : op.isWork = true) : (m.next (.evaluated op) t).Queued := by
  have worked : (m.next (.evaluated op) t).Worked := Moment.worked_next.mpr (.inl ⟨op, rfl, work⟩)
  refine ⟨fun absent => absurd worked absent, fun _ => ?_⟩
  obtain ⟨total, counted, waits⟩ := joins
  simp only [Moment.next]
  by_cases first : m.Worked
  · have more := queued.after first
    split at waits <;> omega
  · -- the number of the first work is zero
    obtain ⟨start, exactly⟩ := queued.before first
    rw [if_neg (by omega)] at waits
    omega

theorem genesis_queued (start : net.initGenesis {} = .ok ((), s)) : (⟨[], s⟩ : Moment).Queued := by
  have created : Preserves Drains (createWitness .initMiner
      { signingKey := net.initPublicKey, schedule := .miner } {}) := drains_createWitness rfl
  have kept : Preserves Drains net.initGenesis := by
    unfold Network.initGenesis; infer_instance
  obtain ⟨counted, total, same⟩ := kept.after start (Nat.le_refl 0)
  have absent : ¬ (⟨[], s⟩ : Moment).Worked := by
    rintro ⟨_, member, _⟩
    cases member
  refine ⟨fun _ => ⟨total, ?_⟩, fun present => absurd present absent⟩
  exact Nat.le_antisymm (Nat.le_of_sub_eq_zero same) counted

theorem queued_of_chronicle {rest : List BlockStep} (chronicle : net.Chronicle (fun _ _ => True) rest m) :
    m.Queued := by
  refine chronicle.invariant (fun s => genesis_queued) fun m deed t _ queued done => ?_
  cases done using Does.byKind with
  | record kind frame =>
    have within : Within keepsQueue m.state t := frame.widen
    refine queued.drain within.sameQueue.drains fun op same => ?_
    rw [same] at kind
    cases kind
  | @evaluated _ _ producing nesting apply op other valid run =>
    cases op <;> simp only [evaluate, transitToCyberway, feedPublish] at run
    case proposalCreate | proposalUpdate | proposalDelete => cases other
    case pow => exact queued.join (pow_joins _ _ run) rfl
    case pow2 => exact queued.join (pow2_joins _ _ run) rfl
    all_goals
      refine queued.drain (frame_of_run run) fun _ same => ?_
      cases same
      rfl
  | stepped other run =>
    refine queued.drain ((run_drains other).after run) fun _ same => ?_
    cases same

theorem mining_queue_counted_iff (reachable : net.Reachable s) :
    (∃ past rest, net.Chronicle (fun _ _ => True) rest ⟨past, s⟩) ∧
    ∀ past rest, net.Chronicle (fun _ _ => True) rest ⟨past, s⟩ →
      (s.pow.numPowWitnesses = s.waitingMiners ↔ ¬ (⟨past, s⟩ : Moment).Worked) := by
  refine ⟨reachable.chronicled, fun past rest chronicle => ?_⟩
  have queued := queued_of_chronicle chronicle
  refine ⟨fun exactly worked => ?_, fun absent => (queued.before absent).2⟩
  exact absurd exactly (queued.after worked).ne'

/-- The first block, with a proof of work for a new account. -/
def firstWork : Block := { bareGenesis.nextBlock with transactions := [{
  id := 1
  refBlockNum := 0
  refBlockPrefix := 0
  expiration := 0
  operations := [.pow {
    workerAccount := .alice
    blockId := .zero
    worker := 7
    work := 1
    workIsValid := true
    props := {} }]
  signatureKeys := [] }] }

def afterFirstWork : Database := stateAfter (Network.bare.applyBlock firstWork) bareGenesis

theorem afterFirstWork_reachable : Network.bare.Reachable afterFirstWork := by
  have chain : Network.bare.Chain [firstWork] afterFirstWork :=
    .block (.genesis bareGenesis_eq) (stateAfter_eq (by decide +kernel))
  exact ⟨_, _, chain.reaches⟩

theorem mining_queue_counted_iff_firstWork : ∃ past rest,
    Network.bare.Chronicle (fun _ _ => True) rest ⟨past, afterFirstWork⟩ ∧
      (⟨past, afterFirstWork⟩ : Moment).Worked := by
  obtain ⟨⟨past, rest, chronicle⟩, counted⟩ := mining_queue_counted_iff afterFirstWork_reachable
  have wrong : afterFirstWork.pow.numPowWitnesses ≠ afterFirstWork.waitingMiners := by decide +kernel
  exact ⟨past, rest, chronicle, not_not.mp fun none => wrong ((counted past rest chronicle).mpr none)⟩

/-- The work is counted, and nobody waits. -/
theorem first_work_not_queued : Network.bare.Reachable afterFirstWork ∧
    afterFirstWork.pow.numPowWitnesses = 1 ∧ afterFirstWork.waitingMiners = 0 :=
  ⟨afterFirstWork_reachable, by decide +kernel, by decide +kernel⟩

end Histories

end Golos
