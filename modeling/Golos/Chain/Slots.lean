import Golos.Chain.Clock

/-! # Slots

A slot is an interval of three seconds in which one witness may produce a block.  Slots are
counted from the head block: `get_slot_time` gives the time of a slot, `get_slot_at_time`
the slot of a time.  `current_aslot` adds up these relative numbers over the whole
chain.  The head block need not stand at the beginning of its slot, and before the first block
slots are counted from the genesis time itself.
-/

namespace Golos

open Stateful Database HeadProperties

variable {s t : Database} {witness : AccountName} {net : Network} {number size : Nat} {id : BlockId} {time : Time}
  {b : Block}

/-! ## Slots and times -/

namespace Database

variable {t t' n : Nat}

/-- The time slots are counted from. -/
def slotBase (s : Database) : Nat :=
  if s.head.headBlockNumber = 0 then s.head.time else s.head.time / blockInterval * blockInterval

theorem slotTime_eq : s.slotTime n = (s.slotBase + n * blockInterval : Nat) := by
  unfold slotTime slotBase
  split <;> rfl

theorem slotAtTime_eq : s.slotAtTime t =
    if t < s.slotBase + blockInterval then 0 else (t - (s.slotBase + blockInterval)) / blockInterval + 1 := by
  rw [slotAtTime, slotTime_eq, Nat.one_mul]

theorem slotAtTime_slotTime (counted : 1 ≤ n) : s.slotAtTime (s.slotTime n) = n := by
  rw [slotAtTime_eq, slotTime_eq]
  unfold blockInterval
  split <;> omega

theorem slotAtTime_mono (le : t ≤ t') : s.slotAtTime t ≤ s.slotAtTime t' := by
  rw [slotAtTime_eq, slotAtTime_eq]
  unfold blockInterval
  split <;> split <;> omega

/-- A slot lasts until the next one. -/
theorem slotTime_slotAtTime (started : s.slotTime 1 ≤ t) :
    s.slotTime (s.slotAtTime t) ≤ t ∧ t < s.slotTime (s.slotAtTime t + 1) := by
  rw [slotTime_eq, Nat.one_mul] at started
  have begun : s.slotBase + blockInterval ≤ t := started
  rw [slotTime_eq, slotTime_eq]
  show s.slotBase + s.slotAtTime t * blockInterval ≤ t ∧
    t < s.slotBase + (s.slotAtTime t + 1) * blockInterval
  rw [slotAtTime_eq, if_neg (Nat.not_lt_of_le begun)]
  unfold blockInterval at *
  omega

/-- After the first block, slots are counted from the beginning of the slot of the head block. -/
theorem slotAtTime_of_started (started : s.head.headBlockNumber ≠ 0) (counted : 0 < s.slotAtTime t) :
    s.slotAtTime t + s.head.time / blockInterval = t / blockInterval := by
  rw [slotAtTime_eq, slotBase, if_neg started] at counted ⊢
  unfold blockInterval at *
  split at counted
  · cases counted
  · rw [if_neg ‹_›]
    omega

end Database

/-! ## Blocks and slots -/

/-- What slots are counted with is the same. -/
structure SameSlots (s t : Database) : Prop where
  time : t.head.time = s.head.time
  number : t.head.headBlockNumber = s.head.headBlockNumber
  aslot : t.head.currentAslot = s.head.currentAslot

theorem SameSlots.slotAtTime (same : SameSlots s t) (time : Time) : t.slotAtTime time = s.slotAtTime time := by
  rw [Database.slotAtTime, Database.slotTime, same.time, same.number]
  rfl

/-- Nothing of the head has changed but the witness of the block at hand. -/
def SameHead (s t : Database) : Prop := { t.head with currentWitness := s.head.currentWitness } = s.head

instance : Std.Refl SameHead := ⟨fun _ => rfl⟩

instance : IsTrans Database SameHead where
  trans s t u first second := by
    unfold SameHead at *
    rw [← first, ← second]

theorem SameHead.sameSlots (same : SameHead s t) : SameSlots s t := by
  constructor <;> rw [← same]

theorem sameHead_of_head (same : t.head = s.head) : SameHead s t := by
  rw [SameHead, same]

instance : Finer (Within keepsHead) SameHead := ⟨fun _ _ within => sameHead_of_head (within .head rfl)⟩

instance : Finer (Within operationCells) (Within keepsHead) := ⟨fun _ _ => Within.widen⟩

deriving instance Preserves SameHead for applyTransaction

instance : Preserves SameHead (setCurrentWitness witness) :=
  preserves_modify fun _ => rfl

theorem run_sameHead {step : BlockStep} (other : step.adopts = false) : Preserves SameHead (step.run net) := by
  cases step <;> first | exact Bool.noConfusion other | (unfold BlockStep.run; infer_instance)

/-- A block in its slot: what is checked of the block before, and what becomes of the head. -/
structure Lands (s : Database) (b : Block) (t : Database) : Prop where
  counted : 0 < s.slotAtTime b.timestamp
  scheduled : b.witness = s.scheduledWitness (s.slotAtTime b.timestamp)
  later : s.head.time < b.timestamp
  time : t.head.time = b.timestamp
  number : t.head.headBlockNumber = b.num
  aslot : s.head.time ≠ 0 → t.head.currentAslot = s.head.currentAslot + s.slotAtTime b.timestamp

theorem forM_sameHead {steps : List BlockStep} (others : ∀ step ∈ steps, step.adopts = false) :
    Preserves SameHead (steps.forM fun step => step.run net) := by
  refine ⟨fun s => ensures_forM (refl_of SameHead s) fun step member t same => ?_⟩
  intro _ u run
  exact trans_of SameHead same ((run_sameHead (others step member)).after run)

/-- Adopting a block does not look at the witness. -/
theorem HeadProperties.advance_currentWitness {h : HeadProperties}
    {missed : Nat} : { h with currentWitness := witness }.advance number id time missed size =
      { h.advance number id time missed size with currentWitness := witness } := by
  have filled (slots : List Nat) : slots.foldl (fun h i => h.fillSlot (i == 0)) { h with currentWitness := witness } =
      { slots.foldl (fun h i => h.fillSlot (i == 0)) h with currentWitness := witness } :=
    List.foldl_hom (fun h : HeadProperties => { h with currentWitness := witness }) fun _ _ => rfl
  rw [advance, advance, filled]

/-- The slots that were missed before a block. -/
def Database.missedBefore (s : Database) (time : Time) : Nat :=
  if s.head.time ≠ 0 then s.slotAtTime time - 1 else 0

theorem updateGlobalDynamicData_head {producer : AccountName} :
    Ensures s (updateGlobalDynamicData number id time producer size) fun _ t =>
      t.head = s.head.advance number id time (s.missedBefore time) size := by
  simp only [updateGlobalDynamicData, modifyHead, modifyRates, ensures_steps]
  intro _ u missed _
  have frame : Within keepsHead s u := frame_of_run missed
  have same : u.head = s.head := frame .head rfl
  rw [same]
  rfl

theorem validateBlockHeader_ensures :
    Ensures s (validateBlockHeader b) fun _ t => t = s ∧ s.head.time < b.timestamp ∧ 0 < s.slotAtTime b.timestamp ∧
      b.witness = s.scheduledWitness (s.slotAtTime b.timestamp) := by
  simp only [validateBlockHeader, getWitness, ensures_steps]
  exact fun _ later _ _ _ counted scheduled => ⟨trivial, later, counted, scheduled⟩

/-- A block is checked against the head before it and then becomes the head. -/
theorem applyBlock_advances :
    Ensures s (net.applyBlock b) fun _ t => s.head.time < b.timestamp ∧ 0 < s.slotAtTime b.timestamp ∧
      b.witness = s.scheduledWitness (s.slotAtTime b.timestamp) ∧
      { t.head with currentWitness := s.head.currentWitness } =
        s.head.advance b.num b.id b.timestamp (s.missedBefore b.timestamp) b.size := by
  -- the steps before and after the one that takes the block as the head
  let before : List BlockStep := [.setCurrentWitness b, .processHeaderExtensions b, .checkRunningVersion b,
    .checkTransit b] ++ b.transactions.map .applyTransaction
  let after : List BlockStep := [.updateSigningWitness b, .updateLastIrreversibleBlock, .createBlockSummary b] ++
    processingSteps b
  have split : blockSteps b =
      .validateBlock b :: .validateBlockHeader b :: (before ++ .updateGlobalDynamicData b :: after) := by
    simp [blockSteps, headerSteps, adoptionSteps, before, after]
  have othersBefore : ∀ step ∈ before, step.adopts = false := by
    simp [before, BlockStep.adopts]
  have othersAfter : ∀ step ∈ after, step.adopts = false := by
    simp [after, processingSteps, BlockStep.adopts]
  have unchanged : Ensures s (validateBlock b) fun _ t => t = s := by
    simp [validateBlock]
  rw [Network.applyBlock, split, List.forM_eq_forM, List.forM_cons, ensures_bind]
  refine unchanged.mono ?_
  rintro _ _ rfl
  rw [List.forM_cons, ensures_bind]
  refine validateBlockHeader_ensures.mono ?_
  rintro _ _ ⟨rfl, later, counted, scheduled⟩
  rename_i s
  rw [List.forM_append, ensures_bind]
  intro _ t applied
  have same : SameHead s t := (forM_sameHead othersBefore).after applied
  rw [List.forM_cons, ensures_bind]
  refine updateGlobalDynamicData_head.mono fun _ u adopted _ v processed => ?_
  have still : SameHead u v := (forM_sameHead othersAfter).after processed
  refine ⟨later, counted, scheduled, ?_⟩
  have missed : t.missedBefore b.timestamp = s.missedBefore b.timestamp := by
    rw [missedBefore, missedBefore, same.sameSlots.time, same.sameSlots.slotAtTime]
  calc { v.head with currentWitness := s.head.currentWitness }
      = { u.head with currentWitness := s.head.currentWitness } := by rw [← still]
    _ = { t.head with currentWitness := s.head.currentWitness }.advance b.num b.id b.timestamp
          (s.missedBefore b.timestamp) b.size := by
        rw [adopted, missed]
        exact advance_currentWitness.symm
    _ = s.head.advance b.num b.id b.timestamp (s.missedBefore b.timestamp) b.size := by rw [same]

/-- Every block that is applied is produced in its slot, by the witness scheduled for it. -/
theorem applyBlock_lands : Ensures s (net.applyBlock b) fun _ t => Lands s b t := by
  refine applyBlock_advances.mono ?_
  rintro _ t ⟨later, counted, scheduled, advanced⟩
  refine ⟨counted, scheduled, later, congrArg time advanced,
    congrArg headBlockNumber advanced, fun started => ?_⟩
  have aslot : t.head.currentAslot = s.head.currentAslot + s.missedBefore b.timestamp + 1 :=
    congrArg currentAslot advanced
  rw [aslot, missedBefore, if_pos started]
  omega

/-! ## Chains -/

/-- A block with the states before and after it. -/
structure Applied where
  before : Database
  block : Block
  after : Database

/-- The blocks of a chain with their states, newest first. -/
inductive Network.Timeline (net : Network) : List Applied → Database → Prop
  | genesis {s : Database} : net.initGenesis {} = .ok ((), s) → Timeline net [] s
  | block {line : List Applied} {s s' : Database} {b : Block} :
      Timeline net line s → net.applyBlock b s = .ok ((), s') → Timeline net (⟨s, b, s'⟩ :: line) s'

/-- The number of the slot a block occupies, counted over the whole chain. -/
def Applied.slot (e : Applied) : Nat := e.after.head.currentAslot

/-- The block is in a slot behind those before it, as many as have elapsed, and by its witness. -/
structure Applied.InItsSlot (e : Applied) : Prop where
  counted : 0 < e.before.slotAtTime e.block.timestamp
  elapsed : e.slot = e.before.head.currentAslot + e.before.slotAtTime e.block.timestamp
  scheduled : e.block.witness = e.before.schedule.currentShuffledWitnesses.getD
    (e.slot % e.before.schedule.numScheduledWitnesses) .blank

/-- A later block is as many slots behind an earlier one as the clock says. -/
structure Applied.Follows (later earlier : Applied) : Prop where
  behind : earlier.slot < later.slot
  elapsed : later.slot + earlier.block.timestamp / blockInterval =
    earlier.slot + later.block.timestamp / blockInterval

section Chains

variable {net : Network} {line : List Applied} {blocks : List Block} {s : Database}

theorem Network.Chain.timeline (chain : net.Chain blocks s) :
    ∃ line, net.Timeline line s ∧ line.map (·.block) = blocks.reverse := by
  induction chain with
  | genesis start => exact ⟨[], .genesis start, rfl⟩
  | block _ run ih =>
    obtain ⟨line, timeline, same⟩ := ih
    exact ⟨_, timeline.block run, by simp [same]⟩

/-- What the head says about the last block. -/
structure Headed (line : List Applied) (s : Database) : Prop where
  time : s.head.time ≠ 0
  blank : line = [] ∨ s.head.headBlockNumber ≠ 0
  last : ∀ e ∈ line, s.head.currentAslot + e.block.timestamp / blockInterval =
    e.slot + s.head.time / blockInterval ∧ e.slot ≤ s.head.currentAslot

theorem Network.initGenesis_time : Ensures s net.initGenesis fun _ t => t.head.time = Evaluator.genesisTime := by
  simp only [Network.initGenesis, modifyHead, modifySupply, modifyRates, modifyHardforks, modifySchedule, ensures_steps]
  intro _ _ _ _ _ _ _ _ _ _ _ _ _ u _ _ v imported
  have frame : Within keepsHead _ v := frame_of_run imported
  have same := frame .head rfl
  exact congrArg time same

theorem Headed.next (headed : Headed line s) (lands : Lands s b t) : Headed (⟨s, b, t⟩ :: line) t where
  time := by
    rw [lands.time]
    exact Nat.ne_of_gt (Nat.zero_lt_of_lt lands.later)
  blank := by
    rw [lands.number]
    exact .inr (Nat.succ_ne_zero _)
  last := by
    have aslot := lands.aslot headed.time
    rw [lands.time, List.forall_mem_cons]
    refine ⟨⟨rfl, Nat.le_refl _⟩, fun e member => ?_⟩
    -- there is a block before, so slots are counted by the clock
    obtain absent | started := headed.blank
    · rw [absent] at member
      cases member
    · have clock := slotAtTime_of_started started lands.counted
      obtain ⟨elapsed, le⟩ := headed.last e member
      exact ⟨by omega, by omega⟩

theorem Network.Timeline.headed (timeline : net.Timeline line s) : Headed line s := by
  induction timeline with
  | genesis start =>
    refine ⟨?_, .inl rfl, List.forall_mem_nil _⟩
    rw [net.initGenesis_time _ _ start]
    decide
  | block _ run ih => exact ih.next (applyBlock_lands _ _ run)

theorem Network.Timeline.inItsSlot (timeline : net.Timeline line s) : ∀ e ∈ line, e.InItsSlot := by
  induction timeline with
  | genesis => exact List.forall_mem_nil _
  | block before run ih =>
    have lands := applyBlock_lands _ _ run
    have aslot := lands.aslot before.headed.time
    refine List.forall_mem_cons.mpr ⟨⟨lands.counted, aslot, ?_⟩, ih⟩
    rw [Applied.slot, aslot]
    exact lands.scheduled

theorem Network.Timeline.follows (timeline : net.Timeline line s) : line.Pairwise Applied.Follows := by
  induction timeline with
  | genesis => exact List.Pairwise.nil
  | block before run ih =>
    have lands := applyBlock_lands _ _ run
    have headed := before.headed
    refine List.pairwise_cons.mpr ⟨fun e member => ?_, ih⟩
    have aslot := lands.aslot headed.time
    have counted := lands.counted
    obtain ⟨_, le⟩ := headed.last e member
    obtain ⟨elapsed, _⟩ := (headed.next lands).last e (List.mem_cons_of_mem _ member)
    rw [lands.time] at elapsed
    exact ⟨by rw [Applied.slot, Applied.slot, aslot]; exact Nat.lt_of_le_of_lt le (by omega), elapsed⟩

/-- Times and slots fit together in every state, and in every chain every block stands in a slot of its
own, as far behind the others as the clock says, and is produced by the witness of the slot. -/
theorem slots_exact : (∀ (s : Database) n, 1 ≤ n → s.slotAtTime (s.slotTime n) = n) ∧
    (∀ (s : Database) t t', t ≤ t' → s.slotAtTime t ≤ s.slotAtTime t') ∧ (∀ (s : Database) t, s.slotTime 1 ≤ t →
      s.slotTime (s.slotAtTime t) ≤ t ∧ t < s.slotTime (s.slotAtTime t + 1)) ∧
    ∀ (net : Network) blocks s, net.Chain blocks s →
      (∃ line, net.Timeline line s ∧ line.map (·.block) = blocks.reverse) ∧
        ∀ line, net.Timeline line s → (∀ e ∈ line, e.InItsSlot) ∧ line.Pairwise Applied.Follows :=
  ⟨fun _ _ => slotAtTime_slotTime, fun _ _ _ => slotAtTime_mono,
    fun _ _ => slotTime_slotAtTime,
    fun _ _ _ chain => ⟨chain.timeline, fun _ timeline => ⟨timeline.inItsSlot, timeline.follows⟩⟩⟩

theorem slots_exact_inUse : ∃ line, Network.bare.Timeline line (usedFor 68).state ∧ line.length = 68 ∧
    (∀ e ∈ line, e.InItsSlot) ∧ line.Pairwise Applied.Follows := by
  obtain ⟨blocks, chain, length⟩ := (usedFor_told 68).1
  obtain ⟨⟨line, timeline, same⟩, fits⟩ := slots_exact.2.2.2 Network.bare blocks _ chain
  refine ⟨line, timeline, ?_, fits line timeline⟩
  rw [← List.length_map (·.block), same, List.length_reverse, length]
  rfl

end Chains

end Golos
