import Golos.Chain.InUse

/-! # The order of the steps of a block

What a step may rely on depends on where in its block it stands: a transaction sees the
time of the block before, the processing at the end of a block sees its own.  This module
has the order of the steps, what it says about the time, and that nothing but empty blocks
comes after the transit to another chain.
-/

namespace Golos

open Stateful Database List

set_option synthInstance.maxSize 1000000

variable {allowed : Database → BlockStep → Prop} {m : Moment} {other step : BlockStep} {trx : Transaction}
  {net : Network} {rest : List BlockStep} {b : Block} {s t : Database}

/-! ## Positions -/

namespace BlockStep

/-- The stages of a block. -/
def stage : BlockStep → Nat
  | .validateBlock _ => 0
  | .validateBlockHeader _ => 1
  | .setCurrentWitness _ | .processHeaderExtensions _ | .checkRunningVersion _ => 2
  | .checkTransit _ => 3
  | .applyTransaction _ => 4
  | .updateGlobalDynamicData _ => 5
  | .updateSigningWitness _ | .updateLastIrreversibleBlock | .createBlockSummary _ | .clearExpiredProposals
  | .clearExpiredTransactions | .clearExpiredOrders | .clearExpiredDelegations | .updateWitnessSchedule
  | .updateMedianFeed | .updateVirtualSupply | .clearNullAccountBalance | .processFunds | .processConversions
  | .processCommentCashout | .processVestingWithdrawals | .processSavingsWithdraws | .payLiquidityReward => 6
  | .accountRecoveryProcessing => 7
  | .expireEscrowRatification | .processDeclineVotingRights | .processHardforks => 8
  | .processTransitToCyberway _ => 9

def adopts : BlockStep → Bool
  | .updateGlobalDynamicData _ => true
  | _ => false

end BlockStep

theorem blockSteps_ordered (b : Block) : (blockSteps b).Pairwise fun x y => x.stage ≤ y.stage := by
  have transactions : ∀ x ∈ b.transactions.map BlockStep.applyTransaction, x.stage = 4 := by
    intro x member
    obtain ⟨trx, _, rfl⟩ := mem_map.mp member
    rfl
  have header : ∀ x ∈ headerSteps b, x.stage ≤ 3 := by simp [headerSteps, BlockStep.stage]
  have later : ∀ x ∈ adoptionSteps b ++ processingSteps b, 5 ≤ x.stage := by
    simp [adoptionSteps, processingSteps, BlockStep.stage]
  rw [blockSteps, pairwise_append, pairwise_append]
  refine ⟨by simp [headerSteps, BlockStep.stage], ⟨?_, ?_, ?_⟩, ?_⟩
  · refine pairwise_of_forall_mem_list fun x first y second => ?_
    rw [transactions x first, transactions y second]
  · simp [adoptionSteps, processingSteps, BlockStep.stage]
  · intro x first y second
    have := later y second
    rw [transactions x first]
    omega
  · intro x first y second
    have := header x first
    obtain second | second := mem_append.mp second
    · rw [transactions y second]
      omega
    · have := later y second
      omega

theorem blockSteps_adopts_once (b : Block) : (blockSteps b).countP BlockStep.adopts = 1 := by
  have transactions : (b.transactions.map BlockStep.applyTransaction).countP BlockStep.adopts = 0 := by
    rw [countP_eq_zero]
    intro x member
    obtain ⟨trx, _, rfl⟩ := mem_map.mp member
    simp [BlockStep.adopts]
  rw [blockSteps, countP_append, countP_append, transactions]
  rfl

section Positions

variable {b' : Block}

/-- What comes in a later stage is still to come. -/
theorem mem_of_later (position : step :: rest <:+ blockSteps b) (member : other ∈ blockSteps b)
    (later : step.stage < other.stage) : other ∈ rest := by
  obtain ⟨done, split⟩ := position
  have ordered := blockSteps_ordered b
  rw [← split, pairwise_append] at ordered
  rw [← split, mem_append, mem_cons] at member
  obtain past | rfl | future := member
  · have := ordered.2.2 other past step mem_cons_self
    omega
  · omega
  · exact future

theorem stage_le_of_mem (position : step :: rest <:+ blockSteps b) (member : other ∈ rest) :
    step.stage ≤ other.stage := by
  have ordered := (blockSteps_ordered b).sublist position.sublist
  exact rel_of_pairwise_cons ordered member

/-- The block is taken as the head once. -/
theorem not_mem_of_adopts (position : step :: rest <:+ blockSteps b) (adopts : step.adopts = true) :
    .updateGlobalDynamicData b' ∉ rest := by
  intro member
  have once : (step :: rest).countP BlockStep.adopts ≤ 1 := by
    rw [← blockSteps_adopts_once b]
    exact position.sublist.countP_le
  have again : 0 < rest.countP BlockStep.adopts := countP_pos_iff.mpr ⟨_, member, rfl⟩
  rw [countP_cons_of_pos adopts] at once
  omega

/-! The steps of a block are about the block itself. -/

theorem eq_of_checkTransit (member : .checkTransit b' ∈ blockSteps b) : b' = b := by
  simpa [blockSteps, headerSteps, adoptionSteps, processingSteps] using member

theorem eq_of_updateGlobalDynamicData (member : .updateGlobalDynamicData b' ∈ blockSteps b) : b' = b := by
  simpa [blockSteps, headerSteps, adoptionSteps, processingSteps] using member

theorem mem_of_applyTransaction (member : .applyTransaction trx ∈ blockSteps b) : trx ∈ b.transactions := by
  simpa [blockSteps, headerSteps, adoptionSteps, processingSteps] using member

end Positions

theorem Network.Chronicle.position (chronicle : net.Chronicle allowed rest m) :
    rest = [] ∨ ∃ b, rest <:+ blockSteps b := by
  have tail {step : BlockStep} {rest : List BlockStep}
      (position : step :: rest = [] ∨ ∃ b, step :: rest <:+ blockSteps b) : rest = [] ∨ ∃ b, rest <:+ blockSteps b := by
    obtain absent | ⟨b, suffix⟩ := position
    · cases absent
    · exact .inr ⟨b, (suffix_cons step rest).trans suffix⟩
  induction chronicle with
  | genesis => exact .inl rfl
  | block b => exact .inr ⟨b, suffix_rfl⟩
  | step _ _ _ ih => exact tail ih
  | transaction _ _ _ _ ih => exact tail ih
  | expire _ _ _ _ ih => exact ih
  | drop _ _ _ _ ih => exact ih
  | cleared _ _ ih => exact tail ih

theorem Network.Chronicle.suffix (chronicle : net.Chronicle allowed (step :: rest) m) :
    ∃ b, step :: rest <:+ blockSteps b :=
  chronicle.position.resolve_left (cons_ne_nil _ _)

/-- What is to come is in no earlier stage. -/
theorem Network.Chronicle.stage_le (chronicle : net.Chronicle allowed (step :: rest) m)
    (member : other ∈ step :: rest) : step.stage ≤ other.stage := by
  obtain ⟨b, position⟩ := chronicle.suffix
  obtain rfl | later := mem_cons.mp member
  · exact le_rfl
  · exact stage_le_of_mem position later

/-- The time has passed in this block, and the step is still to come. -/
def Awaits (other : BlockStep) (rest : List BlockStep) : Prop :=
  other ∈ rest ∧ ∀ b, .updateGlobalDynamicData b ∉ rest

theorem Awaits.tail (awaits : Awaits other (step :: rest)) (different : step ≠ other) : Awaits other rest := by
  obtain ⟨member, adopted⟩ := awaits
  obtain same | member := mem_cons.mp member
  · exact absurd same.symm different
  · exact ⟨member, fun b later => adopted b (mem_cons_of_mem _ later)⟩

theorem Network.Chronicle.awaits (chronicle : net.Chronicle allowed (.updateGlobalDynamicData b' :: rest) m)
    (listed : ∀ b, other ∈ blockSteps b) (later : 5 < other.stage) : Awaits other rest := by
  obtain ⟨b, position⟩ := chronicle.suffix
  exact ⟨mem_of_later position (listed b) later, fun _ => not_mem_of_adopts position rfl⟩

/-! ## The time -/

/-- What leaves the head block alone. -/
abbrev keepsHead : Footprint
  | .head => false
  | _ => true

section Deeds

variable {deed : Deed}

/-- The time passes when a block is taken as the head, and only then. -/
theorem Does.sameTime (done : Does net s deed t) (other : ∀ b, deed ≠ .stepped (.updateGlobalDynamicData b)) :
    t.head.time = s.head.time := by
  cases kind : deed.isStep with
  | false =>
    have same : t.head = s.head := done.within kind .head rfl
    rw [same]
  | true =>
    cases done with
    | @stepped _ step noOperations run =>
      cases step <;> unfold BlockStep.run at run
      case applyTransaction | clearExpiredProposals => cases noOperations
      case setCurrentWitness b =>
        obtain rfl := modify_eq_ok.mp run
        rfl
      case updateGlobalDynamicData b => exact absurd rfl (other b)
      all_goals
        have same : t.head = s.head := read_of_run keepsHead .head run rfl
        rw [same]
    | _ => cases kind

theorem updateGlobalDynamicData_time (done : Does net s (.stepped (.updateGlobalDynamicData b)) t) :
    t.head.time = b.timestamp := by
  cases done with
  | stepped _ run =>
    have adopted : Ensures s (updateGlobalDynamicData b.num b.id b.timestamp b.witness b.size) fun _ t =>
        t.head.time = b.timestamp := by
      simp only [updateGlobalDynamicData, modifyHead, modifyRates, ensures_steps]
      exact fun _ u _ _ => rfl
    exact adopted _ _ run

end Deeds

/-! ## The transit -/

/-- Hardforks are not undone. -/
def HardforksGrow (s t : Database) : Prop :=
  s.hardforks.processedHardforks.length ≤ t.hardforks.processedHardforks.length

instance : Std.Refl HardforksGrow := ⟨fun _ => Nat.le_refl _⟩

instance : IsTrans Database HardforksGrow := ⟨fun _ _ _ => Nat.le_trans⟩

abbrev keepsHardforks : Footprint
  | .hardforks => false
  | _ => true

abbrev keepsTransit : Footprint
  | .transit => false
  | _ => true

section Hardforks

instance : Finer (Within keepsHardforks) HardforksGrow :=
  ⟨fun s t within => by
    have same : t.hardforks = s.hardforks := within .hardforks rfl
    rw [HardforksGrow, same]⟩

instance hardforksGrow_votes {witnesses : List Witness} : Preserves HardforksGrow (modifyHardforks fun h =>
    match agreedHardfork witnesses with
    | some vote => { h with nextHardfork := vote.1, nextHardforkTime := vote.2 }
    | none => { h with nextHardfork := h.currentHardforkVersion }) := by
  refine preserves_modify fun s => ?_
  cases agreedHardfork witnesses <;> exact Nat.le_refl _

instance {hardfork version : Nat} {time : Time} : Preserves HardforksGrow (modifyHardforks fun h => { h with
      processedHardforks := h.processedHardforks ++ [time]
      lastHardfork := hardfork
      currentHardforkVersion := version }) := by
  refine preserves_modify fun s => ?_
  rw [HardforksGrow, length_append]
  exact Nat.le_add_right _ _

theorem run_hardforksGrow (noOperations : step.appliesOperations = false) : Preserves HardforksGrow (step.run net) := by
  cases step <;> simp only [BlockStep.run, updateWitnessSchedule, updateWitnessSchedule4, countVersionVotes]
  case applyTransaction | clearExpiredProposals => cases noOperations
  all_goals infer_instance

abbrev keepsTransitAndHardforks : Footprint
  | .transit | .hardforks => false
  | _ => true

theorem run_early (noOperations : step.appliesOperations = false)
    (early : step.stage < 5) : Touches keepsTransitAndHardforks (step.run net) := by
  cases step <;> first | exact Bool.noConfusion noOperations | (simp [BlockStep.stage] at early; done) |
    (unfold BlockStep.run; infer_instance)

end Hardforks

theorem Does.hardforksGrow {deed : Deed} (done : Does net s deed t) : HardforksGrow s t := by
  cases kind : deed.isStep with
  | false => exact Finer.weaken s t (done.within kind).widen
  | true =>
    cases done with
    | stepped noOperations run => exact (run_hardforksGrow noOperations).after run
    | _ => cases kind

theorem Does.hasHardfork {deed : Deed} {n : Nat} (done : Does net s deed t) (has : s.hasHardfork n = true) :
    t.hasHardfork n = true := by
  rw [Database.hasHardfork, decide_eq_true_eq] at has ⊢
  exact has.trans_le done.hardforksGrow

/-- There is no way back from the transit. -/
theorem Does.transit_kept {deed : Deed} (done : Does net s deed t)
    (enabled : s.isTransitEnabled = true) : t.isTransitEnabled = true := by
  have unchanged (same : t.transit = s.transit) : t.isTransitEnabled = true := by
    rw [isTransitEnabled, Bool.and_eq_true] at enabled ⊢
    exact ⟨done.hasHardfork enabled.1, by rw [same]; exact enabled.2⟩
  cases kind : deed.isStep with
  | false => exact unchanged (done.within kind .transit rfl)
  | true =>
    cases done with
    | @stepped _ step noOperations run =>
      cases step <;> unfold BlockStep.run at run
      case applyTransaction | clearExpiredProposals => cases noOperations
      case processTransitToCyberway b =>
        have ended : Ensures s (processTransitToCyberway b.num) fun _ t => t = s := by
          simp [processTransitToCyberway, ensures_when, enabled]
        rw [ended _ _ run]
        exact enabled
      all_goals exact unchanged (read_of_run keepsTransit .transit run rfl)
    | _ => cases kind

/-! ## What a block relies on -/

/-- The block that is taken as the head next is later than the head, and there are no transactions
after the transit. -/
structure Clock (rest : List BlockStep) (s : Database) : Prop where
  timestamp : ∀ b, .updateGlobalDynamicData b ∈ rest → .validateBlockHeader b ∈ rest ∨ s.head.time < b.timestamp
  transit : s.isTransitEnabled = true → (∃ b, .checkTransit b ∈ rest) ∨ ∀ trx, .applyTransaction trx ∉ rest

namespace Clock

theorem of_within (clock : Clock rest s) (within : Within dispatchCells s t) : Clock rest t := by
  have head : t.head = s.head := within .head rfl
  have transit : t.transit = s.transit := within .transit rfl
  have hardforks : t.hardforks = s.hardforks := within .hardforks rfl
  obtain ⟨timestamp, transits⟩ := clock
  refine ⟨by rwa [head], ?_⟩
  rwa [isTransitEnabled, hasHardfork, transit, hardforks]

/-- A step that is not one of those the clock is about. -/
theorem tail (clock : Clock (step :: rest) s) (notHeader : ∀ b, step ≠ .validateBlockHeader b)
    (notTransit : ∀ b, step ≠ .checkTransit b) : Clock rest s := by
  refine ⟨fun b member => ?_, fun enabled => ?_⟩
  · obtain checked | later := clock.timestamp b (mem_cons_of_mem _ member)
    · obtain same | checked := mem_cons.mp checked
      · exact absurd same.symm (notHeader b)
      · exact .inl checked
    · exact .inr later
  · obtain ⟨b, checked⟩ | absent := clock.transit enabled
    · obtain same | checked := mem_cons.mp checked
      · exact absurd same.symm (notTransit b)
      · exact .inl ⟨b, checked⟩
    · exact .inr fun trx member => absent trx (mem_cons_of_mem _ member)

end Clock

theorem validateBlockHeader_later : Ensures s (validateBlockHeader b) fun _ t => t = s ∧ s.head.time < b.timestamp := by
  simp only [validateBlockHeader, getWitness, ensures_steps]
  exact fun _ later _ _ _ _ _ => ⟨trivial, later⟩

theorem checkTransit_empty :
    Ensures s (checkTransit b) fun _ t => t = s ∧ (s.isTransitEnabled = true → b.transactions = []) := by
  simp [checkTransit]

section Step

theorem timestamp_step (position : step :: rest <:+ blockSteps b) (clock : Clock (step :: rest) s)
    (done : Does net s (.stepped step) t) {b' : Block} (adopts : .updateGlobalDynamicData b' ∈ rest) :
    .validateBlockHeader b' ∈ rest ∨ t.head.time < b'.timestamp := by
  have notYet : ∀ b, step ≠ .updateGlobalDynamicData b := by
    rintro b rfl
    exact not_mem_of_adopts position rfl adopts
  have sameTime : t.head.time = s.head.time := done.sameTime fun b same => notYet b (by cases same; rfl)
  rw [sameTime]
  obtain checked | inTime := clock.timestamp b' (mem_cons_of_mem _ adopts)
  · obtain same | checked := mem_cons.mp checked
    · -- this step is the check of the header
      subst same
      cases done with
      | stepped _ run => exact .inr (validateBlockHeader_later _ _ run).2
    · exact .inl checked
  · exact .inr inTime

/-- Only before the transactions it matters whether the transit goes on. -/
theorem sameTransit_of_early (done : Does net s (.stepped step) t) (early : step.stage < 5) :
    t.isTransitEnabled = s.isTransitEnabled := by
  cases done with
  | stepped noOperations run =>
    have frame := (run_early noOperations early).after run
    have transit : t.transit = s.transit := frame .transit rfl
    have hardforks : t.hardforks = s.hardforks := frame .hardforks rfl
    rw [isTransitEnabled, hasHardfork, transit, hardforks]
    rfl

theorem transit_step (position : step :: rest <:+ blockSteps b) (clock : Clock (step :: rest) s)
    (done : Does net s (.stepped step) t) (enabled : t.isTransitEnabled = true) :
    (∃ b, .checkTransit b ∈ rest) ∨ ∀ trx, .applyTransaction trx ∉ rest := by
  by_cases early : step.stage < 5
  · rw [sameTransit_of_early done early] at enabled
    obtain ⟨b', checked⟩ | absent := clock.transit enabled
    · obtain same | checked := mem_cons.mp checked
      · -- this step is the check for the transit
        subst same
        refine .inr fun trx inRest => ?_
        obtain rfl := eq_of_checkTransit (position.subset mem_cons_self)
        have inBlock := mem_of_applyTransaction (position.subset (mem_cons_of_mem _ inRest))
        cases done with
        | stepped _ run =>
          rw [(checkTransit_empty _ _ run).2 enabled] at inBlock
          cases inBlock
      · exact .inl ⟨b', checked⟩
    · exact .inr fun trx member => absent trx (mem_cons_of_mem _ member)
  · refine .inr fun trx inRest => ?_
    have ordered : step.stage ≤ 4 := stage_le_of_mem position inRest
    omega

theorem clock_step (position : step :: rest <:+ blockSteps b) (clock : Clock (step :: rest) s)
    (done : Does net s (.stepped step) t) : Clock rest t :=
  ⟨fun _ => timestamp_step position clock done, transit_step position clock done⟩

end Step

/-- The clock goes right at every moment of every chronicle. -/
theorem Network.Chronicle.clock (chronicle : net.Chronicle allowed rest m) : Clock rest m.state := by
  have rule := @Network.Chronicle.invariantAt net allowed fun rest m => Clock rest m.state
  refine rule (fun _ _ => ⟨nofun, fun _ => .inr nofun⟩) (fun b m _ => ⟨fun b' adopts => .inl ?_, fun _ => .inl ⟨b, ?_⟩⟩)
    (fun _ _ _ _ notStep clock done => clock.of_within (done.within notStep))
    (fun step rest m t chronicle _ clock done => ?_) (fun step rest m applies _ clock => ?_) chronicle
  · obtain rfl := eq_of_updateGlobalDynamicData adopts
    simp [blockSteps, headerSteps]
  · simp [blockSteps, headerSteps]
  · obtain ⟨b, position⟩ := chronicle.suffix
    exact clock_step position clock done
  · refine clock.tail ?_ ?_ <;> rintro b rfl <;> cases applies

/-- The time before and after a block is taken as the head. -/
theorem Network.Chronicle.time_lt
    (chronicle : net.Chronicle allowed (.updateGlobalDynamicData b :: rest) m) : m.state.head.time < b.timestamp := by
  obtain checked | inTime := chronicle.clock.timestamp b mem_cons_self
  · have ordered := chronicle.stage_le checked
    simp [BlockStep.stage] at ordered
  · exact inTime

/-- The time never goes back. -/
theorem Network.Chronicle.time_le (chronicle : net.Chronicle allowed (step :: rest) m)
    (done : Does net m.state (.stepped step) t) : m.state.head.time ≤ t.head.time := by
  cases step
  case updateGlobalDynamicData b =>
    rw [updateGlobalDynamicData_time done]
    exact chronicle.time_lt.le
  all_goals
    refine (done.sameTime fun b same => ?_).ge
    cases same

/-- There is no transit yet where transactions are applied. -/
theorem Network.Chronicle.noTransit
    (chronicle : net.Chronicle allowed (.applyTransaction trx :: rest) m) : m.state.isTransitEnabled = false := by
  cases enabled : m.state.isTransitEnabled with
  | false => rfl
  | true =>
    obtain ⟨b, checked⟩ | absent := chronicle.clock.transit enabled
    · have ordered := chronicle.stage_le checked
      simp [BlockStep.stage] at ordered
    · exact absurd mem_cons_self (absent trx)

/-- Time and hardforks never went back, and after the transit there were only steps. -/
def Moment.WentForward (m : Moment) : Prop :=
  ∀ e ∈ m.past, e.1.head.time ≤ m.state.head.time ∧ (∀ n, e.1.hasHardfork n = true → m.state.hasHardfork n = true) ∧
    (e.1.isTransitEnabled = true → e.2.isStep = true ∧ m.state.isTransitEnabled = true)

theorem Moment.WentForward.next {deed : Deed} (forward : m.WentForward) (done : Does net m.state deed t)
    (inTime : m.state.head.time ≤ t.head.time) (before : m.state.isTransitEnabled = true → deed.isStep = true) :
    (m.next deed t).WentForward := by
  refine forall_mem_cons.mpr ⟨⟨inTime, fun _ => done.hasHardfork, fun on => ⟨before on, done.transit_kept on⟩⟩, ?_⟩
  intro e member
  obtain ⟨earlier, hardforks, transit⟩ := forward e member
  exact ⟨earlier.trans inTime, fun n has => done.hasHardfork (hardforks n has), fun on =>
    (transit on).imp_right done.transit_kept⟩

/-- What is not a step happens before the transit, and in no time. -/
theorem Moment.WentForward.within {deed : Deed} (forward : m.WentForward) (done : Does net m.state deed t)
    (notStep : deed.isStep = false) (off : m.state.isTransitEnabled = false) :
    t.isTransitEnabled = false ∧ (m.next deed t).WentForward := by
  have sameHead : t.head = m.state.head := done.within notStep .head rfl
  refine ⟨(sameTransit_of_within (done.within notStep)).trans off, forward.next done ?_ (by simp [off])⟩
  rw [sameHead]

theorem Performs.wentForward {task : Task} {m' : Moment} (performs : Performs net task m m')
    (before : m.state.isTransitEnabled = false ∧ m.WentForward) : m'.WentForward := by
  have rule := @Performs.invariant net fun m => m.state.isTransitEnabled = false ∧ m.WentForward
  exact (rule (fun m deed t notStep before done => before.2.within done notStep before.1) performs before).2

theorem Network.Chronicle.wentForward (chronicle : net.Chronicle allowed rest m) : m.WentForward := by
  induction chronicle with
  | genesis => exact forall_mem_nil _
  | block _ _ ih | cleared _ _ ih => exact ih
  | step chronicle _ done ih => exact ih.next done (chronicle.time_le done) fun _ => rfl
  | transaction chronicle _ admitted performs ih =>
    exact performs.wentForward (ih.within admitted rfl chronicle.noTransit)
  | expire _ off _ performs ih => exact performs.wentForward ⟨off, ih⟩
  | drop _ off _ done ih => exact (ih.within done rfl off).2

/-- In every history time and hardforks never go back, and after the transit to another chain no operation is carried
out. -/
theorem history_forward (chronicle : net.Chronicle allowed rest m) : m.WentForward := chronicle.wentForward

theorem history_forward_inUse : (usedFor 68).past ≠ [] ∧ (usedFor 68).WentForward := by
  refine ⟨fun nothing => ?_, history_forward (usedFor_chronicle 68)⟩
  have recovered := usedFor_quiet.recovered
  rw [Moment.transitions, nothing] at recovered
  cases recovered

end Golos
