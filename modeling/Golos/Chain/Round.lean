import Golos.Chain.InUse
import Mathlib.Data.List.GetD

/-! # The witnesses of a round

`update_witness_schedule4` fills a round in three passes: the witnesses with the most votes,
the first miner of the queue, and those whose virtual time comes first.  It marks each with
the pass that has chosen it, and shuffles them.

* `Database.keyed` — the witnesses with a signing key, among whom it chooses;
* `TopVoted` — what the first pass is for;
* `selected_length` — how many the three passes choose together.
-/

namespace Golos

open Stateful Database Store List

variable {names : List AccountName} {i room : Nat} {now : Time} {t u : Database} {f : WitnessInfo → WitnessInfo}
  {name : AccountName}

/-! ## The shuffle -/

theorem swapEntries_perm {l : List AccountName} {j : Nat} (left : i < l.length) (right : j < l.length) :
    (swapEntries l i j).Perm l := by
  rw [swapEntries, getD_eq_getElem l _ left, getD_eq_getElem l _ right]
  exact set_set_perm left right

theorem shuffleIndex_lt {n : Nat} (inside : i < n) : shuffleIndex now i n < n := by
  have bound (k : Nat) : k % (n - i) < n - i := Nat.mod_lt k (Nat.sub_pos_of_lt inside)
  exact Nat.add_lt_of_lt_sub' (bound _)

/-- Whatever the time, the shuffle only rearranges. -/
theorem shuffle_perm (now : Time) (l : List AccountName) : (shuffle now l.length l).Perm l := by
  have kept (indices : List Nat) (inside : ∀ i ∈ indices, i < l.length) :
      (indices.foldl (fun l' i => swapEntries l' i (shuffleIndex now i l.length)) l).Perm l := by
    induction indices using reverseRecOn with
    | nil => exact .refl l
    | append_singleton indices i ih =>
      rw [foldl_append, foldl_cons, foldl_nil]
      have perm := ih fun j member => inside j (mem_append_left _ member)
      have last : i < l.length := inside i (by simp)
      refine (swapEntries_perm ?_ ?_).trans perm
      · rw [perm.length_eq]
        exact last
      · rw [perm.length_eq]
        exact shuffleIndex_lt last
  exact kept _ fun i member => mem_range.mp member

theorem Database.scheduled_eq {s : Database}
    (length : s.schedule.currentShuffledWitnesses.length = s.schedule.numScheduledWitnesses) :
    s.scheduled = s.schedule.currentShuffledWitnesses := by
  rw [scheduled, ← length]
  refine ext_getElem (by simp) fun i _ inside => ?_
  simp [inside]

/-! ## The witnesses with a key -/

namespace Database

def keyOf (s : Database) (name : AccountName) : Option PublicKey := (s.witnesses.find? name).map (·.info.signingKey)

def markOf (s : Database) (name : AccountName) : Option WitnessScheduleType :=
  (s.witnesses.find? name).map (·.info.schedule)

def votesOf (s : Database) (name : AccountName) : Option Int := (s.witnesses.find? name).map (·.tally.votes)

/-- The witness is registered and has a signing key. -/
def HasKey (s : Database) (name : AccountName) : Prop := ∃ key, s.keyOf name = some key ∧ key ≠ 0

/-- The witnesses with a signing key. -/
def keyed (s : Database) : List AccountName :=
  (s.witnesses.entries.filter fun e => e.2.info.signingKey ≠ 0).map Prod.fst

variable {s : Database} {name : AccountName}

theorem nodup_keyed : s.keyed.Nodup := (filter_sublist.map Prod.fst).nodup s.witnesses.nodup

theorem mem_keyed : name ∈ s.keyed ↔ s.HasKey name := by
  simp only [keyed, mem_map, mem_filter, decide_eq_true_eq, HasKey, keyOf, Option.map_eq_some_iff,
    find?_eq_some]
  constructor
  · rintro ⟨e, ⟨member, key⟩, rfl⟩
    exact ⟨_, ⟨e.2, member, rfl⟩, key⟩
  · rintro ⟨_, ⟨w, member, rfl⟩, key⟩
    exact ⟨(name, w), ⟨member, key⟩, rfl⟩

theorem canSign_eq (hardfork : s.hasHardfork 14 = true) (w : Witness) :
    s.canSign w = decide (w.info.signingKey ≠ 0) := by
  by_cases key : w.info.signingKey = 0 <;> simp [canSign, hardfork, key]

end Database

/-! ## The passes -/

/-- The entries a pass may choose from. -/
def Database.eligible (s : Database) (others : List AccountName) (e : AccountName × Witness) : Bool :=
  s.canSign e.2 ∧ e.1 ∉ others

section Passes

variable {s : Database} {others : List AccountName} {l : List (AccountName × Witness)}

variable {mark : WitnessScheduleType} {name : AccountName}

theorem selectTimeshare_active {t : Timeshare} : (selectTimeshare s others l room t).active =
      t.active ++ ((l.filter (s.eligible others)).take room).map Prod.fst := by
  induction l generalizing room t with
  | nil => simp [selectTimeshare]
  | cons e l ih =>
    cases room with
    | zero => simp [selectTimeshare]
    | succ room =>
      by_cases chosen : s.canSign e.2 ∧ e.1 ∉ others
      · simp only [selectTimeshare, if_pos chosen, ih]
        rw [filter_cons_of_pos (by simpa [eligible] using chosen)]
        simp
      · simp only [selectTimeshare, if_neg chosen, ih]
        rw [filter_cons_of_neg (by simpa [eligible] using chosen)]

/-- The names a pass chooses: at most `room`, with a key, not chosen before. -/
structure Chosen (s : Database) (others : List AccountName) (room : Nat) (names : List AccountName) : Prop where
  nodup : names.Nodup
  length : names.length ≤ room
  keyed : ∀ name ∈ names, s.HasKey name
  new : ∀ name ∈ names, name ∉ others

theorem chosen_of_filter (hardfork : s.hasHardfork 14 = true) (lists : s.witnesses.Lists l)
    (others : List AccountName) (room : Nat) :
      Chosen s others room (((l.filter (s.eligible others)).take room).map Prod.fst) where
  nodup := (((take_sublist ..).trans filter_sublist).map Prod.fst).nodup lists.nodup
  length := by simp
  keyed := by
    intro name member
    obtain ⟨e, taken, rfl⟩ := mem_map.mp member
    have inside := mem_filter.mp (mem_of_mem_take taken)
    have found := lists.found e inside.1
    have key : e.2.info.signingKey ≠ 0 := by
      have eligible := inside.2
      rw [Database.eligible, Database.canSign_eq hardfork, decide_eq_true_eq, decide_eq_true_eq] at eligible
      exact eligible.1
    exact ⟨_, by simp [keyOf, found], key⟩
  new := by
    intro name member
    obtain ⟨e, taken, rfl⟩ := mem_map.mp member
    have inside := mem_filter.mp (mem_of_mem_take taken)
    have eligible := inside.2
    rw [Database.eligible, decide_eq_true_eq] at eligible
    exact eligible.2

/-! ## The marks -/

/-- What `modifyWitnessInfo` makes of a witness. -/
def Witness.mapInfo (f : WitnessInfo → WitnessInfo) (w : Witness) : Witness := { w with info := f w.info }

theorem ensures_modifyWitnessInfo {Q : PUnit → Database → Prop} :
    Ensures s (modifyWitnessInfo name f) Q ↔ ∀ w, s.witnesses.find? name = some w → ∀ u : Database,
      u = { s with witnesses := s.witnesses.modify name (Witness.mapInfo f) } → Q ⟨⟩ u := by
  simp only [modifyWitnessInfo, updateWitness, getWitness, updateWitnesses, ensures_steps, forall_eq]
  rfl

/-- What a pass does to the witnesses: those it has chosen get a mark. -/
structure Marks (s : Database) (names : List AccountName) (mark : WitnessScheduleType) (t : Database) : Prop where
  keyOf : ∀ name, t.keyOf name = s.keyOf name
  markOf : ∀ name, t.markOf name = if name ∈ names then (s.markOf name).map fun _ => mark else s.markOf name

theorem marks_nil : Marks s [] mark s := ⟨fun _ => rfl, fun _ => by simp⟩

theorem Marks.trans {first second : List AccountName}
    (marks : Marks s first mark t) (more : Marks t second mark u) : Marks s (first ++ second) mark u where
  keyOf name := (more.keyOf name).trans (marks.keyOf name)
  markOf name := by
    rw [more.markOf, marks.markOf]
    by_cases left : name ∈ first <;> by_cases right : name ∈ second <;> simp [left, Function.comp_def]

theorem Marks.hasKey (marks : Marks s names mark t) : t.HasKey name ↔ s.HasKey name := by
  rw [HasKey, marks.keyOf]
  rfl

theorem Marks.chosen {names others picked : List AccountName}
    (marks : Marks s names mark t) (chosen : Chosen t others room picked) : Chosen s others room picked :=
  ⟨chosen.nodup, chosen.length, fun name member => marks.hasKey.mp (chosen.keyed name member), chosen.new⟩

theorem marks_modify (mark : WitnessScheduleType)
    (changed : u.witnesses = s.witnesses.modify name (Witness.mapInfo f)) (c : Prop) [Decidable c]
    (key : ∀ i, (f i).signingKey = i.signingKey) (schedule : ∀ i, (f i).schedule = if c then mark else i.schedule) :
    Marks s (if c then [name] else []) mark u where
  keyOf other := by
    rw [keyOf, keyOf, changed, find?_modify]
    split
    · rw [Option.map_map]
      exact congrArg (Option.map · _) (funext fun w => key w.info)
    · rfl
  markOf other := by
    rw [markOf, markOf, changed, find?_modify]
    by_cases same : other = name <;> by_cases chosen : c <;>
      simp [same, chosen, Function.comp_def, schedule, Witness.mapInfo]

theorem markAll_marks :
    Ensures s (names.forM fun name => modifyWitnessInfo name fun i => { i with schedule := mark }) fun _ t =>
      Marks s names mark t ∧ t.hardforks = s.hardforks := by
  induction names generalizing s with
  | nil => simpa using marks_nil
  | cons name names ih =>
    simp only [forM_eq_forM, forM_cons, ensures_bind, ensures_modifyWitnessInfo] at ih ⊢
    intro w found u changed
    have first := marks_modify mark (congrArg witnesses changed) True (fun _ => rfl) fun _ => (if_pos trivial).symm
    refine ih.mono fun _ t marked => ⟨first.trans marked.1, ?_⟩
    rw [marked.2, changed]

/-- The miners are chosen from the queue; those passed over lose their place as well. -/
theorem selectMiners_marks (hardfork : s.hasHardfork 14 = true) {voted queue selected : List AccountName}
    (nodup : queue.Nodup) :
    Ensures s (selectMiners voted queue selected) fun miners t => ∃ chosen, miners = selected ++ chosen ∧
      Chosen s voted (maxMinerWitnesses - selected.length) chosen ∧ chosen ⊆ queue ∧ Marks s chosen .miner t := by
  induction queue generalizing s selected with
  | nil =>
    simp only [selectMiners, ensures_pure]
    exact ⟨[], by simp, ⟨by simp, by simp, by simp, by simp⟩, by simp, marks_nil⟩
  | cons name queue ih =>
    simp only [selectMiners, ensures_ite, ensures_pure]
    refine ⟨fun _ => ⟨[], by simp, ⟨by simp, by simp, by simp, by simp⟩, by simp, marks_nil⟩, fun room => ?_⟩
    simp only [getWitness, modifyPow, ensures_steps, ensures_modifyWitnessInfo]
    intro w found _ _ u changed
    rw [nodup_cons] at nodup
    have step := marks_modify .miner (congrArg witnesses changed) (name ∉ voted ∧ s.canSign w) (fun _ => rfl)
      fun _ => rfl
    refine (ih (by rw [changed]; exact hardfork) nodup.2).mono fun miners t rest => ?_
    obtain ⟨chosen, rfl, isChosen, listed, marks⟩ := rest
    have total := step.trans ⟨marks.keyOf, marks.markOf⟩
    by_cases may : name ∉ voted ∧ s.canSign w
    · simp only [if_pos may, length_append, length_cons] at total isChosen ⊢
      have key : s.HasKey name := by
        have signs := may.2
        rw [canSign_eq hardfork, decide_eq_true_eq] at signs
        exact ⟨_, by simp [keyOf, found], signs⟩
      refine ⟨name :: chosen, by simp, ⟨?_, ?_, ?_, ?_⟩, ?_, total⟩
      · exact nodup_cons.mpr ⟨fun member => nodup.1 (listed member), isChosen.nodup⟩
      · have length := isChosen.length
        simp only [length_cons]
        omega
      · rw [forall_mem_cons]
        exact ⟨key, fun other member => step.hasKey.mp (isChosen.keyed other member)⟩
      · exact forall_mem_cons.mpr ⟨may.1, isChosen.new⟩
      · exact cons_subset_cons name listed
    · simp only [if_neg may] at total isChosen ⊢
      exact ⟨chosen, rfl, step.chosen ⟨isChosen.nodup, isChosen.length, isChosen.keyed, isChosen.new⟩,
        subset_cons_of_subset _ listed, total⟩

end Passes

/-! ## The most votes -/

/-- The voted part of a round: the witnesses with a key that have the most votes. -/
structure TopVoted (s : Database) (top : List AccountName) : Prop where
  nodup : top.Nodup
  keyed : ∀ name ∈ top, s.HasKey name
  length : top.length = min maxVotedWitnesses s.keyed.length
  highest : ∀ name ∈ top, ∀ other, s.HasKey other → other ∉ top →
    ∀ votes ∈ s.votesOf name, ∀ fewer ∈ s.votesOf other, fewer ≤ votes

section Counts

variable {s : Database}

theorem lists_insertionSort {r : AccountName × Witness → AccountName × Witness → Prop} [DecidableRel r] :
    s.witnesses.Lists (s.witnesses.entries.insertionSort r) := by
  have lists := lists_sorted (t := s.witnesses) (p := fun _ => true) (r := r)
  rwa [filter_true] at lists

theorem eligible_nil (hardfork : s.hasHardfork 14 = true) :
    s.eligible [] = fun e => decide (e.2.info.signingKey ≠ 0) := by
  funext e
  simp [eligible, canSign_eq hardfork]

/-- Those a pass can choose from are the ones with a key who are not chosen yet. -/
theorem length_eligible (hardfork : s.hasHardfork 14 = true) {others : List AccountName}
    (r : AccountName × Witness → AccountName × Witness → Prop) [DecidableRel r] (nodup : others.Nodup)
    (keyed : ∀ name ∈ others, s.HasKey name) :
    ((s.witnesses.entries.insertionSort r).filter (s.eligible others)).length + others.length = s.keyed.length := by
  have names : (s.witnesses.entries.filter (s.eligible others)).map Prod.fst = s.keyed.filter (· ∉ others) := by
    rw [Database.keyed, filter_map, filter_filter]
    congr 2
    funext e
    simp [eligible, canSign_eq hardfork, and_comm]
  have chosen : (s.keyed.filter (· ∈ others)).Perm others := by
    refine (perm_ext_iff_of_nodup (s.nodup_keyed.filter _) nodup).mpr fun name => ?_
    simp only [mem_filter, decide_eq_true_eq, mem_keyed]
    exact ⟨And.right, fun member => ⟨keyed name member, member⟩⟩
  have all := length_eq_length_filter_add (l := s.keyed) (· ∈ others)
  have perm := (perm_insertionSort r s.witnesses.entries).filter (s.eligible others)
  rw [perm.length_eq, ← length_map, names, ← chosen.length_eq, all, Nat.add_comm]
  simp

theorem sorted_witnessesByVote : s.witnessesByVote.Pairwise fun a b => b.2.tally.votes ≤ a.2.tally.votes := by
  let r (a b : AccountName × Witness) : Prop := b.2.tally.votes < a.2.tally.votes ∨
    (a.2.tally.votes = b.2.tally.votes ∧ a.1.packed ≤ b.1.packed)
  have total : Std.Total r := ⟨fun a b => by simp only [r]; omega⟩
  have trans : IsTrans _ r := ⟨fun a b c => by simp only [r]; omega⟩
  exact (pairwise_insertionSort r s.witnesses.entries).imp fun {a b} before => by
    omega

theorem topVoted (hardfork : s.hasHardfork 14 = true) :
    TopVoted s (((s.witnessesByVote.filter fun e => s.canSign e.2).take maxVotedWitnesses).map Prod.fst) := by
  have same : (fun e : AccountName × Witness => s.canSign e.2) = s.eligible [] := by
    funext e
    simp [eligible]
  rw [same]
  have lists : s.witnesses.Lists s.witnessesByVote := lists_insertionSort
  have chosen := chosen_of_filter hardfork lists [] maxVotedWitnesses
  refine ⟨chosen.nodup, chosen.keyed, ?_, ?_⟩
  · have length := length_eligible hardfork (fun a b => b.2.tally.votes < a.2.tally.votes ∨
      (a.2.tally.votes = b.2.tally.votes ∧ a.1.packed ≤ b.1.packed)) nodup_nil (by simp)
    rw [length_map, length_take, ← length]
    rfl
  · intro name member other hasKey outside votes found fewer found'
    obtain ⟨e, taken, rfl⟩ := mem_map.mp member
    -- the other one stands behind those taken
    obtain ⟨w, listed⟩ : ∃ w, (other, w) ∈ s.witnessesByVote.filter (s.eligible []) := by
      obtain ⟨key, ofOther, nonzero⟩ := hasKey
      obtain ⟨w, isWitness, rfl⟩ := Option.map_eq_some_iff.mp ofOther
      refine ⟨w, mem_filter.mpr ⟨?_, by simpa [eligible_nil hardfork] using nonzero⟩⟩
      exact (perm_insertionSort ..).mem_iff.mpr (find?_eq_some.mp isWitness)
    have behind : (other, w) ∈ (s.witnessesByVote.filter (s.eligible [])).drop maxVotedWitnesses := by
      rw [← take_append_drop maxVotedWitnesses (s.witnessesByVote.filter (s.eligible [])), mem_append] at listed
      exact listed.resolve_left fun taken => outside (mem_map_of_mem taken)
    have sorted := (sorted_witnessesByVote (s := s)).filter (s.eligible [])
    rw [← take_append_drop maxVotedWitnesses (s.witnessesByVote.filter (s.eligible [])), pairwise_append]
      at sorted
    have isFirst := lists.found e (mem_filter.mp (mem_of_mem_take taken)).1
    have isOther := lists.found (other, w) (mem_filter.mp (mem_of_mem_drop behind)).1
    simp only [votesOf, isFirst, isOther, Option.map_some, Option.mem_some_iff] at found found'
    rw [← found, ← found']
    exact sorted.2.2 e taken (other, w) behind

end Counts

/-! ## The round -/

section Run

/-- What leaves the keys and the marks of the witnesses alone. -/
abbrev keepsWitnessInfo : Footprint
  | .witnessInfo => false
  | _ => true

/-- What the passes need of the state besides the witnesses. -/
abbrev keepsRound : Footprint
  | .head | .hardforks | .schedule | .tally => false
  | _ => true

variable {s t : Database}

theorem Within.keyOf (within : Within keepsWitnessInfo s t) (name : AccountName) : t.keyOf name = s.keyOf name := by
  have same : t.witnesses.view (·.info) = s.witnesses.view (·.info) := within .witnessInfo rfl
  have found := congrArg (Option.map (·.signingKey)) (find?_eq_of_view same name)
  rw [Option.map_map, Option.map_map] at found
  exact found

theorem Within.markOf (within : Within keepsWitnessInfo s t) (name : AccountName) : t.markOf name = s.markOf name := by
  have same : t.witnesses.view (·.info) = s.witnesses.view (·.info) := within .witnessInfo rfl
  have found := congrArg (Option.map (·.schedule)) (find?_eq_of_view same name)
  rw [Option.map_map, Option.map_map] at found
  exact found

theorem Marks.keyed {mark : WitnessScheduleType} (marks : Marks s names mark t) : t.keyed.Perm s.keyed := by
  refine (perm_ext_iff_of_nodup t.nodup_keyed s.nodup_keyed).mpr fun name => ?_
  rw [mem_keyed, mem_keyed, marks.hasKey]

theorem updateMedianWitnessProps_schedule : Ensures s updateMedianWitnessProps fun _ t =>
      t.schedule = { s.schedule with medianProps := t.schedule.medianProps } ∧ Within keepsWitnessInfo s t := by
  refine Ensures.and ?_ (ensures_frame (Within keepsWitnessInfo) fun _ _ => id)
  simp only [updateMedianWitnessProps, modifySchedule, modifyRates, ensures_steps]
  refine ensures_frame (Within fun _ => false) fun active u within => ?_
  have same : u.schedule = s.schedule := within .schedule rfl
  rw [same]

theorem scheduled_activate {active : List AccountName} (nonempty : active ≠ [])
    (list : s.schedule.currentShuffledWitnesses =
      shuffle now (max active.length 1) (if active = [] then [.blank] else active))
    (num : s.schedule.numScheduledWitnesses = max active.length 1) :
      s.scheduled = shuffle now active.length active := by
  rw [max_eq_left (length_pos_iff.mpr nonempty)] at list num
  rw [if_neg nonempty] at list
  rw [scheduled_eq, list]
  rw [list, num]
  exact (shuffle_perm now active).length_eq

/-- The third pass fills the round as far as there are witnesses with a key. -/
theorem timeshare_fills (hardfork : s.hasHardfork 14 = true) {others : List AccountName} (nodup : others.Nodup)
    (keyed : ∀ name ∈ others, s.HasKey name) (few : others.length ≤ maxWitnesses) (start : Timeshare)
    (empty : start.active = []) :
    let active := (selectTimeshare s others s.witnessesByScheduleTime (maxWitnesses - others.length) start).active
    Chosen s others (maxWitnesses - others.length) active ∧
      (others ++ active).length = min maxWitnesses s.keyed.length := by
  intro active
  have isActive : active = ((s.witnessesByScheduleTime.filter (s.eligible others)).take
      (maxWitnesses - others.length)).map Prod.fst := by
    simp [active, selectTimeshare_active, empty]
  have total : (s.witnessesByScheduleTime.filter (s.eligible others)).length + others.length = s.keyed.length :=
    length_eligible hardfork _ nodup keyed
  rw [isActive]
  refine ⟨chosen_of_filter hardfork lists_insertionSort others _, ?_⟩
  rw [length_append, length_map, length_take]
  omega

/-- The three passes, and what is stored of them. -/
structure Round (s t : Database) (top miners timeshare : List AccountName) : Prop where
  topVoted : TopVoted s top
  mined : Chosen s top maxMinerWitnesses miners
  queued : miners ⊆ s.powQueue.map Prod.fst
  timeshared : Chosen s (top ++ miners) (maxWitnesses - (top ++ miners).length) timeshare
  length : (top ++ miners ++ timeshare).length = min maxWitnesses s.keyed.length
  scheduled : t.scheduled = shuffle s.head.time (top ++ miners ++ timeshare).length (top ++ miners ++ timeshare)
  keyOf : ∀ name, t.keyOf name = s.keyOf name
  markOf : ∀ name, t.markOf name =
    if name ∈ timeshare then (s.markOf name).map fun _ => .timeshare
    else if name ∈ miners then (s.markOf name).map fun _ => .miner
    else if name ∈ top then (s.markOf name).map fun _ => .top19
    else s.markOf name

theorem TopVoted.others {top miners : List AccountName} (topVoted : TopVoted s top)
    (chosen : Chosen s top maxMinerWitnesses miners) :
    (top ++ miners).Nodup ∧ (∀ name ∈ top ++ miners, s.HasKey name) ∧ (top ++ miners).length ≤ maxWitnesses := by
  refine ⟨?_, ?_, ?_⟩
  · exact nodup_append.mpr ⟨topVoted.nodup, chosen.nodup, fun a inTop b inMiners same =>
      chosen.new b inMiners (same ▸ inTop)⟩
  · intro name member
    exact (mem_append.mp member).elim (topVoted.keyed name) (chosen.keyed name)
  · have votes := topVoted.length
    have miner := chosen.length
    simp only [maxVotedWitnesses, maxMinerWitnesses, maxWitnesses] at votes miner ⊢
    rw [length_append]
    omega

/-- The factor is the weight of the whole round. -/
def WitnessSchedule.NormalisesPay (w : WitnessSchedule) (top miners timeshare : List AccountName) : Prop :=
  w.witnessPayNormalizationFactor =
    w.top19Weight * top.length + w.minerWeight * miners.length + w.timeshareWeight * timeshare.length

theorem updateWitnessSchedule4_round (hardfork : s.hasHardfork 14 = true) (eligible : s.keyed ≠ []) :
    Ensures s updateWitnessSchedule4 fun _ t => ∃ top miners timeshare,
      Round s t top miners timeshare ∧ t.schedule.NormalisesPay top miners timeshare := by
  simp only [updateWitnessSchedule4, ensures_steps]
  generalize isTop : ((s.witnessesByVote.filter fun e => s.canSign e.2).take maxVotedWitnesses).map Prod.fst = top
  have topVoted : TopVoted s top := isTop ▸ topVoted hardfork
  refine (markAll_marks.and (ensures_frame (Within keepsRound) fun _ _ => id)).mono fun _ t₁ marked => ?_
  obtain ⟨⟨marks₁, hardforks₁⟩, within₁⟩ := marked
  have hardfork₁ : t₁.hasHardfork 14 = true := by
    rw [hasHardfork, hardforks₁]
    exact hardfork
  have queue : (s.powQueue.map Prod.fst).Nodup := lists_sorted.nodup
  refine ((selectMiners_marks hardfork₁ queue).and (ensures_frame (Within keepsRound) fun _ _ => id)).mono
    fun miners t₂ selected => ?_
  obtain ⟨⟨_, rfl, mined₁, queued, marks₂⟩, within₂⟩ := selected
  have mined := marks₁.chosen mined₁
  have hardfork₂ : t₂.hasHardfork 14 = true := by
    have same : t₂.hardforks = t₁.hardforks := within₂ .hardforks rfl
    rw [hasHardfork, same]
    exact hardfork₁
  obtain ⟨nodup, keyed, few⟩ := topVoted.others mined
  have filled := timeshare_fills hardfork₂ nodup
    (fun name member => marks₂.hasKey.mpr (marks₁.hasKey.mpr (keyed name member))) few
    { virtualTime := t₂.schedule.currentVirtualTime } rfl
  generalize selectTimeshare t₂ (top ++ miners) t₂.witnessesByScheduleTime (maxWitnesses - (top ++ miners).length)
    { virtualTime := t₂.schedule.currentVirtualTime } = timeshare at filled ⊢
  obtain ⟨timeshared, length⟩ := filled
  rw [(marks₂.keyed.trans marks₁.keyed).length_eq] at length
  have nonempty : top ++ miners ++ timeshare.active ≠ [] := by
    rw [← length_pos_iff, length]
    exact lt_min (by decide) (length_pos_iff.mpr eligible)
  have time : t₂.head.time = s.head.time := by
    have same : t₂.head = t₁.head := within₂ .head rfl
    have same' : t₁.head = s.head := within₁ .head rfl
    rw [same, same']
  refine markAll_marks.mono fun _ t₃ marked => ?_
  refine ensures_frame (Within keepsWitnessInfo) fun virtualTime t₄ within₄ => ?_
  refine ensures_frame (Within keepsWitnessInfo) fun _ t₅ within₅ => ?_
  refine ensures_frame (Within keepsWitnessInfo) fun majority t₆ within₆ => ?_
  simp only [modifySchedule, ensures_modify]
  refine updateMedianWitnessProps_schedule.mono fun _ t₇ stored => ?_
  have info : Within keepsWitnessInfo t₃ t₆ := trans_of _ (trans_of _ within₄ within₅) within₆
  refine ⟨top, miners, timeshare.active, ⟨topVoted, mined, queued, marks₁.chosen (marks₂.chosen timeshared), length, ?_,
    ?_, ?_⟩, ?_⟩
  · rw [← time]
    exact scheduled_activate nonempty (congrArg WitnessSchedule.currentShuffledWitnesses stored.1)
      (congrArg WitnessSchedule.numScheduledWitnesses stored.1)
  · intro name
    have kept : t₇.keyOf name = t₃.keyOf name := (stored.2.keyOf name).trans (info.keyOf name)
    rw [kept, marked.1.keyOf, marks₂.keyOf, marks₁.keyOf]
  · intro name
    have kept : t₇.markOf name = t₃.markOf name := (stored.2.markOf name).trans (info.markOf name)
    rw [kept, marked.1.markOf, marks₂.markOf, marks₁.markOf]
    by_cases third : name ∈ timeshare.active <;> by_cases second : name ∈ miners <;>
      by_cases first : name ∈ top <;> simp [second, first, Function.comp_def]
  · rw [stored.1]
    rfl

end Run

section Selected

variable {s t : Database} {top miners timeshare : List AccountName}

theorem Round.nodup (round : Round s t top miners timeshare) : (top ++ miners ++ timeshare).Nodup := by
  refine nodup_append.mpr ⟨(round.topVoted.others round.mined).1, round.timeshared.nodup, ?_⟩
  intro a before b inTimeshare same
  exact round.timeshared.new b inTimeshare (same ▸ before)

theorem Round.perm (round : Round s t top miners timeshare) : t.scheduled.Perm (top ++ miners ++ timeshare) := by
  rw [round.scheduled]
  exact shuffle_perm _ _

theorem Round.hasKey (round : Round s t top miners timeshare) (scheduled : name ∈ t.scheduled) : t.HasKey name := by
  rw [HasKey, round.keyOf]
  obtain before | inTimeshare := mem_append.mp (round.perm.mem_iff.mp scheduled)
  · exact (round.topVoted.others round.mined).2.1 name before
  · exact round.timeshared.keyed name inTimeshare

/-- The marks tell which pass has chosen a witness. -/
theorem Round.marked (round : Round s t top miners timeshare) (scheduled : name ∈ t.scheduled) :
    (name ∈ top ↔ t.markOf name = some .top19) ∧ (name ∈ miners ↔ t.markOf name = some .miner) ∧
      (name ∈ timeshare ↔ t.markOf name = some .timeshare) := by
  have listed := round.perm.mem_iff.mp scheduled
  obtain ⟨mark, found⟩ : ∃ mark, s.markOf name = some mark := by
    obtain ⟨key, found, _⟩ := round.hasKey scheduled
    rw [round.keyOf, Database.keyOf, Option.map_eq_some_iff] at found
    obtain ⟨w, found, _⟩ := found
    exact ⟨w.info.schedule, by simp [Database.markOf, found]⟩
  rw [round.markOf]
  by_cases third : name ∈ timeshare
  · have outside := round.timeshared.new name third
    simp only [mem_append, not_or] at outside
    simp [third, outside, found]
  by_cases second : name ∈ miners
  · simp [third, second, round.mined.new name second, found]
  · have first : name ∈ top := by simpa [third, second] using listed
    simp [third, second, first, found]

end Selected

/-- `update_witness_schedule4` schedules distinct witnesses with a key, at any block time a permutation
of those selected, among them the ones with the most votes, and fills the round if it can. -/
theorem updateWitnessSchedule4_schedules {s t : Database} (hardfork : s.hasHardfork 14 = true)
    (eligible : ∃ name, s.HasKey name) (run : updateWitnessSchedule4 s = .ok ((), t)) :
    t.scheduled.Nodup ∧ (∀ name ∈ t.scheduled, t.HasKey name) ∧
    (∃ top miners timeshare, TopVoted s top ∧ Chosen s top maxMinerWitnesses miners ∧
      Chosen s (top ++ miners) (maxWitnesses - (top ++ miners).length) timeshare ∧
      t.scheduled = shuffle s.head.time (top ++ miners ++ timeshare).length (top ++ miners ++ timeshare) ∧
      (∀ now, (shuffle now (top ++ miners ++ timeshare).length (top ++ miners ++ timeshare)).Perm
        (top ++ miners ++ timeshare)) ∧ ∀ name ∈ t.scheduled, (name ∈ top ↔ t.markOf name = some .top19) ∧
        (name ∈ miners ↔ t.markOf name = some .miner) ∧ (name ∈ timeshare ↔ t.markOf name = some .timeshare)) ∧
    (maxWitnesses ≤ s.keyed.length → t.schedule.numScheduledWitnesses = maxWitnesses) := by
  have nonempty : s.keyed ≠ [] := by
    obtain ⟨name, hasKey⟩ := eligible
    exact ne_nil_of_mem (mem_keyed.mpr hasKey)
  obtain ⟨top, miners, timeshare, round, -⟩ := updateWitnessSchedule4_round hardfork nonempty _ _ run
  refine ⟨round.perm.nodup_iff.mpr round.nodup, fun name => round.hasKey, ?_, fun enough => ?_⟩
  · exact ⟨top, miners, timeshare, round.topVoted, round.mined, round.timeshared, round.scheduled,
      fun now => shuffle_perm now _, fun name => round.marked⟩
  · have length : t.scheduled.length = t.schedule.numScheduledWitnesses := by simp [scheduled]
    rw [← length, round.perm.length_eq, round.length, min_eq_left enough]

theorem initMiner_hasKey : (usedFor 48).state.HasKey .initMiner := ⟨1, usedFor_busy.state.key, by decide⟩

theorem nextRound_eq : updateWitnessSchedule4 (usedFor 48).state = .ok ((), (usedFor 48).state.nextRound) :=
  stateAfter_eq usedFor_busy.state.schedules

/-- The round of a network with more witnesses than it needs: 19 by votes, one who mined and one by virtual time. -/
theorem updateWitnessSchedule4_schedules_inUse : (usedFor 48).state.nextRound.scheduled.Nodup ∧
    (∀ name ∈ (usedFor 48).state.nextRound.scheduled, (usedFor 48).state.nextRound.HasKey name) ∧
    (∃ top miners timeshare, TopVoted (usedFor 48).state top ∧ Chosen (usedFor 48).state top maxMinerWitnesses miners ∧
      Chosen (usedFor 48).state (top ++ miners) (maxWitnesses - (top ++ miners).length) timeshare ∧
      (usedFor 48).state.nextRound.scheduled =
        shuffle (usedFor 48).state.head.time (top ++ miners ++ timeshare).length (top ++ miners ++ timeshare)) ∧
    [.top19, .miner, .timeshare].map (fun kind => (usedFor 48).state.nextRound.scheduled.countP fun name =>
      (usedFor 48).state.nextRound.markOf name = some kind) = [19, 1, 1] := by
  obtain ⟨nodup, keyed, ⟨top, miners, timeshare, voted, mined, shared, shuffled, -⟩, -⟩ :=
    updateWitnessSchedule4_schedules
    (hasHardfork_mono (by decide) usedFor_busy.state.hardfork) ⟨_, initMiner_hasKey⟩ nextRound_eq
  exact ⟨nodup, keyed, ⟨top, miners, timeshare, voted, mined, shared, shuffled⟩, usedFor_busy.state.kinds⟩

end Golos
