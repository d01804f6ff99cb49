import Golos.Chain.Clock

/-! # The life of a proposal

A proposal is created, gathers and loses approvals, and ends: it is executed, deleted,
given up in its review period, or dropped when it expires.  The operations of a proposal
can create, approve and delete others, so executions stand inside executions.  All
that is said here holds at every moment of a history, also inside an execution.
-/

namespace Golos

open Stateful Database Store List

variable {p : Proposal} {o : ProposalUpdateOperation} {deed : Deed} {s t : Database} {key : ProposalKey}
  {tr : Transition} {b : Block}

/-! ## The objects of proposals -/

/-- The accounts of the three required sets. -/
def Proposal.Requires (p : Proposal) (account : AccountName) : Prop :=
  account ∈ p.requiredActiveApprovals ∨ account ∈ p.requiredOwnerApprovals ∨ account ∈ p.requiredPostingApprovals

theorem Proposal.mem_requiredTotal {account : AccountName} : account ∈ p.requiredTotal ↔ p.Requires account := by
  rw [Proposal.requiredTotal, mem_nameSet, mem_append, mem_append, or_assoc]
  rfl

/-- Proposals have different numbers, all used before, and each has its required approvals. -/
structure Database.ProposalsNumbered (s : Database) : Prop where
  below : ∀ key p, s.proposals.find? key = some p → p.id < s.nextProposalId
  unique : ∀ key key' p p', s.proposals.find? key = some p → s.proposals.find? key' = some p' → p.id = p'.id →
    key = key'
  required : ∀ account id, (s.requiredApprovals.find? (account, id)).isSome ↔
    ∃ key p, s.proposals.find? key = some p ∧ p.id = id ∧ p.Requires account

section Numbered

variable {net : Network} {s t : Database} {key : ProposalKey} {p : Proposal}

theorem Database.ProposalsNumbered.of_within (numbered : s.ProposalsNumbered) (within : Within keepsProposals s t) :
    t.ProposalsNumbered := by
  have proposals : t.proposals = s.proposals := within .proposals rfl
  have next : t.nextProposalId = s.nextProposalId := within .nextProposalId rfl
  have required : t.requiredApprovals = s.requiredApprovals := within .requiredApprovals rfl
  obtain ⟨below, unique, exactly⟩ := numbered
  refine ⟨?_, ?_, ?_⟩
  · rwa [proposals, next]
  · rwa [proposals]
  · rwa [proposals, required]

theorem Database.ProposalsNumbered.create (numbered : s.ProposalsNumbered) (fresh : s.proposals.find? key = none)
    (isNew : p.id = s.nextProposalId) (stores : s.Stores key p t) : t.ProposalsNumbered := by
  have lookup (k : ProposalKey) : t.proposals.find? k = if k = key then some p else s.proposals.find? k := by
    rw [stores.proposals, find?_insert fresh]
  have older {k : ProposalKey} {q : Proposal} (found : s.proposals.find? k = some q) : q.id ≠ p.id := by
    have below := numbered.below k q found
    omega
  refine ⟨fun k q found => ?_, fun k k' q q' found found' same => ?_, fun account id => ?_⟩
  · rw [stores.nextProposalId]
    rw [lookup] at found
    split at found
    · cases found
      exact Nat.lt_succ_self _
    · have below := numbered.below k q found
      omega
  · rw [lookup] at found found'
    split at found
    · cases found
      split at found'
      · exact (‹k = key›).trans (‹k' = key›).symm
      · exact absurd same.symm (older found')
    · split at found'
      · cases found'
        exact absurd same (older found)
      · exact numbered.unique k k' q q' found found' same
  · rw [stores.requiredApprovals, numbered.required]
    refine ⟨fun either => ?_, fun there => ?_⟩
    · obtain ⟨k, q, found, same, requires⟩ | ⟨same, requires⟩ := either
      · refine ⟨k, q, ?_, same, requires⟩
        rw [lookup, if_neg, found]
        rintro rfl
        rw [fresh] at found
        cases found
      · exact ⟨key, p, by rw [lookup, if_pos rfl], same.symm, Proposal.mem_requiredTotal.mp requires⟩
    · obtain ⟨k, q, found, same, requires⟩ := there
      rw [lookup] at found
      split at found
      · cases found
        exact .inr ⟨same.symm, Proposal.mem_requiredTotal.mpr requires⟩
      · exact .inl ⟨k, q, found, same, requires⟩

theorem Database.ProposalsNumbered.update (numbered : s.ProposalsNumbered) :
    ProposalsNumbered { s with proposals := s.proposals.modify key fun p => p.update o } := by
  -- an update changes neither the number nor what is required
  have before {k : ProposalKey} {q : Proposal}
      (found : (s.proposals.modify key fun p => p.update o).find? k = some q) :
      ∃ q₀, s.proposals.find? k = some q₀ ∧ q₀.id = q.id ∧ ∀ account, q₀.Requires account ↔ q.Requires account := by
    rw [find?_modify] at found
    split at found
    · obtain ⟨q₀, there, rfl⟩ := Option.map_eq_some_iff.mp found
      exact ⟨q₀, there, rfl, fun _ => Iff.rfl⟩
    · exact ⟨q, found, rfl, fun _ => Iff.rfl⟩
  refine ⟨fun k q found => ?_, fun k k' q q' found found' same => ?_, fun account id => ?_⟩
  · obtain ⟨q₀, found, same, _⟩ := before found
    rw [← same]
    exact numbered.below k q₀ found
  · obtain ⟨q₀, found, number, _⟩ := before found
    obtain ⟨q₀', found', number', _⟩ := before found'
    exact numbered.unique k k' q₀ q₀' found found' (by rw [number, same, number'])
  · rw [numbered.required account id]
    refine ⟨fun there => ?_, fun there => ?_⟩
    · obtain ⟨k, q, found, same, requires⟩ := there
      by_cases here : k = key
      · exact ⟨k, q.update o, by rw [find?_modify, if_pos here, found, Option.map_some], same, requires⟩
      · exact ⟨k, q, by rw [find?_modify, if_neg here, found], same, requires⟩
    · obtain ⟨k, q, found, same, requires⟩ := there
      obtain ⟨q₀, found, number, same'⟩ := before found
      exact ⟨k, q₀, found, number.trans same, (same' account).mpr requires⟩

theorem Database.ProposalsNumbered.remove (numbered : s.ProposalsNumbered) (found : s.proposals.find? key = some p) :
    Ensures s (removeProposal key p) fun _ t => t.ProposalsNumbered := by
  refine removeProposal_ensures.mono ?_
  rintro _ _ rfl
  have before {k : ProposalKey} {q : Proposal} (found : (s.proposals.erase key).find? k = some q) :
      k ≠ key ∧ s.proposals.find? k = some q := find?_erase_eq_some.mp found
  refine ⟨fun k q found => numbered.below k q (before found).2,
    fun k k' q q' found found' => numbered.unique k k' q q' (before found).2 (before found').2, fun account id => ?_⟩
  have kept : ((s.requiredApprovals.filter fun k _ => !(k.2 = p.id ∧ k.1 ∈ p.requiredTotal)).find?
      (account, id)).isSome ↔
      (s.requiredApprovals.find? (account, id)).isSome ∧ ¬(id = p.id ∧ p.Requires account) := by
    rw [Option.isSome_iff_exists, Option.isSome_iff_exists]
    simp [Store.find?_filter, Proposal.mem_requiredTotal, imp_iff_not_or]
  rw [kept, numbered.required]
  refine ⟨fun there => ?_, fun there => ?_⟩
  · obtain ⟨⟨k, q, found', same, requires⟩, other⟩ := there
    refine ⟨k, q, ?_, same, requires⟩
    rw [find?_erase, if_neg, found']
    rintro rfl
    rw [found] at found'
    cases found'
    exact other ⟨same.symm, requires⟩
  · obtain ⟨k, q, found', same, requires⟩ := there
    obtain ⟨different, found'⟩ := before found'
    exact ⟨⟨k, q, found', same, requires⟩, fun other =>
      different (numbered.unique k key q p found' found (same.trans other.1))⟩

theorem Does.proposalsNumbered (done : Does net s deed t) (numbered : s.ProposalsNumbered) : t.ProposalsNumbered := by
  cases done with
  | admitted run => exact numbered.of_within (frame_of_run run)
  | evaluated other _ run => exact numbered.of_within ((evaluate_keepsProposals other).after run)
  | stepped other run => exact numbered.of_within ((run_keepsProposals other).after run)
  | begun => exact numbered
  | removed found run => exact numbered.remove found _ _ run
  | finished found _ run => exact numbered.remove found _ _ run
  | created isNew checked run =>
    obtain ⟨_, admitted⟩ := checkProposal_ensures _ _ checked
    exact numbered.create admitted.fresh (by rw [isNew]; rfl) (storeProposal_ensures _ _ run)
  | updated run =>
    obtain ⟨_, _, _, rfl⟩ := updateProposal_ensures _ _ run
    exact numbered.update

/-- No number is used again. -/
theorem Does.nextProposalId_le (done : Does net s deed t) : s.nextProposalId ≤ t.nextProposalId := by
  have unchanged (within : Within keepsProposals s t) : s.nextProposalId ≤ t.nextProposalId := by
    have same : t.nextProposalId = s.nextProposalId := within .nextProposalId rfl
    rw [same]
  cases done with
  | admitted run => exact unchanged (frame_of_run run)
  | evaluated other _ run => exact unchanged ((evaluate_keepsProposals other).after run)
  | stepped other run => exact unchanged ((run_keepsProposals other).after run)
  | begun => exact Nat.le_refl _
  | removed _ run => rw [removeProposal_ensures _ _ run]
  | finished _ _ run => rw [removeProposal_ensures _ _ run]
  | created isNew _ run =>
    have number : Proposal.id _ = s.nextProposalId := congrArg Proposal.id isNew
    rw [(storeProposal_ensures _ _ run).nextProposalId]
    omega
  | updated run =>
    obtain ⟨_, _, _, rfl⟩ := updateProposal_ensures _ _ run
    exact Nat.le_refl _

end Numbered

/-! ## Endings -/

/-- The number of the proposal whose execution begins with a deed. -/
def Deed.begins : Deed → Option Nat
  | .begun _ p => some p.id
  | _ => none

def Deed.finishes : Deed → Option Nat
  | .finished _ p => some p.id
  | _ => none

/-- The numbers of the proposals executed so far, newest first. -/
def Moment.executed (m : Moment) : List Nat := m.past.filterMap fun e => e.2.begins

def Moment.finished (m : Moment) : List Nat := m.past.filterMap fun e => e.2.finishes

/-- What was executed is not there any more, and will not come back. -/
structure Ended (m : Moment) : Prop where
  nodup : m.finished.Nodup
  below : ∀ id ∈ m.finished, id < m.state.nextProposalId
  gone : ∀ key p, m.state.proposals.find? key = some p → p.id ∉ m.finished

/-! ## What holds at every moment -/

/-- The second has no approval that the first has not. -/
structure Proposal.GainsNothing (p p' : Proposal) : Prop where
  active : p'.availableActiveApprovals ⊆ p.availableActiveApprovals
  owner : p'.availableOwnerApprovals ⊆ p.availableOwnerApprovals
  posting : p'.availablePostingApprovals ⊆ p.availablePostingApprovals
  key : p'.availableKeyApprovals ⊆ p.availableKeyApprovals

theorem updateApprovals_subset {α : Type} [DecidableEq α] {available toAdd toRemove : List α}
    (nothing : toAdd.isEmpty = true) : Proposal.updateApprovals available toAdd toRemove ⊆ available := by
  rw [isEmpty_iff.mp nothing, Proposal.updateApprovals, append_nil]
  exact filter_subset_self _

theorem Proposal.gainsNothing_update (nothing : o.addsNothing = true) : p.GainsNothing (p.update o) := by
  simp only [ProposalUpdateOperation.addsNothing, Bool.and_eq_true] at nothing
  obtain ⟨⟨⟨owner, active⟩, posting⟩, key⟩ := nothing
  exact ⟨updateApprovals_subset active, updateApprovals_subset owner, updateApprovals_subset posting,
    updateApprovals_subset key⟩

theorem Proposal.GainsNothing.trans {p' p'' : Proposal} (first : p.GainsNothing p') (second : p'.GainsNothing p'') :
    p.GainsNothing p'' where
  active := Subset.trans second.active first.active
  owner := Subset.trans second.owner first.owner
  posting := Subset.trans second.posting first.posting
  key := Subset.trans second.key first.key

/-- What was before a moment, as far as proposals are concerned. -/
structure ProposalsTracked (m : Moment) : Prop where
  numbered : m.state.ProposalsNumbered
  ended : Ended m
  time : ∀ m₀ : Moment, m₀.Precedes m → m₀.state.head.time ≤ m.state.head.time
  number : ∀ m₀ : Moment, m₀.Precedes m → m₀.state.nextProposalId ≤ m.state.nextProposalId
  /-- A proposal in its review period has nothing it did not have then. -/
  review : ∀ (m₀ : Moment) key p p', m₀.Precedes m → m₀.state.ProposalsNumbered →
    m₀.state.proposals.find? key = some p → m.state.proposals.find? key = some p' → p'.id = p.id →
    p.inReview m₀.state.head.time = true → p'.reviewPeriodTime = p.reviewPeriodTime ∧ p.GainsNothing p'

section ProposalsTracked

variable {net : Network} {m : Moment} {deed : Deed} {t : Database}

/-- What has a number that is in use had it before. -/
theorem Does.origin_of_old (done : Does net s deed t)
    (found : t.proposals.find? key = some p) (old : p.id < s.nextProposalId) :
    ∃ p₀, s.proposals.find? key = some p₀ ∧ p₀.id = p.id ∧ p.expirationTime = p₀.expirationTime ∧
      p.reviewPeriodTime = p₀.reviewPeriodTime ∧ (p₀.inReview s.head.time = true → p₀.GainsNothing p) := by
  cases done.origin found with
  | kept before =>
    exact ⟨p, before, rfl, rfl, rfl, fun _ => ⟨Subset.refl _, Subset.refl _, Subset.refl _,
      Subset.refl _⟩⟩
  | @updated o p₀ before review same =>
    subst same
    exact ⟨p₀, before, rfl, rfl, rfl, fun inReview => Proposal.gainsNothing_update (review inReview)⟩
  | created _ number => omega

theorem Ended.next (ended : Ended m) (numbered : m.state.ProposalsNumbered) (done : Does net m.state deed t) :
    Ended (m.next deed t) := by
  have mono := done.nextProposalId_le
  -- what is there was there before, unless it has a new number
  have there {key : ProposalKey} {p : Proposal} (found : t.proposals.find? key = some p) : p.id ∉ m.finished := by
    intro member
    obtain ⟨p₀, before, same, _⟩ := done.origin_of_old found (ended.below _ member)
    rw [← same] at member
    exact ended.gone key p₀ before member
  cases ending : deed.finishes with
  | none =>
    have same : (m.next deed t).finished = m.finished := by
      simp [Moment.finished, Moment.next, ending]
    refine ⟨same ▸ ended.nodup, fun id member => ?_, fun key p found => ?_⟩
    · rw [same] at member
      exact (ended.below id member).trans_le mono
    · rw [same]
      exact there found
  | some id =>
    have more : (m.next deed t).finished = id :: m.finished := by
      simp [Moment.finished, Moment.next, ending]
    cases done with
    | @finished _ key p p' found same run =>
      obtain rfl : p.id = id := Option.some.inj ending
      rw [← same] at more
      have wasThere := ended.gone key p' found
      refine ⟨?_, ?_, fun k q found' => ?_⟩
      · rw [more]
        exact nodup_cons.mpr ⟨wasThere, ended.nodup⟩
      · rw [more]
        refine forall_mem_cons.mpr ⟨(numbered.below key p' found).trans_le mono, fun id member => ?_⟩
        exact (ended.below id member).trans_le mono
      · rw [more, mem_cons, not_or]
        refine ⟨fun same => ?_, there found'⟩
        rw [removeProposal_ensures _ _ run] at found'
        obtain ⟨different, found'⟩ := find?_erase_eq_some.mp found'
        exact different (numbered.unique k key q p' found' found same)
    | _ => cases ending

theorem ProposalsTracked.next (life : ProposalsTracked m) (done : Does net m.state deed t)
    (forward : m.state.head.time ≤ t.head.time) : ProposalsTracked (m.next deed t) where
  numbered := done.proposalsNumbered life.numbered
  ended := life.ended.next life.numbered done
  time m₀ precedes := by
    obtain rfl | earlier := precedes.of_next
    · exact Nat.le_refl _
    · exact (life.time m₀ earlier).trans forward
  number m₀ precedes := by
    obtain rfl | earlier := precedes.of_next
    · exact Nat.le_refl _
    · exact (life.number m₀ earlier).trans done.nextProposalId_le
  review m₀ key p p' precedes numbered found found' same inReview := by
    obtain rfl | earlier := precedes.of_next
    · cases found.symm.trans found'
      exact ⟨rfl, Subset.refl _, Subset.refl _, Subset.refl _, Subset.refl _⟩
    · have old : p'.id < m.state.nextProposalId := by
        rw [same]
        exact (numbered.below key p found).trans_le (life.number m₀ earlier)
      obtain ⟨p₁, between, number, _, period, gains⟩ := done.origin_of_old found' old
      obtain ⟨period', soFar⟩ := life.review m₀ key p p₁ earlier numbered found between (number.trans same) inReview
      refine ⟨period.trans period', soFar.trans (gains ?_)⟩
      -- the review period goes on
      rw [Proposal.inReview, Option.any_eq_true] at inReview ⊢
      obtain ⟨time, begins, began⟩ := inReview
      refine ⟨time, period'.trans begins, ?_⟩
      simp only [decide_eq_true_eq] at began ⊢
      exact began.trans (life.time m₀ earlier)

end ProposalsTracked

section Chronicles

variable {net : Network} {allowed : Database → BlockStep → Prop} {rest : List BlockStep} {m : Moment}

theorem Does.forward (done : Does net s deed t) (notStep : deed.isStep = false) : s.head.time ≤ t.head.time := by
  have same : t.head = s.head := done.within notStep .head rfl
  rw [same]

theorem Network.initGenesis_proposals (start : net.initGenesis {} = .ok ((), s)) :
    s.proposals = empty ∧ s.requiredApprovals = empty := by
  have within : Within keepsProposals {} s := frame_of_run start
  exact ⟨within .proposals rfl, within .requiredApprovals rfl⟩

theorem Network.initGenesis_tracked (start : net.initGenesis {} = .ok ((), s)) : ProposalsTracked ⟨[], s⟩ := by
  obtain ⟨proposals, required⟩ := net.initGenesis_proposals start
  have absent (key : ProposalKey) (p : Proposal) : s.proposals.find? key ≠ some p := by
    rw [proposals]
    exact nofun
  have first {m₀ : Moment} (precedes : m₀.Precedes ⟨[], s⟩) : m₀ = ⟨[], s⟩ := by
    generalize same : (⟨[], s⟩ : Moment) = m at precedes
    cases precedes with
    | refl => rfl
    | next => cases same
  refine ⟨⟨fun key p found => absurd found (absent key p), fun key _ p _ found => absurd found (absent key p),
    fun account id => ?_⟩, ⟨nodup_nil, nofun, fun key p found => absurd found (absent key p)⟩, fun m₀ precedes => ?_,
    fun m₀ precedes => ?_, fun m₀ key p p' _ _ _ found => absurd found (absent key p')⟩
  · rw [required]
    refine ⟨nofun, fun there => ?_⟩
    obtain ⟨key, p, found, _⟩ := there
    exact absurd found (absent key p)
  · rw [first precedes]
  · rw [first precedes]

theorem Network.Chronicle.proposalsTracked (chronicle : net.Chronicle allowed rest m) : ProposalsTracked m := by
  have rule := @Network.Chronicle.invariantAt net allowed fun _ m => ProposalsTracked m
  exact rule (fun _ => net.initGenesis_tracked) (fun _ _ => id)
    (fun _ _ _ _ notStep tracked done => tracked.next done (done.forward notStep))
    (fun _ _ _ _ chronicle _ tracked done => tracked.next done (chronicle.time_le done)) (fun _ _ _ _ _ => id) chronicle

end Chronicles

/-! ## Executions -/

/-- An execution that began with a transition was carried through: all the operations of the proposal
were applied, one after the other, and then the proposal was removed. -/
def Transition.CarriedThrough (net : Network) (tr : Transition) (key : ProposalKey) (p : Proposal) (m : Moment) :
    Prop :=
  ∃ m₁ t, Performs net (.operations p.proposedOperations) (tr.before.next tr.deed tr.after) m₁ ∧
    Does net m₁.state (.finished key p) t ∧ (m₁.next (.finished key p) t).Precedes m

section Executions

variable {net : Network} {allowed : Database → BlockStep → Prop} {rest : List BlockStep} {task : Task} {m m' : Moment}

theorem Transition.CarriedThrough.later
    (through : tr.CarriedThrough net key p m) (precedes : m.Precedes m') : tr.CarriedThrough net key p m' := by
  obtain ⟨m₁, t, performs, finished, earlier⟩ := through
  exact ⟨m₁, t, performs, finished, earlier.trans precedes⟩

theorem Performs.precedes (performs : Performs net task m m') : m.Precedes m' := by
  have rule := @Performs.invariant net fun m' => m.Precedes m'
  exact rule (fun _ _ _ _ before _ => before.next) performs .refl

theorem mem_transitions_of_begins
    (member : tr ∈ (m.next deed t).transitions) (begins : tr.deed = .begun key p) (other : deed.begins = none) :
    tr ∈ m.transitions := by
  rw [Moment.transitions_next, mem_cons] at member
  obtain rfl | member := member
  · change deed = .begun key p at begins
    rw [begins] at other
    cases other
  · exact member

/-- Every execution that begins while a task is performed is carried through by its end. -/
theorem Performs.carriedThrough (performs : Performs net task m m') :
    ∀ tr ∈ m'.transitions, ∀ key p, tr.deed = .begun key p → tr ∈ m.transitions ∨ tr.CarriedThrough net key p m' := by
  induction performs with
  | evaluate => exact fun _ member _ _ begins => .inl (mem_transitions_of_begins member begins rfl)
  | create => exact fun _ member _ _ begins => .inl (mem_transitions_of_begins member begins rfl)
  | update => exact fun _ member _ _ begins => .inl (mem_transitions_of_begins member begins rfl)
  | updateRemoves =>
    intro tr member key p begins
    exact .inl (mem_transitions_of_begins (mem_transitions_of_begins member begins rfl) begins rfl)
  | updateExecutes _ _ ih =>
    intro tr member key p begins
    obtain before | through := ih tr member key p begins
    · exact .inl (mem_transitions_of_begins before begins rfl)
    · exact .inr through
  | delete => exact fun _ member _ _ begins => .inl (mem_transitions_of_begins member begins rfl)
  | nil => exact fun tr member key p begins => .inl member
  | cons _ others first second =>
    intro tr member key p begins
    obtain before | through := second tr member key p begins
    · exact (first tr before key p begins).imp_right fun through => through.later others.precedes
    · exact .inr through
  | @execute m m₁ key p t begun performs finished ih =>
    intro tr member key' p' begins
    have earlier := mem_transitions_of_begins member begins rfl
    obtain before | through := ih tr earlier key' p' begins
    · rw [Moment.transitions_next, mem_cons] at before
      obtain rfl | before := before
      · -- this is the execution itself
        cases begins
        exact .inr ⟨m₁, t, performs, finished, .refl⟩
      · exact .inl before
    · exact .inr (through.later (.next .refl))

/-- As many executions are finished as were begun. -/
theorem Performs.balanced (performs : Performs net task m m') (id : Nat) :
    m'.executed.count id + m.finished.count id = m'.finished.count id + m.executed.count id := by
  induction performs with
  | evaluate => exact Nat.add_comm _ _
  | create => exact Nat.add_comm _ _
  | update => exact Nat.add_comm _ _
  | updateRemoves => exact Nat.add_comm _ _
  | updateExecutes _ _ ih => exact ih
  | delete => exact Nat.add_comm _ _
  | nil => exact Nat.add_comm _ _
  | cons _ _ first second => omega
  | @execute m m₁ key p t begun performs finished ih =>
    have began : (m.next (.begun key p) m.state).executed = p.id :: m.executed := rfl
    have ended : (m₁.next (.finished key p) t).finished = p.id :: m₁.finished := rfl
    have same : (m₁.next (.finished key p) t).executed = m₁.executed := rfl
    have same' : (m.next (.begun key p) m.state).finished = m.finished := rfl
    rw [began, same', count_cons] at ih
    rw [ended, same, count_cons]
    omega

theorem Network.Chronicle.balanced (chronicle : net.Chronicle allowed rest m) (id : Nat) :
    m.executed.count id = m.finished.count id := by
  induction chronicle with
  | genesis => rfl
  | block _ _ ih => exact ih
  | @step m step _ t _ _ _ ih => exact ih
  | @transaction m m' trx _ t _ _ _ performs ih =>
    have same : (m.next (.admitted trx) t).executed = m.executed := rfl
    have same' : (m.next (.admitted trx) t).finished = m.finished := rfl
    have balanced := performs.balanced id
    rw [same, same'] at balanced
    omega
  | expire _ _ _ performs ih =>
    have balanced := performs.balanced id
    omega
  | drop _ _ _ _ ih => exact ih
  | cleared _ _ ih => exact ih

/-- No proposal is executed twice. -/
theorem Network.Chronicle.executed_nodup (chronicle : net.Chronicle allowed rest m) : m.executed.Nodup := by
  have once := chronicle.proposalsTracked.ended.nodup
  rw [nodup_iff_count_le_one] at once ⊢
  intro id
  rw [chronicle.balanced id]
  exact once id

theorem Network.Chronicle.carriedThrough (chronicle : net.Chronicle allowed rest m) :
    ∀ tr ∈ m.transitions, ∀ key p, tr.deed = .begun key p → tr.CarriedThrough net key p m := by
  -- one more deed, that begins no execution
  have next {m : Moment} {deed : Deed} {t : Database} (notBegun : deed.begins = none)
      (before : ∀ tr ∈ m.transitions, ∀ key p, tr.deed = .begun key p → tr.CarriedThrough net key p m) :
      ∀ tr ∈ (m.next deed t).transitions, ∀ key p, tr.deed = .begun key p →
        tr.CarriedThrough net key p (m.next deed t) := by
    intro tr member key p begins
    exact (before tr (mem_transitions_of_begins member begins notBegun) key p begins).later (.next .refl)
  have performed {task : Task} {m m' : Moment} (performs : Performs net task m m')
      (before : ∀ tr ∈ m.transitions, ∀ key p, tr.deed = .begun key p → tr.CarriedThrough net key p m) :
      ∀ tr ∈ m'.transitions, ∀ key p, tr.deed = .begun key p → tr.CarriedThrough net key p m' := by
    intro tr member key p begins
    obtain earlier | through := performs.carriedThrough tr member key p begins
    · exact (before tr earlier key p begins).later performs.precedes
    · exact through
  induction chronicle with
  | genesis => exact forall_mem_nil _
  | block _ _ ih => exact ih
  | step _ _ _ ih => exact next rfl ih
  | transaction _ _ _ performs ih => exact performed performs (next rfl ih)
  | expire _ _ _ performs ih => exact performed performs ih
  | drop _ _ _ _ ih => exact next rfl ih
  | cleared _ _ ih => exact ih

end Executions

/-! ## Expirations -/

/-- No time before the present one had reached the expiration of the proposal. -/
def Moment.FirstReaches (m : Moment) (p : Proposal) : Prop :=
  ∀ m₀ : Moment, m₀.Precedes m → m₀.state.head.time < m.state.head.time → m₀.state.head.time < p.expirationTime

/-- Proposals do not outlive their expiration, until the transit. -/
def Punctual (rest : List BlockStep) (m : Moment) : Prop :=
  m.state.isTransitEnabled = true ∨
    (Awaits .clearExpiredProposals rest ∨ m.state.expiredKeys = []) ∧
      ∀ key p, m.state.proposals.find? key = some p → m.FirstReaches p

section Expirations

variable {net : Network} {allowed : Database → BlockStep → Prop} {step : BlockStep} {rest : List BlockStep}
  {m : Moment} {deed : Deed} {t : Database}

/-- While the time stands still. -/
theorem firstReaches_of_sameTime (reaches : ∀ key p, m.state.proposals.find? key = some p → m.FirstReaches p)
    (done : Does net m.state deed t) (sameTime : t.head.time = m.state.head.time) :
    ∀ key p, t.proposals.find? key = some p → (m.next deed t).FirstReaches p := by
  intro key p found m₀ precedes sooner
  change m₀.state.head.time < t.head.time at sooner
  obtain rfl | earlier := precedes.of_next
  · exact absurd sooner (Nat.lt_irrefl _)
  · rw [sameTime] at sooner
    cases done.origin found with
    | kept before => exact reaches key p before m₀ earlier sooner
    | @updated o p₀ before _ same =>
      subst same
      exact reaches key p₀ before m₀ earlier sooner
    | created admitted => exact sooner.trans admitted.later

/-- When the time passes, all proposals reach to the time that was. -/
theorem firstReaches_of_adopts (unexpired : m.state.expiredKeys = []) (tracked : ProposalsTracked m)
    (done : Does net m.state (.stepped (.updateGlobalDynamicData b)) t) :
    ∀ key p, t.proposals.find? key = some p → (m.next (.stepped (.updateGlobalDynamicData b)) t).FirstReaches p := by
  intro key p found m₀ precedes sooner
  obtain rfl | earlier := precedes.of_next
  · exact absurd sooner (Nat.lt_irrefl _)
  · cases done.origin found with
    | kept before =>
      have alive : m.state.head.time < p.expirationTime := by
        by_contra late
        have expired : key ∈ m.state.expiredKeys := mem_expiredKeys.mpr ⟨p, before, Nat.le_of_not_lt late⟩
        rw [unexpired] at expired
        cases expired
      exact (tracked.time m₀ earlier).trans_lt alive

theorem expiredKeys_of_step (done : Does net m.state (.stepped step) t) (sameTime : t.head.time = m.state.head.time) :
    t.expiredKeys = m.state.expiredKeys := by
  cases done with
  | stepped other run =>
    have same : t.proposals = m.state.proposals := (run_keepsProposals other).after run .proposals rfl
    rw [expiredKeys, same, sameTime, expiredKeys]

theorem Network.Chronicle.punctual (chronicle : net.Chronicle allowed rest m) : Punctual rest m := by
  have rule := @Network.Chronicle.invariantAt net allowed Punctual
  refine rule (fun s start => .inr ⟨.inr ?_, fun key p found => ?_⟩) (fun b m before => ?_)
    (fun rest m deed t notStep before done => ?_) (fun step rest m t chronicle _ before done => ?_)
    (fun step rest m applies ended before => ?_) chronicle
  · rw [expiredKeys, (net.initGenesis_proposals start).1]
    rfl
  · change s.proposals.find? key = some p at found
    rw [(net.initGenesis_proposals start).1] at found
    cases found
  · refine before.imp_right fun before => ⟨.inr ?_, before.2⟩
    obtain ⟨waiting, _⟩ | absent := before.1
    · cases waiting
    · exact absent
  · have sameTime : t.head.time = m.state.head.time := done.sameTime (by rintro b rfl; cases notStep)
    refine before.imp done.transit_kept fun before => ⟨?_, firstReaches_of_sameTime before.2 done sameTime⟩
    obtain awaits | absent := before.1
    · exact .inl awaits
    · exact .inr (subset_nil.mp (absent ▸ done.expiredKeys_subset notStep))
  · refine before.imp done.transit_kept fun before => ?_
    by_cases adopts : ∃ b, step = .updateGlobalDynamicData b
    · obtain ⟨b', rfl⟩ := adopts
      obtain ⟨_, adopted⟩ | unexpired := before.1
      · exact absurd mem_cons_self (adopted b')
      · have awaits : Awaits .clearExpiredProposals rest := chronicle.awaits (by simp [blockSteps, processingSteps])
          (by decide)
        exact ⟨.inl awaits, firstReaches_of_adopts unexpired chronicle.proposalsTracked done⟩
    · have sameTime := done.sameTime fun b same => adopts ⟨b, by cases same; rfl⟩
      refine ⟨?_, firstReaches_of_sameTime before.2 done sameTime⟩
      obtain awaits | absent := before.1
      · refine .inl (awaits.tail ?_)
        rintro rfl
        cases done with
        | stepped other => cases other
      · exact .inr ((expiredKeys_of_step done sameTime).trans absent)
  · by_cases clears : step = .clearExpiredProposals
    · obtain transit | absent := ended clears
      · exact .inl transit
      · exact before.imp_right fun before => ⟨.inr (nextExpiredProposal_eq_none.mp absent), before.2⟩
    · exact before.imp_right fun before => ⟨before.1.imp_left fun awaits => awaits.tail clears, before.2⟩

/-! Where executions begin, proposals do not outlive their expiration. -/

/-- An execution begins with a proposal as it is there, authorized by its approvals; if it has a
review period, at its expiration. -/
structure Transition.BeginsRightly (tr : Transition) (key : ProposalKey) (p : Proposal) : Prop where
  there : tr.before.state.proposals.find? key = some p
  authorized : p.isAuthorizedToExecute tr.before.state = true
  reviewed : p.reviewPeriodTime.isSome → p.expirationTime ≤ tr.before.state.head.time ∧ tr.before.FirstReaches p

def Moment.AllBeginRightly (m : Moment) : Prop :=
  ∀ tr ∈ m.transitions, ∀ key p, tr.deed = .begun key p → tr.BeginsRightly key p

theorem Moment.AllBeginRightly.next (before : m.AllBeginRightly) (done : Does net m.state deed t)
    (reaches : ∀ key p, m.state.proposals.find? key = some p → m.FirstReaches p) : (m.next deed t).AllBeginRightly := by
  rw [Moment.AllBeginRightly, Moment.transitions_next, forall_mem_cons]
  refine ⟨fun key p begins => ?_, before⟩
  subst begins
  cases done with
  | begun found authorized late => exact ⟨found, authorized, fun review => ⟨late review, reaches key p found⟩⟩

theorem Performs.allBeginRightly {task : Task} {m' : Moment} (performs : Performs net task m m')
    (before : m.AllBeginRightly) (reaches : ∀ key p, m.state.proposals.find? key = some p → m.FirstReaches p) :
    m'.AllBeginRightly := by
  have rule := @Performs.invariant net fun m => m.AllBeginRightly ∧
    ∀ key p, m.state.proposals.find? key = some p → m.FirstReaches p
  refine (rule (fun m deed t notStep before done => ⟨before.1.next done before.2, ?_⟩) performs ⟨before, reaches⟩).1
  exact firstReaches_of_sameTime before.2 done (done.sameTime (by rintro b rfl; cases notStep))

theorem Network.Chronicle.allBeginRightly (chronicle : net.Chronicle allowed rest m) : m.AllBeginRightly := by
  have other {m : Moment} {deed : Deed} {t : Database} (notBegun : deed.begins = none) (before : m.AllBeginRightly) :
      (m.next deed t).AllBeginRightly := by
    intro tr member key p begins
    exact before tr (mem_transitions_of_begins member begins notBegun) key p begins
  induction chronicle with
  | genesis => exact forall_mem_nil _
  | block _ _ ih => exact ih
  | step _ _ _ ih => exact other rfl ih
  | transaction chronicle _ admitted performs ih =>
    refine performs.allBeginRightly (other rfl ih) ?_
    obtain transit | ⟨_, reaches⟩ := chronicle.punctual
    · rw [chronicle.noTransit] at transit
      cases transit
    · exact firstReaches_of_sameTime reaches admitted (admitted.sameTime nofun)
  | expire chronicle noTransit _ performs ih =>
    obtain transit | ⟨_, reaches⟩ := chronicle.punctual
    · rw [noTransit] at transit
      cases transit
    · exact performs.allBeginRightly ih reaches
  | drop _ _ _ _ ih => exact other rfl ih
  | cleared _ _ ih => exact ih

end Expirations

/-! ## The rules -/

/-- The rules of the life of proposals, at a moment and all moments before. -/
structure Moment.ProposalRulesKept (net : Network) (m : Moment) : Prop where
  once : m.executed.Nodup
  rightly : ∀ tr ∈ m.transitions, ∀ key p, tr.deed = .begun key p → tr.BeginsRightly key p
  whole : ∀ tr ∈ m.transitions, ∀ key p, tr.deed = .begun key p → tr.CarriedThrough net key p m
  review : ∀ m₁ m₂ : Moment, m₁.Precedes m₂ → m₂.Precedes m → ∀ key p p',
    m₁.state.proposals.find? key = some p → m₂.state.proposals.find? key = some p' → p'.id = p.id →
    p.inReview m₁.state.head.time = true → p.GainsNothing p'
  required : ∀ m₁ : Moment, m₁.Precedes m → ∀ account id,
    (m₁.state.requiredApprovals.find? (account, id)).isSome ↔
      ∃ key p, m₁.state.proposals.find? key = some p ∧ p.id = id ∧ p.Requires account

section Rules

variable {net : Network} {allowed : Database → BlockStep → Prop} {rest : List BlockStep} {m : Moment} {s : Database}

/-- What holds at every moment of every chronicle holds at the moments inside it. -/
theorem Network.Chronicle.trackedBefore (chronicle : net.Chronicle allowed rest m) :
    ∀ m₁ : Moment, m₁.Precedes m → ProposalsTracked m₁ := by
  have next {m : Moment} {deed : Deed} {t : Database} (before : ∀ m₁ : Moment, m₁.Precedes m → ProposalsTracked m₁)
      (done : Does net m.state deed t) (forward : m.state.head.time ≤ t.head.time) :
      ∀ m₁ : Moment, m₁.Precedes (m.next deed t) → ProposalsTracked m₁ := by
    intro m₁ precedes
    obtain rfl | earlier := precedes.of_next
    · exact (before m .refl).next done forward
    · exact before m₁ earlier
  have rule := @Network.Chronicle.invariantAt net allowed fun _ m => ∀ m₁ : Moment, m₁.Precedes m → ProposalsTracked m₁
  refine rule (fun s start m₁ precedes => ?_) (fun _ _ => id)
    (fun _ _ _ _ notStep before done => next before done (done.forward notStep))
    (fun _ _ _ _ chronicle _ before done => next before done (chronicle.time_le done)) (fun _ _ _ _ _ => id) chronicle
  generalize same : (⟨[], s⟩ : Moment) = m at precedes
  cases precedes with
  | refl =>
    subst same
    exact net.initGenesis_tracked start
  | next => cases same

theorem Network.Chronicle.proposalRulesKept (chronicle : net.Chronicle allowed rest m) : m.ProposalRulesKept net where
  once := chronicle.executed_nodup
  rightly := chronicle.allBeginRightly
  whole := chronicle.carriedThrough
  review m₁ m₂ first second key p p' found found' same inReview :=
    ((chronicle.trackedBefore m₂ second).review m₁ key p p' first
      (chronicle.trackedBefore m₁ (first.trans second)).numbered found found' same inReview).2
  required m₁ precedes := (chronicle.trackedBefore m₁ precedes).numbered.required

/-- Every state of every chain has a history, and in every history proposals are executed at most
once, as a whole, and as their approvals allow. -/
theorem proposal_rules_kept (reachable : net.Reachable s) :
    (∃ past rest, net.Chronicle (fun _ _ => True) rest ⟨past, s⟩) ∧
      ∀ past rest, net.Chronicle (fun _ _ => True) rest ⟨past, s⟩ → Moment.ProposalRulesKept net ⟨past, s⟩ := by
  exact ⟨reachable.chronicled, fun _ _ chronicle => chronicle.proposalRulesKept⟩

/-- One proposal of Alice is executed and another waits for its review. -/
theorem proposal_rules_kept_inUse : (usedFor 48).state.withProposals.proposals.keys = [(.alice, "plan")] ∧
    ((usedFor 48).state.withProposals.accounts.find? .bob).map (·.balances.balance) = some 1000 ∧
    ∃ past rest, Network.bare.Chronicle (fun _ _ => True) rest ⟨past, (usedFor 48).state.withProposals⟩ ∧
      Moment.ProposalRulesKept Network.bare ⟨past, (usedFor 48).state.withProposals⟩ := by
  obtain ⟨⟨past, rest, chronicle⟩, kept⟩ := proposal_rules_kept withProposals_reachable
  exact ⟨usedFor_busy.state.pending, usedFor_busy.state.executed, past, rest, chronicle, kept past rest chronicle⟩

end Rules

end Golos
