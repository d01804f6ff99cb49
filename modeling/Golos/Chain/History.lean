import Golos.Chain.Block

/-! # Histories

A state does not say how it came about.  What was requested, approved or executed before
is told by a history: the deeds of the code so far, each with the state it was done in.
Operations reach the state in three ways: in a transaction, in a proposal that its last
approval executes, and in a proposal that is executed when it expires; so deeds can
stand inside the execution of a proposal, to any depth.  Every state of every run has
a history.
-/

namespace Golos

open Stateful Database Store List

variable {operations : List Operation} {deed : Deed} {net : Network} {s : Database} {op : Operation}
  {step : BlockStep} {producing : Bool} {nesting : Nesting} {apply : Operation → Eval Unit} {key : ProposalKey}
  {p : Proposal} {o : ProposalUpdateOperation} {trx : Transaction} {stack : Nat} {e : ProposalKey × Proposal}

/-! ## Validated operations -/

theorem Operation.validateAll_eq_ok :
    Operation.validateAll operations = .ok () ↔ ∀ op ∈ operations, op.validate = .ok () := by
  induction operations with
  | nil => simp [Operation.validateAll]
  | cons op rest ih =>
    rw [Operation.validateAll, except_bind_eq_ok, forall_mem_cons, ih]
    exact ⟨fun ⟨_, first, others⟩ => ⟨first, others⟩, fun ⟨first, others⟩ => ⟨_, first, others⟩⟩

theorem valid_of_validateOperations
    (valid : validateOperations operations = .ok ()) : ∀ op ∈ operations, op.validate = .ok () := by
  rw [validateOperations, except_bind_eq_ok] at valid
  obtain ⟨_, _, all⟩ := valid
  exact Operation.validateAll_eq_ok.mp all

/-- The operations whose evaluators work on proposals. -/
def Operation.isProposal : Operation → Bool
  | .proposalCreate .. | .proposalUpdate _ | .proposalDelete _ => true
  | _ => false

/-- What may wait in a proposal: it is validated, and needs no authority beside those of accounts. -/
structure Operation.Proposable (op : Operation) : Prop where
  validated : op.validate = .ok ()
  authorities : op.required.other = []

def Database.ProposalsValid (s : Database) : Prop :=
  ∀ key p, s.proposals.find? key = some p → ∀ op ∈ p.proposedOperations, op.Proposable

theorem RequiredAuthorities.append_foldl_other {r : RequiredAuthorities}
    (absent : (operations.foldl (fun r op => r.append op.required) r).other = []) :
    r.other = [] ∧ ∀ op ∈ operations, op.required.other = [] := by
  induction operations generalizing r with
  | nil => exact ⟨absent, forall_mem_nil _⟩
  | cons op rest ih =>
    obtain ⟨first, others⟩ := ih absent
    obtain ⟨before, here⟩ := append_eq_nil_iff.mp first
    exact ⟨before, forall_mem_cons.mpr ⟨here, others⟩⟩

/-- The steps of a block that apply operations. -/
def BlockStep.appliesOperations : BlockStep → Bool
  | .applyTransaction _ | .clearExpiredProposals => true
  | _ => false

/-! ## Deeds -/

inductive Deed where
  | admitted (trx : Transaction)
  | evaluated (op : Operation)
  | created (key : ProposalKey) (p : Proposal)
  | updated (key : ProposalKey) (o : ProposalUpdateOperation)
  | removed (key : ProposalKey) (p : Proposal)
  | begun (key : ProposalKey) (p : Proposal)
  | finished (key : ProposalKey) (p : Proposal)
  | stepped (step : BlockStep)

/-- A step of a block that applies no operation. -/
def Deed.isStep : Deed → Bool
  | .stepped _ => true
  | _ => false

/-- The deeds that end a power-down or put another in its place. -/
def Deed.interrupts (name : AccountName) : Deed → Prop
  | .evaluated (.withdrawVesting o) => o.account = name
  | .evaluated (.recoverAccount o) => o.accountToRecover = name
  | _ => False

instance {name : AccountName} : DecidablePred (Deed.interrupts name) := fun deed => by
  unfold Deed.interrupts
  split <;> infer_instance

/-- What the code does in a state, and the state it leaves. -/
inductive Does (net : Network) : Database → Deed → Database → Prop where
  | admitted {s t : Database} {producing : Bool} {trx : Transaction} :
    admitTransaction producing trx s = .ok ((), t) → Does net s (.admitted trx) t
  | evaluated {s t : Database} {producing : Bool} {nesting : Nesting} {apply : Nesting → Operation → Eval Unit}
    {op : Operation} : op.isProposal = false → op.validate = .ok () →
      evaluate producing nesting apply op s = .ok ((), t) → Does net s (.evaluated op) t
  | created {s t : Database} {producing : Bool} {stack : Nat} {nesting inner : Nesting} {key : ProposalKey}
    {operations : List Operation} {expirationTime : Time} {reviewPeriodTime : Option Time} {p : Proposal} :
    p = Proposal.new s.nextProposalId operations expirationTime reviewPeriodTime →
      Evaluator.checkProposal producing nesting (applyOperation producing stack inner) key p s = .ok ((), s) →
      Evaluator.storeProposal key p s = .ok ((), t) → Does net s (.created key p) t
  | updated {s t : Database} {key : ProposalKey} {o : ProposalUpdateOperation} :
    Evaluator.updateProposal key o s = .ok ((), t) → Does net s (.updated key o) t
  -- deleted, expired without being executed, or given up in its review period
  | removed {s t : Database} {key : ProposalKey} {p : Proposal} :
    s.proposals.find? key = some p → removeProposal key p s = .ok ((), t) → Does net s (.removed key p) t
  | begun {s : Database} {key : ProposalKey} {p : Proposal} :
    s.proposals.find? key = some p → p.isAuthorizedToExecute s = true →
      (p.reviewPeriodTime.isSome → p.expirationTime ≤ s.head.time) → Does net s (.begun key p) s
  -- the object that is removed is the one the execution began with, as it is by now
  | finished {s t : Database} {key : ProposalKey} {p p' : Proposal} :
    s.proposals.find? key = some p' → p'.id = p.id → removeProposal key p' s = .ok ((), t) →
      Does net s (.finished key p) t
  | stepped {s t : Database} {step : BlockStep} :
    step.appliesOperations = false → step.run net s = .ok ((), t) → Does net s (.stepped step) t

/-- A state with all that was done before, newest first. -/
structure Moment where
  past : List (Database × Deed)
  state : Database

/-- The moment after a deed. -/
def Moment.next (m : Moment) (deed : Deed) (t : Database) : Moment := ⟨(m.state, deed) :: m.past, t⟩

/-- A deed in its history, with the state it left. -/
structure Transition where
  before : Moment
  deed : Deed
  after : Database

def transitions : List (Database × Deed) → Database → List Transition
  | [], _ => []
  | (s, deed) :: past, t => ⟨⟨past, s⟩, deed, t⟩ :: transitions past s

/-- All that happened before a moment. -/
def Moment.transitions (m : Moment) : List Transition := Golos.transitions m.past m.state

@[simp] theorem Moment.transitions_next {m : Moment} {t : Database} :
    (m.next deed t).transitions = ⟨m, deed, t⟩ :: m.transitions := rfl

inductive Moment.Precedes : Moment → Moment → Prop where
  | refl {m : Moment} : Precedes m m
  | next {m m' : Moment} {deed : Deed} {t : Database} : Precedes m m' → Precedes m (m'.next deed t)

namespace Moment.Precedes

variable {m m₁ m₂ m₃ : Moment} {deed : Deed} {t : Database}

theorem trans (first : Precedes m₁ m₂) (second : Precedes m₂ m₃) : Precedes m₁ m₃ := by
  induction second with
  | refl => exact first
  | next _ ih => exact ih.next

theorem of_next (precedes : Precedes m₁ (m.next deed t)) : m₁ = m.next deed t ∨ Precedes m₁ m := by
  generalize same : m.next deed t = m₂ at precedes
  cases precedes with
  | refl => exact .inl rfl
  | @next m' deed' t' earlier =>
    obtain ⟨past, state⟩ := m
    simp only [Moment.next] at same
    obtain ⟨⟨⟨rfl, rfl⟩, rfl⟩, rfl⟩ := same
    exact .inr earlier

end Moment.Precedes

/-! ## Operations and executions -/

inductive Task where
  | operation (op : Operation)
  | operations (operations : List Operation)
  | execution (key : ProposalKey) (p : Proposal)

/-- How a task is performed.  An approval may execute its proposal, and that applies all the
operations of the proposal, other approvals among them. -/
inductive Performs (net : Network) : Task → Moment → Moment → Prop where
  | evaluate {m : Moment} {op : Operation} {t : Database} :
    Does net m.state (.evaluated op) t → Performs net (.operation op) m (m.next (.evaluated op) t)
  | create {m : Moment} {author : AccountName} {title : String} {operations : List Operation}
    {expirationTime : Time} {reviewPeriodTime : Option Time} {p : Proposal} {t : Database} :
    p = Proposal.new m.state.nextProposalId operations expirationTime reviewPeriodTime →
      Does net m.state (.created (author, title) p) t →
      Performs net (.operation (.proposalCreate author title operations expirationTime reviewPeriodTime)) m
        (m.next (.created (author, title) p) t)
  | update {m : Moment} {o : ProposalUpdateOperation} {t : Database} :
    Does net m.state (.updated (o.author, o.title) o) t →
      Performs net (.operation (.proposalUpdate o)) m (m.next (.updated (o.author, o.title) o) t)
  | updateRemoves {m : Moment} {o : ProposalUpdateOperation} {p : Proposal} {t u : Database} :
    Does net m.state (.updated (o.author, o.title) o) t → Does net t (.removed (o.author, o.title) p) u →
      Performs net (.operation (.proposalUpdate o)) m
        ((m.next (.updated (o.author, o.title) o) t).next (.removed (o.author, o.title) p) u)
  | updateExecutes {m m' : Moment} {o : ProposalUpdateOperation} {p : Proposal} {t : Database} :
    Does net m.state (.updated (o.author, o.title) o) t →
      Performs net (.execution (o.author, o.title) p) (m.next (.updated (o.author, o.title) o) t) m' →
      Performs net (.operation (.proposalUpdate o)) m m'
  | delete {m : Moment} {o : ProposalDeleteOperation} {p : Proposal} {t : Database} :
    Does net m.state (.removed (o.author, o.title) p) t →
      Performs net (.operation (.proposalDelete o)) m (m.next (.removed (o.author, o.title) p) t)
  | nil {m : Moment} : Performs net (.operations []) m m
  | cons {m m₁ m₂ : Moment} {op : Operation} {rest : List Operation} :
    Performs net (.operation op) m m₁ → Performs net (.operations rest) m₁ m₂ →
      Performs net (.operations (op :: rest)) m m₂
  | execute {m m₁ : Moment} {key : ProposalKey} {p : Proposal} {t : Database} :
    Does net m.state (.begun key p) m.state →
      Performs net (.operations p.proposedOperations) (m.next (.begun key p) m.state) m₁ →
      Does net m₁.state (.finished key p) t → Performs net (.execution key p) m (m₁.next (.finished key p) t)

section Fit

variable (Fit : Operation → Prop)

/-- What is evaluated is fit for it. -/
def Deed.Fits : Deed → Prop
  | .evaluated op => Fit op
  | _ => True

def Task.Fits : Task → Prop
  | .operation op => Fit op
  | .operations list => ∀ op ∈ list, Fit op
  | .execution _ _ => True

end Fit

/-- What every deed keeps is kept by every task, also if deeds keep it only when what they evaluate is
fit, as the task and everything that waits in proposals is. -/
theorem Performs.invariantFor {Fit : Operation → Prop} {Inv : Moment → Prop}
    (does : ∀ m deed t, deed.isStep = false → deed.Fits Fit → Inv m → Does net m.state deed t → Inv (m.next deed t))
    (stored : ∀ m key p, Inv m → m.state.proposals.find? key = some p → ∀ op ∈ p.proposedOperations, Fit op)
    {task : Task} {m m' : Moment} (performs : Performs net task m m') (fit : task.Fits Fit) (before : Inv m) :
    Inv m' := by
  induction performs with
  | evaluate done => exact does _ _ _ rfl fit before done
  | create _ done => exact does _ _ _ rfl trivial before done
  | update done => exact does _ _ _ rfl trivial before done
  | updateRemoves done removed => exact does _ _ _ rfl trivial (does _ _ _ rfl trivial before done) removed
  | updateExecutes done _ ih =>
    exact ih trivial (does _ _ _ rfl trivial before done)
  | delete done => exact does _ _ _ rfl trivial before done
  | nil => exact before
  | cons _ _ first others =>
    obtain ⟨head, tail⟩ := forall_mem_cons.mp fit
    exact others tail (first head before)
  | @execute m _ key p _ begun _ finished ih =>
    have found : m.state.proposals.find? key = some p := by
      cases begun
      assumption
    have applied := ih (stored m key p before found) (does _ _ _ rfl trivial before begun)
    exact does _ _ _ rfl trivial applied finished

theorem Performs.invariant {Inv : Moment → Prop}
    (does : ∀ m deed t, deed.isStep = false → Inv m → Does net m.state deed t → Inv (m.next deed t))
    {task : Task} {m m' : Moment} (performs : Performs net task m m') (before : Inv m) : Inv m' := by
  have always := @Performs.invariantFor net (fun _ => True) Inv
  refine always (fun m deed t notStep _ => does m deed t notStep) (fun _ _ _ _ _ _ _ => trivial) performs ?_ before
  cases task <;> simp [Task.Fits]

/-! ## The dispatch -/

abbrev keepsProposals : Footprint
  | .proposals | .nextProposalId | .requiredApprovals => false
  | _ => true

theorem proposalsValid_of_within {t : Database} (frame : Within keepsProposals s t) (valid : s.ProposalsValid) :
    t.ProposalsValid := by
  have same : t.proposals = s.proposals := frame .proposals rfl
  rw [ProposalsValid, same]
  exact valid

/-- What operations leave alone: the head block and what only the steps of a block change. -/
abbrev dispatchCells : Footprint
  | .head | .lib | .transit | .schedule | .hardforks | .feed | .confirmation | .blockSummary => false
  | _ => true

theorem evaluate_dispatchCells {producing nesting apply} (other : op.isProposal = false) :
    Touches dispatchCells (evaluate producing nesting apply op) := by
  cases op <;> first | exact Bool.noConfusion other | (unfold evaluate; infer_instance)

theorem evaluate_keepsProposals {producing nesting apply} (other : op.isProposal = false) :
    Touches keepsProposals (evaluate producing nesting apply op) := by
  cases op <;> first | exact Bool.noConfusion other | (unfold evaluate; infer_instance)

theorem run_keepsProposals (other : step.appliesOperations = false) : Touches keepsProposals (step.run net) := by
  cases step <;> first | exact Bool.noConfusion other | (unfold BlockStep.run; infer_instance)

/-- What the checks of a new proposal make sure of. -/
structure Database.Admits (s : Database) (key : ProposalKey) (p : Proposal) : Prop where
  fresh : s.proposals.find? key = none
  later : s.head.time < p.expirationTime
  operations : ∀ op ∈ p.proposedOperations, op.Proposable

theorem checkProposal_ensures :
    Ensures s (Evaluator.checkProposal producing nesting apply key p) fun _ t => t = s ∧ s.Admits key p := by
  simp only [Evaluator.checkProposal, Evaluator.checkProposalDepth, Evaluator.checkProposalTimes, ensures_steps]
  intro _ fresh later _ _ _ noOther _
  have unchanged : Ensures s (p.requiredTotal.forM fun name => do let _ ← getAccount name; pure ())
      fun _ t => t = s :=
    ensures_forM rfl fun name _ t same => by
      simp only [getAccount, ensures_steps]
      exact fun _ _ => same
  refine unchanged.mono fun _ t same _ valid => ensures_rehearse ?_
  have plain := (RequiredAuthorities.append_foldl_other (isEmpty_iff.mp noOther)).2
  exact ⟨same, fresh, later, fun op member => ⟨valid_of_validateOperations valid op member, plain op member⟩⟩

/-- The objects of a new proposal. -/
structure Database.Stores (s : Database) (key : ProposalKey) (p : Proposal) (t : Database) : Prop where
  proposals : t.proposals = s.proposals.insert key p
  nextProposalId : t.nextProposalId = p.id + 1
  requiredApprovals : ∀ k, (t.requiredApprovals.find? k).isSome ↔
    (s.requiredApprovals.find? k).isSome ∨ k.2 = p.id ∧ k.1 ∈ p.requiredTotal

theorem createRequiredApprovals_ensures {id : Nat} {accounts : List AccountName} :
    Ensures s (accounts.forM fun account =>
      create (·.requiredApprovals) updateRequiredApprovals "required_approval" (account, id) ()) fun _ t =>
        t.proposals = s.proposals ∧ t.nextProposalId = s.nextProposalId ∧ ∀ k, (t.requiredApprovals.find? k).isSome ↔
            (s.requiredApprovals.find? k).isSome ∨ k.2 = id ∧ k.1 ∈ accounts := by
  induction accounts generalizing s with
  | nil => exact ensures_pure.mpr ⟨rfl, rfl, by simp⟩
  | cons account rest ih =>
    rw [forM_eq_forM, forM_cons, ensures_bind]
    simp only [create, updateRequiredApprovals, ensures_steps]
    intro fresh
    refine ih.mono fun _ t after => ⟨after.1, after.2.1, fun k => ?_⟩
    have here : ((s.requiredApprovals.insert (account, id) ()).find? k).isSome ↔
        (s.requiredApprovals.find? k).isSome ∨ k = (account, id) := by
      rw [find?_insert fresh]
      split <;> simp [*]
    rw [after.2.2 k, here, mem_cons, Prod.ext_iff]
    tauto

theorem storeProposal_ensures : Ensures s (Evaluator.storeProposal key p) fun _ t => s.Stores key p t := by
  simp only [Evaluator.storeProposal, setNextProposalId, ensures_steps, create, updateProposals]
  intro fresh
  exact createRequiredApprovals_ensures.mono fun _ t after => ⟨after.1, after.2.1, after.2.2⟩

theorem removeProposal_ensures :
    Ensures s (removeProposal key p) fun _ t => t = { s with
      proposals := s.proposals.erase key
      requiredApprovals := s.requiredApprovals.filter fun k _ => !(k.2 = p.id ∧ k.1 ∈ p.requiredTotal) } := by
  simp only [removeProposal, updateRequiredApprovals, updateProposals, ensures_steps]

theorem updateProposal_ensures :
    Ensures s (Evaluator.updateProposal key o) fun _ t => ∃ p, s.proposals.find? key = some p ∧
      (p.inReview s.head.time = true → o.addsNothing) ∧
      t = { s with proposals := s.proposals.modify key fun p => p.update o } := by
  simp only [Evaluator.updateProposal, Evaluator.checkExisting, Evaluator.checkDuplicate, getProposal,
    fetch, updateProposals, ensures_steps]
  intro p found review _ _ _ _ _ _ _ _
  exact ⟨p, found, review, trivial⟩

theorem admitTransaction_valid :
    Ensures s (admitTransaction producing trx) fun _ _ => ∀ op ∈ trx.operations, op.validate = .ok () := by
  simp only [admitTransaction, validateTransaction, ensures_steps]
  intro _ _ valid
  exact fun _ _ _ _ _ _ _ _ _ _ _ _ => valid_of_validateOperations valid

theorem Does.within {t : Database} (done : Does net s deed t) (notStep : deed.isStep = false) :
    Within dispatchCells s t := by
  cases done with
  | admitted run => exact frame_of_run run
  | evaluated other _ run => exact (evaluate_dispatchCells other).after run
  | created _ _ run => exact frame_of_run run
  | updated run => exact frame_of_run run
  | removed _ run => exact frame_of_run run
  | begun => exact refl_of (Within dispatchCells) s
  | finished _ _ run => exact frame_of_run run
  | stepped => cases notStep

/-- The records the dispatch keeps of operations: proposals, and the transactions applied. -/
abbrev operationRecords : Footprint
  | .proposals | .nextProposalId | .requiredApprovals | .transactions => true
  | _ => false

/-- A deed of the dispatch itself, neither an evaluator nor a step of a block. -/
def Deed.isRecord : Deed → Bool
  | .evaluated _ | .stepped _ => false
  | _ => true

theorem Does.within_records {net : Network} {s t : Database} {deed : Deed} (done : Does net s deed t)
    (record : deed.isRecord = true) : Within operationRecords s t := by
  cases done with
  | admitted run => exact frame_of_run run
  | created _ _ run => exact frame_of_run run
  | updated run => exact frame_of_run run
  | removed _ run => exact frame_of_run run
  | begun => exact refl_of (Within operationRecords) s
  | finished _ _ run => exact frame_of_run run
  | evaluated | stepped => cases record

/-- What is done is a change of those records, the evaluator of an operation that is no proposal, or a
step of a block. -/
theorem Does.byKind {net : Network}
    {motive : (s : Database) → (deed : Deed) → (t : Database) → Does net s deed t → Prop}
    (record : ∀ {s deed t done}, deed.isRecord = true → Within operationRecords s t → motive s deed t done)
    (evaluated : ∀ {s t producing nesting apply op} (other : op.isProposal = false) (valid : op.validate = .ok ())
      (run : evaluate producing nesting apply op s = .ok ((), t)),
        motive s (.evaluated op) t (.evaluated other valid run))
    (stepped : ∀ {s t step} (other : step.appliesOperations = false) (run : step.run net s = .ok ((), t)),
      motive s (.stepped step) t (.stepped other run)) {s t : Database} {deed : Deed} (done : Does net s deed t) :
    motive s deed t done := by
  cases kind : deed.isRecord with
  | true => exact record kind (done.within_records kind)
  | false =>
    cases done with
    | evaluated other valid run => exact evaluated other valid run
    | stepped other run => exact stepped other run
    | _ => cases kind

/-- Where a proposal comes from that is there after a deed. -/
inductive Database.Origin (s : Database) (key : ProposalKey) (p : Proposal) : Deed → Prop where
  | kept {deed : Deed} : s.proposals.find? key = some p → Origin s key p deed
  | updated {o : ProposalUpdateOperation} {p₀ : Proposal} : s.proposals.find? key = some p₀ →
      (p₀.inReview s.head.time = true → o.addsNothing) → p = p₀.update o → Origin s key p (.updated key o)
  | created : s.Admits key p → p.id = s.nextProposalId → Origin s key p (.created key p)

theorem Does.origin {t : Database} (done : Does net s deed t)
    (found : t.proposals.find? key = some p) : s.Origin key p deed := by
  have unchanged (within : Within keepsProposals s t) : s.Origin key p deed := by
    have same : t.proposals = s.proposals := within .proposals rfl
    rw [same] at found
    exact .kept found
  have erased {key' : ProposalKey} {p' : Proposal} (run : removeProposal key' p' s = .ok ((), t)) :
      s.Origin key p deed := by
    obtain rfl := removeProposal_ensures _ _ run
    exact .kept (find?_erase_eq_some.mp found).2
  cases done with
  | admitted run => exact unchanged (frame_of_run run)
  | evaluated other _ run => exact unchanged ((evaluate_keepsProposals other).after run)
  | stepped other run => exact unchanged ((run_keepsProposals other).after run)
  | begun => exact .kept found
  | removed _ run => exact erased run
  | finished _ _ run => exact erased run
  | created isNew checked run =>
    obtain ⟨_, admitted⟩ := checkProposal_ensures _ _ checked
    rw [(storeProposal_ensures _ _ run).proposals, find?_insert admitted.fresh] at found
    split at found
    next same =>
      cases found
      subst same
      refine .created admitted ?_
      rw [isNew]
      rfl
    · exact .kept found
  | updated run =>
    obtain ⟨p₀, before, review, rfl⟩ := updateProposal_ensures _ _ run
    rw [find?_modify] at found
    split at found
    next same =>
      subst same
      rw [before] at found
      cases found
      exact .updated before review rfl
    · exact .kept found

/-- Only operations that were checked are waiting after any deed. -/
theorem Does.proposalsValid {t : Database} (done : Does net s deed t)
    (valid : s.ProposalsValid) : t.ProposalsValid := by
  intro key p found
  cases done.origin found with
  | kept before => exact valid key p before
  | @updated o p₀ before _ same =>
    subst same
    exact valid key p₀ before
  | created admitted => exact admitted.operations

/-- The state `t` is what performing the task makes of `s`, whatever the history. -/
def Realized (net : Network) (task : Task) (s t : Database) : Prop :=
  t.ProposalsValid ∧ ∀ past, ∃ past', Performs net task ⟨past, s⟩ ⟨past', t⟩

/-- Applying an operation performs it. -/
def Realizes (net : Network) (apply : Operation → Eval Unit) : Prop :=
  ∀ op s, op.validate = .ok () → s.ProposalsValid →
    Ensures s (apply op) fun _ t => Realized net (.operation op) s t

section Dispatch

variable {net : Network} {s : Database}

theorem realized_of_deeds {task : Task} {t : Database} (valid : s.ProposalsValid)
    (done : Does net s deed t) (performs : ∀ past, Performs net task ⟨past, s⟩ (Moment.next ⟨past, s⟩ deed t)) :
    Realized net task s t :=
  ⟨done.proposalsValid valid, fun past => ⟨_, performs past⟩⟩

theorem operations_realized (realizes : Realizes net apply)
    (fit : ∀ op ∈ operations, op.validate = .ok ()) (valid : s.ProposalsValid) :
    Ensures s (operations.forM apply) fun _ t => Realized net (.operations operations) s t := by
  induction operations generalizing s with
  | nil => exact ensures_pure.mpr ⟨valid, fun past => ⟨past, .nil⟩⟩
  | cons op rest ih =>
    rw [forM_eq_forM, forM_cons, ensures_bind]
    refine (realizes op s (fit op (by simp)) valid).mono fun _ t first => ?_
    refine (ih (fun op member => fit op (by simp [member])) first.1).mono fun _ u others => ?_
    refine ⟨others.1, fun past => ?_⟩
    obtain ⟨past₁, first⟩ := first.2 past
    obtain ⟨past₂, others⟩ := others.2 past₁
    exact ⟨past₂, .cons first others⟩

theorem pushProposal_realized (realizes : Realizes net apply)
    (begun : Does net s (.begun key p) s) (valid : s.ProposalsValid) :
    Ensures s (pushProposal apply key p) fun _ t => Realized net (.execution key p) s t := by
  have found : s.proposals.find? key = some p := by
    cases begun
    assumption
  simp only [pushProposal, ensures_steps]
  have fit : ∀ op ∈ p.proposedOperations, op.validate = .ok () :=
    fun op member => (valid key p found op member).validated
  refine (operations_realized realizes fit valid).mono fun _ t applied p' still => ?_
  obtain ⟨there, sameId⟩ := Option.filter_eq_some_iff.mp still
  intro _ u removed
  have finished : Does net t (.finished key p) u := .finished there (of_decide_eq_true sameId) removed
  refine ⟨finished.proposalsValid applied.1, fun past => ?_⟩
  obtain ⟨past', performs⟩ := applied.2 ((s, .begun key p) :: past)
  exact ⟨_, .execute begun performs finished⟩

theorem proposalCreate_realized {inner : Nesting} {author : AccountName}
    {title : String} {expirationTime : Time} {reviewPeriodTime : Option Time} (valid : s.ProposalsValid) :
    Ensures s (Evaluator.proposalCreate producing nesting (applyOperation producing stack inner) author title
      operations expirationTime reviewPeriodTime) fun _ t =>
        Realized net (.operation (.proposalCreate author title operations expirationTime reviewPeriodTime)) s t := by
  simp only [Evaluator.proposalCreate, ensures_steps]
  intro _ s' checked
  obtain ⟨rfl, _⟩ := checkProposal_ensures _ _ checked
  intro _ t stored
  have created : Does net s' (.created (author, title) _) t := .created rfl checked stored
  exact realized_of_deeds valid created fun past => .create rfl created

theorem proposalUpdate_realized (realizes : Realizes net apply) (valid : s.ProposalsValid) :
    Ensures s (Evaluator.proposalUpdate producing nesting apply o) fun _ t =>
      Realized net (.operation (.proposalUpdate o)) s t := by
  simp only [Evaluator.proposalUpdate, Evaluator.checkProposalDepth, getProposal, fetch,
    ensures_steps]
  intro _ _ t run p found
  have updated : Does net s (.updated (o.author, o.title) o) t := .updated run
  have after := updated.proposalsValid valid
  have only : Realized net (.operation (.proposalUpdate o)) s t :=
    realized_of_deeds valid updated fun past => .update updated
  refine ensures_ite.mpr ⟨fun _ => ensures_when.mpr ⟨fun _ => ?_, fun _ => only⟩, fun noReview => ?_⟩
  · -- nobody can approve it any more
    intro _ u run
    have removed : Does net t (.removed (o.author, o.title) p) u := .removed found run
    exact ⟨removed.proposalsValid after, fun past => ⟨_, .updateRemoves updated removed⟩⟩
  · simp only [ensures_steps]
    refine fun _ _ => ensures_when.mpr ⟨fun authorized => ensures_attempt ?_ ?_, fun _ => only⟩
    · have begun : Does net t (.begun (o.author, o.title) p) t :=
        .begun found authorized fun review => absurd review noReview
      refine (pushProposal_realized realizes begun after).mono fun _ u executed => ⟨executed.1, fun past => ?_⟩
      obtain ⟨past', performs⟩ := executed.2 ((s, .updated (o.author, o.title) o) :: past)
      exact ⟨past', .updateExecutes updated performs⟩
    · exact ensures_pure.mpr only

theorem proposalDelete_realized {o : ProposalDeleteOperation} (valid : s.ProposalsValid) :
    Ensures s (Evaluator.proposalDelete o) fun _ t => Realized net (.operation (.proposalDelete o)) s t := by
  simp only [Evaluator.proposalDelete, getProposal, fetch, ensures_steps]
  intro p found _ _ t run
  have removed : Does net s (.removed (o.author, o.title) p) t := .removed found run
  exact realized_of_deeds valid removed fun past => .delete removed

/-- The dispatch performs the operation, at every depth. -/
theorem applyOperation_realizes : Realizes net (applyOperation producing stack nesting) := by
  induction stack generalizing nesting with
  | zero => exact fun op s _ _ => ensures_throw
  | succ stack ih =>
    intro op s fit valid
    cases kind : op.isProposal with
    | false =>
      intro _ t run
      have evaluated : Does net s (.evaluated op) t := .evaluated kind fit run
      exact realized_of_deeds valid evaluated fun past => .evaluate evaluated
    | true =>
      cases op with
      | proposalCreate => exact proposalCreate_realized valid
      | proposalUpdate => exact proposalUpdate_realized ih valid
      | proposalDelete => exact proposalDelete_realized valid
      | _ => cases kind

end Dispatch

/-! ## Expired proposals -/

def Database.expiredKeys (s : Database) : List ProposalKey :=
  (s.proposals.entries.filter fun e => e.2.expirationTime ≤ s.head.time).map Prod.fst

namespace Database

variable {s t : Database} {key : ProposalKey}

theorem mem_expiredKeys :
    key ∈ s.expiredKeys ↔ ∃ p, s.proposals.find? key = some p ∧ p.expirationTime ≤ s.head.time := by
  simp [expiredKeys, find?_eq_some]

theorem nodup_expiredKeys : s.expiredKeys.Nodup := (filter_sublist.map Prod.fst).nodup s.proposals.nodup

theorem find?_of_nextExpiredProposal (next : s.nextExpiredProposal = some e) : s.proposals.find? e.1 = some e.2 :=
  lists_sorted.found e (mem_of_mem_head? next)

theorem expired_of_nextExpiredProposal (next : s.nextExpiredProposal = some e) : e.2.expirationTime ≤ s.head.time := by
  have member := (perm_insertionSort _ _).mem_iff.mp (mem_of_mem_head? next)
  exact of_decide_eq_true (mem_filter.mp member).2

theorem nextExpiredProposal_eq_none : s.nextExpiredProposal = none ↔ s.expiredKeys = [] := by
  rw [nextExpiredProposal, head?_eq_none_iff, expiredKeys, map_eq_nil_iff,
    ← length_eq_zero_iff, length_insertionSort, length_eq_zero_iff]

/-- Every pass of the loop leaves fewer. -/
theorem length_expiredKeys_lt (sub : t.expiredKeys ⊆ s.expiredKeys) (was : key ∈ s.expiredKeys)
    (gone : key ∉ t.expiredKeys) : t.expiredKeys.length < s.expiredKeys.length := by
  have fewer : t.expiredKeys ⊆ s.expiredKeys.erase key := by
    intro k member
    refine (mem_erase_of_ne ?_).mpr (sub member)
    rintro rfl
    exact gone member
  have bounded := (nodup_expiredKeys.subperm fewer).length_le
  have positive := length_pos_of_mem was
  rw [length_erase_of_mem was] at bounded
  omega

end Database

section Expired

variable {net : Network} {s t : Database} {key : ProposalKey} {p : Proposal}

/-- What is new is not expired yet. -/
theorem Does.expiredKeys_subset (done : Does net s deed t) (notStep : deed.isStep = false) :
    t.expiredKeys ⊆ s.expiredKeys := by
  have sameHead : t.head = s.head := done.within notStep .head rfl
  intro key member
  obtain ⟨p, found, expired⟩ := mem_expiredKeys.mp member
  rw [sameHead] at expired
  cases done.origin found with
  | kept before => exact mem_expiredKeys.mpr ⟨p, before, expired⟩
  | @updated o p₀ before _ same =>
    subst same
    exact mem_expiredKeys.mpr ⟨p₀, before, expired⟩
  | created admitted => exact absurd expired (Nat.not_le_of_lt admitted.later)

theorem Performs.expiredKeys_subset {task : Task} {m m' : Moment} (performs : Performs net task m m') :
    m'.state.expiredKeys ⊆ m.state.expiredKeys := by
  have rule := @Performs.invariant net fun m' => m'.state.expiredKeys ⊆ m.state.expiredKeys
  exact rule (fun _ _ _ notStep before done => Subset.trans (done.expiredKeys_subset notStep) before) performs
    (Subset.refl _)

theorem Performs.within {task : Task} {m m' : Moment} (performs : Performs net task m m') :
    Within dispatchCells m.state m'.state := by
  have rule := @Performs.invariant net fun m' => Within dispatchCells m.state m'.state
  exact rule (fun _ _ _ notStep before done => trans_of (Within dispatchCells) before (done.within notStep)) performs
    (refl_of (Within dispatchCells) m.state)

theorem not_mem_expiredKeys_of_remove (run : removeProposal key p s = .ok ((), t)) : key ∉ t.expiredKeys := by
  obtain rfl := removeProposal_ensures _ _ run
  intro member
  obtain ⟨_, found, _⟩ := mem_expiredKeys.mp member
  rw [find?_erase, if_pos rfl] at found
  cases found

theorem Performs.not_mem_expiredKeys {m m' : Moment} (performs : Performs net (.execution key p) m m') :
    key ∉ m'.state.expiredKeys := by
  cases performs with
  | execute _ _ finished =>
    cases finished with
    | finished _ _ run => exact not_mem_expiredKeys_of_remove run

theorem Database.sameTransit_of_within (within : Within dispatchCells s t) :
    t.isTransitEnabled = s.isTransitEnabled := by
  have transit : t.transit = s.transit := within .transit rfl
  have hardforks : t.hardforks = s.hardforks := within .hardforks rfl
  rw [isTransitEnabled, hasHardfork, transit, hardforks]
  rfl

end Expired

/-! ## Chronicles -/

/-- The runs whose steps all meet the condition `allowed`, with their histories: the steps of the
last block that are still to be taken, and the moment. -/
inductive Network.Chronicle (net : Network) (allowed : Database → BlockStep → Prop) :
    List BlockStep → Moment → Prop where
  | genesis {s : Database} : net.initGenesis {} = .ok ((), s) → Chronicle net allowed [] ⟨[], s⟩
  | block {m : Moment} (b : Block) : Chronicle net allowed [] m → Chronicle net allowed (blockSteps b) m
  | step {m : Moment} {step : BlockStep} {rest : List BlockStep} {t : Database} :
    Chronicle net allowed (step :: rest) m → allowed m.state step → Does net m.state (.stepped step) t →
      Chronicle net allowed rest (m.next (.stepped step) t)
  | transaction {m m' : Moment} {trx : Transaction} {rest : List BlockStep} {t : Database} :
    Chronicle net allowed (.applyTransaction trx :: rest) m → allowed m.state (.applyTransaction trx) →
      Does net m.state (.admitted trx) t →
      Performs net (.operations trx.operations) (m.next (.admitted trx) t) m' → Chronicle net allowed rest m'
  | expire {m m' : Moment} {key : ProposalKey} {p : Proposal} {rest : List BlockStep} :
    Chronicle net allowed (.clearExpiredProposals :: rest) m → m.state.isTransitEnabled = false →
      m.state.nextExpiredProposal = some (key, p) → Performs net (.execution key p) m m' →
      Chronicle net allowed (.clearExpiredProposals :: rest) m'
  | drop {m : Moment} {key : ProposalKey} {p : Proposal} {rest : List BlockStep} {t : Database} :
    Chronicle net allowed (.clearExpiredProposals :: rest) m → m.state.isTransitEnabled = false →
      m.state.nextExpiredProposal = some (key, p) → Does net m.state (.removed key p) t →
      Chronicle net allowed (.clearExpiredProposals :: rest) (m.next (.removed key p) t)
  | cleared {m : Moment} {rest : List BlockStep} :
    Chronicle net allowed (.clearExpiredProposals :: rest) m →
      m.state.isTransitEnabled = true ∨ m.state.nextExpiredProposal = none → Chronicle net allowed rest m

section Chronicles

variable {net : Network} {allowed : Database → BlockStep → Prop}

/-- The rule for what depends on the position in a block.  The deeds of operations keep it at every
position, and a step that applied its operations is passed. -/
theorem Network.Chronicle.invariantAt {Inv : List BlockStep → Moment → Prop}
    (genesis : ∀ s, net.initGenesis {} = .ok ((), s) → Inv [] ⟨[], s⟩) (block : ∀ b m, Inv [] m → Inv (blockSteps b) m)
    (does : ∀ rest m deed t, deed.isStep = false → Inv rest m → Does net m.state deed t → Inv rest (m.next deed t))
    (steps : ∀ step rest m t, net.Chronicle allowed (step :: rest) m → allowed m.state step → Inv (step :: rest) m →
      Does net m.state (.stepped step) t → Inv rest (m.next (.stepped step) t))
    (applied : ∀ step rest m, step.appliesOperations = true → (step = .clearExpiredProposals →
      m.state.isTransitEnabled = true ∨ m.state.nextExpiredProposal = none) → Inv (step :: rest) m → Inv rest m)
    {rest : List BlockStep} {m : Moment} (chronicle : net.Chronicle allowed rest m) : Inv rest m := by
  have performed {rest : List BlockStep} {task : Task} {m m' : Moment} (performs : Performs net task m m')
      (before : Inv rest m) : Inv rest m' :=
    performs.invariant (does rest) before
  induction chronicle with
  | genesis start => exact genesis _ start
  | block b _ ih => exact block b _ ih
  | step chronicle meets done ih => exact steps _ _ _ _ chronicle meets ih done
  | transaction _ _ admitted performs ih =>
    exact applied (.applyTransaction _) _ _ rfl nofun (performed performs (does _ _ _ _ rfl ih admitted))
  | expire _ _ _ performs ih => exact performed performs ih
  | drop _ _ _ done ih => exact does _ _ _ _ rfl ih done
  | cleared _ ended ih => exact applied _ _ _ rfl (fun _ => ended) ih

/-- What the genesis has and every deed keeps holds at every moment of every chronicle. -/
theorem Network.Chronicle.invariant {Inv : Moment → Prop}
    (genesis : ∀ s, net.initGenesis {} = .ok ((), s) → Inv ⟨[], s⟩)
    (does : ∀ m deed t, (∀ step, deed = .stepped step → allowed m.state step) → Inv m → Does net m.state deed t →
      Inv (m.next deed t))
    {rest : List BlockStep} {m : Moment} (chronicle : net.Chronicle allowed rest m) : Inv m := by
  have rule := @Network.Chronicle.invariantAt net allowed fun _ => Inv
  refine rule genesis (fun _ _ => id) (fun _ m deed t notStep => does m deed t fun step same => ?_)
    (fun step _ m t _ meets => does m _ t fun _ same => ?_) (fun _ _ _ _ _ => id) chronicle
  · rw [same] at notStep
    cases notStep
  · cases same
    exact meets

/-- A chronicle of a run so far, in a state with validated proposals. -/
def Network.Chronicled (net : Network) (allowed : Database → BlockStep → Prop) (rest : List BlockStep)
    (s : Database) : Prop :=
  s.ProposalsValid ∧ ∃ past, net.Chronicle allowed rest ⟨past, s⟩

theorem applyTransaction_chronicled {rest : List BlockStep} (meets : allowed s (.applyTransaction trx))
    (before : net.Chronicled allowed (.applyTransaction trx :: rest) s) :
    Ensures s (applyTransaction stack producing trx) fun _ t => net.Chronicled allowed rest t := by
  rw [applyTransaction, ensures_bind]
  intro _ t run
  have admitted : Does net s (.admitted trx) t := .admitted run
  have fit := admitTransaction_valid _ _ run
  have realizes : Realizes net (applyOperation producing stack {}) := applyOperation_realizes
  refine (operations_realized realizes fit (admitted.proposalsValid before.1)).mono
    fun _ u applied => ⟨applied.1, ?_⟩
  obtain ⟨past, chronicle⟩ := before.2
  obtain ⟨past', performs⟩ := applied.2 ((s, .admitted trx) :: past)
  exact ⟨past', .transaction chronicle meets admitted performs⟩

/-- A pass of the loop: the first expired proposal is executed, or dropped. -/
theorem clearProposal_chronicled {rest : List BlockStep}
    (before : net.Chronicled allowed (.clearExpiredProposals :: rest) s) (noTransit : s.isTransitEnabled = false)
    (next : s.nextExpiredProposal = some e) : Ensures s (if e.2.isAuthorizedToExecute s then
        attempt Error.isException (pushProposal (applyOperation false stack {}) e.1 e.2) (removeProposal e.1 e.2)
      else removeProposal e.1 e.2) fun _ t =>
        net.Chronicled allowed (.clearExpiredProposals :: rest) t ∧ t.isTransitEnabled = false ∧
          t.expiredKeys.length < s.expiredKeys.length := by
  obtain ⟨valid, past, chronicle⟩ := before
  have found := find?_of_nextExpiredProposal next
  have late := expired_of_nextExpiredProposal next
  have expired : e.1 ∈ s.expiredKeys := mem_expiredKeys.mpr ⟨e.2, found, late⟩
  have drops : Ensures s (removeProposal e.1 e.2) fun _ t =>
      net.Chronicled allowed (.clearExpiredProposals :: rest) t ∧ t.isTransitEnabled = false ∧
        t.expiredKeys.length < s.expiredKeys.length := by
    intro _ t run
    have removed : Does net s (.removed e.1 e.2) t := .removed found run
    refine ⟨⟨removed.proposalsValid valid, _, chronicle.drop noTransit next removed⟩, ?_, ?_⟩
    · rw [sameTransit_of_within (removed.within rfl), noTransit]
    · exact length_expiredKeys_lt (removed.expiredKeys_subset rfl) expired (not_mem_expiredKeys_of_remove run)
  refine ensures_ite.mpr ⟨fun authorized => ensures_attempt ?_ drops, fun _ => drops⟩
  have begun : Does net s (.begun e.1 e.2) s := .begun found authorized fun _ => late
  refine (pushProposal_realized applyOperation_realizes begun valid).mono fun _ t executed => ?_
  obtain ⟨past', performs⟩ := executed.2 past
  refine ⟨⟨executed.1, past', chronicle.expire noTransit next performs⟩, ?_, ?_⟩
  · exact (sameTransit_of_within performs.within).trans noTransit
  · exact length_expiredKeys_lt performs.expiredKeys_subset expired performs.not_mem_expiredKeys

/-- With a pass for every expired proposal, none is left. -/
theorem clearProposals_chronicled {rest : List BlockStep} {passes : Nat}
    (before : net.Chronicled allowed (.clearExpiredProposals :: rest) s) (noTransit : s.isTransitEnabled = false)
    (enough : s.expiredKeys.length ≤ passes) :
    Ensures s (clearProposals (applyOperation false stack {}) passes) fun _ t => net.Chronicled allowed rest t := by
  have ended {t : Database} (after : net.Chronicled allowed (.clearExpiredProposals :: rest) t)
      (absent : t.nextExpiredProposal = none) : net.Chronicled allowed rest t := by
    obtain ⟨valid, past, chronicle⟩ := after
    exact ⟨valid, past, chronicle.cleared (.inr absent)⟩
  induction passes generalizing s with
  | zero =>
    have absent := nextExpiredProposal_eq_none.mpr (length_eq_zero_iff.mp (Nat.le_zero.mp enough))
    exact ensures_pure.mpr (ended before absent)
  | succ passes ih =>
    simp only [clearProposals, ensures_steps]
    cases next : s.nextExpiredProposal with
    | none => exact ensures_pure.mpr (ended before next)
    | some e =>
      refine ensures_bind.mpr ((clearProposal_chronicled before noTransit next).mono fun _ t after => ?_)
      obtain ⟨chronicled, still, fewer⟩ := after
      exact ih chronicled still (by omega)

theorem run_chronicled {rest : List BlockStep} (meets : allowed s step)
    (before : net.Chronicled allowed (step :: rest) s) :
    Ensures s (step.run net) fun _ t => net.Chronicled allowed rest t := by
  cases kind : step.appliesOperations with
  | false =>
    intro _ t run
    have done : Does net s (.stepped step) t := .stepped kind run
    obtain ⟨past, chronicle⟩ := before.2
    exact ⟨done.proposalsValid before.1, _, chronicle.step meets done⟩
  | true =>
    cases step with
    | applyTransaction trx => exact applyTransaction_chronicled meets before
    | clearExpiredProposals =>
      rw [BlockStep.run, unlessTransit, ensures_bind, ensures_get]
      refine ensures_when.mpr ⟨fun noTransit => ?_, fun transit => ?_⟩
      · rw [clearExpiredProposals, ensures_bind, ensures_get]
        refine clearProposals_chronicled before (by simpa using noTransit) ?_
        rw [expiredKeys, length_map]
        exact length_filter_le _ _
      · obtain ⟨valid, past, chronicle⟩ := before
        exact ⟨valid, past, chronicle.cleared (.inl (by simpa using transit))⟩
    | _ => cases kind

/-- Every state of every run has a history. -/
theorem Network.Reaches.chronicled {blocks : List Block} {rest : List BlockStep}
    (reached : net.Reaches allowed blocks rest s) : net.Chronicled allowed rest s := by
  induction reached with
  | genesis start =>
    refine ⟨?_, [], .genesis start⟩
    refine proposalsValid_of_within (frame_of_run start) ?_
    intro key p found
    cases found
  | block b _ ih =>
    obtain ⟨valid, past, chronicle⟩ := ih
    exact ⟨valid, past, chronicle.block b⟩
  | step _ meets run ih => exact run_chronicled meets ih _ _ run

/-- Every state of a chain has a history. -/
theorem Network.Reachable.chronicled (reachable : net.Reachable s) :
    ∃ past rest, net.Chronicle (fun _ _ => True) rest ⟨past, s⟩ := by
  obtain ⟨blocks, rest, reached⟩ := reachable
  obtain ⟨_, past, chronicle⟩ := reached.chronicled
  exact ⟨past, rest, chronicle⟩

end Chronicles

end Golos
