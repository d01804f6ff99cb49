import Golos.Chain.InUse

/-! # Invariants of runs

An invariant that does not read the records of proposals and transactions holds in every
state of a run when the genesis has it, every evaluator other than those of proposals keeps
it for a validated operation, and the steps of a block that apply no operation keep it.
-/

namespace Golos

open Stateful

/-- What changes only in cells an invariant does not read keeps the invariant. -/
theorem ensures_of_within {α : Type} {F : Footprint} {Inv : Database → Prop} {m : Eval α} {s : Database}
    [frame : Touches F m] (reads : ∀ s t, Within F s t → Inv s → Inv t) (before : Inv s) :
    Ensures s m fun _ t => Inv t :=
  (frame.related s).mono fun _ t within => reads s t within before

/-- The invariant does not read the records of the dispatch, and the evaluator of every operation on
anything else keeps it. -/
structure KeptByOperations (Inv : Database → Prop) : Prop where
  records : ∀ s t, Within operationRecords s t → Inv s → Inv t
  evaluator : ∀ producing nesting apply op s, op.isProposal = false → op.validate = .ok () → Inv s →
    Ensures s (evaluate producing nesting apply op) fun _ t => Inv t

/-- What an invariant of the runs has to be shown for: the genesis, the evaluators, and the
steps of a block that apply no operation. -/
structure Network.KeepsInvariant (net : Network) (allowed : Database → BlockStep → Prop)
    (Inv : Database → Prop) : Prop where
  genesis : Ensures {} net.initGenesis fun _ s => Inv s
  operations : KeptByOperations Inv
  step : ∀ s step, step.appliesOperations = false → allowed s step → Inv s →
    Ensures s (step.run net) fun _ t => Inv t

section Runs

variable {net : Network} {allowed : Database → BlockStep → Prop} {Inv : Database → Prop}

theorem ensures_unlessTransit {m : Eval Unit} {s : Database} {P : Database → Prop} (before : P s)
    (body : Ensures s m fun _ t => P t) : Ensures s (unlessTransit m) fun _ t => P t := by
  rw [unlessTransit, ensures_bind, ensures_get]
  exact ensures_when.mpr ⟨fun _ => body, fun _ => before⟩

theorem KeptByOperations.does (kept : KeptByOperations Inv) {s t : Database} {deed : Deed}
    (notStep : deed.isStep = false) (before : Inv s) (done : Does net s deed t) : Inv t := by
  cases done using Does.byKind with
  | record _ frame => exact kept.records s t frame before
  | evaluated other valid run => exact kept.evaluator _ _ _ _ _ other valid before _ _ run
  | stepped => cases notStep

/-- The dispatch keeps the invariant at every depth: a proposal executes what was validated
when it was created. -/
theorem KeptByOperations.applyOperation (kept : KeptByOperations Inv) {producing : Bool} {stack : Nat}
    {nesting : Nesting} {op : Operation} {s : Database} (fit : op.validate = .ok ())
    (before : Inv s ∧ s.ProposalsValid) : Ensures s (applyOperation producing stack nesting op) fun _ t => Inv t := by
  have realizes : Realizes Network.bare (Golos.applyOperation producing stack nesting) := applyOperation_realizes
  refine (realizes op s fit before.2).mono fun _ t realized => ?_
  obtain ⟨past, performs⟩ := realized.2 []
  have rule := @Performs.invariant Network.bare fun m => Inv m.state
  exact rule (fun m deed t notStep before done => kept.does notStep before done) performs before.1

/-- An invariant whose steps are shown with the help of another one. -/
theorem Network.KeepsInvariant.and {More : Database → Prop} (keeps : net.KeepsInvariant allowed Inv)
    (genesis : Ensures {} net.initGenesis fun _ s => More s)
    (records : ∀ s t, Within operationRecords s t → More s → More t)
    (evaluator : ∀ producing nesting apply op s, op.isProposal = false → op.validate = .ok () → Inv s → More s →
      Ensures s (evaluate producing nesting apply op) fun _ t => More t)
    (step : ∀ s step, step.appliesOperations = false → allowed s step → Inv s → More s →
      Ensures s (step.run net) fun _ t => More t) : net.KeepsInvariant allowed fun s => Inv s ∧ More s where
  genesis := keeps.genesis.and genesis
  operations := {
    records := fun s t frame before => ⟨keeps.operations.records s t frame before.1, records s t frame before.2⟩
    evaluator := fun _ _ _ _ s other valid before =>
      (keeps.operations.evaluator _ _ _ _ s other valid before.1).and
        (evaluator _ _ _ _ s other valid before.1 before.2) }
  step s next other meets before :=
    (keeps.step s next other meets before.1).and (step s next other meets before.1 before.2)

/-- Whatever is done and allowed keeps an invariant. -/
theorem Network.KeepsInvariant.does (keeps : net.KeepsInvariant allowed Inv) {s t : Database} {deed : Deed}
    (meets : ∀ step, deed = .stepped step → allowed s step) (before : Inv s) (done : Does net s deed t) : Inv t := by
  cases done using Does.byKind with
  | record _ frame => exact keeps.operations.records s t frame before
  | evaluated other valid run => exact keeps.operations.evaluator _ _ _ _ _ other valid before _ _ run
  | stepped other run => exact keeps.step _ _ other (meets _ rfl) before _ _ run

/-- An invariant holds at the end of every chronicle. -/
theorem Network.KeepsInvariant.chronicle (keeps : net.KeepsInvariant allowed Inv) {rest : List BlockStep} {m : Moment}
    (chronicle : net.Chronicle allowed rest m) : Inv m.state := by
  have rule := @Network.Chronicle.invariant net allowed fun m => Inv m.state
  exact rule (fun s start => keeps.genesis _ _ start) (fun m deed t meets => keeps.does meets) chronicle

/-- An invariant holds in every state of every allowed run. -/
theorem Network.KeepsInvariant.reaches (keeps : net.KeepsInvariant allowed Inv) {blocks : List Block}
    {rest : List BlockStep} {s : Database} (reached : net.Reaches allowed blocks rest s) :
    Inv s ∧ s.ProposalsValid := by
  obtain ⟨valid, past, chronicle⟩ := reached.chronicled
  exact ⟨keeps.chronicle chronicle, valid⟩

end Runs

end Golos
