import Mathlib.Data.List.Basic

/-! # States that can be taken back

Every step saves the state it starts from.  The last step that is still saved can be undone, and the oldest saved states
can be given up.
-/

structure Undo (σ : Type) where
  current : σ
  saved : List σ := []

namespace Undo

variable {σ : Type} {start : σ → Prop} {step : σ → σ → Prop} {u : Undo σ}

/-- What is reached by any steps, undone and committed in any order. -/
inductive Runs (start : σ → Prop) (step : σ → σ → Prop) : Undo σ → Prop
  | start {s : σ} : start s → Runs start step ⟨s, []⟩
  | step {s s' : σ} {saved : List σ} : Runs start step ⟨s, saved⟩ → step s s' → Runs start step ⟨s', s :: saved⟩
  | undo {s t : σ} {saved : List σ} : Runs start step ⟨s, t :: saved⟩ → Runs start step ⟨t, saved⟩
  | commit {s : σ} {saved : List σ} (kept : Nat) : Runs start step ⟨s, saved⟩ → Runs start step ⟨s, saved.take kept⟩

/-- Undoing leads back to states that are reached without it. -/
theorem Runs.invariant {P : σ → Prop} (begins : ∀ s, start s → P s) (keeps : ∀ s s', P s → step s s' → P s')
    (runs : Runs start step u) : P u.current ∧ ∀ s ∈ u.saved, P s := by
  induction runs with
  | start started => exact ⟨begins _ started, fun s member => absurd member List.not_mem_nil⟩
  | step _ taken ih =>
    obtain ⟨here, saved⟩ := ih
    exact ⟨keeps _ _ here taken, List.forall_mem_cons.mpr ⟨here, saved⟩⟩
  | undo _ ih => exact List.forall_mem_cons.mp ih.2
  | commit kept _ ih =>
    exact ⟨ih.1, fun s member => ih.2 s (List.mem_of_mem_take member)⟩

end Undo
