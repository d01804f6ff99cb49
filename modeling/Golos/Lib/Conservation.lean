import Mathlib.Algebra.Group.Basic
import Golos.Lib.Stateful

/-! # Quantities of a state that computations move

`Moves q s m d` says that run from `s`, the computation `m` throws or changes the
quantity `q` of the state by `d` of its result.  What a sequence has still to move
is what it has to move in all less what its first step has moved, so a proof goes
through a program from its first line to its last and ends with an equation between
the amounts.  A computation that only moves things around moves its quantity by
nothing.
-/

namespace Stateful

variable {σ ε α β M : Type} [AddCommGroup M] {q : σ → M} {s : σ} {m : StateT σ (Except ε) α} {d : α → M} {e : β → M}
  {k : α → StateT σ (Except ε) β} {c : Prop} {x : ε}

/-- Run from `s`, the computation throws or moves `q` by `d` of its result. -/
def Moves (q : σ → M) (s : σ) (m : StateT σ (Except ε) α) (d : α → M) : Prop :=
  Ensures s m fun a t => q t = q s + d a

/-- `m` throws or leaves `q` as it is. -/
abbrev Conserves (q : σ → M) (s : σ) (m : StateT σ (Except ε) α) : Prop := Moves q s m fun _ => 0

theorem Moves.congr {e : α → M} (h : Moves q s m d) (same : ∀ a t, m s = .ok (a, t) → d a = e a) : Moves q s m e :=
  fun a t run => (h a t run).trans (by rw [same a t run])

/-! ## Sequences -/

theorem Moves.bind (first : Moves q s m d) (rest : ∀ a t, m s = .ok (a, t) → Moves q t (k a) fun b => e b - d a) :
    Moves q s (m >>= k) e := by
  intro b u run
  obtain ⟨a, t, before, after⟩ := bind_eq_ok.mp run
  calc
    q u = q t + (e b - d a) := rest a t before b u after
    _ = q s + d a + (e b - d a) := by rw [first a t before]
    _ = q s + e b := by rw [add_assoc, add_sub_cancel]

/-- A step that moves nothing. -/
theorem Conserves.bind
    (first : Conserves q s m) (rest : ∀ a t, m s = .ok (a, t) → Moves q t (k a) e) : Moves q s (m >>= k) e :=
  Moves.bind first fun a t run => by simpa using rest a t run

/-- Only the first step moves something. -/
theorem Moves.then {d : M} (first : Moves q s m fun _ => d) (rest : ∀ a t, m s = .ok (a, t) → Conserves q t (k a)) :
    Moves q s (m >>= k) fun _ => d :=
  first.bind fun a t run => by simpa using rest a t run

@[simp] theorem moves_pure {a : α} : Moves q s (pure a : StateT σ (Except ε) α) d ↔ d a = 0 := by
  simp [Moves]

@[simp] theorem moves_throw {e : ε} : Moves q s (throw e : StateT σ (Except ε) α) d := by
  simp [Moves]

@[simp] theorem moves_get_bind {k : σ → StateT σ (Except ε) β} : Moves q s (get >>= k) e ↔ Moves q s (k s) e := by
  simp [Moves]

@[simp] theorem moves_check_bind [Decidable c] {k : PUnit → StateT σ (Except ε) β} :
    Moves q s (check c x >>= k) e ↔ (c → Moves q s (k ⟨⟩) e) := by
  simp [Moves]

@[simp] theorem moves_require_bind {o : Option α} :
    Moves q s (require o x >>= k) e ↔ ∀ a, o = some a → Moves q s (k a) e := by
  simp [Moves]

@[simp] theorem moves_fromExcept_bind {x : Except ε α} :
    Moves q s (fromExcept x >>= k) e ↔ ∀ a, x = .ok a → Moves q s (k a) e := by
  simp [Moves]

theorem moves_modify {f : σ → σ} {d : PUnit → M} :
    Moves q s (modify f : StateT σ (Except ε) PUnit) d ↔ q (f s) = q s + d ⟨⟩ := by
  simp [Moves]

/-! ## Branches and loops -/

theorem moves_ite [Decidable c] {k : StateT σ (Except ε) α} :
    Moves q s (if c then m else k) d ↔ (c → Moves q s m d) ∧ (¬c → Moves q s k d) := by
  simp [Moves, ensures_ite]

theorem moves_when [Decidable c] {m : StateT σ (Except ε) PUnit} {d : PUnit → M} :
    Moves q s (when c m) d ↔ (c → Moves q s m d) ∧ (¬c → d ⟨⟩ = 0) := by
  simp [Moves, ensures_when]

theorem Conserves.when [Decidable c] {m : StateT σ (Except ε) PUnit}
    (h : c → Conserves q s m) : Conserves q s (when c m) :=
  moves_when.mpr ⟨h, fun _ => rfl⟩

theorem Conserves.forM {l : List α} {f : α → StateT σ (Except ε) PUnit}
    (body : ∀ a ∈ l, ∀ t, Conserves q t (f a)) : Conserves q s (l.forM f) := by
  have kept : Ensures s (l.forM f) fun _ t => q t = q s :=
    ensures_forM rfl fun a member t before => (body a member t).mono fun _ u after => by
      rw [after, add_zero, before]
  exact kept.mono fun _ t same => by rw [same, add_zero]

/-! ## Frames -/

/-- What changes only in ways `q` does not see moves nothing. -/
theorem Conserves.of_preserves {R : σ → σ → Prop} (frame : Preserves R m)
    (same : ∀ s t, R s t → q t = q s) : Conserves q s m :=
  (frame.related s).mono fun _ t related => by rw [same s t related, add_zero]

/-- The quantity is the same in both states. -/
def SameQuantity (q : σ → M) (s t : σ) : Prop := q t = q s

instance : Std.Refl (SameQuantity q) := ⟨fun _ => rfl⟩

instance : IsTrans σ (SameQuantity q) := ⟨fun _ _ _ h h' => h'.trans h⟩

/-- What conserves from every state, as a frame that instance search can put together. -/
theorem preserves_of_conserves (h : ∀ s, Conserves q s m) : Preserves (SameQuantity q) m :=
  ⟨fun s => (h s).mono fun _ t moved => by rw [SameQuantity, moved, add_zero]⟩

theorem conserves_of_preserves [frame : Preserves (SameQuantity q) m] : Conserves q s m :=
  .of_preserves frame fun _ _ same => same

end Stateful
