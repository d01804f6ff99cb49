import Mathlib.Algebra.BigOperators.Group.List.Basic
import Mathlib.Algebra.Order.Ring.Int
import Mathlib.Algebra.Order.Ring.Nat
import Mathlib.Order.Defs.Unbundled
import Mathlib.Tactic.Common

/-! # Fallible state computations

`StateT σ (Except ε)` is the shape of every transactional computation: it reads
and writes a state, or throws and leaves no state behind.  This module has the
two ways of reasoning about such a computation.

* `Ensures s m Q` — run from `s`, `m` either throws or ends with `Q`.  Its rules
  are equations, so a proof executes the computation step by step.
* `Preserves R m` — every successful run of `m` relates its first and last state
  by the preorder `R`.  It is a class whose instances follow the structure of the
  computation, so a frame condition of a whole program is found by instance
  search once the primitives have theirs.
-/

namespace Stateful

variable {σ ε α β γ : Type} {m : StateT σ (Except ε) α} {k : α → StateT σ (Except ε) β} {s : σ} {a : α}
  {P Q : α → σ → Prop} {s' t : σ} {e : ε} {f : σ → σ} {u : PUnit} {c : Prop} {o : Option α} {x : Except ε α}
  {m handler : StateT σ (Except ε) α} {caught : ε → Bool} {l : List β} {R : σ → σ → Prop}

/-! ## Inverting a successful run -/

theorem bind_eq_ok {b : β} : (m >>= k) s = .ok (b, s') ↔ ∃ a t, m s = .ok (a, t) ∧ k a t = .ok (b, s') := by
  simp only [bind, StateT.bind, Except.bind]
  cases run : m s with
  | error e => simp
  | ok r =>
    exact ⟨fun h => ⟨r.1, r.2, rfl, h⟩, fun ⟨a, t, e, h⟩ => e ▸ h⟩

@[simp] theorem pure_eq_ok {b : α} : (pure a : StateT σ (Except ε) α) s = .ok (b, s') ↔ a = b ∧ s = s' := by
  have run : (pure a : StateT σ (Except ε) α) s = .ok (a, s) := rfl
  simp [run]

@[simp] theorem throw_ne_ok : (throw e : StateT σ (Except ε) α) s ≠ .ok (a, s') := by
  rintro ⟨⟩

@[simp] theorem get_eq_ok : (get : StateT σ (Except ε) σ) s = .ok (t, s') ↔ s = t ∧ s = s' := by
  simp [get, getThe, MonadStateOf.get, StateT.get, pure, Except.pure]

@[simp] theorem modify_eq_ok : (modify f : StateT σ (Except ε) PUnit) s = .ok (u, s') ↔ s' = f s := by
  simp [modify, modifyGet, MonadStateOf.modifyGet, StateT.modifyGet, pure, Except.pure, eq_comm]

/-! ## Assertions and conditionals -/

/-- `FC_ASSERT`-style check: throw `e` unless `c` holds. -/
def check (c : Prop) [Decidable c] (e : ε) : StateT σ (Except ε) PUnit :=
  if c then pure ⟨⟩ else throw e

/-- Run `m` only if `c` holds. -/
def when (c : Prop) [Decidable c] (m : StateT σ (Except ε) PUnit) : StateT σ (Except ε) PUnit :=
  if c then m else pure ⟨⟩

/-- The value of an optional lookup, or `e` thrown. -/
def require (o : Option α) (e : ε) : StateT σ (Except ε) α :=
  match o with
  | some a => pure a
  | none => throw e

/-- A fallible pure computation inside a state computation. -/
def fromExcept (x : Except ε α) : StateT σ (Except ε) α :=
  match x with
  | .ok a => pure a
  | .error e => throw e

/-- Run `m` in a session of its own: an exception that is `caught` leaves no change, and
`handler` goes on. -/
def attempt (caught : ε → Bool) (m handler : StateT σ (Except ε) α) : StateT σ (Except ε) α := fun s =>
  match m s with
  | .ok done => .ok done
  | .error e => if caught e then handler s else .error e

/-- Run `m` for its checks only: what it changes is undone, what it throws is thrown. -/
def rehearse (m : StateT σ (Except ε) α) : StateT σ (Except ε) PUnit := fun s =>
  match m s with
  | .ok _ => .ok (⟨⟩, s)
  | .error e => .error e

@[simp] theorem check_eq_ok [Decidable c] : check c e s = .ok (u, s') ↔ c ∧ s = s' := by
  unfold check
  split <;> simp [*]

@[simp] theorem require_eq_ok : require o e s = .ok (a, s') ↔ o = some a ∧ s = s' := by
  cases o <;> simp [require]

@[simp] theorem fromExcept_eq_ok : fromExcept x s = .ok (a, s') ↔ x = .ok a ∧ s = s' := by
  cases x <;> simp [fromExcept]

/-! ## Running a computation -/

theorem run_bind {r : Except ε (β × σ)} (first : m s = .ok (a, t)) (rest : k a t = r) : (m >>= k) s = r := by
  rw [← rest]
  simp only [bind, StateT.bind, Except.bind, first]

theorem run_check [Decidable c] (holds : c) : check c e s = .ok (⟨⟩, s) := check_eq_ok.mpr ⟨holds, rfl⟩

theorem run_require (found : o = some a) : require o e s = .ok (a, s) := require_eq_ok.mpr ⟨found, rfl⟩

theorem run_fromExcept (succeeds : x = .ok a) : (fromExcept x : StateT σ (Except ε) α) s = .ok (a, s) :=
  fromExcept_eq_ok.mpr ⟨succeeds, rfl⟩

/-! ## Postconditions -/

/-- Run from `s`, the computation throws or ends in `Q`. -/
def Ensures (s : σ) (m : StateT σ (Except ε) α) (Q : α → σ → Prop) : Prop :=
  ∀ a s', m s = .ok (a, s') → Q a s'

theorem Ensures.mono (h : Ensures s m P) (weaken : ∀ a t, P a t → Q a t) : Ensures s m Q :=
  fun a t run => weaken a t (h a t run)

theorem Ensures.and (hp : Ensures s m P) (hq : Ensures s m Q) : Ensures s m fun a t => P a t ∧ Q a t :=
  fun a t run => ⟨hp a t run, hq a t run⟩

@[simp] theorem ensures_pure : Ensures s (pure a : StateT σ (Except ε) α) Q ↔ Q a s := by
  simp [Ensures]

@[simp] theorem ensures_throw : Ensures s (throw e : StateT σ (Except ε) α) Q := by
  simp [Ensures]

@[simp] theorem ensures_bind {Q : β → σ → Prop} : Ensures s (m >>= k) Q ↔ Ensures s m fun a t => Ensures t (k a) Q := by
  simp only [Ensures, bind_eq_ok]
  exact ⟨fun h a t run b u next => h b u ⟨a, t, run, next⟩,
    fun h b u ⟨a, t, run, next⟩ => h a t run b u next⟩

@[simp] theorem ensures_get {Q : σ → σ → Prop} : Ensures s (get : StateT σ (Except ε) σ) Q ↔ Q s s := by
  simp [Ensures]

@[simp] theorem ensures_modify {Q : PUnit → σ → Prop} :
    Ensures s (modify f : StateT σ (Except ε) PUnit) Q ↔ Q ⟨⟩ (f s) := by
  simp only [Ensures, modify_eq_ok, forall_eq]
  exact ⟨fun h => h ⟨⟩, fun h _ => h⟩

@[simp] theorem ensures_check [Decidable c] {Q : PUnit → σ → Prop} : Ensures s (check c e) Q ↔ (c → Q ⟨⟩ s) := by
  simp only [Ensures, check_eq_ok]
  exact ⟨fun h holds => h ⟨⟩ s ⟨holds, rfl⟩, fun h _ _ ⟨holds, same⟩ => same ▸ h holds⟩

@[simp] theorem ensures_require : Ensures s (require o e) Q ↔ ∀ a, o = some a → Q a s := by
  simp [Ensures]

@[simp] theorem ensures_fromExcept : Ensures s (fromExcept x) Q ↔ ∀ a, x = .ok a → Q a s := by
  simp [Ensures]

/-- The rules above at once: `simp only [f, ensures_steps]` runs `f` step by step. -/
theorem ensures_steps :
    (∀ (α β : Type) (s : σ) (m : StateT σ (Except ε) α) (k : α → StateT σ (Except ε) β) Q,
      Ensures s (m >>= k) Q ↔ Ensures s m fun a t => Ensures t (k a) Q) ∧
    (∀ (s : σ) Q, Ensures s (get : StateT σ (Except ε) σ) Q ↔ Q s s) ∧
    (∀ (s : σ) f Q, Ensures s (modify f : StateT σ (Except ε) PUnit) Q ↔ Q ⟨⟩ (f s)) ∧
    (∀ (s : σ) c [Decidable c] (e : ε) Q, Ensures s (check c e) Q ↔ (c → Q ⟨⟩ s)) ∧
    (∀ (α : Type) (s : σ) (o : Option α) (e : ε) Q, Ensures s (require o e) Q ↔ ∀ a, o = some a → Q a s) ∧
    (∀ (α : Type) (s : σ) (x : Except ε α) Q, Ensures s (fromExcept x) Q ↔ ∀ a, x = .ok a → Q a s) ∧
    ∀ (α : Type) (s : σ) (a : α) Q, Ensures s (pure a : StateT σ (Except ε) α) Q ↔ Q a s :=
  ⟨fun _ _ _ _ _ _ => ensures_bind, fun _ _ => ensures_get, fun _ _ _ => ensures_modify,
    fun _ _ _ _ _ => ensures_check, fun _ _ _ _ _ => ensures_require, fun _ _ _ _ => ensures_fromExcept,
    fun _ _ _ _ => ensures_pure⟩

theorem ensures_ite [Decidable c] {k : StateT σ (Except ε) α} :
    Ensures s (if c then m else k) Q ↔ (c → Ensures s m Q) ∧ (¬c → Ensures s k Q) := by
  split <;> simp [*]

theorem ensures_when [Decidable c] {m : StateT σ (Except ε) PUnit} {Q : PUnit → σ → Prop} :
    Ensures s (when c m) Q ↔ (c → Ensures s m Q) ∧ (¬c → Q ⟨⟩ s) := by
  simp [when, ensures_ite]

theorem attempt_eq_ok : attempt caught m handler s = .ok (a, s') ↔
      m s = .ok (a, s') ∨ (∃ e, m s = .error e ∧ caught e) ∧ handler s = .ok (a, s') := by
  unfold attempt
  cases m s with
  | ok r => simp
  | error e => cases same : caught e <;> simp [same]

theorem ensures_attempt (done : Ensures s m Q) (handled : Ensures s handler Q) :
    Ensures s (attempt caught m handler) Q := by
  intro a t run
  cases attempt_eq_ok.mp run with
  | inl run => exact done a t run
  | inr run => exact handled a t run.2

theorem ensures_rehearse {Q : PUnit → σ → Prop} (unchanged : Q ⟨⟩ s) : Ensures s (rehearse m) Q := by
  intro u t run
  unfold rehearse at run
  cases inner : m s with
  | ok r => rw [inner] at run; cases run; exact unchanged
  | error e => rw [inner] at run; cases run

/-- A loop over a list keeps what its body keeps. -/
theorem ensures_forM {l : List α} {f : α → StateT σ (Except ε) PUnit} {I : σ → Prop}
    (start : I s) (body : ∀ a ∈ l, ∀ t, I t → Ensures t (f a) fun _ u => I u) :
    Ensures s (l.forM f) fun _ u => I u := by
  induction l generalizing s with
  | nil => simpa using start
  | cons a l ih =>
    simp only [List.forM_eq_forM, List.forM_cons, ensures_bind] at ih ⊢
    refine (body a (by simp) s start).mono fun _ t kept => ?_
    exact ih kept fun b member => body b (by simp [member])

/-! ## Postconditions with exceptions -/

/-- Run from `s`, the computation ends in `Q` or throws one of `E`. -/
def EndsIn (s : σ) (m : StateT σ (Except ε) α) (Q : α → σ → Prop) (E : ε → Prop) : Prop :=
  Ensures s m Q ∧ ∀ e, m s = .error e → E e

section EndsIn

variable {E : ε → Prop}

theorem EndsIn.mono (h : EndsIn s m P E) (weaken : ∀ a t, P a t → Q a t) : EndsIn s m Q E :=
  ⟨h.1.mono weaken, h.2⟩

theorem EndsIn.mono_error {E' : ε → Prop} (h : EndsIn s m Q E) (weaken : ∀ e, E e → E' e) : EndsIn s m Q E' :=
  ⟨h.1, fun e raised => weaken e (h.2 e raised)⟩

/-- What is known of the result when the state is dropped. -/
theorem EndsIn.result {P : Prop} (h : EndsIn s m (fun _ _ => P) E) :
    ((m s).map Prod.fst = .ok a → P) ∧ ∀ e, (m s).map Prod.fst = .error e → E e := by
  obtain ⟨done, raises⟩ := h
  cases run : m s with
  | error e =>
    refine ⟨fun ended => ?_, fun _ raised => ?_⟩
    · cases ended
    · cases raised
      exact raises e run
  | ok out =>
    refine ⟨fun _ => done out.1 out.2 run, fun _ raised => ?_⟩
    cases raised

theorem endsIn_pure (h : Q a s) : EndsIn s (pure a : StateT σ (Except ε) α) Q E :=
  ⟨ensures_pure.mpr h, fun _ raised => by cases raised⟩

theorem EndsIn.bind {Q : β → σ → Prop} (first : EndsIn s m P E) (rest : ∀ a t, P a t → EndsIn t (k a) Q E) :
    EndsIn s (m >>= k) Q E := by
  refine ⟨ensures_bind.mpr (first.1.mono fun a t holds => (rest a t holds).1), fun e raised => ?_⟩
  simp only [Bind.bind, StateT.bind] at raised
  cases run : m s with
  | error e' =>
    rw [run] at raised
    cases raised
    exact first.2 e run
  | ok r =>
    rw [run] at raised
    exact (rest r.1 r.2 (first.1 _ _ run)).2 e raised

theorem endsIn_get_bind {k : σ → StateT σ (Except ε) β} {Q : β → σ → Prop} (h : EndsIn s (k s) Q E) :
    EndsIn s (get >>= k) Q E := h

theorem endsIn_modify {Q : PUnit → σ → Prop} (h : Q ⟨⟩ (f s)) : EndsIn s (modify f : StateT σ (Except ε) PUnit) Q E :=
  ⟨ensures_modify.mpr h, fun _ raised => by cases raised⟩

theorem endsIn_modify_bind {k : PUnit → StateT σ (Except ε) β} {Q : β → σ → Prop} (h : EndsIn (f s) (k ⟨⟩) Q E) :
    EndsIn s (modify f >>= k) Q E := h

theorem endsIn_of_run (run : m s = .ok (a, t)) (ended : Q a t) : EndsIn s m Q E := by
  refine ⟨fun b u run' => ?_, fun e raised => ?_⟩
  · cases run.symm.trans run'
    exact ended
  · cases run.symm.trans raised

theorem endsIn_run_bind {k : α → StateT σ (Except ε) β} {Q : β → σ → Prop} (run : m s = .ok (a, t))
    (h : EndsIn t (k a) Q E) : EndsIn s (m >>= k) Q E := by
  refine EndsIn.bind (P := fun b u => b = a ∧ u = t) (endsIn_of_run run ⟨rfl, rfl⟩) ?_
  rintro _ _ ⟨rfl, rfl⟩
  exact h

theorem endsIn_check [Decidable c] {Q : PUnit → σ → Prop} (holds : c → Q ⟨⟩ s)
    (fails : ¬c → E e) : EndsIn s (check c e) Q E := by
  refine ⟨ensures_check.mpr holds, fun e' raised => ?_⟩
  unfold check at raised
  split at raised
  · cases raised
  · cases raised
    exact fails ‹_›

theorem endsIn_check_bind [Decidable c] {k : PUnit → StateT σ (Except ε) β} {Q : β → σ → Prop}
    (holds : c → EndsIn s (k ⟨⟩) Q E) (fails : ¬c → E e) : EndsIn s (check c e >>= k) Q E := by
  refine EndsIn.bind (P := fun _ t => t = s ∧ c) (endsIn_check (fun yes => ⟨rfl, yes⟩) fails) ?_
  rintro _ _ ⟨rfl, yes⟩
  exact holds yes

theorem endsIn_require (found : ∀ a, o = some a → Q a s) (absent : o = none → E e) : EndsIn s (require o e) Q E := by
  refine ⟨ensures_require.mpr found, fun e' raised => ?_⟩
  cases o with
  | some a => cases raised
  | none =>
    cases raised
    exact absent rfl

theorem endsIn_ite [Decidable c] {k : StateT σ (Except ε) α}
    (holds : c → EndsIn s m Q E) (fails : ¬c → EndsIn s k Q E) : EndsIn s (if c then m else k) Q E := by
  split
  · exact holds ‹_›
  · exact fails ‹_›

theorem endsIn_when [Decidable c] {m : StateT σ (Except ε) PUnit} {Q : PUnit → σ → Prop}
    (holds : c → EndsIn s m Q E) (fails : ¬c → Q ⟨⟩ s) : EndsIn s (when c m) Q E :=
  endsIn_ite holds fun no => endsIn_pure (fails no)

/-- What throws nothing runs through. -/
theorem EndsIn.runs (h : EndsIn s m Q fun _ => False) : ∃ a t, m s = .ok (a, t) := by
  cases run : m s with
  | ok r => exact ⟨r.1, r.2, rfl⟩
  | error e => exact (h.2 e run).elim

end EndsIn

/-! ## Frames -/

/-- Every successful run of `m` relates its first and last state by `R`. -/
class Preserves (R : σ → σ → Prop) (m : StateT σ (Except ε) α) : Prop where
  related : ∀ s, Ensures s m fun _ s' => R s s'

theorem frame_of_run [frame : Preserves R m] (run : m s = .ok (a, s')) : R s s' := frame.related s a s' run

theorem Preserves.after (frame : Preserves R m) (run : m s = .ok (a, s')) : R s s' := frame_of_run run

theorem Preserves.mono {R' : σ → σ → Prop} (h : Preserves R m) (weaken : ∀ s s', R s s' → R' s s') : Preserves R' m :=
  ⟨fun s => (h.related s).mono fun _ s' => weaken s s'⟩

/-- What is related by `R` is related by `R'`, so that frames of `R` are frames of `R'`. -/
class Finer (R : outParam (σ → σ → Prop)) (R' : σ → σ → Prop) : Prop where
  weaken : ∀ s s', R s s' → R' s s'

instance (priority := low) {R' : σ → σ → Prop} [finer : Finer R R'] [frame : Preserves R m] : Preserves R' m :=
  frame.mono finer.weaken

theorem ensures_frame (R : σ → σ → Prop) [frame : Preserves R m]
    (ended : ∀ a t, R s t → Q a t) : Ensures s m Q :=
  (frame.related s).mono ended

/-- What only reads. -/
theorem ensures_read [frame : Preserves (@Eq σ) m] (ended : ∀ a, Q a s) : Ensures s m Q :=
  (frame.related s).mono fun a _ same => same ▸ ended a

/-- A frame goes on from the state it began in. -/
theorem ensures_since (R : σ → σ → Prop) [IsTrans σ R] [frame : Preserves R m] {start : σ} (since : R start s)
    (ended : ∀ a t, R start t → Q a t) : Ensures s m Q :=
  (frame.related s).mono fun a t further => ended a t (trans_of R since further)

/-- What is known of the end, and of the way there. -/
theorem Ensures.framed (R : σ → σ → Prop) [frame : Preserves R m]
    (ended : Ensures s m Q) : Ensures s m fun a t => R s t ∧ Q a t :=
  (frame.related s).and ended

theorem preserves_modify (h : ∀ s, R s (f s)) : Preserves R (modify f : StateT σ (Except ε) PUnit) :=
  ⟨fun s => by simpa using h s⟩

section Structure

variable [Std.Refl R]

instance : Preserves R (pure a : StateT σ (Except ε) α) :=
  ⟨fun s => by simpa using refl s⟩

instance : Preserves R (throw e : StateT σ (Except ε) α) := ⟨fun s => by simp⟩

instance : Preserves R (get : StateT σ (Except ε) σ) := ⟨fun s => by simpa using refl s⟩

instance [Decidable c] {k : StateT σ (Except ε) α} [Preserves R m] [Preserves R k] :
    Preserves R (if c then m else k) := by
  split <;> infer_instance

instance [Decidable c] : Preserves R (check c e : StateT σ (Except ε) PUnit) := by
  unfold check; infer_instance

instance [Decidable c] {m : StateT σ (Except ε) PUnit} [Preserves R m] : Preserves R (when c m) := by
  unfold when; infer_instance

instance : Preserves R (require o e : StateT σ (Except ε) α) := by
  cases o <;> (unfold require; infer_instance)

instance : Preserves R (fromExcept x : StateT σ (Except ε) α) := by
  cases x <;> (unfold fromExcept; infer_instance)

instance {o : Option β} {k : β → StateT σ (Except ε) α}
    [Preserves R m] [∀ b, Preserves R (k b)] : Preserves R (o.elim m k) := by
  cases o <;> (unfold Option.elim; infer_instance)

instance [done : Preserves R m] [handled : Preserves R handler] : Preserves R (attempt caught m handler) :=
  ⟨fun s => ensures_attempt (done.related s) (handled.related s)⟩

instance : Preserves R (rehearse m) :=
  ⟨fun s => ensures_rehearse (refl_of R s)⟩

variable [IsTrans σ R]

instance [first : Preserves R m] [second : ∀ a, Preserves R (k a)] : Preserves R (m >>= k) :=
  ⟨fun s => by
    rw [ensures_bind]
    refine (first.related s).mono fun a t before => ?_
    exact ((second a).related t).mono fun _ u after => trans_of R before after⟩

instance {f : β → StateT σ (Except ε) PUnit} [body : ∀ b, Preserves R (f b)] : Preserves R (l.forM f) :=
  ⟨fun s => ensures_forM (refl_of R s) fun b _ t before =>
    ((body b).related t).mono fun _ _ after => trans_of R before after⟩

instance {f : β → StateT σ (Except ε) α} [body : ∀ b, Preserves R (f b)] : Preserves R (l.mapM f) := by
  induction l with
  | nil => rw [List.mapM_nil]; infer_instance
  | cons b l ih => rw [List.mapM_cons]; infer_instance

end Structure

/-! ## Invariants as frames -/

/-- What held before holds after. -/
def Keeps (P : σ → Prop) (s t : σ) : Prop := P s → P t

instance {P : σ → Prop} : Std.Refl (Keeps P) := ⟨fun _ => id⟩

instance {P : σ → Prop} : IsTrans σ (Keeps P) := ⟨fun _ _ _ first second => second ∘ first⟩

theorem ensures_keeps {P : σ → Prop} (kept : P s → Ensures s m fun _ t => P t) : Ensures s m fun _ t => Keeps P s t :=
  fun a t run before => kept before a t run

theorem ensures_kept {P : σ → Prop} [kept : Preserves (Keeps P) m] (holds : P s) (ended : ∀ a t, P t → Q a t) :
    Ensures s m Q :=
  (kept.related s).mono fun a t keeps => ended a t (keeps holds)

end Stateful
