import Mathlib.Algebra.BigOperators.Group.List.Basic
import Mathlib.Algebra.Group.Pi.Lemmas
import Mathlib.Data.List.Nodup
import Mathlib.Data.List.Sort
import Mathlib.Tactic.Common
import Mathlib.Tactic.Abel

/-! # Keyed stores

A table of objects under a unique key, kept in the order of insertion.  The
uniqueness of the keys is a field of the structure, so a lookup and an update by
key speak about one object.

* lookups after `insert`, `modify` and `erase`;
* `total g`, the sum of a quantity over all objects, and what each update does to
  it;
* `view p`, the table seen through a projection of its objects: the frame of an
  update that leaves the projection alone.
-/

/-- Objects of type `V` under unique keys of type `K`, oldest first. -/
@[ext] structure Store (K V : Type) where
  entries : List (K × V)
  nodup : (entries.map Prod.fst).Nodup

namespace Store

open List

variable {K V W M : Type} {t u : Store K V} {k j : K} {v w : V} {f : V → V} {p : V → W} {h : K → V → M}

def empty : Store K V := ⟨[], nodup_nil⟩

def keys (t : Store K V) : List K := t.entries.map Prod.fst

def values (t : Store K V) : List V := t.entries.map Prod.snd

/-- The table seen through the projection `p` of its objects. -/
def view (p : V → W) (t : Store K V) : List (K × W) := t.entries.map fun e => (e.1, p e.2)

/-- The sum of `g` over all objects. -/
def total [AddCommMonoid M] (g : K → V → M) (t : Store K V) : M :=
  (t.entries.map fun e => g e.1 e.2).sum

variable [DecidableEq K]

def find? (t : Store K V) (k : K) : Option V := (t.entries.find? fun e => e.1 = k).map Prod.snd

/-- Append an object; a key in use is left alone. -/
def insert (t : Store K V) (k : K) (v : V) : Store K V :=
  if fresh : k ∈ t.keys then t
  else ⟨t.entries ++ [(k, v)], by
    rw [map_append, nodup_append]
    refine ⟨t.nodup, nodup_singleton k, fun a member b same equal => fresh ?_⟩
    have last : b = k := mem_singleton.mp same
    rwa [← last, ← equal]⟩

def modify (t : Store K V) (k : K) (f : V → V) : Store K V :=
  ⟨t.entries.map fun e => if e.1 = k then (e.1, f e.2) else e, by
    have same : (Prod.fst ∘ fun e : K × V => if e.1 = k then (e.1, f e.2) else e) = Prod.fst := by
      funext e; by_cases h : e.1 = k <;> simp [h]
    rw [map_map, same]; exact t.nodup⟩

def erase (t : Store K V) (k : K) : Store K V :=
  ⟨t.entries.filter fun e => e.1 ≠ k, (filter_sublist.map Prod.fst).nodup t.nodup⟩

/-- Keep the objects `p` holds of. -/
def filter (t : Store K V) (p : K → V → Bool) : Store K V :=
  ⟨t.entries.filter fun e => p e.1 e.2, (filter_sublist.map Prod.fst).nodup t.nodup⟩

/-- Update every object. -/
def mapValues (t : Store K V) (f : K → V → V) : Store K V :=
  ⟨t.entries.map fun e => (e.1, f e.1 e.2), by
    rw [map_map]; exact t.nodup⟩

/-! ## Lookups -/

theorem find?_eq_some : t.find? k = some v ↔ (k, v) ∈ t.entries := by
  obtain ⟨l, nodup⟩ := t
  simp only [find?]
  induction l with
  | nil => simp
  | cons e l ih =>
    simp only [map_cons, nodup_cons] at nodup
    by_cases same : e.1 = k
    · have absent : (k, v) ∉ l := fun member =>
        nodup.1 (same ▸ mem_map_of_mem member)
      simp only [find?_cons, same, decide_true, Option.map_some, Option.some.injEq,
        mem_cons, absent, or_false]
      exact ⟨fun h => by rw [← same, ← h], fun h => by rw [← h]⟩
    · have different : (k, v) ≠ e := fun h => same (by rw [← h])
      simp [same, different, ih nodup.2]

/-- Exactly one entry has the key of a found object. -/
theorem exists_split (found : t.find? k = some v) :
    ∃ before after, t.entries = before ++ (k, v) :: after ∧ (∀ e ∈ before, e.1 ≠ k) ∧ ∀ e ∈ after, e.1 ≠ k := by
  obtain ⟨before, after, split⟩ := append_of_mem (find?_eq_some.mp found)
  have nodup := t.nodup
  rw [split, map_append, map_cons, nodup_middle, nodup_cons, mem_append]
    at nodup
  exact ⟨before, after, split,
    fun e member same => nodup.1 (.inl (mem_map.mpr ⟨e, member, same⟩)),
    fun e member same => nodup.1 (.inr (mem_map.mpr ⟨e, member, same⟩))⟩

theorem find?_isSome : (t.find? k).isSome ↔ k ∈ t.keys := by
  simp only [Option.isSome_iff_exists, find?_eq_some, keys, mem_map]
  exact ⟨fun ⟨v, member⟩ => ⟨(k, v), member, rfl⟩, fun ⟨e, member, same⟩ => ⟨e.2, by rw [← same]; exact member⟩⟩

theorem find?_eq_none : t.find? k = none ↔ k ∉ t.keys := by
  rw [← find?_isSome]; simp

theorem entries_insert (fresh : t.find? k = none) : (t.insert k v).entries = t.entries ++ [(k, v)] := by
  simp only [insert, find?_eq_none.mp fresh, dite_false]

theorem find?_insert (fresh : t.find? k = none) : (t.insert k v).find? j = if j = k then some v else t.find? j := by
  have absent := find?_eq_none.mp fresh
  ext w
  simp only [find?_eq_some, entries_insert fresh]
  by_cases same : j = k
  · subst same
    have : (j, w) ∉ t.entries := fun member => absent (mem_map_of_mem member)
    simp [this, eq_comm]
  · simp [same, find?_eq_some]

theorem find?_insert_eq_some (fresh : t.find? k = none) :
    (t.insert k v).find? j = some w ↔ j = k ∧ w = v ∨ j ≠ k ∧ t.find? j = some w := by
  rw [find?_insert fresh]
  split <;> simp_all [eq_comm]

theorem find?_modify : (t.modify k f).find? j = if j = k then (t.find? j).map f else t.find? j := by
  ext w
  simp only [modify, find?_eq_some, mem_map]
  by_cases same : j = k
  · subst same
    simp only [if_true, Option.map_eq_some_iff, find?_eq_some]
    constructor
    · rintro ⟨e, member, equal⟩
      by_cases h : e.1 = j
      · rw [if_pos h, Prod.mk.injEq] at equal
        exact ⟨e.2, h ▸ member, equal.2⟩
      · rw [if_neg h] at equal; exact absurd (by rw [equal]) h
    · rintro ⟨v, member, rfl⟩
      exact ⟨(j, v), member, by simp⟩
  · simp only [same, if_false, find?_eq_some]
    constructor
    · rintro ⟨e, member, equal⟩
      by_cases h : e.1 = k
      · rw [if_pos h, Prod.mk.injEq] at equal; exact absurd (equal.1.symm.trans h) same
      · rw [if_neg h] at equal; exact equal ▸ member
    · intro member
      exact ⟨(j, w), member, by simp [same]⟩

theorem find?_modify_eq_some : (t.modify k f).find? j = some w ↔
    (j = k ∧ ∃ v, t.find? k = some v ∧ f v = w) ∨ j ≠ k ∧ t.find? j = some w := by
  rw [find?_modify]
  split <;> simp_all

theorem find?_erase : (t.erase k).find? j = if j = k then none else t.find? j := by
  ext w
  simp only [erase]
  by_cases same : j = k <;> simp [same, find?_eq_some]

theorem find?_erase_eq_some : (t.erase k).find? j = some v ↔ j ≠ k ∧ t.find? j = some v := by
  rw [find?_erase]
  split <;> simp_all

/-- What holds of all objects and of a new one holds of all objects then. -/
theorem all_insert {P : K → V → Prop} (fresh : t.find? k = none) (new : P k v)
    (old : ∀ j w, t.find? j = some w → P j w) (found : (t.insert k v).find? j = some w) : P j w := by
  obtain ⟨rfl, rfl⟩ | ⟨_, found⟩ := (find?_insert_eq_some fresh).mp found
  · exact new
  · exact old j w found

theorem all_modify {P : K → V → Prop} (changed : ∀ w, P k w → P k (f w))
    (old : ∀ j w, t.find? j = some w → P j w) (found : (t.modify k f).find? j = some w) : P j w := by
  obtain ⟨rfl, v, there, rfl⟩ | ⟨_, found⟩ := find?_modify_eq_some.mp found
  · exact changed v (old j v there)
  · exact old j w found

theorem find?_filter {p : K → V → Bool} : (t.filter p).find? k = some v ↔ t.find? k = some v ∧ p k v = true := by
  simp only [filter, find?_eq_some, mem_filter]

theorem find?_mapValues {f : K → V → V} : (t.mapValues f).find? k = (t.find? k).map (f k) := by
  ext w
  simp only [mapValues, find?_eq_some, mem_map, Option.map_eq_some_iff, Prod.mk.injEq]
  constructor
  · rintro ⟨e, member, rfl, rfl⟩; exact ⟨e.2, member, rfl⟩
  · rintro ⟨v, member, rfl⟩; exact ⟨(k, v), member, rfl, rfl⟩

@[simp] theorem keys_modify : (t.modify k f).keys = t.keys := by
  simp only [keys, modify, map_map]
  congr 1
  funext e; by_cases h : e.1 = k <;> simp [h]

theorem keys_insert (fresh : t.find? k = none) : (t.insert k v).keys = t.keys ++ [k] := by
  simp [keys, entries_insert fresh]

/-! ## Sweeps

A loop over some entries of a table, each of which removes the one it is at. -/

/-- The entries of `l` are in the table, each once. -/
structure Lists (t : Store K V) (l : List (K × V)) : Prop where
  nodup : (l.map Prod.fst).Nodup
  found : ∀ e ∈ l, t.find? e.1 = some e.2

theorem lists_sorted {p : K × V → Bool} {r : K × V → K × V → Prop} [DecidableRel r] :
    t.Lists ((t.entries.filter p).insertionSort r) := by
  have same := perm_insertionSort r (t.entries.filter p)
  refine ⟨(same.map Prod.fst).nodup_iff.mpr ((filter_sublist.map Prod.fst).nodup t.nodup), ?_⟩
  intro e member
  exact find?_eq_some.mpr (mem_filter.mp (same.mem_iff.mp member)).1

theorem Lists.tail {e : K × V} {l : List (K × V)} (lists : t.Lists (e :: l)) : (t.erase e.1).Lists l := by
  have nodup := lists.nodup
  rw [map_cons, nodup_cons] at nodup
  refine ⟨nodup.2, fun e' member => ?_⟩
  have different : e'.1 ≠ e.1 := fun same => nodup.1 (same ▸ mem_map_of_mem member)
  rw [find?_erase, if_neg different]
  exact lists.found e' (mem_cons_of_mem _ member)

/-! ## Totals -/

section Total

variable [AddCommMonoid M] {g : K → V → M}

omit [DecidableEq K] in
@[simp] theorem total_empty : (empty : Store K V).total g = 0 := rfl

omit [DecidableEq K] in
@[simp] theorem total_zero : (t.total fun _ _ => (0 : M)) = 0 := by
  simp [total]

theorem total_insert (fresh : t.find? k = none) : (t.insert k v).total g = t.total g + g k v := by
  simp [total, entries_insert fresh]

/-- Changing one object moves the total by the change of its quantity. -/
theorem total_modify (found : t.find? k = some v) : (t.modify k f).total g + g k v = t.total g + g k (f v) := by
  obtain ⟨before, after, split, absentBefore, absentAfter⟩ := exists_split found
  have unchanged : ∀ l : List (K × V), (∀ e ∈ l, e.1 ≠ k) →
      (l.map fun e => if e.1 = k then (e.1, f e.2) else e) = l := fun l absent => by
    rw [map_congr_left fun e member => if_neg (absent e member), map_id']
  simp only [total, modify, split, map_append, map_cons, if_true,
    unchanged before absentBefore, unchanged after absentAfter, sum_append, sum_cons]
  abel

theorem total_erase (found : t.find? k = some v) : (t.erase k).total g + g k v = t.total g := by
  obtain ⟨before, after, split, absentBefore, absentAfter⟩ := exists_split found
  have kept : ∀ l : List (K × V), (∀ e ∈ l, e.1 ≠ k) → l.filter (fun e => e.1 ≠ k) = l :=
    fun l absent => filter_eq_self.mpr fun e member => by simpa using absent e member
  simp only [total, erase, split, filter_append, kept before absentBefore, map_append,
    map_cons, sum_append, sum_cons]
  rw [filter_cons_of_neg (by simp), kept after absentAfter]
  abel

omit [DecidableEq K] in
theorem total_congr {g : K → V → M} (same : ∀ e ∈ t.entries, g e.1 e.2 = h e.1 e.2) : t.total g = t.total h :=
  congrArg sum (map_congr_left same)

omit [DecidableEq K] in
/-- Only some objects count. -/
theorem sum_map_filter {p : K × V → Bool} {g : K × V → M} :
    ((t.entries.filter p).map g).sum = t.total fun k v => if p (k, v) then g (k, v) else 0 := by
  rw [total]
  generalize t.entries = l
  induction l with
  | nil => rfl
  | cons e l ih =>
    rw [map_cons, sum_cons, ← ih, filter_cons]
    split
    · rw [map_cons, sum_cons]
    · rw [zero_add]

omit [DecidableEq K] in
theorem total_add {g : K → V → M} : (t.total fun k v => g k v + h k v) = t.total g + t.total h := by
  simp [total]

omit [DecidableEq K] in
theorem total_neg {M : Type} [AddCommGroup M] {g : K → V → M} : (t.total fun k v => -g k v) = -t.total g := by
  rw [eq_neg_iff_add_eq_zero, ← total_add]
  simp

/-- Only the object under the key counts. -/
theorem total_at {g : V → M} (found : t.find? k = some v) : (t.total fun j v => if j = k then g v else 0) = g v := by
  rw [← total_erase found, if_pos rfl]
  have others : ((t.erase k).total fun j v => if j = k then g v else 0) = (t.erase k).total fun _ _ => 0 := by
    refine total_congr fun e member => if_neg ?_
    simpa using (mem_filter.mp member).2
  rw [others, total_zero, zero_add]

omit [DecidableEq K] in
theorem map_total {N : Type} [AddCommMonoid N] (f : M →+ N) {g : K → V → M} :
    f (t.total g) = t.total fun k v => f (g k v) := by
  simp [total, map_list_sum, Function.comp_def]

omit [DecidableEq K] in
/-- A total depends only on the projection its quantity is taken from. -/
theorem total_eq_of_view {g : K → W → M} (same : t.view p = u.view p) :
    (t.total fun k v => g k (p v)) = u.total fun k v => g k (p v) := by
  have sums := congrArg (fun l => (l.map fun e => g e.1 e.2).sum) same
  simpa [view, total, Function.comp_def] using sums

omit [DecidableEq K] in
/-- Counting keys. -/
theorem total_indicator {p : K → Prop} [DecidablePred p] :
    (t.total fun k _ => if p k then 1 else 0) = (t.keys.filter p).length := by
  rw [total, keys]
  induction t.entries with
  | nil => rfl
  | cons e entries ih =>
    rw [map_cons, sum_cons, map_cons, filter_cons, ih]
    by_cases holds : p e.1
    · simp [holds, Nat.add_comm]
    · simp [holds]

end Total

/-! ## Projections -/

@[simp] theorem view_modify (same : ∀ v, p (f v) = p v) : (t.modify k f).view p = t.view p := by
  simp only [view, modify, map_map]
  refine map_congr_left fun e _ => ?_
  by_cases h : e.1 = k <;> simp [h, same]

theorem find?_eq_of_view (same : t.view p = u.view p) (k : K) : (t.find? k).map p = (u.find? k).map p := by
  have look : ∀ s : Store K V, (s.find? k).map p =
      ((s.view p).find? fun e => e.1 = k).map Prod.snd := by
    intro s
    simp only [find?, view, find?_map, Option.map_map]
    rfl
  rw [look, look, same]

omit [DecidableEq K] in
theorem keys_eq_of_view (same : t.view p = u.view p) : t.keys = u.keys := by
  have firsts := congrArg (map Prod.fst) same
  simpa [view, keys, Function.comp_def] using firsts

end Store
