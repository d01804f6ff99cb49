import Mathlib.Data.List.Perm.Basic
import Mathlib.Data.List.Sort
import Mathlib.Order.Basic
import Mathlib.Tactic.Common

/-! # Selection by a key

`std::nth_element` puts an element at a position where a sort would put it, and leaves the
order of the others open; which of several elements with the same key it takes is open too.

* `NthElement` — what such a rearrangement may be;
* `IsNth` — the elements it may put at the position, by counting: no more than `k` keys are
  smaller, more than `k` are not greater.  This does not depend on the order of the list.

The key of the selected element is determined, and grows with the keys.
-/

namespace Selection

open List

variable {α κ : Type} [LinearOrder κ] {key : α → κ} {k : Nat} {l l' : List α} {a b : α}

/-- What `nth_element` with the position `k` may make of a list. -/
structure NthElement (key : α → κ) (k : Nat) (l l' : List α) : Prop where
  perm : l'.Perm l
  before : ∀ a, l'[k]? = some a → ∀ b ∈ l'.take k, ¬key a < key b
  behind : ∀ a, l'[k]? = some a → ∀ b ∈ l'.drop (k + 1), ¬key b < key a

/-- What `nth_element` may put at the position `k`. -/
structure IsNth (key : α → κ) (k : Nat) (l : List α) (a : α) : Prop where
  mem : a ∈ l
  below : l.countP (fun b => key b < key a) ≤ k
  upto : k < l.countP fun b => key b ≤ key a

theorem IsNth.perm (isNth : IsNth key k l a) (perm : l.Perm l') : IsNth key k l' a where
  mem := perm.mem_iff.mp isNth.mem
  below := by
    rw [← perm.countP_eq]
    exact isNth.below
  upto := by
    rw [← perm.countP_eq]
    exact isNth.upto

/-- Only the order of the keys counts. -/
theorem IsNth.congr {κ' : Type} [LinearOrder κ'] {key' : α → κ'} (isNth : IsNth key k l a)
    (same : ∀ b c, key b < key c ↔ key' b < key' c) : IsNth key' k l a where
  mem := isNth.mem
  below := by simpa only [same] using isNth.below
  upto := by simpa only [← not_lt, same] using isNth.upto

/-! ## The elements at the position -/

theorem NthElement.isNth (nth : NthElement key k l l') (found : l'[k]? = some a) : IsNth key k l a := by
  obtain ⟨inside, here⟩ := List.getElem?_eq_some_iff.mp found
  have split : l' = l'.take k ++ a :: l'.drop (k + 1) := by
    rw [← here, getElem_cons_drop, take_append_drop]
  have length : (l'.take k).length = k := length_take_of_le inside.le
  have before := nth.before a found
  have behind := nth.behind a found
  have zero : (l'.drop (k + 1)).countP (fun b => key b < key a) = 0 := by
    simpa using behind
  have all : (l'.take k).countP (fun b => key b ≤ key a) = k := by
    rw [countP_eq_length.mpr (by simpa using before), length]
  refine IsNth.perm ⟨?_, ?_, ?_⟩ nth.perm
  · rw [split]
    simp
  · rw [split, countP_append, countP_cons, zero]
    have bounded := countP_le_length (p := fun b => decide (key b < key a)) (l := l'.take k)
    simp only [lt_irrefl, decide_false, Bool.false_eq_true, if_false]
    omega
  · rw [split, countP_append, countP_cons, all]
    simp only [le_refl, decide_true, if_true]
    omega

theorem nthElement_of_sorted (perm : l'.Perm l) (sorted : l'.Pairwise fun a b => key a ≤ key b) :
    NthElement key k l l' := by
  have split {a : α} (found : l'[k]? = some a) :
      (∀ b ∈ l'.take k, key b ≤ key a) ∧ ∀ b ∈ l'.drop (k + 1), key a ≤ key b := by
    obtain ⟨inside, here⟩ := List.getElem?_eq_some_iff.mp found
    have parts : l' = l'.take k ++ a :: l'.drop (k + 1) := by
      rw [← here, getElem_cons_drop, take_append_drop]
    rw [parts, pairwise_append, pairwise_cons] at sorted
    exact ⟨fun b member => sorted.2.2 b member a mem_cons_self, sorted.2.1.1⟩
  exact ⟨perm, fun a found b member => not_lt_of_ge ((split found).1 b member),
    fun a found b member => not_lt_of_ge ((split found).2 b member)⟩

theorem exists_sorted (key : α → κ) (l : List α) : ∃ l' : List α, l'.Perm l ∧ l'.Pairwise fun a b => key a ≤ key b := by
  exact ⟨l.insertionSort fun a b => key a ≤ key b, perm_insertionSort _ l, pairwise_insertionSort _ l⟩

theorem exists_isNth (inside : k < l.length) : ∃ a, IsNth key k l a := by
  obtain ⟨l', perm, sorted⟩ := exists_sorted key l
  have inside' : k < l'.length := by rwa [perm.length_eq]
  exact ⟨l'[k], (nthElement_of_sorted perm sorted).isNth (getElem?_eq_getElem inside')⟩

theorem isNth_of_key_eq (member : a ∈ l) (inside : k < l.length) (same : ∀ b ∈ l, key b = key a) : IsNth key k l a where
  mem := member
  below := by
    have zero : l.countP (fun b => key b < key a) = 0 :=
      countP_eq_zero.mpr fun b member => by simp [same b member]
    omega
  upto := by
    have all : l.countP (fun b => key b ≤ key a) = l.length :=
      countP_eq_length.mpr fun b member => by simp [same b member]
    omega

/-- Their key is the same. -/
theorem IsNth.key_eq (first : IsNth key k l a) (second : IsNth key k l b) : key a = key b := by
  have notLess {a b : α} (first : IsNth key k l a) (second : IsNth key k l b) : ¬key a < key b := by
    intro less
    have more : l.countP (fun c => key c ≤ key a) ≤ l.countP fun c => key c < key b :=
      countP_mono_left fun c _ upto => by simpa using (of_decide_eq_true upto).trans_lt less
    exact absurd (first.upto.trans_le (more.trans second.below)) (lt_irrefl k)
  exact le_antisymm (not_lt.mp (notLess second first)) (not_lt.mp (notLess first second))

/-- A key stands at the position by counting alone, whether or not an element has it. -/
structure IsNthKey (key : α → κ) (k : Nat) (l : List α) (v : κ) : Prop where
  below : l.countP (fun b => key b < v) ≤ k
  upto : k < l.countP fun b => key b ≤ v

/-- There is only one such key. -/
theorem IsNth.isNthKey_iff (isNth : IsNth key k l a) {v : κ} : IsNthKey key k l v ↔ v = key a := by
  constructor
  · intro stands
    refine le_antisymm (not_lt.mp fun greater => ?_) (not_lt.mp fun less => ?_)
    · have more : l.countP (fun c => key c ≤ key a) ≤ l.countP fun c => key c < v :=
        countP_mono_left fun c _ upto => by simpa using (of_decide_eq_true upto).trans_lt greater
      exact absurd (isNth.upto.trans_le (more.trans stands.below)) (lt_irrefl k)
    · have more : l.countP (fun c => key c ≤ v) ≤ l.countP fun c => key c < key a :=
        countP_mono_left fun c _ upto => by simpa using (of_decide_eq_true upto).trans_lt less
      exact absurd (stands.upto.trans_le (more.trans isNth.below)) (lt_irrefl k)
  · rintro rfl
    exact ⟨isNth.below, isNth.upto⟩

/-- Any of them can be put there. -/
theorem IsNth.nthElement (isNth : IsNth key k l a) : ∃ l', NthElement key k l l' ∧ l'[k]? = some a := by
  obtain ⟨sorted, perm, ordered⟩ := exists_sorted key l
  have inside : k < sorted.length := by
    rw [perm.length_eq]
    exact isNth.upto.trans_le countP_le_length
  obtain ⟨place, bound, here⟩ := getElem_of_mem (perm.mem_iff.mpr isNth.mem)
  -- the element at the position has the same key, so the two can be exchanged
  have same : key sorted[k] = key sorted[place] := by
    rw [here]
    exact ((nthElement_of_sorted perm ordered).isNth (getElem?_eq_getElem inside)).key_eq isNth
  let swapped := (sorted.set place sorted[k]).set k sorted[place]
  have keys : swapped.map key = sorted.map key := by
    have placed : (sorted.map key).set place (key sorted[k]) = sorted.map key := by
      rw [same, ← getElem_map key, set_getElem_self]
      simpa
    rw [map_set, map_set, placed, ← same, ← getElem_map key, set_getElem_self]
    simpa
  refine ⟨swapped, nthElement_of_sorted ((set_set_perm bound inside).trans perm) ?_, ?_⟩
  · rw [← pairwise_map, keys, pairwise_map]
    exact ordered
  · simp [swapped, inside, here]

/-! ## Comparisons -/

/-- A greater key selects a greater one. -/
theorem IsNth.key_le {key' : α → κ} (first : IsNth key k l a) (second : IsNth key' k l b)
    (le : ∀ c ∈ l, key c ≤ key' c) : key a ≤ key' b := by
  by_contra greater
  have more : l.countP (fun c => key' c ≤ key' b) ≤ l.countP fun c => key c < key a :=
    countP_mono_left fun c member upto => by
      simpa using ((le c member).trans (of_decide_eq_true upto)).trans_lt (not_le.mp greater)
  exact absurd (second.upto.trans_le (more.trans first.below)) (lt_irrefl k)

/-- If every element has one of two options, the median of one of them is on. -/
theorem IsNth.or_of_forall {option option' : α → Bool} (first : IsNth option (l.length / 2) l a)
    (second : IsNth option' (l.length / 2) l b) (either : ∀ c ∈ l, option c = true ∨ option' c = true) :
    option a = true ∨ option' b = true := by
  by_contra neither
  rw [not_or, Bool.not_eq_true, Bool.not_eq_true] at neither
  have off := first.upto
  have off' := second.upto
  rw [neither.1] at off
  rw [neither.2] at off'
  -- where the first option is off the second one is on
  have others : l.countP (fun c => option c ≤ false) ≤ l.countP fun c => ¬option' c ≤ false :=
    countP_mono_left fun c member upto => by
      have off : option c = false := le_bot_iff.mp (of_decide_eq_true upto)
      have on : option' c = true := (either c member).resolve_left (by simp [off])
      rw [on]
      decide
  have all := length_eq_countP_add_countP (fun c => decide (option' c ≤ false)) (l := l)
  simp only [decide_eq_true_eq] at all
  omega

end Selection
