import Mathlib.Data.List.Basic

/-! # Rings

A ring has a fixed number of entries.  Items come one after the other, the first has number 1, and each is written over
the entry its number has modulo the size.  `Shows` says what is then in the ring: the latest items, and the blank in the
entries nothing was written to.
-/

namespace Ring

variable {α : Type} {size i r : Nat} {blank a : α} {items : List α} {ring : Nat → α}

def write (size i : Nat) (a : α) (ring : Nat → α) : Nat → α := fun r => if r = i % size then a else ring r

structure Shows (size : Nat) (blank : α) (items : List α) (ring : Nat → α) : Prop where
  latest : ∀ i a, items[i]? = some a → items.length ≤ i + size → ring ((i + 1) % size) = a
  unwritten : ∀ r, r < size → (∀ i < items.length, (i + 1) % size ≠ r) → ring r = blank

theorem shows_nil (isBlank : ∀ r < size, ring r = blank) : Shows size blank [] ring where
  latest i a found := by simp at found
  unwritten r small _ := isBlank r small

/-- Two different numbers of the same entry are at least the size apart. -/
theorem entry_ne (before : i < r) (near : r < i + size) : i % size ≠ r % size := by
  intro same
  have apart := Nat.sub_mod_eq_zero_of_mod_eq same.symm
  rw [Nat.mod_eq_of_lt (by omega)] at apart
  omega

theorem Shows.write (holds : Shows size blank items ring) :
    Shows size blank (items ++ [a]) (write size (items.length + 1) a ring) where
  latest i b found recent := by
    rw [List.length_append, List.length_singleton] at recent
    unfold Ring.write
    rcases Nat.lt_trichotomy i items.length with older | rfl | beyond
    · rw [List.getElem?_append_left older] at found
      rw [if_neg (entry_ne (by omega) (by omega))]
      exact holds.latest i b found (by omega)
    · rw [if_pos rfl]
      simpa using found
    · rw [List.getElem?_eq_none (by simp; omega)] at found
      cases found
  unwritten r small absent := by
    rw [List.length_append, List.length_singleton] at absent
    unfold Ring.write
    rw [if_neg fun same => absent items.length (Nat.lt_succ_self _) same.symm]
    exact holds.unwritten r small fun i before => absent i (Nat.lt_succ_of_lt before)

/-- An entry of a ring is one of the latest items, or it is blank because its number has not come. -/
theorem Shows.entry (holds : Shows size blank items ring) (small : r < size) (full : size ≤ items.length + 1) :
    (∃ i, (i + 1) % size = r ∧ items.length ≤ i + size ∧ items[i]? = some (ring r)) ∨
      items.length + 1 = size ∧ r = 0 ∧ ring r = blank := by
  -- how far the last number of the entry is behind the number of items
  have rest := Nat.mod_lt (items.length + size - r) (Nat.zero_lt_of_lt small)
  have whole := Nat.div_add_mod (items.length + size - r) size
  generalize (items.length + size - r) % size = behind at rest whole
  generalize (items.length + size - r) / size = turns at whole
  by_cases come : behind < items.length
  · have inside : items.length - behind - 1 < items.length := by omega
    have number : (items.length - behind - 1 + 1) % size = r := by
      have turned : items.length - behind - 1 + 1 + size = r + size * turns := by omega
      rw [← Nat.add_mod_right, turned, Nat.add_mul_mod_self_left, Nat.mod_eq_of_lt small]
    have latest := holds.latest _ _ (List.getElem?_eq_getElem inside) (by omega)
    rw [number] at latest
    exact .inl ⟨items.length - behind - 1, number, by omega, by rw [List.getElem?_eq_getElem inside, latest]⟩
  · have first : r = 0 := by
      cases turns with
      | zero => omega
      | succ turns =>
        have large : size ≤ size * (turns + 1) := Nat.le_mul_of_pos_right size (Nat.succ_pos turns)
        omega
    refine .inr ⟨by omega, first, holds.unwritten r small fun i before same => ?_⟩
    rw [Nat.mod_eq_of_lt (by omega)] at same
    omega

end Ring
