import Golos.Protocol.Types
import Mathlib.Data.List.TakeWhile

/-! # Account names

`is_valid_account_name` scans a name from dot to dot.  What it accepts is the language of the
dot-separated lists of labels.
-/

namespace Golos

open List

/-- A label: a letter, then letters, digits and hyphens, the last of which is no hyphen. -/
def IsLabel (label : List Nat) : Prop :=
  3 ≤ label.length ∧ ∃ first middle last, label = first :: (middle ++ [last]) ∧ isLetter first = true ∧
    (isLetter last = true ∨ isDigit last = true) ∧ ∀ c ∈ middle, isLetter c = true ∨ isDigit c = true ∨ c = 45

/-- Labels with a dot between any two of them. -/
inductive AreLabels : List Nat → Prop
  | last {label : List Nat} (isLabel : IsLabel label) : AreLabels label
  | dot {label rest : List Nat} (isLabel : IsLabel label) (others : AreLabels rest) : AreLabels (label ++ 46 :: rest)

theorem isValidLabel_iff {label : List Nat} : isValidLabel label = true ↔ IsLabel label := by
  constructor
  · intro valid
    simp only [isValidLabel, Bool.and_eq_true, decide_eq_true_eq] at valid
    obtain ⟨⟨⟨long, first⟩, last⟩, middle⟩ := valid
    obtain ⟨c, rest, rfl⟩ := exists_cons_of_length_pos (by omega : 0 < label.length)
    have present : rest ≠ [] := by
      rintro rfl
      simp at long
    obtain ⟨middle', c', rfl⟩ : ∃ middle' c', rest = middle' ++ [c'] :=
      ⟨rest.dropLast, rest.getLast present, (dropLast_append_getLast present).symm⟩
    rw [← cons_append, getLast?_concat] at last
    refine ⟨long, c, middle', c', rfl, by simpa using first, by simpa using last, ?_⟩
    simpa [or_assoc] using middle
  · rintro ⟨long, c, middle, c', rfl, first, last, others⟩
    simp only [isValidLabel, Bool.and_eq_true, decide_eq_true_eq]
    rw [← cons_append, getLast?_concat]
    exact ⟨⟨⟨long, by simpa using first⟩, by simpa using last⟩, by simpa [or_assoc] using others⟩

/-- A dot ends a label. -/
theorem IsLabel.no_dot {label : List Nat} (isLabel : IsLabel label) : ∀ c ∈ label, (c ≠ 46 : Bool) = true := by
  obtain ⟨-, first, middle, last, rfl, isFirst, isLast, inside⟩ := isLabel
  have letter {c : Nat} (is : isLetter c = true) : c ≠ 46 := by
    rintro rfl
    cases is
  have digit {c : Nat} (is : isDigit c = true) : c ≠ 46 := by
    rintro rfl
    cases is
  intro c member
  rw [mem_cons, mem_append, mem_singleton] at member
  rw [decide_eq_true_eq]
  rcases member with rfl | member | rfl
  · exact letter isFirst
  · rcases inside c member with is | is | rfl
    · exact letter is
    · exact digit is
    · decide
  · exact isLast.elim letter digit

/-- What the rest of the name after its first label is. -/
theorem areLabels_iff {name : List Nat} : AreLabels name ↔ IsLabel (name.takeWhile (· ≠ 46)) ∧
    match name.dropWhile (· ≠ 46) with
    | [] => True
    | _ :: rest => AreLabels rest := by
  constructor
  · intro labels
    cases labels with
    | last isLabel =>
      have whole : name.takeWhile (· ≠ 46) = name := takeWhile_eq_self_iff.mpr isLabel.no_dot
      have nothing : name.dropWhile (· ≠ 46) = [] := dropWhile_eq_nil_iff.mpr isLabel.no_dot
      rw [whole, nothing]
      exact ⟨isLabel, trivial⟩
    | @dot label rest isLabel others =>
      rw [takeWhile_append_of_pos isLabel.no_dot, dropWhile_append_of_pos isLabel.no_dot]
      exact ⟨by simpa using isLabel, by simpa using others⟩
  · rintro ⟨isLabel, others⟩
    have split := takeWhile_append_dropWhile (p := (· ≠ 46 : Nat → Bool)) (l := name)
    cases tail : name.dropWhile (· ≠ 46) with
    | nil =>
      rw [tail, append_nil] at split
      rw [← split]
      exact .last isLabel
    | cons dot rest =>
      have isDot := head?_dropWhile_not (· ≠ 46 : Nat → Bool) name
      rw [tail] at isDot
      obtain rfl : dot = 46 := by simpa using isDot
      rw [tail] at split others
      rw [← split]
      exact .dot isLabel others

/-- The loop ends within one pass more than there are characters, and its verdict is the right one. -/
theorem areValidLabels_ends {passes : Nat} {rest : List Nat} (enough : rest.length < passes) :
    ∃ valid, areValidLabels passes rest = some valid ∧ (valid = true ↔ AreLabels rest) := by
  induction passes generalizing rest with
  | zero => cases enough
  | succ passes ih =>
    rw [areLabels_iff, ← isValidLabel_iff, areValidLabels]
    split
    next isLabel =>
      have shorter := congrArg length (takeWhile_append_dropWhile (p := (· ≠ 46 : Nat → Bool)) (l := rest))
      cases tail : rest.dropWhile (· ≠ 46) with
      | nil => exact ⟨true, rfl, iff_of_true rfl ⟨isLabel, trivial⟩⟩
      | cons dot rest' =>
        rw [tail, length_append, length_cons] at shorter
        obtain ⟨valid, ends, right⟩ := ih (by omega : rest'.length < passes)
        exact ⟨valid, ends, right.trans (and_iff_right isLabel).symm⟩
    next noLabel => exact ⟨false, rfl, iff_of_false Bool.false_ne_true fun both => noLabel both.1⟩

/-- The names that are accepted; and on every string the scan ends, after at most one pass more than it has
characters. -/
theorem isValidAccountName_iff (name : List Nat) :
    (isValidAccountName name = true ↔ (3 ≤ name.length ∧ name.length ≤ 16) ∧ AreLabels name) ∧
    ∃ valid, ∀ passes, name.length < passes → areValidLabels passes name = some valid := by
  obtain ⟨valid, ends, right⟩ := areValidLabels_ends (Nat.lt_succ_self name.length)
  constructor
  · rw [isValidAccountName, Bool.and_eq_true, Bool.and_eq_true, ends]
    simp [right]
  · refine ⟨valid, fun passes enough => ?_⟩
    obtain ⟨valid', ends', right'⟩ := areValidLabels_ends enough
    rw [ends', Option.some.injEq, Bool.eq_iff_iff, right', right]

end Golos
