import Mathlib.Data.Int.Init
import Mathlib.Data.Nat.Digits.Lemmas

/-! # Decimal numerals

Numbers as they are written: a numeral is a string of digits, and `value` is what it stands for.
`print` writes the shortest numeral of a number; a numeral keeps its length when a number is split
off at a power of ten (`print_pow_add`).
-/

namespace Decimal

open List

/-- Every character is a digit. -/
def Digits (s : List Char) : Prop := ∀ c ∈ s, c.isDigit = true

instance {s : List Char} : Decidable (Digits s) := decidable_of_iff (s.all Char.isDigit = true) all_eq_true

def digitValue (c : Char) : Nat := c.toNat - 48

/-- The number a string of digits stands for. -/
def value (s : List Char) : Nat := Nat.ofDigits 10 (s.reverse.map digitValue)

/-- The shortest numeral of a number. -/
def print (n : Nat) : List Char := if n = 0 then ['0'] else ((Nat.digits 10 n).map Nat.digitChar).reverse

/-- A numeral with a minus sign where the number is negative. -/
def printInt (n : Int) : List Char := if n < 0 then '-' :: print n.natAbs else print n.natAbs

/-- What a numeral with an optional sign stands for. -/
def signedValue : List Char → Option Int
  | '-' :: s => if s ≠ [] ∧ Digits s then some (-(value s : Int)) else none
  | '+' :: s => if s ≠ [] ∧ Digits s then some (value s) else none
  | s => if s ≠ [] ∧ Digits s then some (value s) else none

/-! ## Digits -/

variable {s t : List Char} {c : Char} {n : Nat}

theorem digits_cons : Digits (c :: s) ↔ c.isDigit = true ∧ Digits s := forall_mem_cons

theorem code_of_isDigit (digit : c.isDigit = true) : 48 ≤ c.toNat ∧ c.toNat ≤ 57 := by
  simp only [Char.isDigit, Bool.and_eq_true, decide_eq_true_eq, UInt32.le_iff_toNat_le] at digit
  exact digit

theorem digitValue_lt (digit : c.isDigit = true) : digitValue c < 10 := by
  have code := code_of_isDigit digit
  rw [digitValue]
  omega

theorem isDigit_digitChar (small : n < 10) : (Nat.digitChar n).isDigit = true := by
  interval_cases n <;> rfl

theorem digitValue_digitChar (small : n < 10) : digitValue (Nat.digitChar n) = n := by
  interval_cases n <;> rfl

/-! ## Values -/

theorem value_append : value (s ++ t) = value s * 10 ^ t.length + value t := by
  simp only [value, reverse_append, map_append, Nat.ofDigits_append, length_map, length_reverse]
  ring

theorem value_cons : value (c :: s) = digitValue c * 10 ^ s.length + value s := by
  have single : value [c] = digitValue c := by simp [value]
  rw [← singleton_append, value_append, single]

theorem value_lt (digits : Digits s) : value s < 10 ^ s.length := by
  have bound := @Nat.ofDigits_lt_base_pow_length 10 (s.reverse.map digitValue) (by decide) ?_
  · simpa [value] using bound
  · intro x member
    obtain ⟨c, listed, rfl⟩ := mem_map.mp member
    exact digitValue_lt (digits c (mem_reverse.mp listed))

/-! ## Printing -/

theorem digits_print : Digits (print n) := by
  unfold print
  split
  · decide
  · intro c member
    obtain ⟨d, listed, rfl⟩ := mem_map.mp (mem_reverse.mp member)
    exact isDigit_digitChar (Nat.digits_lt_base (by decide) listed)

theorem print_ne_nil : print n ≠ [] := by
  unfold print
  split
  · exact cons_ne_nil _ _
  next positive =>
    rw [Ne, reverse_eq_nil_iff, map_eq_nil_iff]
    exact Nat.digits_ne_nil_iff_ne_zero.mpr positive

theorem value_print : value (print n) = n := by
  unfold print
  split
  next zero =>
    rw [zero]
    rfl
  · have same : ((Nat.digits 10 n).map Nat.digitChar).map digitValue = Nat.digits 10 n := by
      rw [map_map]
      refine Eq.trans (map_congr_left fun d listed => ?_) (map_id _)
      exact digitValue_digitChar (Nat.digits_lt_base (by decide) listed)
    rw [value, reverse_reverse, same, Nat.ofDigits_digits]

/-- The length of a numeral tells the size of the number. -/
theorem length_print (positive : n ≠ 0) : (print n).length = Nat.log 10 n + 1 := by
  rw [print, if_neg positive, length_reverse, length_map, Nat.length_digits 10 n (by decide) positive]

theorem length_print_le {d : Nat} (positive : 0 < d) (small : n < 10 ^ d) : (print n).length ≤ d := by
  by_cases zero : n = 0
  · rw [zero]
    exact positive
  · rw [length_print zero]
    exact Nat.log_lt_of_lt_pow zero small

/-- Above a power of ten stand a one and as many digits as the power has zeros. -/
theorem print_pow_add {d f : Nat} (small : f < 10 ^ d) :
    ∃ t, print (10 ^ d + f) = '1' :: t ∧ t.length = d ∧ Digits t ∧ value t = f := by
  have log : Nat.log 10 (10 ^ d + f) = d := by
    refine (Nat.log_eq_iff (.inr ⟨by decide, by omega⟩)).mpr ⟨by omega, ?_⟩
    omega
  have length : (print (10 ^ d + f)).length = d + 1 := by rw [length_print (by omega), log]
  obtain ⟨c, t, split⟩ := exists_cons_of_ne_nil (@print_ne_nil (10 ^ d + f))
  have size : t.length = d := by simpa [split] using length
  have digits : c.isDigit = true ∧ Digits t := digits_cons.mp (split ▸ digits_print)
  have total : digitValue c * 10 ^ d + value t = 10 ^ d + f := by
    rw [← size, ← value_cons, ← split, size, value_print]
  have rest : value t < 10 ^ d := size ▸ value_lt digits.2
  -- the leading digit is a one, since what follows it is below the power
  have one : digitValue c = 1 := by
    have small : digitValue c < 10 := digitValue_lt digits.1
    generalize digitValue c = x at *
    interval_cases x <;> omega
  have isOne : c = '1' := by
    have code : c.toNat = 49 := by
      rw [digitValue] at one
      omega
    exact Char.toNat_inj.mp code
  rw [one] at total
  exact ⟨t, by rw [split, isOne], size, digits.2, by omega⟩

/-! ## Signs -/

theorem printInt_char {n : Int} (member : c ∈ printInt n) : c = '-' ∨ c.isDigit = true := by
  unfold printInt at member
  split at member
  · rcases mem_cons.mp member with same | digit
    · exact .inl same
    · exact .inr (digits_print c digit)
  · exact .inr (digits_print c member)

theorem printInt_ne_nil {n : Int} : printInt n ≠ [] := by
  unfold printInt
  split
  · exact cons_ne_nil _ _
  · exact print_ne_nil

theorem signedValue_of_digits (nonempty : s ≠ []) (digits : Digits s) : signedValue s = some (value s : Int) := by
  obtain ⟨c, t, rfl⟩ := exists_cons_of_ne_nil nonempty
  have digit : c.isDigit = true := digits c mem_cons_self
  unfold signedValue
  split
  next same =>
    cases same
    cases digit
  next same =>
    cases same
    cases digit
  · exact if_pos ⟨nonempty, digits⟩

theorem signedValue_printInt {n : Int} : signedValue (printInt n) = some n := by
  unfold printInt
  split
  next negative =>
    have same : (-(n.natAbs : Int)) = n := by omega
    simp only [signedValue, print_ne_nil, digits_print, value_print, ne_eq, not_false_eq_true, and_self, if_true, same]
  next nonneg =>
    have same : (n.natAbs : Int) = n := by omega
    rw [signedValue_of_digits print_ne_nil digits_print, value_print, same]

/-- A numeral with a sign is digits behind an optional sign. -/
theorem signedValue_eq_some {v : Int} (stands : signedValue s = some v) : ∃ sign t, s = sign ++ t ∧ t ≠ [] ∧ Digits t ∧
      ((sign = ['-'] ∧ v = -(value t : Int)) ∨ ((sign = [] ∨ sign = ['+']) ∧ v = (value t : Int))) := by
  unfold signedValue at stands
  split at stands
  next t =>
    obtain ⟨⟨nonempty, digits⟩, same⟩ := Option.ite_none_right_eq_some.mp stands
    exact ⟨['-'], t, rfl, nonempty, digits, .inl ⟨rfl, (Option.some.inj same).symm⟩⟩
  next t =>
    obtain ⟨⟨nonempty, digits⟩, same⟩ := Option.ite_none_right_eq_some.mp stands
    exact ⟨['+'], t, rfl, nonempty, digits, .inr ⟨.inr rfl, (Option.some.inj same).symm⟩⟩
  · obtain ⟨⟨nonempty, digits⟩, same⟩ := Option.ite_none_right_eq_some.mp stands
    exact ⟨[], s, rfl, nonempty, digits, .inr ⟨.inl rfl, (Option.some.inj same).symm⟩⟩

end Decimal
