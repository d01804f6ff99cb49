import Mathlib.Data.List.Basic
import Mathlib.Data.List.TakeDrop
import Mathlib.Tactic.Linarith

/-! # Words in byte strings

A number stored in a fixed number of bytes, the lowest byte first.

* `valueOf_bytesOf` — what is stored is read back, up to the width;
* `bytesOf_valueOf` — a byte string is determined by its value and its length;
* `wordAt_append` — a word is read where it was written.
-/

namespace Bytes

/-- The lowest `width` bytes of a number. -/
def bytesOf : (width : Nat) → Nat → List UInt8
  | 0, _ => []
  | width + 1, n => UInt8.ofNat n :: bytesOf width (n / 256)

def valueOf : List UInt8 → Nat
  | [] => 0
  | byte :: bytes => byte.toNat + 256 * valueOf bytes

@[simp] theorem length_bytesOf (width n : Nat) : (bytesOf width n).length = width := by
  induction width generalizing n with
  | zero => rfl
  | succ width ih => simp [bytesOf, ih]

theorem valueOf_bytesOf (width n : Nat) : valueOf (bytesOf width n) = n % 256 ^ width := by
  induction width generalizing n with
  | zero => simp [bytesOf, valueOf, Nat.mod_one]
  | succ width ih =>
    have byte : (UInt8.ofNat n).toNat = n % 256 := by simp
    simp only [bytesOf, valueOf, ih, byte]
    rw [Nat.pow_succ, Nat.mul_comm (256 ^ width), Nat.mod_mul]

theorem bytesOf_valueOf (bytes : List UInt8) : bytesOf bytes.length (valueOf bytes) = bytes := by
  induction bytes with
  | nil => rfl
  | cons byte bytes ih =>
    have small := byte.toNat_lt
    have low : UInt8.ofNat (byte.toNat + 256 * valueOf bytes) = byte := by
      apply UInt8.toNat_inj.mp
      simp only [UInt8.toNat_ofNat']
      omega
    have high : (byte.toNat + 256 * valueOf bytes) / 256 = valueOf bytes := by omega
    simp only [List.length_cons, valueOf, bytesOf, low, high, ih]

/-! ## Words of eight bytes -/

/-- The eight bytes of a word. -/
def word (n : Nat) : List UInt8 := bytesOf 8 n

/-- The word at a position. -/
def wordAt (file : List UInt8) (pos : Nat) : Nat := valueOf ((file.drop pos).take 8)

@[simp] theorem length_word (n : Nat) : (word n).length = 8 := length_bytesOf 8 n

theorem valueOf_word {n : Nat} (fits : n < 2 ^ 64) : valueOf (word n) = n := by
  rw [word, valueOf_bytesOf]
  exact Nat.mod_eq_of_lt fits

theorem word_valueOf {bytes : List UInt8} (width : bytes.length = 8) : word (valueOf bytes) = bytes := by
  have same := bytesOf_valueOf bytes
  rw [width] at same
  exact same

theorem wordAt_append {front back : List UInt8} {n : Nat} (fits : n < 2 ^ 64) :
    wordAt (front ++ word n ++ back) front.length = n := by
  rw [wordAt, List.append_assoc, List.drop_left, List.take_left' (length_word n), valueOf_word fits]

/-! ## Tables of words -/

/-- Words one after another. -/
def table (words : List Nat) : List UInt8 := words.flatMap word

@[simp] theorem table_nil : table [] = [] := rfl

@[simp] theorem table_cons (n : Nat) (words : List Nat) : table (n :: words) = word n ++ table words := rfl

@[simp] theorem table_append (first second : List Nat) : table (first ++ second) = table first ++ table second :=
  List.flatMap_append

@[simp] theorem length_table (words : List Nat) : (table words).length = 8 * words.length := by
  induction words with
  | nil => rfl
  | cons n words ih => simp [ih]; omega

theorem take_table (words : List Nat) (n : Nat) : (table words).take (8 * n) = table (words.take n) := by
  induction words generalizing n with
  | nil => simp
  | cons w words ih =>
    cases n with
    | zero => simp
    | succ n =>
      have skip : 8 * (n + 1) = (word w).length + 8 * n := by simp; omega
      rw [table_cons, skip, List.take_length_add_append, ih]
      rfl

/-- The words of a table are read at the multiples of eight. -/
theorem wordAt_table {words : List Nat} {n : Nat} {back : List UInt8} (fits : ∀ w ∈ words, w < 2 ^ 64)
    (listed : n < words.length) : wordAt (table words ++ back) (8 * n) = words[n] := by
  have split : words = words.take n ++ words[n] :: words.drop (n + 1) := by simp
  have before : 8 * n = (table (words.take n)).length := by simp; omega
  have fit : words[n] < 2 ^ 64 := fits _ (List.getElem_mem listed)
  calc wordAt (table words ++ back) (8 * n)
      = wordAt (table (words.take n) ++ word words[n] ++ (table (words.drop (n + 1)) ++ back))
          (table (words.take n)).length := by
        rw [← before]
        congr 1
        conv_lhs => rw [split, table_append, table_cons]
        simp only [List.append_assoc]
    _ = words[n] := wordAt_append fit

end Bytes
