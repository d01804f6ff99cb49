import Golos.Lib.Decimal
import Golos.Protocol.Types

/-! # Assets as texts

`asset::to_string` writes an amount with its decimals and the name of its symbol,
`asset::from_string` reads it again.  `fc::trim` and `fc::to_int64` belong to a library of their
own; they are parameters here, and what is assumed of them is `TextLibrary.Documented`.

* `asset_round_trip_iff` — which amounts are read back as they were written;
* `asset_parsing_iff` — which of the accepted texts are read as the number they show.
-/

namespace Golos

open Decimal List Asset

variable {c : Char} {x v : Int} {s fract : List Char}

/-! ## The functions -/

/-- What the functions use of fc. -/
structure TextLibrary where
  trim : List Char → List Char
  /-- `fc::to_int64`; `none` where it throws. -/
  toInt64 : List Char → Option Int

/-- No blank at either end. -/
def Trimmed (s : List Char) : Prop := (∀ c ∈ s.head?, c.isWhitespace = false) ∧ ∀ c ∈ s.getLast?, c.isWhitespace = false

/-- `trim` takes off blanks at the ends, `to_int64` reads a signed decimal number of 64 bits. -/
structure TextLibrary.Documented (fc : TextLibrary) : Prop where
  trim_trimmed : ∀ s, Trimmed s → fc.trim s = s
  toInt64_sound : ∀ s v, fc.toInt64 s = some v → signedValue s = some v ∧ isShare v
  toInt64_complete : ∀ s v, s.head? ≠ some '+' → signedValue s = some v → isShare v → fc.toInt64 s = some v

/-- The bytes of a name, the first one lowest. -/
def packName : List Char → Nat
  | [] => 0
  | c :: rest => c.toNat + 256 * packName rest

/-- The symbol with a number of decimals and a name. -/
def packSymbol (decimals : Nat) (name : List Char) : AssetSymbol := decimals + 256 * packName name

namespace Asset

/-- `decimals` -/
def decimals (a : Asset) : Except Error Nat := do
  validThat (a.symbol % 256 < 15) (.assertion "result < 15")
  pure (a.symbol % 256)

/-- The bytes of a word from the lowest up to the first zero. -/
def letters : (bytes : Nat) → (word : Nat) → List Char
  | 0, _ => []
  | bytes + 1, word => if word % 256 = 0 then [] else Char.ofNat (word % 256) :: letters bytes (word / 256)

/-- `symbol_name` -/
def symbolText (a : Asset) : Except Error (List Char) := do
  validThat (a.symbol / 256 ^ 7 % 256 = 0) (.assertion "a[7] == 0")
  pure (letters 7 (a.symbol / 256))

/-- `to_string` -/
def toText (a : Asset) : Except Error (List Char) := do
  let decimals ← a.decimals
  let precision : Int := 10 ^ decimals
  let fraction := if 1 < precision then '.' :: (printInt (precision + a.amount.tmod precision)).drop 1 else []
  let name ← a.symbolText
  pure (printInt (a.amount.tdiv precision) ++ fraction ++ ' ' :: name)

/-- `fc::to_int64` of a part of the text. -/
def readInt64 (fc : TextLibrary) (s : List Char) : Except Error Int :=
  (fc.toInt64 s).elim (.error (.invalidValue "parse_error")) .ok

/-- The number before the space: the amount and its decimals. -/
def readAmount (fc : TextLibrary) (s : List Char) (dot : Option Nat) (space : Nat) : Except Error (Int × Nat) :=
  match dot with
  | some dot => do
    validThat (dot < space) (.invalidValue "Invalid asset notation")
    let fractpart := '1' :: (s.drop (dot + 1)).take (space - dot - 1)
    validThat (fractpart.length - 1 < 15) (.invalidValue "Asset fraction part is too long")
    let decimals := fractpart.length - 1
    let precision : Int := 10 ^ decimals
    let intpart ← readInt64 fc (s.take dot)
    let amount := wrapInt64 (intpart * precision)
    let fraction ← readInt64 fc fractpart
    let amount := wrapInt64 (amount + fraction)
    pure (wrapInt64 (amount - precision), decimals)
  | none => do
    let intpart ← readInt64 fc (s.take space)
    pure (intpart, 0)

/-- `from_string` -/
def ofText (fc : TextLibrary) (text : List Char) : Except Error Asset := do
  let s := fc.trim text
  match s.findIdx? (· = ' ') with
  | none => .error (.invalidValue "Invalid asset notation")
  | some space => do
    let (amount, decimals) ← readAmount fc s (s.findIdx? (· = '.')) space
    let name := s.drop (space + 1)
    validThat (name.length ≤ 6) (.invalidValue "Asset symbol is too long")
    pure ⟨amount, packSymbol decimals name⟩

end Asset

/-! ## Symbols -/

section Symbols

variable {name : List Char} {decimals : Nat}

/-- Characters of one byte that end no text. -/
def Bytes (name : List Char) : Prop := ∀ c ∈ name, 0 < c.toNat ∧ c.toNat < 256

theorem packName_lt (bytes : Bytes name) : packName name < 256 ^ name.length := by
  induction name with
  | nil => decide
  | cons c rest ih =>
    obtain ⟨first, others⟩ := forall_mem_cons.mp bytes
    have bound := ih others
    rw [packName, length_cons, Nat.pow_succ]
    omega

theorem letters_packName (bytes : Bytes name) {count : Nat} (room : name.length < count) :
    letters count (packName name) = name := by
  induction name generalizing count with
  | nil =>
    cases count with
    | zero => cases room
    | succ count => rfl
  | cons c rest ih =>
    obtain ⟨first, others⟩ := forall_mem_cons.mp bytes
    cases count with
    | zero => cases room
    | succ count =>
      have low : packName (c :: rest) % 256 = c.toNat := by
        rw [packName]
        omega
      have high : packName (c :: rest) / 256 = packName rest := by
        rw [packName]
        omega
      rw [letters, low, high, if_neg first.1.ne', Char.ofNat_toNat,
        ih others (Nat.lt_of_succ_lt_succ room)]

theorem packSymbol_mod (small : decimals < 256) : packSymbol decimals name % 256 = decimals := by
  unfold packSymbol AssetSymbol at *
  omega

theorem decimals_packSymbol (small : decimals < 15) (amount : Int) :
    Asset.decimals ⟨amount, packSymbol decimals name⟩ = .ok decimals := by
  rw [Asset.decimals, packSymbol_mod (by omega)]
  simp [validThat, small, bind, Except.bind, pure, Except.pure]

theorem symbolText_packSymbol (small : decimals < 15) (bytes : Bytes name) (short : name.length ≤ 6) (amount : Int) :
    symbolText ⟨amount, packSymbol decimals name⟩ = .ok name := by
  have bound : packName name < 256 ^ 6 := (packName_lt bytes).trans_le (Nat.pow_le_pow_right (by decide) short)
  have rest : packSymbol decimals name / 256 = packName name := by
    unfold packSymbol AssetSymbol
    omega
  have last : packSymbol decimals name / 256 ^ 7 % 256 = 0 := by
    unfold packSymbol AssetSymbol
    omega
  simp only [symbolText, last, rest, validThat, if_true, bind, Except.bind, pure, Except.pure,
    letters_packName bytes (Nat.lt_succ_of_le short)]

end Symbols

/-! ## The parts of a text -/

section Parts

variable {fc : TextLibrary} {s text whole fract name : List Char}

theorem findIdx?_char {i : Nat} :
    s.findIdx? (· = c) = some i ↔ ∃ before after, s = before ++ c :: after ∧ c ∉ before ∧ before.length = i := by
  constructor
  · intro found
    induction s generalizing i with
    | nil => cases found
    | cons x rest ih =>
      rw [findIdx?_cons] at found
      by_cases same : x = c
      · simp only [same, decide_true, if_true, Option.some.injEq] at found
        exact ⟨[], rest, by rw [same, nil_append], not_mem_nil, found⟩
      · simp only [same, decide_false, Bool.false_eq_true, if_false, Option.map_eq_some_iff] at found
        obtain ⟨j, later, rfl⟩ := found
        obtain ⟨before, after, rfl, absent, rfl⟩ := ih later
        exact ⟨x :: before, after, rfl, not_mem_cons_of_ne_of_not_mem (Ne.symm same) absent, rfl⟩
  · rintro ⟨before, after, rfl, absent, rfl⟩
    rw [findIdx?_append, findIdx?_eq_none_iff.mpr, findIdx?_cons]
    · simp
    · intro x member
      simpa using fun same : x = c => absent (same ▸ member)

theorem findIdx?_absent (absent : c ∉ s) : s.findIdx? (· = c) = none :=
  findIdx?_eq_none_iff.mpr fun x member => by simpa using fun same : x = c => absent (same ▸ member)

/-- A number with a dot, then a space and a name. -/
structure Dotted (s whole fract name : List Char) : Prop where
  text : s = whole ++ '.' :: fract ++ ' ' :: name
  noSpace : ' ' ∉ whole ++ '.' :: fract
  noDot : '.' ∉ whole

/-- A number without a dot, then a space and a name. -/
structure Plain (s whole name : List Char) : Prop where
  text : s = whole ++ ' ' :: name
  noSpace : ' ' ∉ whole
  noDot : '.' ∉ s

theorem wrapInt64_add_wrap {y : Int} : wrapInt64 (wrapInt64 x + y) = wrapInt64 (x + y) := by
  simp only [wrapInt64, Int.bmod_add_bmod]

theorem Dotted.ofText_eq (dotted : Dotted (fc.trim text) whole fract name) :
    ofText fc text = (do
      validThat (fract.length < 15) (.invalidValue "Asset fraction part is too long")
      let intpart ← readInt64 fc whole
      let fraction ← readInt64 fc ('1' :: fract)
      validThat (name.length ≤ 6) (.invalidValue "Asset symbol is too long")
      pure ⟨wrapInt64 (intpart * 10 ^ fract.length + fraction - 10 ^ fract.length),
        packSymbol fract.length name⟩) := by
  obtain ⟨shape, noSpace, noDot⟩ := dotted
  have space : (fc.trim text).findIdx? (· = ' ') = some (whole ++ '.' :: fract).length :=
    findIdx?_char.mpr ⟨_, _, shape, noSpace, rfl⟩
  have dot : (fc.trim text).findIdx? (· = '.') = some whole.length :=
    findIdx?_char.mpr ⟨_, fract ++ ' ' :: name, by rw [shape]; simp, noDot, rfl⟩
  have inside : whole.length < (whole ++ '.' :: fract).length := by simp
  have intpart : (fc.trim text).take whole.length = whole := by rw [shape]; simp
  have fractpart : ((fc.trim text).drop (whole.length + 1)).take ((whole ++ '.' :: fract).length - whole.length - 1) =
      fract := by
    rw [shape]
    simp
  have rest : (fc.trim text).drop ((whole ++ '.' :: fract).length + 1) = name := by
    rw [shape, drop_append]
    simp
  have before : validThat (whole.length < (whole ++ '.' :: fract).length) (.invalidValue "Invalid asset notation") =
      pure () := if_pos inside
  simp only [ofText, readAmount, space, dot, before, intpart, fractpart, rest, length_cons,
    Nat.add_sub_cancel, Int.sub_eq_add_neg, wrapInt64_add_wrap, bind_assoc, pure_bind]

theorem Plain.ofText_eq (plain : Plain (fc.trim text) whole name) :
    ofText fc text = (do
      let intpart ← readInt64 fc whole
      validThat (name.length ≤ 6) (.invalidValue "Asset symbol is too long")
      pure ⟨intpart, packSymbol 0 name⟩) := by
  obtain ⟨shape, noSpace, noDot⟩ := plain
  have space : (fc.trim text).findIdx? (· = ' ') = some whole.length :=
    findIdx?_char.mpr ⟨_, _, shape, noSpace, rfl⟩
  have intpart : (fc.trim text).take whole.length = whole := by rw [shape]; simp
  have rest : (fc.trim text).drop (whole.length + 1) = name := by rw [shape]; simp
  simp only [ofText, readAmount, space, findIdx?_absent noDot, intpart, rest, bind_assoc, pure_bind]

theorem shape_of_ofText {a : Asset} (accepted : ofText fc text = .ok a) :
    (∃ whole fract name, Dotted (fc.trim text) whole fract name) ∨ ∃ whole name, Plain (fc.trim text) whole name := by
  cases space : (fc.trim text).findIdx? (· = ' ') with
  | none => simp [ofText, space] at accepted
  | some i =>
    obtain ⟨number, name, shape, noSpace, rfl⟩ := findIdx?_char.mp space
    cases dot : (fc.trim text).findIdx? (· = '.') with
    | none =>
      have noDot : '.' ∉ fc.trim text := fun member => by
        simpa using findIdx?_eq_none_iff.mp dot '.' member
      exact .inr ⟨number, name, shape, noSpace, noDot⟩
    | some j =>
      obtain ⟨whole, rest, split, noDot, rfl⟩ := findIdx?_char.mp dot
      have inside : whole.length < number.length := by
        by_contra outside
        simp [ofText, readAmount, space, dot, validThat, outside, bind, Except.bind] at accepted
      -- the dot comes first, so the number is what stands before it, the dot and some digits
      have whole_number : whole ++ ['.'] <+: number := by
        have longer : whole ++ ['.'] <+: fc.trim text := ⟨rest, by rw [split]; simp⟩
        exact prefix_of_prefix_length_le longer ⟨' ' :: name, shape.symm⟩ (by simpa using inside)
      obtain ⟨fract, same⟩ := whole_number
      rw [append_assoc, singleton_append] at same
      exact .inl ⟨whole, fract, name, by rw [same, shape], same ▸ noSpace, noDot⟩

end Parts

/-! ## Reading -/

section Reading

variable {fc : TextLibrary} {text : List Char} {a : Asset}

inductive Sign : List Char → (negative : Bool) → Prop
  | none : Sign [] false
  | plus : Sign ['+'] false
  | minus : Sign ['-'] true

/-- A dot and the digits behind it, or nothing. -/
inductive Fraction : List Char → (fract : List Char) → Prop
  | none : Fraction [] []
  | dot {fract : List Char} : Fraction ('.' :: fract) fract

/-- A decimal number, times ten to the number of its fraction digits. -/
def decimalNumber (negative : Bool) (whole fract : List Char) : Int :=
  if negative then -(value (whole ++ fract) : Int) else value (whole ++ fract)

theorem wrapInt64_eq_self : wrapInt64 x = x ↔ isShare x := by
  unfold wrapInt64 isShare Int.bmod
  norm_num
  omega

theorem isShare_wrapInt64 : isShare (wrapInt64 x) := by
  unfold wrapInt64 isShare Int.bmod
  norm_num
  omega

/-- A fraction is added also where it should be taken off. -/
theorem wrapInt64_add_eq_sub {fraction : Int} (nonneg : 0 ≤ fraction) (small : fraction < 2 ^ 63) :
    wrapInt64 (x + fraction) = x - fraction ↔ isShare (x - fraction) ∧ fraction = 0 := by
  constructor
  · intro same
    have fits : isShare (x - fraction) := same ▸ isShare_wrapInt64
    refine ⟨fits, ?_⟩
    unfold wrapInt64 isShare Int.bmod at *
    norm_num at *
    omega
  · rintro ⟨fits, rfl⟩
    exact wrapInt64_eq_self.mpr fits

theorem readInt64_eq_ok : readInt64 fc s = .ok v ↔ fc.toInt64 s = some v := by
  unfold readInt64
  cases fc.toInt64 s <;> simp

theorem sign_of_signedValue (stands : signedValue s = some v) :
    ∃ sign negative digits, Sign sign negative ∧ s = sign ++ digits ∧ digits ≠ [] ∧ Digits digits ∧
      v = if negative then -(value digits : Int) else value digits := by
  obtain ⟨sign, digits, shape, nonempty, isNumber, ⟨rfl, same⟩ | ⟨rfl | rfl, same⟩⟩ := signedValue_eq_some stands
  · exact ⟨_, true, digits, .minus, shape, nonempty, isNumber, same⟩
  · exact ⟨_, false, digits, .none, shape, nonempty, isNumber, same⟩
  · exact ⟨_, false, digits, .plus, shape, nonempty, isNumber, same⟩

/-- The one that is put in front of the fraction is taken off again. -/
theorem fraction_of_signedValue (stands : signedValue ('1' :: fract) = some v) :
    Digits fract ∧ v = 10 ^ fract.length + (value fract : Int) := by
  obtain ⟨⟨-, digits⟩, same⟩ := Option.ite_none_right_eq_some.mp stands
  have one : value ('1' :: fract) = 1 * 10 ^ fract.length + value fract := value_cons
  refine ⟨(digits_cons.mp digits).2, ?_⟩
  rw [← Option.some.inj same, one, Nat.one_mul]
  rfl

theorem reading_exact_iff {negative : Bool} {whole : List Char} (digits : Digits fract) (short : fract.length < 15) :
    wrapInt64 ((if negative then -(value whole : Int) else value whole) * 10 ^ fract.length + value fract) =
        decimalNumber negative whole fract ↔
      isShare (decimalNumber negative whole fract) ∧ (negative = true → value fract = 0) := by
  have bound : value fract < 10 ^ 14 :=
    (value_lt digits).trans_le (Nat.pow_le_pow_right (by decide) (Nat.le_of_lt_succ short))
  rw [decimalNumber, value_append]
  push_cast
  cases negative with
  | false => simp [wrapInt64_eq_self]
  | true =>
    have split : -((value whole : Int) * 10 ^ fract.length + value fract) =
        -(value whole : Int) * 10 ^ fract.length - value fract := by ring
    simp only [if_true, split, wrapInt64_add_eq_sub (Int.natCast_nonneg (value fract)) (by omega), forall_const,
      Int.natCast_eq_zero]

theorem asset_parsing_iff (documented : fc.Documented) (accepted : ofText fc text = .ok a) :
    ∃ sign negative whole fraction fract name, Sign sign negative ∧ Fraction fraction fract ∧
      whole ≠ [] ∧ Digits whole ∧ Digits fract ∧ fc.trim text = sign ++ whole ++ fraction ++ ' ' :: name ∧
      a.symbol = packSymbol fract.length name ∧ (a.amount = decimalNumber negative whole fract ↔
        isShare (decimalNumber negative whole fract) ∧ (negative = true → value fract = 0)) := by
  obtain ⟨number, fract, name, dotted⟩ | ⟨number, name, plain⟩ := shape_of_ofText accepted
  · rw [dotted.ofText_eq] at accepted
    obtain ⟨_, short, accepted⟩ := except_bind_eq_ok.mp accepted
    obtain ⟨intpart, readWhole, accepted⟩ := except_bind_eq_ok.mp accepted
    obtain ⟨fraction, readFraction, accepted⟩ := except_bind_eq_ok.mp accepted
    obtain ⟨_, -, accepted⟩ := except_bind_eq_ok.mp accepted
    cases accepted
    obtain ⟨sign, negative, whole, signed, shape, nonempty, isWhole, rfl⟩ :=
      sign_of_signedValue (documented.toInt64_sound _ _ (readInt64_eq_ok.mp readWhole)).1
    obtain ⟨isFract, rfl⟩ := fraction_of_signedValue (documented.toInt64_sound _ _ (readInt64_eq_ok.mp readFraction)).1
    refine ⟨sign, negative, whole, _, fract, name, signed, .dot, nonempty, isWhole, isFract, ?_, rfl, ?_⟩
    · rw [dotted.text, shape]
    · rw [← Int.add_assoc, Int.add_right_comm, Int.add_sub_cancel]
      exact reading_exact_iff isFract (validThat_eq_ok.mp short)
  · rw [plain.ofText_eq] at accepted
    obtain ⟨intpart, readWhole, accepted⟩ := except_bind_eq_ok.mp accepted
    obtain ⟨_, -, accepted⟩ := except_bind_eq_ok.mp accepted
    cases accepted
    have read := documented.toInt64_sound _ _ (readInt64_eq_ok.mp readWhole)
    obtain ⟨sign, negative, whole, signed, shape, nonempty, isWhole, same⟩ := sign_of_signedValue read.1
    refine ⟨sign, negative, whole, _, [], name, signed, .none, nonempty, isWhole, forall_mem_nil _, ?_, rfl, ?_⟩
    · rw [plain.text, shape, append_nil]
    · have exactly : intpart = decimalNumber negative whole [] := by rw [same, decimalNumber, append_nil]
      simp only [← exactly, true_iff]
      exact ⟨read.2, fun _ => rfl⟩


/-- A library that does what the documentation says and no more. -/
def plainLibrary : TextLibrary where
  trim s := ((s.dropWhile Char.isWhitespace).reverse.dropWhile Char.isWhitespace).reverse
  toInt64 s := (signedValue s).filter fun v => isShare v

theorem dropWhile_of_head (first : ∀ c ∈ s.head?, c.isWhitespace = false) : s.dropWhile Char.isWhitespace = s := by
  cases s with
  | nil => rfl
  | cons c rest => rw [dropWhile_cons_of_neg (by simp [first c rfl])]

theorem plainLibrary_documented : plainLibrary.Documented where
  trim_trimmed s trimmed := by
    have last : ∀ c ∈ s.reverse.head?, c.isWhitespace = false := by
      rw [head?_reverse]
      exact trimmed.2
    simp only [plainLibrary, dropWhile_of_head trimmed.1, dropWhile_of_head last, reverse_reverse]
  toInt64_sound s v read := by
    obtain ⟨stands, fits⟩ := Option.filter_eq_some_iff.mp read
    exact ⟨stands, of_decide_eq_true fits⟩
  toInt64_complete s v _ stands fits := Option.filter_eq_some_iff.mpr ⟨stands, decide_eq_true fits⟩

theorem asset_parsing_iff_half :
    ∃ sign negative whole fraction fract name, Sign sign negative ∧ Fraction fraction fract ∧
      whole ≠ [] ∧ Digits whole ∧ Digits fract ∧
      plainLibrary.trim "1.500 GOLOS".toList = sign ++ whole ++ fraction ++ ' ' :: name ∧
      (⟨1500, steemSymbol⟩ : Asset).symbol = packSymbol fract.length name ∧
      ((⟨1500, steemSymbol⟩ : Asset).amount = decimalNumber negative whole fract ↔
        isShare (decimalNumber negative whole fract) ∧ (negative = true → value fract = 0)) :=
  asset_parsing_iff plainLibrary_documented (by decide)

/-- The fraction of a negative number is added, and a number above 64 bits wraps. -/
theorem asset_parsing_wrong : plainLibrary.Documented ∧
    ofText plainLibrary "-1.5 GOLOS".toList = .ok ⟨-5, packSymbol 1 "GOLOS".toList⟩ ∧
    decimalNumber true ['1'] ['5'] = -15 ∧
    ofText plainLibrary "9223372036854775807.5 GOLOS".toList = .ok ⟨-5, packSymbol 1 "GOLOS".toList⟩ ∧
    decimalNumber false "9223372036854775807".toList ['5'] = 92233720368547758075 :=
  ⟨plainLibrary_documented, by decide, by decide, by decide, by decide⟩

end Reading

/-! ## Round trips -/

section RoundTrip

variable {fc : TextLibrary} {amount : Int} {decimals : Nat} {name : List Char}

/-- A name of one to six letters. -/
structure SymbolName (name : List Char) : Prop where
  nonempty : name ≠ []
  short : name.length ≤ 6
  letters : ∀ c ∈ name, c.isAlpha = true

theorem code_of_isAlpha (letter : c.isAlpha = true) : 65 ≤ c.toNat ∧ c.toNat ≤ 122 := by
  have either : (c.isUpper || c.isLower) = true := letter
  rcases (Bool.or_eq_true _ _).mp either with upper | lower
  · have bounds : 65 ≤ c.val ∧ c.val ≤ 90 := of_decide_eq_true upper
    exact ⟨bounds.1, Nat.le_trans bounds.2 (by decide)⟩
  · have bounds : (decide (97 ≤ c.val) && decide (c.val ≤ 122)) = true := lower
    simp only [Bool.and_eq_true, decide_eq_true_eq] at bounds
    exact ⟨Nat.le_trans (by decide) bounds.1, bounds.2⟩

theorem not_isWhitespace (code : 32 < c.toNat) : c.isWhitespace = false := by
  simp only [Char.isWhitespace, Bool.or_eq_false_iff, decide_eq_false_iff_not]
  refine ⟨⟨⟨?_, ?_⟩, ?_⟩, ?_⟩ <;> rintro rfl <;> revert code <;> decide

theorem SymbolName.bytes (symbol : SymbolName name) : Bytes name := by
  intro c member
  have code := code_of_isAlpha (symbol.letters c member)
  omega

theorem SymbolName.noDot (symbol : SymbolName name) : '.' ∉ name := by
  intro member
  exact absurd (symbol.letters '.' member) (by decide)

theorem printInt_no_space {n : Int} : ' ' ∉ printInt n := by
  intro member
  exact absurd (printInt_char member) (by decide)

theorem printInt_no_dot {n : Int} : '.' ∉ printInt n := by
  intro member
  exact absurd (printInt_char member) (by decide)

theorem printInt_head {n : Int} : (printInt n).head? ≠ some '+' := by
  intro first
  exact absurd (printInt_char (mem_of_head? first)) (by decide)

/-- What `to_string` writes needs no trimming. -/
theorem SymbolName.trimmed (symbol : SymbolName name) {n : Int} {fraction : List Char} :
    Trimmed (printInt n ++ fraction ++ ' ' :: name) := by
  constructor
  · intro c first
    rw [append_assoc, head?_append_of_ne_nil _ printInt_ne_nil] at first
    rcases printInt_char (mem_of_head? first) with rfl | digit
    · decide
    · exact not_isWhitespace (by have := code_of_isDigit digit; omega)
  · intro c last
    have member : c ∈ name := by
      rw [getLast?_append_of_ne_nil _ (cons_ne_nil _ _),
        getLast?_cons_of_ne_nil symbol.nonempty] at last
      exact mem_of_getLast? last
    exact not_isWhitespace (by have := code_of_isAlpha (symbol.letters c member); omega)

theorem toText_packSymbol (small : decimals < 15) (symbol : SymbolName name) :
    toText ⟨amount, packSymbol decimals name⟩ = .ok (printInt (amount.tdiv (10 ^ decimals)) ++
        (if (1 : Int) < 10 ^ decimals then
          '.' :: (printInt (10 ^ decimals + amount.tmod (10 ^ decimals))).drop 1 else []) ++ ' ' :: name) := by
  simp only [Asset.toText, decimals_packSymbol small, symbolText_packSymbol small symbol.bytes symbol.short, bind,
    Except.bind, pure, Except.pure]

theorem readInt64_printInt (documented : fc.Documented) {n : Int} (fits : isShare n) :
    readInt64 fc (printInt n) = .ok n :=
  readInt64_eq_ok.mpr (documented.toInt64_complete _ _ printInt_head signedValue_printInt fits)

/-- Without decimals there is no fraction, and the sign is that of the whole. -/
theorem ofText_whole (documented : fc.Documented) (fits : isShare amount) (symbol : SymbolName name) :
    ofText fc (printInt amount ++ ' ' :: name) = .ok ⟨amount, packSymbol 0 name⟩ := by
  have trims : fc.trim (printInt amount ++ ' ' :: name) = printInt amount ++ ' ' :: name := by
    simpa using documented.trim_trimmed _ (@SymbolName.trimmed _ symbol amount [])
  have plain : Plain (fc.trim (printInt amount ++ ' ' :: name)) (printInt amount) name := by
    refine ⟨trims, printInt_no_space, ?_⟩
    rw [trims]
    simp [printInt_no_dot, symbol.noDot]
  simp only [plain.ofText_eq, readInt64_printInt documented fits, validThat, symbol.short, if_true, bind, Except.bind,
    pure, Except.pure]

theorem dotted_printed (documented : fc.Documented) (symbol : SymbolName name) {whole fraction : Int} :
    Dotted (fc.trim (printInt whole ++ '.' :: (printInt fraction).drop 1 ++ ' ' :: name)) (printInt whole)
      ((printInt fraction).drop 1) name := by
  refine ⟨documented.trim_trimmed _ symbol.trimmed, ?_, printInt_no_dot⟩
  have rest : ' ' ∉ (printInt fraction).tail := fun member => printInt_no_space (mem_of_mem_tail member)
  simp [printInt_no_space, rest]

theorem tdiv_isShare (fits : isShare amount) {n : Int} (positive : 0 < n) : isShare (amount.tdiv n) := by
  have bound : (amount.tdiv n).natAbs ≤ amount.natAbs := by
    rw [Int.natAbs_tdiv]
    exact Nat.div_le_self _ _
  unfold isShare at *
  rcases lt_or_ge amount 0 with negative | nonneg
  · have quotient := Int.tdiv_nonneg (Int.neg_nonneg_of_nonpos negative.le) positive.le
    rw [Int.neg_tdiv] at quotient
    omega
  · omega

/-- A fraction that is not negative keeps its zeros. -/
theorem ofText_nonneg (documented : fc.Documented) (fits : isShare amount) (small : decimals < 15)
    (symbol : SymbolName name) (nonneg : 0 ≤ amount.tmod (10 ^ decimals)) :
    ofText fc (printInt (amount.tdiv (10 ^ decimals)) ++
        '.' :: (printInt (10 ^ decimals + amount.tmod (10 ^ decimals))).drop 1 ++ ' ' :: name) =
      .ok ⟨amount, packSymbol decimals name⟩ := by
  have power : (0 : Int) < 10 ^ decimals := by positivity
  have bound : (10 : Int) ^ decimals ≤ 10 ^ 14 := pow_le_pow_right₀ (by decide) (Nat.le_of_lt_succ small)
  have below := Int.tmod_lt_of_pos amount power
  have split := Int.tdiv_mul_add_tmod amount (10 ^ decimals)
  obtain ⟨f, isFraction⟩ := Int.eq_ofNat_of_zero_le nonneg
  obtain ⟨t, printed, length, digits, -⟩ := @print_pow_add decimals f (by
    rw [isFraction] at below
    exact_mod_cast below)
  have written : printInt (10 ^ decimals + amount.tmod (10 ^ decimals)) = '1' :: t := by
    have cast : (10 ^ decimals + amount.tmod (10 ^ decimals)) = ((10 ^ decimals + f : Nat) : Int) := by
      rw [isFraction]
      rfl
    rw [cast, printInt, if_neg (by omega), Int.natAbs_natCast, printed]
  have dotted := @dotted_printed fc name documented symbol (amount.tdiv (10 ^ decimals))
    (10 ^ decimals + amount.tmod (10 ^ decimals))
  have readFraction : readInt64 fc ('1' :: t) = .ok (10 ^ decimals + amount.tmod (10 ^ decimals)) := by
    rw [← written]
    exact readInt64_printInt documented (by unfold isShare; omega)
  have total : amount.tdiv (10 ^ decimals) * 10 ^ decimals +
      (10 ^ decimals + amount.tmod (10 ^ decimals)) - 10 ^ decimals = amount := by omega
  rw [dotted.ofText_eq, written, drop_one, tail_cons, readFraction, length,
    readInt64_printInt documented (tdiv_isShare fits power)]
  simp only [validThat, small, symbol.short, if_true, bind, Except.bind, pure, Except.pure, total,
    wrapInt64_eq_self.mpr fits]

/-- A negative fraction loses digits, and with them decimals. -/
theorem ofText_negative (documented : fc.Documented) (small : decimals < 15)
    (symbol : SymbolName name) (negative : amount.tmod (10 ^ decimals) < 0) :
    ofText fc (printInt (amount.tdiv (10 ^ decimals)) ++
        '.' :: (printInt (10 ^ decimals + amount.tmod (10 ^ decimals))).drop 1 ++ ' ' :: name) ≠
      .ok ⟨amount, packSymbol decimals name⟩ := by
  intro accepted
  have power : (0 : Int) < 10 ^ decimals := by positivity
  have above := Int.lt_tmod_of_pos amount power
  have nonzero : 0 < decimals := by
    rcases Nat.eq_zero_or_pos decimals with rfl | positive
    · rw [pow_zero, Int.tmod_one] at negative
      exact absurd negative (lt_irrefl 0)
    · exact positive
  -- the printed sum is below the power of ten, so it has at most as many digits as there are decimals
  have length : (printInt (10 ^ decimals + amount.tmod (10 ^ decimals))).length ≤ decimals := by
    rw [printInt, if_neg (by omega)]
    refine length_print_le nonzero ?_
    have cast : ((10 ^ decimals : Nat) : Int) = 10 ^ decimals := by push_cast; rfl
    omega
  rw [(dotted_printed documented symbol).ofText_eq] at accepted
  obtain ⟨_, -, accepted⟩ := except_bind_eq_ok.mp accepted
  obtain ⟨_, -, accepted⟩ := except_bind_eq_ok.mp accepted
  obtain ⟨_, -, accepted⟩ := except_bind_eq_ok.mp accepted
  obtain ⟨_, -, accepted⟩ := except_bind_eq_ok.mp accepted
  have symbols := congrArg (· % 256) (mk.inj (Except.ok.inj accepted)).2
  simp only [length_drop] at symbols
  rw [packSymbol_mod (by omega), packSymbol_mod (by omega)] at symbols
  have digits : (printInt (10 ^ decimals + amount.tmod (10 ^ decimals))).length - 1 = decimals := symbols
  omega

theorem asset_round_trip_iff (documented : fc.Documented) (fits : isShare amount) (small : decimals < 15)
    (symbol : SymbolName name) : ∃ text, toText ⟨amount, packSymbol decimals name⟩ = .ok text ∧
      (ofText fc text = .ok ⟨amount, packSymbol decimals name⟩ ↔ 0 ≤ amount ∨ 10 ^ decimals ∣ amount) := by
  refine ⟨_, toText_packSymbol small symbol, ?_⟩
  rcases Nat.eq_zero_or_pos decimals with rfl | positive
  · simp [ofText_whole documented fits symbol]
  · have power : (1 : Int) < 10 ^ decimals := one_lt_pow₀ (by decide) positive.ne'
    rw [if_pos power]
    constructor
    · intro accepted
      by_contra neither
      obtain ⟨negative, partly⟩ := not_or.mp neither
      refine ofText_negative documented small symbol ?_ accepted
      have nonpos := Int.tmod_nonneg (10 ^ decimals : Int) (Int.neg_nonneg_of_nonpos (Int.not_le.mp negative).le)
      rw [Int.neg_tmod] at nonpos
      have nonzero : amount.tmod (10 ^ decimals) ≠ 0 := fun zero => partly (Int.dvd_of_tmod_eq_zero zero)
      omega
    · intro whole
      refine ofText_nonneg documented fits small symbol ?_
      rcases whole with nonneg | divides
      · exact Int.tmod_nonneg _ nonneg
      · rw [Int.tmod_eq_zero_of_dvd divides]

theorem asset_round_trip_iff_half : ∃ text, toText ⟨1500, packSymbol 3 "GOLOS".toList⟩ = .ok text ∧
      (ofText plainLibrary text = .ok ⟨1500, packSymbol 3 "GOLOS".toList⟩ ↔
        (0 : Int) ≤ 1500 ∨ (10 : Int) ^ 3 ∣ 1500) :=
  asset_round_trip_iff plainLibrary_documented (by decide) (by decide)
    ⟨by decide, by decide, all_eq_true.mp (by decide)⟩

/-- Minus five thousandths are written as ninety-five hundredths. -/
theorem asset_round_trip_negative : toText ⟨-5, packSymbol 3 "GOLOS".toList⟩ = .ok "0.95 GOLOS".toList ∧
    plainLibrary.Documented ∧ ofText plainLibrary "0.95 GOLOS".toList = .ok ⟨95, packSymbol 2 "GOLOS".toList⟩ :=
  ⟨by decide, plainLibrary_documented, by decide⟩

end RoundTrip

end Golos
