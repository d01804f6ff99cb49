import Golos.Protocol.AssetText
import Golos.Protocol.Operations

/-! # Converting at a price

`operator*(asset, price)` divides in 128 bits, checks that the quotient has no high word, and hands
the low word, an unsigned number of 64 bits, to `share_type`, a signed one.  How `fc::safe<int64_t>`
takes a number that does not fit is not part of this repository, so it is a parameter here
(`ShareStore`); the chain is modelled with the one that throws (`mulPriceWith_throwing`).

* `conversion_sound_iff` — when a conversion is the exact floor, keeps the order and cannot be
  turned around at a profit.
-/

namespace Golos

open Asset

/-- What `share_type` makes of an unsigned number of 64 bits: it keeps what fits. -/
structure ShareStore where
  store : Nat → Except Error Int
  range : ∀ x v, store x = .ok v → isShare v
  exact : ∀ x, x < 2 ^ 63 → store x = .ok x

namespace ShareStore

def throwing : ShareStore where
  store := toShare
  range x v stored := by
    obtain ⟨fits, same⟩ := toShare_eq_ok.mp stored
    unfold isShare
    omega
  exact x fits := toShare_eq_ok.mpr ⟨fits, rfl⟩

/-- The conversion of the language. -/
def narrowing : ShareStore where
  store x := .ok (toInt64 (x % 2 ^ 64))
  range x v stored := by
    rw [← Except.ok.inj stored]
    unfold isShare toInt64
    omega
  exact x fits := by
    rw [Nat.mod_eq_of_lt (by omega), toInt64, if_pos fits]

end ShareStore

/-! ## The functions -/

section Functions

variable (share : ShareStore)

def mulDivWith (amount : Int) (numerator : Asset) (denominator : Int) : Except Error Asset := do
  validThat (0 < denominator) (.assertion "price amount must be positive")
  let result := toUint128 (toUint128 amount * toUint128 numerator.amount) / toUint128 denominator
  validThat (result < 2 ^ 64) (.assertion "result.hi == 0")
  let result ← share.store result
  pure ⟨result, numerator.symbol⟩

/-- `operator*(asset, price)` -/
def Asset.mulPriceWith (a : Asset) (p : Price) : Except Error Asset := do
  let name ← a.symbolText
  let base ← p.base.symbolText
  if name = base then mulDivWith share a.amount p.quote p.base.amount
  else do
    let quote ← p.quote.symbolText
    if name = quote then mulDivWith share a.amount p.base p.quote.amount
    else .error (.assertion "invalid asset * price")

/-- `price::validate` with the names of the symbols as texts. -/
def Price.validateNames (p : Price) : Except Error Unit := do
  validThat (0 < p.base.amount) (.invalidValue "Amount of base must be positive")
  validThat (0 < p.quote.amount) (.invalidValue "Amount of quote must be positive")
  let base ← p.base.symbolText
  let quote ← p.quote.symbolText
  validThat (base ≠ quote) (.invalidValue "Symbols of base and quote must be different")

end Functions

/-- The amount of the other symbol, rounded down. -/
def Price.floor (p : Price) (a : Asset) : Int :=
  if a.symbolText = p.base.symbolText then a.amount * p.quote.amount / p.base.amount
  else a.amount * p.base.amount / p.quote.amount

/-! ## The symbols of the chain -/

/-- A symbol the chain has. -/
def chainSymbols : List AssetSymbol := [steemSymbol, sbdSymbol, vestsSymbol]

theorem symbolText_chain {a : Asset} (member : a.symbol ∈ chainSymbols) :
    a.symbolText = .ok (letters 7 (symbolName a.symbol)) := by
  have ends : ∀ symbol ∈ chainSymbols, symbol / 256 ^ 7 % 256 = 0 := by decide
  simp only [symbolText, ends a.symbol member]
  rfl

/-- The names of the chain's symbols are told apart by their texts. -/
theorem letters_chain {x y : AssetSymbol} (ofX : x ∈ chainSymbols) (ofY : y ∈ chainSymbols) :
    letters 7 (symbolName x) = letters 7 (symbolName y) ↔ symbolName x = symbolName y := by
  have all : ∀ x ∈ chainSymbols, ∀ y ∈ chainSymbols,
      (letters 7 (symbolName x) = letters 7 (symbolName y) ↔ symbolName x = symbolName y) := by decide
  exact all x ofX y ofY

theorem mulPriceWith_throwing {a : Asset} {p : Price} (ofA : a.symbol ∈ chainSymbols)
    (ofBase : p.base.symbol ∈ chainSymbols) (ofQuote : p.quote.symbol ∈ chainSymbols) :
    a.mulPriceWith .throwing p = a.mulPrice p := by
  simp only [mulPriceWith, symbolText_chain ofA, symbolText_chain ofBase,
    symbolText_chain ofQuote, letters_chain ofA ofBase, letters_chain ofA ofQuote, bind, Except.bind]
  rfl

/-! ## One leg of a price -/

section Legs

variable {share : ShareStore} {p : Price} {a given taken : Asset}

/-- The asset of a price that is given and the one that is taken for it. -/
inductive Price.Leg (p : Price) : (given taken : Asset) → Prop
  | forward : Price.Leg p p.base p.quote
  | backward : Price.Leg p p.quote p.base

theorem Price.Leg.symm (leg : p.Leg given taken) : p.Leg taken given := by
  cases leg with
  | forward => exact .backward
  | backward => exact .forward

/-- What `price::validate` checks, of 64-bit amounts. -/
structure Price.Sane (p : Price) : Prop where
  validated : p.validateNames = .ok ()
  baseRange : isShare p.base.amount
  quoteRange : isShare p.quote.amount

theorem Price.validateNames_eq_ok (valid : p.validateNames = .ok ()) : 0 < p.base.amount ∧ 0 < p.quote.amount ∧
      ∃ base quote, p.base.symbolText = .ok base ∧ p.quote.symbolText = .ok quote ∧ base ≠ quote := by
  obtain ⟨_, base, valid⟩ := except_bind_eq_ok.mp valid
  obtain ⟨_, quote, valid⟩ := except_bind_eq_ok.mp valid
  obtain ⟨m, isBase, valid⟩ := except_bind_eq_ok.mp valid
  obtain ⟨n, isQuote, valid⟩ := except_bind_eq_ok.mp valid
  exact ⟨validThat_eq_ok.mp base, validThat_eq_ok.mp quote, m, n, isBase, isQuote, validThat_eq_ok.mp valid⟩

theorem Price.Leg.positive (leg : p.Leg given taken) (sane : p.Sane) :
    0 < given.amount ∧ given.amount < 2 ^ 63 ∧ 0 < taken.amount ∧ taken.amount < 2 ^ 63 := by
  obtain ⟨base, quote, -⟩ := Price.validateNames_eq_ok sane.validated
  cases leg with
  | forward => exact ⟨base, sane.baseRange.2, quote, sane.quoteRange.2⟩
  | backward => exact ⟨quote, sane.quoteRange.2, base, sane.baseRange.2⟩

theorem Price.Leg.mulPriceWith_eq (leg : p.Leg given taken) (sane : p.Sane) (same : a.symbolText = given.symbolText) :
    a.mulPriceWith share p = mulDivWith share a.amount taken given.amount := by
  obtain ⟨-, -, base, quote, isBase, isQuote, differ⟩ := Price.validateNames_eq_ok sane.validated
  cases leg with
  | forward => simp only [mulPriceWith, same, isBase, bind, Except.bind, if_true]
  | backward => simp only [mulPriceWith, same, isBase, isQuote, bind, Except.bind, if_neg differ.symm, if_true]

theorem Price.Leg.floor_eq (leg : p.Leg given taken) (sane : p.Sane) (same : a.symbolText = given.symbolText) :
    p.floor a = a.amount * taken.amount / given.amount := by
  obtain ⟨-, -, base, quote, isBase, isQuote, differ⟩ := Price.validateNames_eq_ok sane.validated
  cases leg with
  | forward => rw [Price.floor, if_pos same]
  | backward =>
    rw [Price.floor, if_neg]
    rw [same, isBase, isQuote]
    exact fun h => differ (Except.ok.inj h).symm

/-- The quotient is exact in 128 bits. -/
theorem quotient_exact {amount numerator denominator : Int} (nonneg : 0 ≤ amount) (range : amount < 2 ^ 63)
    (positive : 0 < numerator ∧ numerator < 2 ^ 63) (divisor : 0 < denominator ∧ denominator < 2 ^ 63) :
    toUint128 (toUint128 amount * toUint128 numerator) / toUint128 denominator =
      (amount * numerator / denominator).toNat := by
  have product : amount * numerator < 2 ^ 128 := by
    calc amount * numerator ≤ amount * 2 ^ 63 := Int.mul_le_mul_of_nonneg_left positive.2.le nonneg
      _ < 2 ^ 128 := by omega
  have nonneg' : 0 ≤ amount * numerator := Int.mul_nonneg nonneg positive.1.le
  have quotient : 0 ≤ amount * numerator / denominator := Int.ediv_nonneg nonneg' divisor.1.le
  apply Int.natCast_inj.mp
  rw [Int.natCast_ediv, Int.toNat_of_nonneg quotient, toUint128_of_lt nonneg (by omega),
    toUint128_of_lt positive.1.le (by omega), toUint128_of_lt nonneg' product,
    toUint128_of_lt divisor.1.le (by omega)]

/-- What has no high word is handed on. -/
theorem mulDivWith_eq_ok_iff {amount denominator : Int} {numerator r : Asset} (nonneg : 0 ≤ amount)
    (range : amount < 2 ^ 63) (positive : 0 < numerator.amount ∧ numerator.amount < 2 ^ 63)
    (divisor : 0 < denominator ∧ denominator < 2 ^ 63) : mulDivWith share amount numerator denominator = .ok r ↔
      amount * numerator.amount / denominator < 2 ^ 64 ∧
        share.store (amount * numerator.amount / denominator).toNat = .ok r.amount ∧ r.symbol = numerator.symbol := by
  simp only [mulDivWith, quotient_exact nonneg range positive divisor, except_bind_eq_ok, validThat_eq_ok, pure,
    Except.pure, Except.ok.injEq]
  constructor
  · rintro ⟨_, -, _, fits, v, stored, rfl⟩
    exact ⟨by omega, stored, rfl⟩
  · rintro ⟨fits, stored, symbol⟩
    exact ⟨(), divisor.1, (), by omega, r.amount, stored, by rw [← symbol]⟩

end Legs

/-! ## Sound conversions -/

section Sound

variable {share : ShareStore} {p : Price} {a r : Asset}

/-- The exact floor, not negative, in the order of the amounts, and not more when turned around. -/
structure SoundConversion (share : ShareStore) (p : Price) (a r : Asset) : Prop where
  floor : r.amount = p.floor a
  nonneg : 0 ≤ r.amount
  monotone : ∀ b s : Asset, b.symbol = a.symbol → 0 ≤ b.amount → b.amount ≤ a.amount →
    b.mulPriceWith share p = .ok s → s.amount ≤ r.amount
  back : ∀ s : Asset, r.mulPriceWith share p = .ok s → s.amount ≤ a.amount

/-- An asset with an amount that is not negative, in one of the symbols of the price. -/
structure Convertible (p : Price) (a : Asset) : Prop where
  nonneg : 0 ≤ a.amount
  range : isShare a.amount
  symbol : a.symbolText = p.base.symbolText ∨ a.symbolText = p.quote.symbolText

theorem Convertible.leg (convertible : Convertible p a) :
    ∃ given taken, p.Leg given taken ∧ a.symbolText = given.symbolText := by
  rcases convertible.symbol with base | quote
  · exact ⟨_, _, .forward, base⟩
  · exact ⟨_, _, .backward, quote⟩

theorem symbolText_congr {b : Asset} (same : b.symbol = a.symbol) : b.symbolText = a.symbolText := by
  simp only [symbolText, same]

theorem Price.Leg.converts_iff {given taken : Asset} (leg : p.Leg given taken) (sane : p.Sane)
    (nonneg : 0 ≤ a.amount) (range : isShare a.amount) (same : a.symbolText = given.symbolText) :
    a.mulPriceWith share p = .ok r ↔
      p.floor a < 2 ^ 64 ∧ share.store (p.floor a).toNat = .ok r.amount ∧ r.symbol = taken.symbol := by
  obtain ⟨given_pos, given_range, taken_pos, taken_range⟩ := leg.positive sane
  rw [leg.mulPriceWith_eq sane same, leg.floor_eq sane same]
  exact mulDivWith_eq_ok_iff nonneg range.2 ⟨taken_pos, taken_range⟩ ⟨given_pos, given_range⟩

theorem Price.Leg.floor_nonneg {given taken : Asset} (leg : p.Leg given taken) (sane : p.Sane)
    (nonneg : 0 ≤ a.amount) (same : a.symbolText = given.symbolText) : 0 ≤ p.floor a := by
  obtain ⟨given_pos, -, taken_pos, -⟩ := leg.positive sane
  rw [leg.floor_eq sane same]
  exact Int.ediv_nonneg (Int.mul_nonneg nonneg taken_pos.le) given_pos.le

/-- Below half the range of the low word nothing is lost. -/
theorem Price.Leg.converted {given taken : Asset} (leg : p.Leg given taken) (sane : p.Sane)
    (nonneg : 0 ≤ a.amount) (range : isShare a.amount) (same : a.symbolText = given.symbolText)
    (small : p.floor a < 2 ^ 63) (converts : a.mulPriceWith share p = .ok r) :
    r.amount = p.floor a ∧ r.symbol = taken.symbol := by
  have floor_nonneg := leg.floor_nonneg sane nonneg same
  obtain ⟨-, stored, symbol⟩ := (leg.converts_iff sane nonneg range same).mp converts
  rw [share.exact _ (by omega)] at stored
  exact ⟨by rw [← Except.ok.inj stored, Int.toNat_of_nonneg floor_nonneg], symbol⟩

theorem SoundConversion.of_small (sane : p.Sane) (convertible : Convertible p a) (small : p.floor a < 2 ^ 63)
    (converts : a.mulPriceWith share p = .ok r) : SoundConversion share p a r := by
  obtain ⟨given, taken, leg, same⟩ := convertible.leg
  obtain ⟨nonneg, range, -⟩ := convertible
  obtain ⟨given_pos, -, taken_pos, -⟩ := leg.positive sane
  obtain ⟨exactly, symbol⟩ := leg.converted sane nonneg range same small converts
  have r_nonneg : 0 ≤ r.amount := exactly ▸ leg.floor_nonneg sane nonneg same
  refine ⟨exactly, r_nonneg, ?_, ?_⟩
  · intro b s ofB b_nonneg less converted
    have sameB := (symbolText_congr ofB).trans same
    have less' : p.floor b ≤ p.floor a := by
      rw [leg.floor_eq sane same, leg.floor_eq sane sameB]
      exact Int.ediv_le_ediv given_pos (Int.mul_le_mul_of_nonneg_right less taken_pos.le)
    have b_range : isShare b.amount := ⟨by omega, less.trans_lt range.2⟩
    rw [(leg.converted sane b_nonneg b_range sameB (by omega) converted).1, exactly]
    exact less'
  · intro s turned
    have sameR := symbolText_congr symbol
    -- rounding down twice stays below the amount that was given
    have less : p.floor r ≤ a.amount := by
      rw [leg.symm.floor_eq sane sameR, exactly, leg.floor_eq sane same]
      exact Int.ediv_le_of_le_mul taken_pos (Int.ediv_mul_le _ given_pos.ne')
    have r_range : isShare r.amount := ⟨by omega, by omega⟩
    rw [(leg.symm.converted sane r_nonneg r_range sameR (less.trans_lt range.2) turned).1]
    exact less

theorem conversion_sound_iff (sane : p.Sane) (convertible : Convertible p a) :
    (∀ r, a.mulPriceWith share p = .ok r → SoundConversion share p a r) ↔
      p.floor a < 2 ^ 63 ∨ 2 ^ 64 ≤ p.floor a ∨ ∀ v, share.store (p.floor a).toNat ≠ .ok v := by
  obtain ⟨given, taken, leg, same⟩ := convertible.leg
  have converts (r : Asset) := @Price.Leg.converts_iff share p a r given taken leg sane convertible.nonneg
    convertible.range same
  constructor
  · intro sound
    by_contra bad
    simp only [not_or, not_forall, not_not] at bad
    obtain ⟨large, low, v, stored⟩ := bad
    -- a result of the type cannot be the floor
    have result := sound ⟨v, taken.symbol⟩ ((converts _).mpr ⟨by omega, stored, rfl⟩)
    have range := share.range _ _ stored
    have floor : v = p.floor a := result.floor
    unfold isShare at range
    omega
  · intro fine r converted
    rcases fine with small | large | throws
    · exact .of_small sane convertible small converted
    · exact absurd ((converts r).mp converted).1 (by omega)
    · exact absurd ((converts r).mp converted).2.1 (throws _)

theorem conversion_sound_iff_half :
    (∀ r, (steem 1000).mulPriceWith .narrowing ⟨steem 2, sbd 1⟩ = .ok r →
        SoundConversion .narrowing ⟨steem 2, sbd 1⟩ (steem 1000) r) ↔
      Price.floor ⟨steem 2, sbd 1⟩ (steem 1000) < 2 ^ 63 ∨
        2 ^ 64 ≤ Price.floor ⟨steem 2, sbd 1⟩ (steem 1000) ∨
        ∀ v, ShareStore.narrowing.store (Price.floor ⟨steem 2, sbd 1⟩ (steem 1000)).toNat ≠ .ok v :=
  conversion_sound_iff ⟨by decide, by decide, by decide⟩ ⟨by decide, by decide, .inl (by decide)⟩

/-- With the conversion of the language twice the largest amounts are negative. -/
theorem conversion_turns_negative :
    Price.Sane ⟨steem 1, sbd 2⟩ ∧ Convertible ⟨steem 1, sbd 2⟩ (steem (2 ^ 62)) ∧
    (steem (2 ^ 62)).mulPriceWith .narrowing ⟨steem 1, sbd 2⟩ = .ok (sbd (-2 ^ 63)) ∧
    Price.floor ⟨steem 1, sbd 2⟩ (steem (2 ^ 62)) = 2 ^ 63 :=
  ⟨⟨by decide, by decide, by decide⟩, ⟨by decide, by decide, .inl (by decide)⟩, by decide, by decide⟩

end Sound

end Golos
