import Mathlib.Algebra.Group.Pi.Basic
import Mathlib.Algebra.Group.Int.Defs
import Golos.Lib.Stateful

/-! # Names, assets and prices

The value types of `golos::protocol` that the chain database computes with.

* `fc::fixed_string<>` keeps an account name as one number of sixteen bytes, most
  significant first, so a name is that number and names are ordered by it.
* `asset_symbol_type` is the number the source writes: the decimals in the low
  byte, the letters of the symbol above it.
* `share_type` is `safe<int64_t>`, which throws when a result does not fit.  An
  amount is an unbounded integer here, so every run of the code is a run of the
  model and the model also has the runs the overflow check would have stopped.
* `uint128_t` wraps: its values are natural numbers below `2 ^ 128`.
-/

namespace Golos

/-! ## Exceptions -/

/-- The exceptions of `golos/protocol/exceptions.hpp` and `FC_ASSERT`.  The texts are
the format strings of the source, with a placeholder written as a dollar sign and
its name. -/
inductive Error where
  | assertion (message : String)
  | invalidValue (message : String)
  | invalidParameter (param message : String)
  | logic (message : String)
  | insufficientFunds (balance : String)
  | bandwidth (message : String)
  | missingObject (type : String)
  | objectAlreadyExist (type : String)
  | unsupportedOperation (message : String)
  | internal (message : String)
  | authority (message : String)
  /-- Not an exception: the process stops, or what it does is not defined. -/
  | crash (message : String)
  deriving DecidableEq, Repr

/-- What a `catch` catches. -/
def Error.isException : Error → Bool
  | .crash _ => false
  | _ => true

/-- `GOLOS_CHECK_VALUE`, `GOLOS_CHECK_LOGIC` and the like in a `validate` method. -/
def validThat (c : Prop) [Decidable c] (e : Error) : Except Error Unit :=
  if c then .ok () else .error e

@[simp] theorem validThat_eq_ok {c : Prop} [Decidable c] {e : Error} {u : Unit} : validThat c e = .ok u ↔ c := by
  unfold validThat
  split <;> simp [*]

theorem except_bind_eq_ok {α β : Type} {x : Except Error α} {f : α → Except Error β} {b : β} :
    (x >>= f) = .ok b ↔ ∃ a, x = .ok a ∧ f a = .ok b := by
  cases x with
  | error e => simp [bind, Except.bind]
  | ok a => simp [bind, Except.bind]

/-! ## Account names -/

structure AccountName where
  packed : Nat
  deriving DecidableEq, Repr

namespace AccountName

/-- `account_name_type()`, also `STEEMIT_PROXY_TO_SELF_ACCOUNT` and
`STEEMIT_ROOT_POST_PARENT`. -/
def blank : AccountName := ⟨0⟩

/-- `STEEMIT_NULL_ACCOUNT` -/
def null : AccountName := ⟨0x6e756c6c000000000000000000000000⟩

/-- `STEEMIT_MINER_ACCOUNT` -/
def miners : AccountName := ⟨0x6d696e65727300000000000000000000⟩

/-- `STEEMIT_TEMP_ACCOUNT` -/
def temp : AccountName := ⟨0x74656d70000000000000000000000000⟩

/-- `STEEMIT_INIT_MINER_NAME` -/
def initMiner : AccountName := ⟨0x6379626572666f756e64657200000000⟩

/-- "alice", of the runs on fixed inputs -/
def alice : AccountName := ⟨0x616c6963650000000000000000000000⟩

/-- "bob" -/
def bob : AccountName := ⟨0x626f6200000000000000000000000000⟩

/-- The text of a name: its bytes before the first zero. -/
def bytes (name : AccountName) : List Nat :=
  ((List.range 16).map fun i => name.packed / 256 ^ (15 - i) % 256).takeWhile (· ≠ 0)

end AccountName

/-- `is_letter` -/
def isLetter (x : Nat) : Bool := 97 ≤ x && x ≤ 122

/-- `is_digit` -/
def isDigit (x : Nat) : Bool := 48 ≤ x && x ≤ 57

/-- One pass of the loop of `is_valid_account_name`: the characters up to a dot. -/
def isValidLabel (label : List Nat) : Bool :=
  3 ≤ label.length && (label.head?.any isLetter) &&
    (label.getLast?.any fun t => isLetter t || isDigit t) &&
    label.tail.dropLast.all fun t => isLetter t || isDigit t || t == 45

/-- The loop of `is_valid_account_name`, from the position the rest of the name
starts at; nothing if it has not ended after so many passes. -/
def areValidLabels : (passes : Nat) → List Nat → Option Bool
  | 0, _ => none
  | passes + 1, rest =>
    if isValidLabel (rest.takeWhile (· ≠ 46)) then
      match rest.dropWhile (· ≠ 46) with
      | [] => some true
      | _ :: rest => areValidLabels passes rest
    else some false

/-- `is_valid_account_name`; every pass takes at least one character. -/
def isValidAccountName (name : List Nat) : Bool :=
  3 ≤ name.length && name.length ≤ 16 && areValidLabels (name.length + 1) name = some true

def AccountName.isValid (name : AccountName) : Bool := isValidAccountName name.bytes

abbrev Permlink := String

/-- `time_point_sec` counts seconds. -/
abbrev Time := Nat

def Time.maximum : Time := 4294967295

/-! ## Machine integers -/

def toUint128 (x : Int) : Nat := (x % 2 ^ 128).toNat

theorem toUint128_of_lt {x : Int} (nonneg : 0 ≤ x) (fits : x < 2 ^ 128) : (toUint128 x : Int) = x := by
  rw [toUint128, Int.emod_eq_of_lt nonneg fits, Int.toNat_of_nonneg nonneg]

theorem toUint128_lt_iff {x y : Int} (hx : 0 ≤ x ∧ x < 2 ^ 128) (hy : 0 ≤ y ∧ y < 2 ^ 128) :
    toUint128 x < toUint128 y ↔ x < y := by
  rw [← Int.ofNat_lt, toUint128_of_lt hx.1 hx.2, toUint128_of_lt hy.1 hy.2]

theorem toUint128_inj {x y : Int} (hx : 0 ≤ x ∧ x < 2 ^ 128) (hy : 0 ≤ y ∧ y < 2 ^ 128) :
    toUint128 x = toUint128 y ↔ x = y := by
  rw [← Int.ofNat_inj, toUint128_of_lt hx.1 hx.2, toUint128_of_lt hy.1 hy.2]

/-- An unsigned 64-bit value stored in an `int64_t`. -/
def toInt64 (x : Nat) : Int := if x < 2 ^ 63 then x else (x : Int) - 2 ^ 64

/-- An `int64_t` passed as an `int`. -/
def toInt32 (x : Int) : Int := x.bmod (2 ^ 32)

/-- The result of unchecked `int64_t` arithmetic. -/
def wrapInt64 (x : Int) : Int := x.bmod (2 ^ 64)

/-- `share_type` is `fc::safe<int64_t>`, which throws when a value does not fit.  The type is not part of the
repository; a conversion that does not check would differ from 2^63 on, which no amount in circulation reaches. -/
def toShare (x : Nat) : Except Error Int :=
  if x < 2 ^ 63 then .ok x else .error (.assertion "Integer Overflow")

@[simp] theorem toShare_eq_ok {x : Nat} {r : Int} : toShare x = .ok r ↔ x < 2 ^ 63 ∧ (x : Int) = r := by
  unfold toShare
  split
  next fits =>
    exact ⟨fun h => ⟨fits, by cases h; rfl⟩, fun h => by rw [h.2]⟩
  next overflows =>
    exact ⟨fun h => (by cases h), fun h => absurd h.1 overflows⟩

/-- The range of `share_type`. -/
def isShare (x : Int) : Prop := -2 ^ 63 ≤ x ∧ x < 2 ^ 63

instance {x : Int} : Decidable (isShare x) := inferInstanceAs (Decidable (_ ∧ _))

/-! ## Assets -/

abbrev AssetSymbol := Nat

/-- GOLOS with 3 digits of precision. -/
def steemSymbol : AssetSymbol := 0x534f4c4f4703

/-- GBG with 3 digits of precision. -/
def sbdSymbol : AssetSymbol := 0x47424703

/-- GESTS with 6 digits of precision. -/
def vestsSymbol : AssetSymbol := 0x535453454706

/-- The letters above the decimals byte. -/
def symbolName (symbol : AssetSymbol) : Nat := symbol / 256

structure Asset where
  amount : Int
  symbol : AssetSymbol
  deriving DecidableEq, Repr

namespace Asset

def steem (amount : Int) : Asset := ⟨amount, steemSymbol⟩

def sbd (amount : Int) : Asset := ⟨amount, sbdSymbol⟩

def vests (amount : Int) : Asset := ⟨amount, vestsSymbol⟩

instance : Neg Asset := ⟨fun a => ⟨-a.amount, a.symbol⟩⟩

@[simp] theorem neg_amount (a : Asset) : (-a).amount = -a.amount := rfl

@[simp] theorem neg_symbol (a : Asset) : (-a).symbol = a.symbol := rfl

@[simp] theorem steem_amount (x : Int) : (steem x).amount = x := rfl

@[simp] theorem steem_symbol (x : Int) : (steem x).symbol = steemSymbol := rfl

@[simp] theorem sbd_amount (x : Int) : (sbd x).amount = x := rfl

@[simp] theorem sbd_symbol (x : Int) : (sbd x).symbol = sbdSymbol := rfl

@[simp] theorem vests_amount (x : Int) : (vests x).amount = x := rfl

@[simp] theorem vests_symbol (x : Int) : (vests x).symbol = vestsSymbol := rfl

end Asset

/-! ## Prices -/

structure Price where
  base : Asset
  quote : Asset
  deriving DecidableEq, Repr

namespace Price

/-- The default price, which `is_null` tests for. -/
def null : Price := ⟨Asset.steem 0, Asset.steem 0⟩

/-- `operator==` on prices: the same symbols and equal cross products. -/
def eq (a b : Price) : Bool :=
  a.base.symbol = b.base.symbol && a.quote.symbol = b.quote.symbol &&
    toUint128 (b.quote.amount * a.base.amount) = toUint128 (a.quote.amount * b.base.amount)

/-- `operator<` on prices: by symbols first, then by cross products. -/
def lt (a b : Price) : Bool :=
  if a.base.symbol ≠ b.base.symbol then a.base.symbol < b.base.symbol
  else if a.quote.symbol ≠ b.quote.symbol then a.quote.symbol < b.quote.symbol
  else toUint128 (b.quote.amount * a.base.amount) < toUint128 (a.quote.amount * b.base.amount)

def isNull (p : Price) : Bool := p.eq null

/-- `~p` -/
def inverse (p : Price) : Price := ⟨p.quote, p.base⟩

end Price

/-- One branch of `operator*(asset, price)`: `amount * numerator / denominator`
in 128 bits, refused when it does not fit. -/
def mulDiv (amount : Int) (numerator : Asset) (denominator : Int) : Except Error Asset := do
  validThat (0 < denominator) (.assertion "price amount must be positive")
  let result := toUint128 (toUint128 amount * toUint128 numerator.amount) / toUint128 denominator
  validThat (result < 2 ^ 64) (.assertion "result.hi == 0")
  let result ← toShare result
  pure ⟨result, numerator.symbol⟩

/-- `operator*(asset, price)` -/
def Asset.mulPrice (a : Asset) (p : Price) : Except Error Asset :=
  if symbolName a.symbol = symbolName p.base.symbol then mulDiv a.amount p.quote p.base.amount
  else if symbolName a.symbol = symbolName p.quote.symbol then
    mulDiv a.amount p.base p.quote.amount
  else .error (.assertion "invalid asset * price")

theorem mulDiv_eq_ok {amount : Int} {numerator : Asset} {denominator : Int} {r : Asset}
    (h : mulDiv amount numerator denominator = .ok r) : 0 < denominator ∧ r.symbol = numerator.symbol ∧
      r.amount = (toUint128 (toUint128 amount * toUint128 numerator.amount) / toUint128 denominator : Nat) := by
  simp only [mulDiv, bind, Except.bind, pure, Except.pure] at h
  split at h
  · cases h
  next positive =>
    split at h
    · cases h
    · split at h
      · cases h
      next fits =>
        cases h
        exact ⟨validThat_eq_ok.mp positive, rfl, (toShare_eq_ok.mp fits).2.symm⟩

/-- Multiplying by a price gives no negative amount. -/
theorem Asset.mulPrice_nonneg {a r : Asset} {p : Price} (h : a.mulPrice p = .ok r) : 0 ≤ r.amount := by
  unfold mulPrice at h
  split at h
  · rw [(mulDiv_eq_ok h).2.2]; exact Int.natCast_nonneg _
  · split at h
    · rw [(mulDiv_eq_ok h).2.2]; exact Int.natCast_nonneg _
    · cases h

end Golos
