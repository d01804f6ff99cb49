import Mathlib.Algebra.Ring.Pi
import Mathlib.Tactic.LinearCombination
import Golos.Lib.Exchange
import Golos.Chain.Supply.Conservation

/-! # Matching against the order book

`apply_order` trades a new order with the resting orders it crosses, best price first,
until it is gone or none is left.  Every trade is an exchange at the resting order's
price.  The invariant of the book is that every order in it can buy at least one unit
at its own price; it is what makes every trade move something and every pass of the
loop remove an order.
-/

namespace Golos

open Stateful Exchange Database Store List Asset LimitOrder

variable {x y amount denominator : Int} {numerator r : Asset} {o new resting order : LimitOrder} {σ ε : Type}
  {s : Database} {key newKey k : OrderKey} {sellPrice : Price} {alice : Balances}

/-! ## Multiplication with a price -/

/-- The values of a positive `share_type`. -/
def IsPositiveShare (x : Int) : Prop := 0 < x ∧ x < 2 ^ 63

theorem product_lt (hx : IsPositiveShare x) (hy : IsPositiveShare y) : x * y < 2 ^ 126 := by
  calc
    x * y ≤ x * 2 ^ 63 := mul_le_mul_of_nonneg_left hy.2.le hx.1.le
    _ < 2 ^ 63 * 2 ^ 63 := mul_lt_mul_of_pos_right hx.2 (by norm_num)
    _ = 2 ^ 126 := by norm_num

/-- In 128 bits the product of two shares does not wrap. -/
theorem quotient_eq {z : Int} (hx : IsPositiveShare x) (hy : IsPositiveShare y) (hz : IsPositiveShare z) :
    ((toUint128 ((toUint128 x : Int) * (toUint128 y : Int)) / toUint128 z : Nat) : Int) = x * y / z := by
  have value {v : Int} (share : IsPositiveShare v) : (toUint128 v : Int) = v :=
    toUint128_of_lt share.1.le (lt_trans share.2 (by norm_num))
  have product : (toUint128 (x * y) : Int) = x * y :=
    toUint128_of_lt (mul_nonneg hx.1.le hy.1.le) (by linarith [product_lt hx hy])
  rw [Int.natCast_ediv, value hx, value hy, value hz, product]

/-- For amounts that fit, a product with a price is the quotient rounded down. -/
theorem mulDiv_eq (amountShare : IsPositiveShare amount)
    (numeratorShare : IsPositiveShare numerator.amount) (denominatorShare : IsPositiveShare denominator)
    (fits : amount * numerator.amount / denominator < 2 ^ 63) : mulDiv amount numerator denominator =
      .ok ⟨amount * numerator.amount / denominator, numerator.symbol⟩ := by
  have quotient := quotient_eq amountShare numeratorShare denominatorShare
  generalize named : toUint128 ((toUint128 amount : Int) * (toUint128 numerator.amount : Int)) /
    toUint128 denominator = result at quotient
  have small : result < 2 ^ 63 := by omega
  have positive : validThat (0 < denominator) (.assertion "price amount must be positive") = .ok () :=
    validThat_eq_ok.mpr denominatorShare.1
  have low : validThat (result < 2 ^ 64) (.assertion "result.hi == 0") = .ok () :=
    validThat_eq_ok.mpr (by omega)
  have share : toShare result = .ok (amount * numerator.amount / denominator) :=
    toShare_eq_ok.mpr ⟨small, quotient⟩
  simp only [mulDiv, named, positive, low, share, bind, Except.bind, pure, Except.pure]

/-! ## Orders -/

namespace LimitOrder

abbrev base (o : LimitOrder) : Asset := o.sellPrice.base

abbrev quote (o : LimitOrder) : Asset := o.sellPrice.quote

/-- An order of the GOLOS:GBG market that can buy at least one unit at its own price. -/
structure Valid (o : LimitOrder) : Prop where
  market : isGolosGbgMarket o.base.symbol o.quote.symbol
  forSale : IsPositiveShare o.forSale
  baseShare : IsPositiveShare o.base.amount
  quoteShare : IsPositiveShare o.quote.amount
  buysOne : o.base.amount ≤ o.forSale * o.quote.amount
  fits : o.forSale * o.quote.amount / o.base.amount < 2 ^ 63

/-- A resting order sells what the new one buys, at a price that is not above its limit. -/
structure Crosses (resting new : LimitOrder) : Prop where
  sells : resting.base.symbol = new.quote.symbol
  buys : resting.quote.symbol = new.base.symbol
  price : resting.quote.amount * new.quote.amount ≤ resting.base.amount * new.base.amount

theorem Valid.names_ne (valid : o.Valid) : symbolName o.quote.symbol ≠ symbolName o.base.symbol := by
  have market := valid.market
  simp only [isGolosGbgMarket, Bool.or_eq_true, Bool.and_eq_true, decide_eq_true_eq] at market
  rcases market with ⟨b, q⟩ | ⟨b, q⟩ <;> (rw [b, q]; decide)

theorem Valid.share_of_part (valid : o.Valid) {part : Int} (pos : 0 < part) (le : part ≤ o.forSale) :
    IsPositiveShare part := ⟨pos, lt_of_le_of_lt le valid.forSale.2⟩

theorem Valid.part_fits (valid : o.Valid) {part : Int} (le : part ≤ o.forSale) :
    part * o.quote.amount / o.base.amount < 2 ^ 63 := by
  refine lt_of_le_of_lt (Int.ediv_le_ediv valid.baseShare.1 ?_) valid.fits
  exact mul_le_mul_of_nonneg_right le valid.quoteShare.1.le

/-- What an order asks for a part of what it sells. -/
theorem Valid.times_part (valid : o.Valid) {part : Int} (pos : 0 < part) (le : part ≤ o.forSale) :
    (⟨part, o.base.symbol⟩ : Asset).mulPrice o.sellPrice =
      .ok ⟨part * o.quote.amount / o.base.amount, o.quote.symbol⟩ := by
  rw [mulPrice, if_pos rfl]
  exact mulDiv_eq (valid.share_of_part pos le) valid.quoteShare valid.baseShare (valid.part_fits le)

/-- What an order gives for a payment in the symbol it buys. -/
theorem Valid.times_payment (valid : o.Valid) {payment : Asset} (share : IsPositiveShare payment.amount)
    (symbol : payment.symbol = o.quote.symbol) (fits : payment.amount * o.base.amount / o.quote.amount < 2 ^ 63) :
    payment.mulPrice o.sellPrice = .ok ⟨payment.amount * o.base.amount / o.quote.amount, o.base.symbol⟩ := by
  rw [mulPrice, symbol, if_neg valid.names_ne, if_pos rfl]
  exact mulDiv_eq share valid.baseShare valid.quoteShare fits

/-- What is left of an order after a sale is valid as long as it can buy one unit. -/
theorem Valid.part (valid : o.Valid) {part : Int} (pos : 0 < part) (le : part ≤ o.forSale)
    (buysOne : o.base.amount ≤ part * o.quote.amount) : Valid { o with forSale := part } where
  market := valid.market
  forSale := valid.share_of_part pos le
  baseShare := valid.baseShare
  quoteShare := valid.quoteShare
  buysOne := buysOne
  fits := valid.part_fits le

end LimitOrder

/-- A product with a price that is not refused fits. -/
theorem mulDiv_lt (h : mulDiv amount numerator denominator = .ok r) : r.amount < 2 ^ 63 := by
  simp only [mulDiv, except_bind_eq_ok, toShare_eq_ok] at h
  obtain ⟨_, _, _, _, share, ⟨small, same⟩, equal⟩ := h
  cases equal
  simp only [← same]
  exact_mod_cast small

theorem toUint128_of_neg (negative : x < 0) (range : -2 ^ 128 ≤ x) : (toUint128 x : Int) = x + 2 ^ 128 := by
  have wrapped : x % 2 ^ 128 = x + 2 ^ 128 := by
    rw [← Int.add_emod_right, Int.emod_eq_of_lt (by omega) (by omega)]
  rw [toUint128, wrapped, Int.toNat_of_nonneg (by omega)]

/-- A negative amount makes a product with a price far too large. -/
theorem pos_of_mulDiv (range : -2 ^ 63 ≤ amount)
    (numeratorShare : IsPositiveShare numerator.amount) (denominatorShare : IsPositiveShare denominator)
    (h : mulDiv amount numerator denominator = .ok r) (pos : 0 < r.amount) : 0 < amount := by
  by_contra notPos
  have value := (mulDiv_eq_ok h).2.2
  have small := mulDiv_lt h
  have denominatorBound := denominatorShare.2
  rw [Int.natCast_ediv, toUint128_of_lt denominatorShare.1.le (by omega)] at value
  have numeratorValue := toUint128_of_lt numeratorShare.1.le (lt_trans numeratorShare.2 (by norm_num))
  rcases (not_lt.mp notPos).lt_or_eq with negative | zero
  · have low : -2 ^ 126 ≤ amount * numerator.amount := by
      calc
        (-2 ^ 126 : Int) = -2 ^ 63 * 2 ^ 63 := by norm_num
        _ ≤ -2 ^ 63 * numerator.amount := by have := numeratorShare.2; omega
        _ ≤ amount * numerator.amount := mul_le_mul_of_nonneg_right range numeratorShare.1.le
    have below : amount * numerator.amount < 0 := mul_neg_of_neg_of_pos negative numeratorShare.1
    have product : (toUint128 ((toUint128 amount : Int) * (toUint128 numerator.amount : Int)) : Int) =
        amount * numerator.amount + 2 ^ 128 := by
      rw [numeratorValue, toUint128_of_neg negative (by omega), ← toUint128_of_neg below (by omega), add_mul]
      unfold toUint128
      rw [Int.add_mul_emod_self_left]
    rw [product] at value
    have large : (2 ^ 63 : Int) ≤ (amount * numerator.amount + 2 ^ 128) / denominator :=
      (Int.le_ediv_iff_mul_le denominatorShare.1).mpr (by omega)
    omega
  · rw [zero] at value
    simp only [toUint128, Int.zero_emod, Int.toNat_zero, Nat.cast_zero, zero_mul, Int.zero_ediv] at value
    omega

/-- The orders the two evaluators create from operations that were validated; amounts are
64-bit. -/
inductive LimitOrder.Accepted : LimitOrder → Prop
  | create (op : LimitOrderCreateOperation) (created : Time) (valid : op.validate = .ok ())
      (sellFits : op.amountToSell.amount < 2 ^ 63) (receiveFits : op.minToReceive.amount < 2 ^ 63) :
      Accepted { created, expiration := op.expiration, forSale := op.amountToSell.amount
                 sellPrice := ⟨op.amountToSell, op.minToReceive⟩ }
  | create2 (op : LimitOrderCreate2Operation) (created : Time) (valid : op.validate = .ok ())
      (sellFits : -2 ^ 63 ≤ op.amountToSell.amount ∧ op.amountToSell.amount < 2 ^ 63)
      (baseFits : op.exchangeRate.base.amount < 2 ^ 63) (quoteFits : op.exchangeRate.quote.amount < 2 ^ 63) :
      Accepted { created, expiration := op.expiration, forSale := op.amountToSell.amount
                 sellPrice := op.exchangeRate }

theorem LimitOrder.Accepted.valid (accepted : o.Accepted) : o.Valid := by
  cases accepted with
  | create op created valid sellFits receiveFits =>
    simp only [LimitOrderCreateOperation.validate, Price.validate, except_bind_eq_ok, validThat_eq_ok] at valid
    obtain ⟨_, _, _, market, _, sells, _, receives, _⟩ := valid
    refine ⟨market, ⟨sells, sellFits⟩, ⟨sells, sellFits⟩, ⟨receives, receiveFits⟩, ?_, ?_⟩
    · exact le_mul_of_one_le_right sells.le receives
    · rwa [Int.mul_ediv_cancel_left _ (ne_of_gt sells)]
  | create2 op created valid sellFits baseFits quoteFits =>
    simp only [LimitOrderCreate2Operation.validate, Price.validate, except_bind_eq_ok, validThat_eq_ok] at valid
    obtain ⟨_, _, _, ⟨_, base, _, quote, _⟩, _, market, _, sells, receive, worth, buys⟩ := valid
    have baseShare : IsPositiveShare op.exchangeRate.base.amount := ⟨base, baseFits⟩
    have quoteShare : IsPositiveShare op.exchangeRate.quote.amount := ⟨quote, quoteFits⟩
    rw [mulPrice, if_pos (congrArg symbolName sells)] at worth
    have forSale : IsPositiveShare op.amountToSell.amount :=
      ⟨pos_of_mulDiv sellFits.1 quoteShare baseShare worth buys, sellFits.2⟩
    have value : receive.amount = op.amountToSell.amount * op.exchangeRate.quote.amount /
        op.exchangeRate.base.amount := by
      rw [(mulDiv_eq_ok worth).2.2, quotient_eq forSale quoteShare baseShare]
    refine ⟨?_, forSale, baseShare, quoteShare, ?_, ?_⟩
    · rwa [← sells]
    · rw [value] at buys
      have one := (Int.le_ediv_iff_mul_le base).mp buys
      rwa [zero_add, one_mul] at one
    · rw [← value]
      exact mulDiv_lt worth

/-- Every order in the book is valid. -/
def Database.ValidBook (s : Database) : Prop := ∀ k o, s.orders.find? k = some o → o.Valid

/-- The trade of two orders at the price of the resting one: what the new order pays and
what it receives. -/
def LimitOrder.trade (resting new : LimitOrder) : Int × Int :=
  exchange resting.forSale resting.base.amount resting.quote.amount new.forSale

theorem fromExcept_ok {α : Type} {a : α} : (fromExcept (.ok a) : StateT σ (Except ε) α) = pure a := rfl

theorem check_pos {c : Prop} [Decidable c] {e : ε} (h : c) : (check c e : StateT σ (Except ε) PUnit) = pure ⟨⟩ :=
  if_pos h

theorem matchAmounts_eq (validNew : new.Valid) (validResting : resting.Valid)
    (buys : resting.quote.symbol = new.base.symbol) : matchAmounts new resting =
      pure (⟨(resting.trade new).1, resting.quote.symbol⟩, ⟨(resting.trade new).2, resting.base.symbol⟩) := by
  have received := @exchange_received_le resting.forSale _ _ new.forSale
    validResting.baseShare.1 validResting.quoteShare.1
  rw [trade]
  have whole : resting.amountForSale.mulPrice resting.sellPrice =
      .ok ⟨resting.forSale * resting.quote.amount / resting.base.amount, resting.quote.symbol⟩ :=
    validResting.times_part validResting.forSale.1 le_rfl
  simp only [matchAmounts, times, whole, fromExcept_ok, pure_bind]
  rw [check_pos (by simp [amountForSale, buys]), pure_bind]
  unfold exchange at received ⊢
  split
  next affordable =>
    rw [if_pos affordable] at received
    have worth : new.amountForSale.mulPrice resting.sellPrice =
        .ok ⟨new.forSale * resting.base.amount / resting.quote.amount, resting.base.symbol⟩ :=
      validResting.times_payment validNew.forSale buys.symm
        (lt_of_le_of_lt received validResting.forSale.2)
    rw [worth, fromExcept_ok, pure_bind, amountForSale, buys]
  · rfl

/-! ## Filling one order -/

theorem cancelOrder_orders : Ensures s (cancelOrder key) fun _ t => t.orders = s.orders.erase key := by
  simp only [cancelOrder, getLimitOrder, fetch, getAccount, ensures_steps]
  intro _ _ _ _ _ t credited
  have kept : t.orders = s.orders := read_of_run Evaluator.keepsOrders .orders credited rfl
  exact kept ▸ orders_isHolder.table_remove

/-- The state of an order after a fill: gone, or valid with less for sale. -/
structure Filled (key : OrderKey) (o : LimitOrder) (pays : Int) (filled : Bool) (s t : Database) : Prop where
  others : ∀ k, k ≠ key → t.orders.find? k = s.orders.find? k
  whole : pays = o.forSale → filled = true
  gone : filled = true → t.orders.find? key = none
  left : filled = false → ∃ o', t.orders.find? key = some o' ∧ o'.Valid ∧ o'.sellPrice = o.sellPrice ∧
    o'.forSale ≤ o.forSale

theorem fillOrder_ensures {pays receives : Asset}
    (found : s.orders.find? key = some o) (valid : o.Valid) (pos : 0 < pays.amount) (enough : pays.amount ≤ o.forSale) :
    Ensures s (fillOrder key pays receives) fun filled t => Filled key o pays.amount filled s t := by
  simp only [fillOrder, getLimitOrder, fetch, getAccount, ensures_steps, found, Option.some.injEq,
    forall_eq']
  intro _ _ _ _ _ t credited
  have kept : t.orders = s.orders := read_of_run Evaluator.keepsOrders .orders credited rfl
  refine ensures_ite.mpr ⟨fun all => ?_, fun partly => ?_⟩
  · simp only [ensures_steps]
    refine orders_isHolder.table_remove.mono fun _ u removed => ?_
    exact {
      others := fun k other => by rw [removed, find?_erase, if_neg other, kept]
      whole := fun _ => rfl
      gone := fun _ => by rw [removed, find?_erase, if_pos rfl]
      left := fun h => by cases h }
  · have left : pays.amount < o.forSale := lt_of_le_of_ne enough partly
    simp only [change, fetch, updateOrders, ensures_steps, kept, found, find?_modify, if_true,
      Option.map_some, Option.some.injEq, forall_eq']
    intro asked worth
    have amount : asked.amount = (o.forSale - pays.amount) * o.quote.amount / o.base.amount := by
      have same := (@valid.times_part _ (o.forSale - pays.amount) (by omega) (by omega)).symm.trans worth
      cases same
      rfl
    refine ensures_ite.mpr ⟨fun nothing => ?_, fun something => ?_⟩
    · simp only [ensures_steps]
      refine cancelOrder_orders.mono fun _ u removed => ?_
      exact {
        others := fun k other => by
          rw [removed, find?_erase, if_neg other, find?_modify, if_neg other]
        whole := fun _ => rfl
        gone := fun _ => by rw [removed, find?_erase, if_pos rfl]
        left := fun h => by cases h }
    · have nonneg : 0 ≤ asked.amount := mulPrice_nonneg worth
      have one : 1 ≤ (o.forSale - pays.amount) * o.quote.amount / o.base.amount := by omega
      have buysOne := (Int.le_ediv_iff_mul_le valid.baseShare.1).mp one
      rw [one_mul] at buysOne
      refine ensures_pure.mpr {
        others := fun k other => by rw [find?_modify, if_neg other]
        whole := fun h => absurd h partly
        gone := fun h => by cases h
        left := fun _ => ⟨_, by rw [find?_modify, if_pos rfl, found, Option.map_some],
          valid.part (by omega) (by omega) buysOne, rfl, by simp only; omega⟩ }

/-! ## One pass of the loop -/

/-- Both sides of a trade get something. -/
theorem LimitOrder.trade_pos (validNew : new.Valid) (validResting : resting.Valid)
    (crosses : resting.Crosses new) : 0 < (resting.trade new).1 ∧ 0 < (resting.trade new).2 := by
  refine exchange_pos validResting.baseShare.1 validResting.quoteShare.1 validResting.buysOne ?_
    validNew.forSale.1 validResting.forSale.1
  -- the new order can buy a unit at its own price, and the resting order's is no worse
  have scaled : resting.quote.amount * new.quote.amount ≤
      new.forSale * resting.base.amount * new.quote.amount := by
    calc
      resting.quote.amount * new.quote.amount ≤ resting.base.amount * new.base.amount := crosses.price
      _ ≤ resting.base.amount * (new.forSale * new.quote.amount) :=
        mul_le_mul_of_nonneg_left validNew.buysOne validResting.baseShare.1.le
      _ = new.forSale * resting.base.amount * new.quote.amount := by ring
  exact le_of_mul_le_mul_right scaled validNew.quoteShare.1

/-- The orders after one pass: the new order is gone, or the resting one is. -/
structure Matched (newKey oldKey : OrderKey) (new resting : LimitOrder) (finished : Bool) (s t : Database) :
    Prop where
  others : ∀ k, k ≠ newKey → k ≠ oldKey → t.orders.find? k = s.orders.find? k
  newGone : finished = true → t.orders.find? newKey = none
  newLeft : finished = false → ∃ o, t.orders.find? newKey = some o ∧ o.Valid ∧ o.sellPrice = new.sellPrice ∧
    o.forSale ≤ new.forSale
  oldGone : finished = false → t.orders.find? oldKey = none
  oldLeft : ∀ o, t.orders.find? oldKey = some o → o.Valid ∧ o.sellPrice = resting.sellPrice

theorem LimitOrder.Crosses.ne (crosses : resting.Crosses new) (valid : new.Valid) : resting ≠ new := by
  rintro rfl
  exact valid.names_ne (congrArg symbolName crosses.buys)

theorem matchOrders_ensures {oldKey : OrderKey}
    (newFound : s.orders.find? newKey = some new) (oldFound : s.orders.find? oldKey = some resting)
    (validNew : new.Valid) (validResting : resting.Valid) (crosses : resting.Crosses new) :
    Ensures s (matchOrders newKey oldKey) fun finished t => Matched newKey oldKey new resting finished s t := by
  have distinct : oldKey ≠ newKey := by
    rintro rfl
    exact crosses.ne validNew (Option.some.inj (oldFound.symm.trans newFound))
  have pos := trade_pos validNew validResting crosses
  have paid : (resting.trade new).1 ≤ new.forSale := exchange_paid_le
  have received : (resting.trade new).2 ≤ resting.forSale :=
    exchange_received_le validResting.baseShare.1 validResting.quoteShare.1
  simp only [matchOrders, getLimitOrder, fetch, ensures_steps, newFound, oldFound, Option.some.injEq,
    forall_eq', matchAmounts_eq validNew validResting crosses.buys]
  intro _ t₁ rewarded
  have kept : t₁.orders = s.orders := read_of_run Evaluator.keepsOrders .orders rewarded rfl
  refine (fillOrder_ensures (kept ▸ newFound) validNew pos.1 paid).mono fun newFilled t₂ newFill => ?_
  have oldStill : t₂.orders.find? oldKey = some resting := by rw [newFill.others oldKey distinct, kept, oldFound]
  refine (fillOrder_ensures oldStill validResting pos.2 received).mono fun oldFilled t₃ oldFill => ?_
  exact {
    others := fun k notNew notOld => by rw [oldFill.others k notOld, newFill.others k notNew, kept]
    newGone := fun h => by rw [oldFill.others newKey distinct.symm, newFill.gone h]
    newLeft := fun h => by
      rw [oldFill.others newKey distinct.symm]
      exact newFill.left h
    oldGone := fun h => by
      -- the new order is not used up, so the resting one is
      refine oldFill.gone (oldFill.whole ?_)
      refine (@exchange_exhausts resting.forSale resting.base.amount resting.quote.amount
        new.forSale).resolve_left fun whole => ?_
      rw [newFill.whole whole] at h
      cases h
    oldLeft := fun o found => by
      cases filled : oldFilled with
      | true => rw [oldFill.gone filled] at found; cases found
      | false =>
        obtain ⟨o', found', valid, price, _⟩ := oldFill.left filled
        cases found.symm.trans found'
        exact ⟨valid, price⟩ }

/-! ## The orders in reach -/

theorem product_in_range (hx : IsPositiveShare x) (hy : IsPositiveShare y) : 0 ≤ x * y ∧ x * y < 2 ^ 128 :=
  ⟨mul_nonneg hx.1.le hy.1.le, by linarith [product_lt hx hy]⟩

/-- `STEEMIT_MAX_SHARE_SUPPLY` -/
def maxShareSupply : Int := 10 ^ 15

/-- The bounds of the loop take in the orders that cross, as far as their price is not above
`price::max`. -/
theorem inReach_iff (valid : o.Valid) (validNew : new.Valid) :
    ((o.sellPrice.eq new.sellPrice.inverse.max || o.sellPrice.lt new.sellPrice.inverse.max) &&
        !o.sellPrice.lt new.sellPrice.inverse) = true ↔
      o.Crosses new ∧ o.base.amount ≤ maxShareSupply * o.quote.amount := by
  have one : IsPositiveShare 1 := ⟨by norm_num, by norm_num⟩
  have most : IsPositiveShare (10 ^ 15) := ⟨by norm_num, by norm_num⟩
  have baseRange := product_in_range one valid.baseShare
  have capRange := product_in_range valid.quoteShare most
  have leftRange := product_in_range validNew.baseShare valid.baseShare
  have rightRange := product_in_range valid.quoteShare validNew.quoteShare
  by_cases sells : o.base.symbol = new.quote.symbol
  · by_cases buys : o.quote.symbol = new.base.symbol
    · simp only [Price.eq, Price.lt, Price.max, Price.inverse, sells, buys, decide_true, Bool.true_and, ne_eq,
        not_true_eq_false, if_false, Bool.and_eq_true, Bool.or_eq_true, Bool.not_eq_true', decide_eq_true_eq,
        decide_eq_false_iff_not, toUint128_inj baseRange capRange, toUint128_lt_iff baseRange capRange,
        toUint128_lt_iff leftRange rightRange]
      constructor
      · rintro ⟨cap, price⟩
        refine ⟨⟨sells, buys, ?_⟩, ?_⟩
        · rw [mul_comm o.base.amount]; exact not_lt.mp price
        · rw [maxShareSupply, mul_comm]; omega
      · rintro ⟨crosses, cap⟩
        have price := crosses.price
        rw [mul_comm o.base.amount] at price
        rw [maxShareSupply, mul_comm] at cap
        exact ⟨by omega, not_lt.mpr price⟩
    · simp only [Price.eq, Price.lt, Price.max, Price.inverse, sells, buys, ne_eq,
        Bool.and_eq_true, Bool.not_eq_true']
      exact ⟨fun h => Bool.noConfusion (h.1.symm.trans h.2), fun h => absurd h.1.buys buys⟩
  · simp only [Price.eq, Price.lt, Price.max, Price.inverse, sells, ne_eq, Bool.and_eq_true, Bool.not_eq_true']
    exact ⟨fun h => Bool.noConfusion (h.1.symm.trans h.2), fun h => absurd h.1.sells sells⟩

theorem mem_ordersInReach (book : s.ValidBook) (validNew : new.Valid) : k ∈ s.ordersInReach new.sellPrice ↔
      ∃ o, s.orders.find? k = some o ∧ o.Crosses new ∧ o.base.amount ≤ maxShareSupply * o.quote.amount := by
  simp only [ordersInReach, mem_map, mem_insertionSort, mem_filter]
  constructor
  · rintro ⟨e, ⟨member, reach⟩, rfl⟩
    have found : s.orders.find? e.1 = some e.2 := find?_eq_some.mpr member
    exact ⟨e.2, found, (inReach_iff (book _ _ found) validNew).mp reach⟩
  · rintro ⟨o, found, crosses⟩
    exact ⟨(k, o), ⟨find?_eq_some.mp found, (inReach_iff (book _ _ found) validNew).mpr crosses⟩, rfl⟩

theorem ordersInReach_nodup : (s.ordersInReach sellPrice).Nodup :=
  lists_sorted.nodup

theorem length_ordersInReach : (s.ordersInReach sellPrice).length ≤ s.orders.entries.length := by
  rw [ordersInReach, length_map, length_insertionSort]
  exact length_filter_le _ _

/-! ## The loop -/

/-- One trade, with the two orders as they were before. -/
structure Trade where
  new : LimitOrder
  resting : LimitOrder
  paid : Asset
  received : Asset

/-- The trades of a new order, from one state of the book to another. -/
inductive Trades (newKey : OrderKey) : Database → List Trade → Database → Prop
  | done {s : Database} : Trades newKey s [] s
  | pass {s t u : Database} {oldKey : OrderKey} {trade : Trade} {rest : List Trade} {finished : Bool} :
      s.orders.find? newKey = some trade.new → s.orders.find? oldKey = some trade.resting →
      matchAmounts trade.new trade.resting s = .ok ((trade.paid, trade.received), s) →
      matchOrders newKey oldKey s = .ok (finished, t) → Trades newKey t rest u →
      Trades newKey s (trade :: rest) u

/-- A trade at the price of the resting order, in which each side gets what its own limit price
asks for what it pays, less than one unit short. -/
structure Trade.Fair (trade : Trade) : Prop where
  atRestingPrice :
    trade.received.amount = trade.paid.amount * trade.resting.base.amount / trade.resting.quote.amount ∨
      trade.paid.amount = trade.received.amount * trade.resting.quote.amount / trade.resting.base.amount
  fairToNew :
    trade.paid.amount * trade.new.quote.amount < (trade.received.amount + 1) * trade.new.base.amount
  fairToResting :
    trade.received.amount * trade.resting.quote.amount < (trade.paid.amount + 1) * trade.resting.base.amount

/-- The trade of a new order with a resting one. -/
def Trade.between (new resting : LimitOrder) : Trade where
  new := new
  resting := resting
  paid := ⟨(resting.trade new).1, resting.quote.symbol⟩
  received := ⟨(resting.trade new).2, resting.base.symbol⟩

theorem Trade.between_fair (validNew : new.Valid) (validResting : resting.Valid)
    (crosses : resting.Crosses new) : (Trade.between new resting).Fair where
  atRestingPrice := by
    simp only [Trade.between, trade, exchange]
    split <;> simp
  fairToNew := exchange_meets_rate validResting.baseShare.1 validResting.quoteShare.1 validNew.baseShare.1
    crosses.price (trade_pos validNew validResting crosses).1.le
  fairToResting := exchange_fair_to_seller validResting.baseShare.1 validResting.quoteShare.1

theorem LimitOrder.Crosses.congr {new' : LimitOrder} (crosses : resting.Crosses new)
    (same : new'.sellPrice = new.sellPrice) : resting.Crosses new' := by
  refine ⟨?_, ?_, ?_⟩ <;> simp only [base, quote, same]
  · exact crosses.sells
  · exact crosses.buys
  · exact crosses.price

/-- The book after the loop over `oldKeys`. -/
structure MatchedAll (newKey : OrderKey) (new : LimitOrder) (oldKeys : List OrderKey) (s t : Database) : Prop where
  trades : ∃ trades, Trades newKey s trades t ∧ trades.length ≤ oldKeys.length ∧ ∀ trade ∈ trades, trade.Fair
  others : ∀ k, k ≠ newKey → k ∉ oldKeys → t.orders.find? k = s.orders.find? k
  oldLeft : ∀ k ∈ oldKeys, ∀ o, t.orders.find? k = some o → o.Valid
  outcome : t.orders.find? newKey = none ∨
    (∃ o, t.orders.find? newKey = some o ∧ o.Valid ∧ o.sellPrice = new.sellPrice) ∧
      ∀ k ∈ oldKeys, t.orders.find? k = none

/-- Every pass removes the new order, and the loop ends, or removes the resting one. -/
theorem matchAll_ensures {oldKeys : List OrderKey}
    (newFound : s.orders.find? newKey = some new) (validNew : new.Valid) (nodup : oldKeys.Nodup)
    (resting : ∀ k ∈ oldKeys, ∃ o, s.orders.find? k = some o ∧ o.Valid ∧ o.Crosses new) :
    Ensures s (matchAll newKey oldKeys) fun _ t => MatchedAll newKey new oldKeys s t := by
  induction oldKeys generalizing s new with
  | nil =>
    refine ensures_pure.mpr {
      trades := ⟨[], .done, le_rfl, by simp⟩
      others := fun _ _ _ => rfl
      oldLeft := by simp
      outcome := .inr ⟨⟨new, newFound, validNew, rfl⟩, by simp⟩ }
  | cons oldKey rest ih =>
    obtain ⟨o, oldFound, validResting, crosses⟩ := resting oldKey mem_cons_self
    rw [nodup_cons] at nodup
    rw [matchAll, ensures_bind]
    intro finished t run
    have matched := matchOrders_ensures newFound oldFound validNew validResting crosses _ _ run
    have amounts : matchAmounts new o s =
        .ok (((Trade.between new o).paid, (Trade.between new o).received), s) := by
      rw [matchAmounts_eq validNew validResting crosses.buys]; rfl
    have fair := Trade.between_fair validNew validResting crosses
    have apart : ∀ k ∈ rest, k ≠ oldKey := fun k member same => nodup.1 (same ▸ member)
    have notNew : ∀ k ∈ oldKey :: rest, k ≠ newKey := by
      rintro k member rfl
      obtain ⟨o', found', _, crosses'⟩ := resting k member
      exact crosses'.ne validNew (Option.some.inj (found'.symm.trans newFound))
    refine ensures_ite.mpr ⟨fun done => ensures_pure.mpr ?_, fun goesOn => ?_⟩
    · exact {
        trades := ⟨[.between new o], .pass newFound oldFound amounts run .done, by simp, by simpa using fair⟩
        others := fun k new old => matched.others k new fun same => old (same ▸ mem_cons_self ..)
        oldLeft := by
          intro k member o' found
          by_cases same : k = oldKey
          · exact (matched.oldLeft o' (same ▸ found)).1
          · rw [matched.others k (notNew k member) same] at found
            obtain ⟨o'', found', valid, _⟩ := resting k member
            cases found.symm.trans found'
            exact valid
        outcome := .inl (matched.newGone done) }
    · have goesOn : finished = false := Bool.not_eq_true _ ▸ goesOn
      obtain ⟨new', newFound', validNew', price, _⟩ := matched.newLeft goesOn
      have restingLeft : ∀ k ∈ rest, ∃ o, t.orders.find? k = some o ∧ o.Valid ∧ o.Crosses new' := by
        intro k member
        obtain ⟨o', found', valid, crosses'⟩ := resting k (mem_cons_of_mem _ member)
        refine ⟨o', ?_, valid, crosses'.congr price⟩
        rw [matched.others k (notNew k (mem_cons_of_mem _ member)) (apart k member), found']
      refine (ih newFound' validNew' nodup.2 restingLeft).mono fun _ u after => ?_
      obtain ⟨trades, traded, count, allFair⟩ := after.trades
      have oldStays : u.orders.find? oldKey = none := by
        rw [after.others oldKey (notNew oldKey mem_cons_self) nodup.1, matched.oldGone goesOn]
      exact {
        trades := ⟨.between new o :: trades, .pass newFound oldFound amounts run traded, by simpa using count,
          forall_mem_cons.mpr ⟨fair, allFair⟩⟩
        others := fun k new old => by
          rw [after.others k new fun member => old (mem_cons_of_mem _ member),
            matched.others k new fun same => old (same ▸ mem_cons_self ..)]
        oldLeft := fun k member o' found => by
          rcases mem_cons.mp member with rfl | member
          · rw [oldStays] at found; cases found
          · exact after.oldLeft k member o' found
        outcome := by
          rcases after.outcome with newGone | ⟨⟨o', found', valid', price'⟩, gone⟩
          · exact .inl newGone
          · exact .inr ⟨⟨o', found', valid', price'.trans price⟩, forall_mem_cons.mpr ⟨oldStays, gone⟩⟩ }

/-! ## The tokens -/

/-- What accounts and open orders hold. -/
def Database.circulating (s : Database) : Ledger :=
  (s.accounts.total fun _ a => a.balances.ledger) + s.orders.total fun _ o => o.ledger

/-- Nothing of the supply changes but the GBG issued. -/
def OnlySbdIssued (s t : Database) : Prop :=
  t.supply = { s.supply with currentSbdSupply := t.supply.currentSbdSupply }

instance : Std.Refl OnlySbdIssued := ⟨fun _ => rfl⟩

instance : IsTrans Database OnlySbdIssued :=
  ⟨fun s t u first second => by
    unfold OnlySbdIssued at *
    rw [second, first]⟩

instance : Finer (Within keepsSupply) OnlySbdIssued :=
  ⟨fun s t within => by
    have same : t.supply = s.supply := within .supply rfl
    rw [OnlySbdIssued, same]⟩

instance {interest} : Preserves OnlySbdIssued (issueInterest interest) := by
  have issued : Preserves OnlySbdIssued (modifySupply fun p =>
      { p with currentSbdSupply := p.currentSbdSupply + interest }) := preserves_modify fun _ => rfl
  unfold issueInterest; infer_instance

deriving instance Preserves OnlySbdIssued for adjustSbdBalance, adjustBalance

/-- The cells a match writes. -/
abbrev matchingCells : Footprint
  | .balances | .orders | .supply | .rates | .liquidity => true
  | _ => false

/-- What accounts and orders hold changes only by the interest an account is paid on its GBG
when it is credited, which is new supply. -/
theorem applyOrder_circulating : Ensures s (applyOrder key) fun _ t => t.circulating =
      s.circulating + (sbd (t.supply.currentSbdSupply - s.supply.currentSbdSupply)).ledger := by
  intro gone t run
  have kept : t.imbalance = s.imbalance := by
    rw [Evaluator.conserves_applyOrder _ _ run, add_zero]
  have issued : OnlySbdIssued s t := Preserves.related s _ _ run
  have converts : t.converts = s.converts := read_of_run matchingCells .converts run rfl
  have escrows : t.escrows = s.escrows := read_of_run matchingCells .escrows run rfl
  have savings : t.savingsWithdraws = s.savingsWithdraws := read_of_run matchingCells .savingsWithdraws run rfl
  have funds : t.supply.ledger + (sbd t.supply.currentSbdSupply).ledger =
      s.supply.ledger + (sbd s.supply.currentSbdSupply).ledger := by
    rw [issued]
    simp only [Supply.ledger]
    abel
  simp only [imbalance, heldOutsideFunds, converts, escrows, savings] at kept
  rw [circulating, circulating, ledger_sbd_sub]
  linear_combination kept - funds

/-! ## `apply_order` -/

theorem applyOrder_matchesAll
    (found : s.orders.find? key = some order) (book : s.ValidBook) : Ensures s (applyOrder key) fun gone t =>
      MatchedAll key order (s.ordersInReach order.sellPrice) s t ∧ gone = decide (t.orders.find? key = none) := by
  have resting : ∀ k ∈ s.ordersInReach order.sellPrice,
      ∃ o, s.orders.find? k = some o ∧ o.Valid ∧ o.Crosses order := by
    intro k member
    obtain ⟨o, found', crosses, _⟩ := (mem_ordersInReach book (book key order found)).mp member
    exact ⟨o, found', book k o found', crosses⟩
  simp only [applyOrder, getLimitOrder, fetch, ensures_steps, found, Option.some.injEq, forall_eq']
  exact (matchAll_ensures found (book key order found) ordersInReach_nodup resting).mono
    fun _ t matched => ⟨matched, trivial⟩

/-- Every order that crosses is in reach, and the loop removes those; the others stay as they
were. -/
theorem MatchedAll.validBook {t : Database}
    (matched : MatchedAll key order (s.ordersInReach order.sellPrice) s t) (book : s.ValidBook) : t.ValidBook := by
  intro k o found
  by_cases isNew : k = key
  · subst isNew
    rcases matched.outcome with gone | ⟨⟨left, found', valid, _⟩, _⟩
    · rw [gone] at found; cases found
    · cases found.symm.trans found'
      exact valid
  · by_cases inReach : k ∈ s.ordersInReach order.sellPrice
    · exact matched.oldLeft k inReach o found
    · rw [matched.others k isNew inReach] at found
      exact book k o found

/-- A new order is traded fairly with what it crosses, at the prices of the book, and what is
left of it crosses nothing but orders above the cap; all that is left can still trade. -/
theorem applyOrder_settles {s : Database} {key : OrderKey} {order : LimitOrder}
    (found : s.orders.find? key = some order) (accepted : order.Accepted)
    (book : ∀ k o, k ≠ key → s.orders.find? k = some o → o.Valid) :
    Ensures s (applyOrder key) fun gone t =>
      (∃ trades, Trades key s trades t ∧ trades.length ≤ s.orders.entries.length ∧ ∀ trade ∈ trades, trade.Fair) ∧
      t.circulating = s.circulating + (sbd (t.supply.currentSbdSupply - s.supply.currentSbdSupply)).ledger ∧
      (gone = true ∧ t.orders.find? key = none ∨
        gone = false ∧ ∃ left, t.orders.find? key = some left ∧ left.sellPrice = order.sellPrice ∧
          ∀ k o, t.orders.find? k = some o → o.forSale ≤ maxShareSupply → ¬o.Crosses left) ∧ t.ValidBook := by
  have validBook : s.ValidBook := by
    intro k o found'
    by_cases isNew : k = key
    · subst isNew
      cases found.symm.trans found'
      exact accepted.valid
    · exact book k o isNew found'
  intro gone t run
  obtain ⟨matched, reported⟩ := applyOrder_matchesAll found validBook _ _ run
  obtain ⟨trades, traded, count, fair⟩ := matched.trades
  refine ⟨⟨trades, traded, count.trans length_ordersInReach, fair⟩, applyOrder_circulating _ _ run, ?_,
    matched.validBook validBook⟩
  rcases matched.outcome with newGone | ⟨⟨left, left_found, valid, price⟩, oldGone⟩
  · exact .inl ⟨by simp [reported, newGone], newGone⟩
  · refine .inr ⟨by simp [reported, left_found], left, left_found, price, fun k o found' supplied crosses => ?_⟩
    have isOld : k ≠ key := by
      rintro rfl
      exact crosses.ne valid (Option.some.inj (found'.symm.trans left_found))
    have untouched : k ∉ s.ordersInReach order.sellPrice := fun member => by
      rw [oldGone k member] at found'
      cases found'
    rw [matched.others k isOld untouched] at found'
    have validOld := book k o isOld found'
    -- what it sells is at most the share supply, so its price is not above the cap either
    have capped : o.base.amount ≤ maxShareSupply * o.quote.amount :=
      validOld.buysOne.trans (mul_le_mul_of_nonneg_right supplied validOld.quoteShare.1.le)
    exact untouched ((mem_ordersInReach validBook accepted.valid).mpr
      ⟨o, found', crosses.congr price.symm, capped⟩)

/-! ### Two books

In the first, the seller of the resting order has held GBG for long enough to be due
interest.  In the second, the resting order has more for sale than `price::max` allows
for. -/

/-- The order an operation without frills creates at the start of time. -/
def plainOrder (sell receive : Asset) : LimitOrder := ⟨0, 0, sell.amount, ⟨sell, receive⟩⟩

/-- Alice has an order in the book, and Bob has just placed one. -/
def marketOf (alice : Balances) (resting new : LimitOrder) : Database :=
  { head := { time := 100000000 }
    rates := { sbdInterestRate := 1000 }
    feed := { currentMedianHistory := ⟨.sbd 1000, .steem 1000⟩ }
    accounts := (empty.insert .alice { balances := alice }).insert .bob {}
    orders := (empty.insert (.alice, 1) resting).insert (.bob, 1) new }

theorem find?_marketOf : (marketOf alice resting new).orders.find? k =
      if k = (.bob, 1) then some new else if k = (.alice, 1) then some resting else none := by
  have first : (empty : Store OrderKey LimitOrder).find? (.alice, 1) = none := rfl
  have second : (empty.insert (.alice, 1) resting).find? ((.bob, 1) : OrderKey) = none := by
    rfl
  rw [marketOf, find?_insert second, find?_insert first]
  rfl

theorem accepted_marketOf (restingAccepted : resting.Accepted) (newAccepted : new.Accepted)
    (found : (marketOf alice resting new).orders.find? k = some o) : o.Accepted := by
  rw [find?_marketOf] at found
  split at found
  · cases found; exact newAccepted
  · split at found
    · cases found; exact restingAccepted
    · cases found

theorem plainOrder_accepted {sell receive : Asset}
    (valid : LimitOrderCreateOperation.validate ⟨.alice, 1, sell, receive, false, 0⟩ = .ok ())
    (sellFits : sell.amount < 2 ^ 63) (receiveFits : receive.amount < 2 ^ 63) : (plainOrder sell receive).Accepted :=
  .create ⟨.alice, 1, sell, receive, false, 0⟩ 0 valid sellFits receiveFits

def interestMarket : Database :=
  marketOf { sbdBalance := 1000000000 } (plainOrder (.steem 1000) (.sbd 1000)) (plainOrder (.sbd 1000) (.steem 1000))

def cappedMarket : Database :=
  marketOf {} (plainOrder (.steem (2 * 10 ^ 15)) (.sbd 1)) (plainOrder (.sbd 1) (.steem 10))

/-- The state `apply_order` leads to for Bob's order. -/
def afterBob (s : Database) : Database := stateAfter (do let _ ← applyOrder (.bob, 1); pure ()) s

/-- Both orders of a market were accepted, so both are valid; crediting the interest changes
the total, and above the cap an order that crosses is left. -/
theorem applyOrder_total_and_cap : (∀ k o, interestMarket.orders.find? k = some o → o.Accepted) ∧
      (afterBob interestMarket).circulating sbdSymbol ≠ interestMarket.circulating sbdSymbol ∧
    (∀ k o, cappedMarket.orders.find? k = some o → o.Accepted) ∧
      ∃ left o, (afterBob cappedMarket).orders.find? (.bob, 1) = some left ∧
        (afterBob cappedMarket).orders.find? (.alice, 1) = some o ∧ o.Crosses left := by
  have gbg : (plainOrder (.sbd 1000) (.steem 1000)).Accepted := plainOrder_accepted rfl (by decide) (by decide)
  have golos : (plainOrder (.steem 1000) (.sbd 1000)).Accepted := plainOrder_accepted rfl (by decide) (by decide)
  have cheap : (plainOrder (.sbd 1) (.steem 10)).Accepted := plainOrder_accepted rfl (by decide) (by decide)
  have huge : (plainOrder (.steem (2 * 10 ^ 15)) (.sbd 1)).Accepted :=
    plainOrder_accepted rfl (by decide) (by decide)
  refine ⟨fun k o => accepted_marketOf golos gbg, by decide, fun k o => accepted_marketOf huge cheap,
    _, _, rfl, rfl, ?_⟩
  exact ⟨by decide, by decide, by decide⟩

/-- The theorem applies to the first of the two books: the orders there trade and are gone. -/
theorem applyOrder_settles_interestMarket :
    (afterBob interestMarket).orders.find? (.bob, 1) = none ∧ (afterBob interestMarket).ValidBook := by
  have new : (plainOrder (.sbd 1000) (.steem 1000)).Accepted := plainOrder_accepted rfl (by decide) (by decide)
  have resting : (plainOrder (.steem 1000) (.sbd 1000)).Accepted := plainOrder_accepted rfl (by decide) (by decide)
  refine ⟨rfl, (@applyOrder_settles interestMarket (.bob, 1) _ rfl new
    (fun k o other found => ?_) true _ rfl).2.2.2⟩
  rw [interestMarket, find?_marketOf, if_neg other] at found
  split at found
  · cases found
    exact resting.valid
  · cases found

end Golos
