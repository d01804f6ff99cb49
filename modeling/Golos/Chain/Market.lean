import Golos.Chain.Inflation
import Golos.Chain.Evaluator.Account

/-! # The internal market and conversions

Limit orders are matched against the book by `apply_order`; SBD is converted to
GOLOS by `process_conversions`.
-/

namespace Golos

open Stateful

/-! ## Liquidity rewards -/

/-- `update_weight` -/
def LiquidityRewardBalance.updateWeight (r : LiquidityRewardBalance) (hf9 : Bool) :
    LiquidityRewardBalance :=
  { r with weight :=
      if r.hasVolume then
        toUint128 (if hf9 then min r.steemVolume r.sbdVolume else r.steemVolume * r.sbdVolume)
      else 0 }

/-- `adjust_liquidity_reward`.  A new object takes its weight by hardfork 9, an
existing one by hardfork 10. -/
def adjustLiquidityReward (owner : AccountName) (volume : Int) (isSbd : Bool) : Eval Unit := do
  let s ← get
  let add (r : LiquidityRewardBalance) : LiquidityRewardBalance :=
    if isSbd then { r with sbdVolume := r.sbdVolume + volume }
    else { r with steemVolume := r.steemVolume + volume }
  if s.liquidity.find? owner = none then
    create (·.liquidity) updateLiquidity "liquidity_reward_balance" owner
      { (add {}).updateWeight (s.hasHardfork 9) with lastUpdate := s.head.time }
  else
    change (·.liquidity) updateLiquidity "liquidity_reward_balance" owner fun r =>
      let r := if 60 * 60 * 24 * 7 ≤ s.head.time - r.lastUpdate then
        { r with sbdVolume := 0, steemVolume := 0, weight := 0 } else r
      { (add r).updateWeight (s.hasHardfork 10) with lastUpdate := s.head.time }

/-- The liquidity rewards of a match: the resting order's side gains volume, the new
order's side loses it. -/
def rewardLiquidity (oldOrder : LimitOrder) (oldSeller newSeller : AccountName)
    (oldReceives newReceives : Asset) : Eval Unit := do
  let s ← get
  let age := s.head.time - oldOrder.created
  when (!s.hasHardfork 12 ∧ (if s.hasHardfork 10 then 60 * 30 else 60) ≤ age) <|
    if oldReceives.symbol = steemSymbol then do
      adjustLiquidityReward oldSeller oldReceives.amount false
      adjustLiquidityReward newSeller (-oldReceives.amount) false
    else do
      adjustLiquidityReward oldSeller newReceives.amount true
      adjustLiquidityReward newSeller (-newReceives.amount) true

/-! ## Orders -/

abbrev OrderKey := AccountName × Nat

def getLimitOrder (key : OrderKey) : Eval LimitOrder := fetch (·.orders) "limit_order" key

/-- `cancel_order` -/
def cancelOrder (key : OrderKey) : Eval Unit := do
  let order ← getLimitOrder key
  let _ ← getAccount key.1
  adjustBalance key.1 order.amountForSale
  remove (·.orders) updateOrders "limit_order" key

/-- `fill_order`: whether the order is gone. -/
def fillOrder (key : OrderKey) (pays receives : Asset) : Eval Bool := do
  let order ← getLimitOrder key
  check (order.amountForSale.symbol = pays.symbol)
    (.assertion "order.amount_for_sale().symbol == pays.symbol")
  check (pays.symbol ≠ receives.symbol) (.assertion "pays.symbol != receives.symbol")
  let _ ← getAccount key.1
  adjustBalance key.1 receives
  if pays.amount = order.forSale then do
    remove (·.orders) updateOrders "limit_order" key
    pure true
  else do
    change (·.orders) updateOrders "limit_order" key fun o => { o with forSale := o.forSale - pays.amount }
    let left ← getLimitOrder key
    let toReceive ← fromExcept left.amountToReceive
    -- too little is left to be sold at the price: it goes back to the seller
    if toReceive.amount = 0 then do
      cancelOrder key
      pure true
    else pure false

/-- What the resting order and the new order receive when they trade at the price of
the resting one. -/
def matchAmounts (newOrder oldOrder : LimitOrder) : Eval (Asset × Asset) := do
  let worth ← times oldOrder.amountForSale oldOrder.sellPrice
  check (newOrder.amountForSale.symbol = worth.symbol) (.assertion "a.symbol == b.symbol")
  if newOrder.forSale ≤ worth.amount then do
    let newReceives ← times newOrder.amountForSale oldOrder.sellPrice
    pure (newOrder.amountForSale, newReceives)
  else pure (worth, oldOrder.amountForSale)

/-- `match`: whether the new order is gone, the first bit of the result. -/
def matchOrders (newKey oldKey : OrderKey) : Eval Bool := do
  let newOrder ← getLimitOrder newKey
  let oldOrder ← getLimitOrder oldKey
  let amounts ← matchAmounts newOrder oldOrder
  let oldReceives := amounts.1
  let newReceives := amounts.2
  rewardLiquidity oldOrder oldKey.1 newKey.1 oldReceives newReceives
  let newFilled ← fillOrder newKey oldReceives newReceives
  let _ ← fillOrder oldKey newReceives oldReceives
  pure newFilled

/-- The loop of `apply_order` over the resting orders in reach. -/
def matchAll (newKey : OrderKey) : List OrderKey → Eval Unit
  | [] => pure ()
  | oldKey :: rest => do
    let finished ← matchOrders newKey oldKey
    if finished then pure () else matchAll newKey rest

/-- `price::max(base, quote)`; `STEEMIT_MAX_SHARE_SUPPLY` is 10^15. -/
def Price.max (p : Price) : Price := ⟨⟨10 ^ 15, p.base.symbol⟩, ⟨1, p.quote.symbol⟩⟩

/-- The orders between `lower_bound(max_price.max())` and `upper_bound(max_price)` of
`by_price`: the best price first, the oldest order among equals. -/
def Database.ordersInReach (s : Database) (sellPrice : Price) : List OrderKey :=
  let maxPrice := sellPrice.inverse
  let inReach := s.orders.entries.filter fun e =>
    (e.2.sellPrice.eq maxPrice.max || e.2.sellPrice.lt maxPrice.max) && !e.2.sellPrice.lt maxPrice
  (inReach.insertionSort fun a b => !a.2.sellPrice.lt b.2.sellPrice).map Prod.fst

/-- `apply_order`: whether the new order is gone. -/
def applyOrder (key : OrderKey) : Eval Bool := do
  let order ← getLimitOrder key
  let s ← get
  matchAll key (s.ordersInReach order.sellPrice)
  let s ← get
  pure (s.orders.find? key = none)

/-- `clear_expired_orders` -/
def clearExpiredOrders : Eval Unit := do
  let s ← get
  let expired := s.orders.entries.filter fun e => e.2.expiration < s.head.time
  (expired.insertionSort fun a b => a.2.expiration ≤ b.2.expiration).forM fun e => cancelOrder e.1

namespace Evaluator

/-- The common part of the two order evaluators. -/
def placeOrder (owner : AccountName) (orderId : Nat) (amountToSell : Asset) (sellPrice : Price)
    (expiration : Time) (fillOrKill : Bool) : Eval Unit := do
  let s ← get
  checkOpParam "expiration" (s.head.time < expiration)
    "Limit order has to expire after head block time."
  let _ ← getAccount owner
  checkBalance owner amountToSell
  adjustBalance owner (-amountToSell)
  create (·.orders) updateOrders "limit_order" (owner, orderId)
    { created := s.head.time, expiration, forSale := amountToSell.amount, sellPrice }
  let filled ← applyOrder (owner, orderId)
  when fillOrKill (checkLogic filled "Cancelling order because it was not filled.")

/-- `limit_order_create_evaluator` -/
def limitOrderCreate (o : LimitOrderCreateOperation) : Eval Unit :=
  placeOrder o.owner o.orderId o.amountToSell ⟨o.amountToSell, o.minToReceive⟩ o.expiration
    o.fillOrKill

/-- `limit_order_create2_evaluator` -/
def limitOrderCreate2 (o : LimitOrderCreate2Operation) : Eval Unit :=
  placeOrder o.owner o.orderId o.amountToSell o.exchangeRate o.expiration o.fillOrKill

/-- `limit_order_cancel_evaluator` -/
def limitOrderCancel (o : LimitOrderCancelOperation) : Eval Unit := cancelOrder (o.owner, o.orderId)

/-- `STEEMIT_CONVERSION_DELAY`, before and from hardfork 16 on. -/
def conversionDelay (s : Database) : Nat :=
  if s.hasHardfork 16 then 60 * 60 * 84 else 60 * 60 * 24 * 7

/-- `convert_evaluator` -/
def convert (o : ConvertOperation) : Eval Unit := do
  let s ← get
  let _ ← getAccount o.owner
  checkBalance o.owner o.amount
  adjustBalance o.owner (-o.amount)
  checkLogic (!s.feed.currentMedianHistory.isNull) "Cannot convert SBD because there is no price feed."
  create (·.converts) updateConverts "convert_request" (o.owner, o.requestId)
    ⟨o.amount, s.head.time + conversionDelay s⟩

end Evaluator

/-! ## Conversions -/

/-- The loop of `process_conversions`: the SBD burnt and the GOLOS issued. -/
def convertRequests (price : Price) : List (OrderKey × ConvertRequest) → Eval (Int × Int)
  | [] => pure (0, 0)
  | (key, request) :: rest => do
    let _ ← getAccount key.1
    let toIssue ← times request.amount price
    adjustBalance key.1 toIssue
    let sbd ← amountIn sbdSymbol request.amount
    let steem ← amountIn steemSymbol toIssue
    remove (·.converts) updateConverts "convert_request" key
    let more ← convertRequests price rest
    pure (sbd + more.1, steem + more.2)

/-- `process_conversions` -/
def processConversions : Eval Unit := do
  let s ← get
  let price := s.feed.currentMedianHistory
  when (!price.isNull) do
    let due := s.converts.entries.filter fun e => e.2.conversionDate ≤ s.head.time
    let net ← convertRequests price (due.insertionSort fun a b =>
      a.2.conversionDate ≤ b.2.conversionDate)
    modifySupply fun p => { p with
      currentSupply := p.currentSupply + net.2
      currentSbdSupply := p.currentSbdSupply - net.1 }
    let burnt ← times (.sbd net.1) price
    let burnt ← amountIn steemSymbol burnt
    modifyRates fun r => { r with virtualSupply := r.virtualSupply + net.2 - burnt }

/-! ## Footprints -/

section Footprints

set_option synthInstance.maxSize 1000000

variable {R : Database → Database → Prop} [Std.Refl R] [IsTrans Database R]

open Evaluator

variable [∀ n a, Preserves R (adjustBalance n a)]

section Orders

variable [∀ f, Preserves R (updateOrders f)] [∀ f, Preserves R (updateLiquidity f)]

deriving instance Preserves R for getLimitOrder, matchAmounts, adjustLiquidityReward, rewardLiquidity, cancelOrder,
  limitOrderCancel, clearExpiredOrders, fillOrder, matchOrders

instance {newKey oldKeys} : Preserves R (matchAll newKey oldKeys) := by
  induction oldKeys with
  | nil => unfold matchAll; infer_instance
  | cons oldKey rest ih => unfold matchAll; infer_instance

deriving instance Preserves R for applyOrder, placeOrder, limitOrderCreate, limitOrderCreate2

end Orders

variable [∀ f, Preserves R (updateConverts f)]

instance {price requests} : Preserves R (convertRequests price requests) := by
  induction requests with
  | nil => unfold convertRequests; infer_instance
  | cons request rest ih => unfold convertRequests; infer_instance

variable [∀ f, Preserves R (modifySupply f)] [∀ f, Preserves R (modifyRates f)]

deriving instance Preserves R for convert, processConversions

end Footprints

end Golos
