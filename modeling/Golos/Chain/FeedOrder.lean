import Golos.Chain.Clock
import Golos.Chain.Invariant
import Golos.Lib.Selection
import Mathlib.Algebra.Order.Field.Rat
import Mathlib.Algebra.Order.Field.Basic
import Mathlib.Data.Prod.Lex

/-! # The order of the feeds

A witness may publish the price of GOLOS in GBG or that of GBG in GOLOS.  The medians sort prices by their
symbols first and by their ratio then, so the prices in GBG come first and rise, and those in GOLOS come
behind them and, as exchange rates, fall.  Which price stands in the middle depends on how every one of
them is written, and so does whether it is below the minimum.
-/

namespace Golos

open Stateful Selection Database List Price

variable {p : Price} {witnesses : List Witness} {prices : List Price} {s' : Database}

/-! ## The medians -/

namespace Database

/-- The feeds of the scheduled witnesses that count. -/
def feedPrices (s : Database) : List Price :=
  match scheduledWitnesses s with
  | .ok (witnesses, _) => (witnesses.filter fun w => feedCounts s w.info).map fun w => w.info.sbdExchangeRate
  | .error _ => []

/-- The price that limits SBD to a tenth of the market. -/
def minPrice (s : Database) : Price :=
  ⟨.sbd (9 * s.supply.currentSbdSupply), .steem s.supply.currentSupply⟩

/-- The history of prices with a new one. -/
def nextPriceHistory (s : Database) : List Price :=
  let history := s.feed.priceHistory ++ [medianPrice s.feedPrices]
  if feedHistoryWindow s < history.length then history.tail else history

/-- Whether the median computed in this state is raised to the minimum; nothing if none is. -/
def medianRaised (s : Database) : Option Bool :=
  if s.head.headBlockNumber % feedIntervalBlocks = 0 ∧ minFeeds ≤ s.feedPrices.length then
    some (s.hasHardfork 14 && (medianPrice s.nextPriceHistory).lt s.minPrice)
  else none

end Database

section Medians

variable {s : Database}

/-- Looking up the witnesses of the schedule changes nothing. -/
instance preservesEq_scheduledWitnesses : Preserves (@Eq Database) scheduledWitnesses := by
  unfold scheduledWitnesses getWitness; infer_instance

/-- The feed is the new history, with its median or the minimum. -/
theorem updateMedianFeed_feed : Ensures s updateMedianFeed fun _ t =>
    t.feed = s.medianRaised.elim s.feed fun raised =>
      ⟨if raised then s.minPrice else medianPrice s.nextPriceHistory, s.nextPriceHistory⟩ := by
  simp only [updateMedianFeed]
  refine ensures_when.mpr ⟨fun interval => ?_, fun other => ?_⟩
  · rw [ensures_bind]
    intro witnesses s' read
    obtain rfl : s = s' := preservesEq_scheduledWitnesses.after read
    have feeds : (witnesses.filter fun w => feedCounts s w.info).map (fun w => w.info.sbdExchangeRate) =
      s.feedPrices := by
      rw [feedPrices, read]
    rw [feeds]
    refine ensures_when.mpr ⟨fun enough => ?_, fun few => ?_⟩
    · have computed : s.medianRaised = some (s.hasHardfork 14 && (medianPrice s.nextPriceHistory).lt s.minPrice) :=
        if_pos ⟨interval, enough⟩
      rw [computed]
      simp only [modifyRates]
      refine ensures_when.mpr ⟨fun _ => ?_, fun _ => rfl⟩
      rw [ensures_modify]
      rfl
    · have absent : s.medianRaised = none := if_neg fun both => few both.2
      rw [absent]
      rfl
  · have absent : s.medianRaised = none := if_neg fun both => other both.1
    rw [absent]
    rfl

end Medians

/-! ## Prices as keys -/

namespace Price

/-- A ratio of GOLOS and GBG, written either way. -/
structure IsRate (p : Price) : Prop where
  symbols : (p.base.symbol = sbdSymbol ∧ p.quote.symbol = steemSymbol) ∨
    (p.base.symbol = steemSymbol ∧ p.quote.symbol = sbdSymbol)
  base : 0 ≤ p.base.amount ∧ p.base.amount < 2 ^ 63
  quote : 0 < p.quote.amount ∧ p.quote.amount < 2 ^ 63

/-- What `feed_publish_operation::validate` accepts. -/
structure IsFeed (p : Price) : Prop extends IsRate p where
  positive : 0 < p.base.amount

/-- The place of a price in the order: its symbol, and the ratio. -/
def key (p : Price) : AssetSymbol ×ₗ ℚ := toLex (p.base.symbol, p.base.amount / p.quote.amount)

/-- The same exchange rate, written either way. -/
def SameRate (p q : Price) : Prop := p.eq q = true ∨ p.eq q.inverse = true

/-- A price stands in the middle of others by counting: at most half of them are below it, and more than
half are not above it. -/
def IsMedian (p : Price) (prices : List Price) : Prop :=
  prices.countP (fun q => q.lt p) ≤ prices.length / 2 ∧ prices.length / 2 < prices.countP fun q => !p.lt q

end Price

section Keys

variable {q : Price}

theorem Price.IsFeed.inverse (feed : p.IsFeed) : p.inverse.IsFeed where
  symbols := feed.symbols.symm.imp And.symm And.symm
  base := ⟨feed.quote.1.le, feed.quote.2⟩
  quote := ⟨feed.positive, feed.base.2⟩
  positive := feed.quote.1

/-- What a witness may publish, for amounts of 64 bits. -/
theorem FeedPublishOperation.isFeed {o : FeedPublishOperation} (accepted : o.validate = .ok ())
    (base : o.exchangeRate.base.amount < 2 ^ 63) (quote : o.exchangeRate.quote.amount < 2 ^ 63) :
    o.exchangeRate.IsFeed := by
  obtain ⟨_, _, accepted⟩ := except_bind_eq_ok.mp accepted
  obtain ⟨_, market, accepted⟩ := except_bind_eq_ok.mp accepted
  obtain ⟨_, positive, accepted⟩ := except_bind_eq_ok.mp accepted
  obtain ⟨_, positive', _⟩ := except_bind_eq_ok.mp accepted
  rw [validThat_eq_ok] at positive positive'
  rw [validThat_eq_ok, isGolosGbgMarket, Bool.or_eq_true, Bool.and_eq_true, Bool.and_eq_true] at market
  simp only [decide_eq_true_eq] at market
  exact ⟨⟨market.symm, ⟨positive.le, base⟩, ⟨positive', quote⟩⟩, positive⟩

theorem shares_product {x y : Int} (hx : 0 ≤ x ∧ x < 2 ^ 63) (hy : 0 ≤ y ∧ y < 2 ^ 63) :
    0 ≤ x * y ∧ x * y < 2 ^ 128 := by
  refine ⟨Int.mul_nonneg hx.1 hy.1, ?_⟩
  calc x * y ≤ 2 ^ 63 * 2 ^ 63 := Int.mul_le_mul hx.2.le hy.2.le hy.1 (by decide)
    _ < 2 ^ 128 := by decide

theorem Price.IsRate.quote_eq (hp : p.IsRate) (hq : q.IsRate) (same : p.base.symbol = q.base.symbol) :
    p.quote.symbol = q.quote.symbol := by
  have different : sbdSymbol ≠ steemSymbol := by decide
  obtain ⟨base, quote⟩ | ⟨base, quote⟩ := hp.symbols <;> obtain ⟨base', quote'⟩ | ⟨base', quote'⟩ := hq.symbols
  · rw [quote, quote']
  · exact absurd (base.symm.trans (same.trans base')) different
  · exact absurd (base'.symm.trans (same.symm.trans base)) different
  · rw [quote, quote']

theorem Price.lt_iff (hp : p.IsRate) (hq : q.IsRate) : p.lt q = true ↔ p.key < q.key := by
  unfold lt key
  rw [Prod.Lex.toLex_lt_toLex]
  by_cases same : p.base.symbol = q.base.symbol
  · have quotes := hp.quote_eq hq same
    have positive : (0 : ℚ) < p.quote.amount ∧ (0 : ℚ) < q.quote.amount :=
      ⟨by exact_mod_cast hp.quote.1, by exact_mod_cast hq.quote.1⟩
    simp only [same, quotes, ne_eq, not_true_eq_false, if_false, decide_eq_true_eq, lt_irrefl, true_and, false_or]
    rw [toUint128_lt_iff (shares_product ⟨hq.quote.1.le, hq.quote.2⟩ hp.base)
      (shares_product ⟨hp.quote.1.le, hp.quote.2⟩ hq.base), div_lt_div_iff₀ positive.1 positive.2]
    rw [mul_comm q.quote.amount, mul_comm p.quote.amount]
    exact_mod_cast Iff.rfl
  · simp [same]

theorem Price.eq_iff (hp : p.IsRate) (hq : q.IsRate) : p.eq q = true ↔ p.key = q.key := by
  unfold eq key
  have positive : (p.quote.amount : ℚ) ≠ 0 ∧ (q.quote.amount : ℚ) ≠ 0 :=
    ⟨by exact_mod_cast hp.quote.1.ne', by exact_mod_cast hq.quote.1.ne'⟩
  rw [toLex_inj, Prod.mk.injEq, div_eq_div_iff positive.1 positive.2]
  simp only [Bool.and_eq_true, decide_eq_true_eq]
  rw [toUint128_inj (shares_product ⟨hq.quote.1.le, hq.quote.2⟩ hp.base)
      (shares_product ⟨hp.quote.1.le, hp.quote.2⟩ hq.base)]
  constructor
  · rintro ⟨⟨base, quote⟩, products⟩
    refine ⟨base, ?_⟩
    rw [mul_comm q.quote.amount, mul_comm p.quote.amount] at products
    exact_mod_cast products
  · rintro ⟨base, ratio⟩
    refine ⟨⟨base, hp.quote_eq hq base⟩, ?_⟩
    rw [mul_comm q.quote.amount, mul_comm p.quote.amount]
    exact_mod_cast ratio

end Keys

/-! ## Medians -/

section Medians

variable {prices' : List Price}

/-- The median stands in the middle of the keys. -/
theorem medianPrice_isNth (valid : ∀ p ∈ prices, p.IsRate) (nonempty : prices ≠ []) :
    IsNth key (prices.length / 2) prices (medianPrice prices) := by
  have sorts : prices.insertionSort (fun a b => !b.lt a) = prices.insertionSort fun a b => a.key ≤ b.key := by
    have same := map_insertionSort (r := fun a b : Price => (!b.lt a) = true)
      (s := fun a b : Price => a.key ≤ b.key) (f := id) (l := prices) fun a ha b hb => by
        rw [Bool.not_eq_true', ← Bool.not_eq_true, lt_iff (valid b hb) (valid a ha), not_lt]
        rfl
    simpa using same
  have nth := @nthElement_of_sorted Price _ _ key (prices.length / 2) _ _ (perm_insertionSort _ prices)
    (pairwise_insertionSort (fun a b : Price => a.key ≤ b.key) prices)
  have inside : prices.length / 2 < (prices.insertionSort fun a b => a.key ≤ b.key).length := by
    rw [length_insertionSort]
    exact Nat.div_lt_self (length_pos_of_ne_nil nonempty) (by decide)
  refine nth.isNth ?_
  rw [medianPrice, sorts, getD_eq_getElem?_getD, getElem?_eq_getElem inside]
  rfl

theorem isMedian_iff_key (hp : p.IsRate) (valid : ∀ p ∈ prices, p.IsRate) :
    p.IsMedian prices ↔ IsNthKey key (prices.length / 2) prices p.key := by
  have below : prices.countP (fun q => q.lt p) = prices.countP fun q => q.key < p.key :=
    countP_congr fun q member => by rw [lt_iff (valid q member) hp, decide_eq_true_eq]
  have upto : prices.countP (fun q => !p.lt q) = prices.countP fun q => q.key ≤ p.key :=
    countP_congr fun q member => by
      rw [Bool.not_eq_true', ← Bool.not_eq_true, lt_iff hp (valid q member), not_lt, decide_eq_true_eq]
  rw [IsMedian, below, upto]
  exact ⟨fun counts => ⟨counts.1, counts.2⟩, fun stands => ⟨stands.below, stands.upto⟩⟩

/-- What stands in the middle by counting is the median. -/
theorem isMedian_iff (hp : p.IsRate) (valid : ∀ p ∈ prices, p.IsRate) (nonempty : prices ≠ []) :
    p.IsMedian prices ↔ (medianPrice prices).eq p = true := by
  have nth := medianPrice_isNth valid nonempty
  rw [isMedian_iff_key hp valid, nth.isNthKey_iff, eq_iff (valid _ nth.mem) hp, eq_comm]

/-- Only the keys count. -/
theorem medianPrice_key_congr (valid : ∀ p ∈ prices, p.IsRate) (valid' : ∀ p ∈ prices', p.IsRate)
    (nonempty : prices ≠ []) (keys : prices'.map key = prices.map key) :
    (medianPrice prices').key = (medianPrice prices).key := by
  have length : prices'.length = prices.length := by simpa using congrArg length keys
  have nonempty' : prices' ≠ [] := by
    rw [← length_pos_iff, length]
    exact length_pos_of_ne_nil nonempty
  have nth := medianPrice_isNth valid nonempty
  have count (f : AssetSymbol ×ₗ ℚ → Bool) : prices'.countP (fun q => f q.key) = prices.countP fun q => f q.key := by
    have mapped := congrArg (countP f) keys
    simpa only [countP_map, Function.comp_def] using mapped
  refine ((medianPrice_isNth valid' nonempty').isNthKey_iff.mp ⟨?_, ?_⟩).symm
  · rw [length, count fun v => v < (medianPrice prices).key]
    exact nth.below
  · rw [length, count fun v => v ≤ (medianPrice prices).key]
    exact nth.upto

end Medians

/-! ## A feed written the other way -/

/-- The witness with its feed written the other way. -/
def Witness.swapFeed (w : Witness) : Witness :=
  { w with info := { w.info with sbdExchangeRate := w.info.sbdExchangeRate.inverse } }

def Database.swapFeed (s : Database) (name : AccountName) : Database :=
  { s with witnesses := s.witnesses.modify name Witness.swapFeed }

/-- A list of prices in which some copies of `x` are written the other way. -/
abbrev Swapped (x : Price) : List Price → List Price → Prop := Forall₂ fun p q => q = p ∨ p = x ∧ q = x.inverse

section Swaps

variable {s t : Database} {name : AccountName} {w : Witness}

theorem Price.isNull_inverse : p.inverse.isNull = p.isNull := by
  simp only [isNull, eq, null, Asset.steem_amount, mul_zero,
    zero_mul, decide_true, Bool.and_true]
  exact Bool.and_comm _ _

theorem feedCounts_swapFeed {v : Witness} : feedCounts (s.swapFeed name) v.swapFeed.info = feedCounts s v.info := by
  unfold feedCounts Witness.swapFeed
  simp only [isNull_inverse]
  rfl

theorem scheduledWitnesses_swapFeed (found : s.witnesses.find? name = some w)
    (read : scheduledWitnesses s = .ok (witnesses, s)) : ∃ witnesses',
      scheduledWitnesses (s.swapFeed name) = .ok (witnesses', s.swapFeed name) ∧
        Forall₂ (fun v v' => v' = v ∨ v = w ∧ v' = w.swapFeed) witnesses witnesses' := by
  have looked (names : List AccountName) (witnesses : List Witness)
      (read : names.mapM getWitness s = .ok (witnesses, s)) : ∃ witnesses',
        names.mapM getWitness (s.swapFeed name) = .ok (witnesses', s.swapFeed name) ∧
          Forall₂ (fun v v' => v' = v ∨ v = w ∧ v' = w.swapFeed) witnesses witnesses' := by
    induction names generalizing witnesses with
    | nil =>
      obtain ⟨rfl, _⟩ := pure_eq_ok.mp read
      exact ⟨[], pure_eq_ok.mpr ⟨rfl, rfl⟩, .nil⟩
    | cons x names ih =>
      simp only [mapM_cons, getWitness, bind_eq_ok, get_eq_ok, require_eq_ok, pure_eq_ok] at read
      obtain ⟨v, s₁, ⟨_, s₂, ⟨read₁, read₂⟩, there, read₃⟩, others, s₃, rest, read₄, read₅⟩ := read
      have last := read₅.symm
      subst read₁ read₂ read₃ read₄ last
      obtain ⟨others', rest', related⟩ := ih others rest
      have here : ∃ v', (s.swapFeed name).witnesses.find? x = some v' ∧ (v' = v ∨ v = w ∧ v' = w.swapFeed) := by
        rw [swapFeed, Store.find?_modify, there]
        split
        next same =>
          cases found.symm.trans (same ▸ there)
          exact ⟨w.swapFeed, rfl, .inr ⟨rfl, rfl⟩⟩
        · exact ⟨v, rfl, .inl rfl⟩
      obtain ⟨v', there', either⟩ := here
      refine ⟨v' :: others', ?_, .cons either related⟩
      simp only [mapM_cons, getWitness, bind_eq_ok, get_eq_ok, require_eq_ok, pure_eq_ok]
      exact ⟨v', _, ⟨_, _, ⟨rfl, rfl⟩, there', rfl⟩, others', _, rest', rfl, rfl⟩
  simp only [scheduledWitnesses, bind_eq_ok] at read
  obtain ⟨_, _, ⟨rfl, rfl⟩, read⟩ := read
  obtain ⟨witnesses', read', related⟩ := looked _ _ read
  refine ⟨witnesses', ?_, related⟩
  simp only [scheduledWitnesses, bind_eq_ok, get_eq_ok]
  exact ⟨_, _, ⟨rfl, rfl⟩, read'⟩

theorem feeds_swapped {witnesses' : List Witness}
    (related : Forall₂ (fun v v' => v' = v ∨ v = w ∧ v' = w.swapFeed) witnesses witnesses') :
    Swapped w.info.sbdExchangeRate ((witnesses.filter fun v => feedCounts s v.info).map fun v => v.info.sbdExchangeRate)
      ((witnesses'.filter fun v => feedCounts (s.swapFeed name) v.info).map fun v => v.info.sbdExchangeRate) := by
  induction related with
  | nil => exact .nil
  | @cons v v' _ _ either _ ih =>
    obtain rfl | ⟨rfl, rfl⟩ := either
    · have same : feedCounts (s.swapFeed name) v'.info = feedCounts s v'.info := rfl
      rw [filter_cons, filter_cons, same]
      split
      · exact .cons (.inl rfl) ih
      · exact ih
    · rw [filter_cons, filter_cons, feedCounts_swapFeed]
      split
      · exact .cons (.inr ⟨rfl, rfl⟩) ih
      · exact ih

/-- The feeds of the state in which one is written the other way. -/
theorem feedPrices_swapFeed (found : s.witnesses.find? name = some w)
    (read : scheduledWitnesses s = .ok (witnesses, s)) :
    Swapped w.info.sbdExchangeRate s.feedPrices (s.swapFeed name).feedPrices := by
  obtain ⟨witnesses', read', related⟩ := scheduledWitnesses_swapFeed found read
  rw [feedPrices, feedPrices, read, read']
  exact feeds_swapped related

variable {x : Price} {prices prices' : List Price}

theorem Swapped.length_eq (swapped : Swapped x prices prices') : prices.length = prices'.length :=
  Forall₂.length_eq swapped

theorem Swapped.isFeed (swapped : Swapped x prices prices') (valid : ∀ p ∈ prices, p.IsFeed) :
    ∀ p ∈ prices', p.IsFeed := by
  induction swapped with
  | nil => exact forall_mem_nil _
  | cons either _ ih =>
    obtain ⟨first, others⟩ := forall_mem_cons.mp valid
    refine forall_mem_cons.mpr ⟨?_, ih others⟩
    obtain rfl | ⟨rfl, rfl⟩ := either
    · exact first
    · exact first.inverse

/-- A price on the same side of another one whichever way it is written does not move it. -/
theorem Swapped.isMedian {m : Price} (swapped : Swapped x prices prices') (below : x.inverse.lt m = x.lt m)
    (above : m.lt x.inverse = m.lt x) (stands : m.IsMedian prices) : m.IsMedian prices' := by
  have counts : prices'.countP (fun q => q.lt m) = prices.countP (fun q => q.lt m) ∧
      prices'.countP (fun q => !m.lt q) = prices.countP fun q => !m.lt q := by
    clear stands
    induction swapped with
    | nil => exact ⟨rfl, rfl⟩
    | cons either _ ih =>
      obtain rfl | ⟨rfl, rfl⟩ := either
      · simp only [countP_cons, ih, and_self]
      · simp only [countP_cons, ih, below, above, and_self]
  rw [IsMedian, counts.1, counts.2, ← swapped.length_eq]
  exact stands

end Swaps

/-! ## The outcome -/

/-- What was published is valid, and the supplies are amounts of tokens. -/
structure Database.FeedsValid (s : Database) : Prop where
  feeds : ∀ p ∈ s.feedPrices, p.IsFeed
  history : ∀ p ∈ s.feed.priceHistory, p.IsFeed
  minimum : s.minPrice.IsRate

section Outcome

variable {s t : Database} {name : AccountName} {w : Witness}

/-- The update runs through if the scheduled witnesses are found, and it looks for them only when it is time. -/
theorem updateMedianFeed_runs (reads : s.head.headBlockNumber % feedIntervalBlocks = 0 →
    ∃ witnesses, scheduledWitnesses s = .ok (witnesses, s)) : ∃ t, updateMedianFeed s = .ok ((), t) := by
  have through : EndsIn s updateMedianFeed (fun _ _ => True) fun _ => False := by
    rw [updateMedianFeed]
    refine endsIn_get_bind (endsIn_when (fun interval => ?_) fun _ => trivial)
    obtain ⟨witnesses, read⟩ := reads interval
    refine EndsIn.bind (endsIn_of_run (Q := fun _ _ => True) read trivial) fun _ _ _ => ?_
    refine endsIn_when (fun _ => ?_) fun _ => trivial
    exact endsIn_modify_bind (endsIn_when (fun _ => endsIn_modify trivial) fun _ => trivial)
  obtain ⟨_, t, run⟩ := through.runs
  exact ⟨t, run⟩

theorem updateMedianFeed_reads (run : updateMedianFeed s = .ok ((), t))
    (interval : s.head.headBlockNumber % feedIntervalBlocks = 0) :
    ∃ witnesses, scheduledWitnesses s = .ok (witnesses, s) := by
  simp only [updateMedianFeed, bind_eq_ok] at run
  obtain ⟨_, _, ⟨rfl, rfl⟩, run⟩ := run
  rw [when, if_pos interval, bind_eq_ok] at run
  obtain ⟨witnesses, u, read, _⟩ := run
  obtain rfl := preservesEq_scheduledWitnesses.after read
  exact ⟨witnesses, read⟩

theorem medianPrice_mem (valid : ∀ p ∈ prices, p.IsFeed) (nonempty : prices ≠ []) : medianPrice prices ∈ prices :=
  (medianPrice_isNth (fun p member => (valid p member).toIsRate) nonempty).mem

theorem nextPriceHistory_ne_nil : s.nextPriceHistory ≠ [] := by
  unfold nextPriceHistory
  dsimp only
  split
  next long =>
    have window : 1 ≤ feedHistoryWindow s := by
      unfold feedHistoryWindow
      split <;> decide
    rw [← length_pos_iff, length_tail]
    omega
  · simp

theorem ne_nil_of_minFeeds (enough : minFeeds ≤ prices.length) : prices ≠ [] := by
  rintro rfl
  cases enough

theorem nextPriceHistory_keys (feed : s'.feed = s.feed) (hardforks : s'.hardforks = s.hardforks)
    (key : (medianPrice s'.feedPrices).key = (medianPrice s.feedPrices).key) :
    s'.nextPriceHistory.map Price.key = s.nextPriceHistory.map Price.key := by
  have window : feedHistoryWindow s' = feedHistoryWindow s := by
    rw [feedHistoryWindow, hasHardfork, hardforks]
    rfl
  unfold nextPriceHistory
  rw [window, feed]
  simp only [length_append, length_singleton]
  split
  · rw [map_tail, map_tail, map_append, map_append, map_singleton, map_singleton, key]
  · rw [map_append, map_append, map_singleton, map_singleton, key]

theorem Database.FeedsValid.next (valid : s.FeedsValid) (enough : minFeeds ≤ s.feedPrices.length) :
    ∀ p ∈ s.nextPriceHistory, p.IsFeed := by
  have nonempty := ne_nil_of_minFeeds enough
  have all : ∀ p ∈ s.feed.priceHistory ++ [medianPrice s.feedPrices], p.IsFeed := by
    intro p member
    obtain old | new := mem_append.mp member
    · exact valid.history p old
    · rw [mem_singleton.mp new]
      exact valid.feeds _ (medianPrice_mem valid.feeds nonempty)
  unfold nextPriceHistory
  dsimp only
  split
  · exact fun p member => all p (mem_of_mem_tail member)
  · exact all

theorem Database.FeedsValid.swapFeed (valid : s.FeedsValid) (found : s.witnesses.find? name = some w)
    (read : scheduledWitnesses s = .ok (witnesses, s)) : (s.swapFeed name).FeedsValid where
  feeds := (feedPrices_swapFeed found read).isFeed valid.feeds
  history := valid.history
  minimum := valid.minimum

/-- The same rate, and the minimum applied in the same way. -/
def SameOutcome (s s' t t' : Database) : Prop :=
  t'.feed.currentMedianHistory.SameRate t.feed.currentMedianHistory ∧ s'.medianRaised = s.medianRaised

theorem Price.eq_refl : p.eq p = true := by
  simp [eq]

/-- Medians with the same key have the same outcome. -/
theorem medianRaised_of_key (valid : s.minPrice.IsRate) (minimum : s'.minPrice = s.minPrice)
    (hardforks : s'.hardforks = s.hardforks) (head : s'.head = s.head)
    (length : s'.feedPrices.length = s.feedPrices.length) (median : (medianPrice s.nextPriceHistory).IsRate)
    (median' : (medianPrice s'.nextPriceHistory).IsRate)
    (key : (medianPrice s'.nextPriceHistory).key = (medianPrice s.nextPriceHistory).key) :
    s'.medianRaised = s.medianRaised := by
  have raised : (medianPrice s'.nextPriceHistory).lt s.minPrice = (medianPrice s.nextPriceHistory).lt s.minPrice := by
    rw [Bool.eq_iff_iff, lt_iff median' valid, lt_iff median valid, key]
  rw [medianRaised, medianRaised, head, length, minimum, raised, hasHardfork, hardforks]
  rfl

/-- A feed written the other way has no effect exactly if no median is computed, or both medians are raised to
the minimum, or neither is and the old median, written one way or the other, stands in the middle of the new
history by counting.  So it has none if the feed stands on the same side of the median of the feeds, whichever
way it is written. -/
theorem feed_orientation_iff (valid : s.FeedsValid) (found : s.witnesses.find? name = some w)
    (run : updateMedianFeed s = .ok ((), t)) : ∃ t', updateMedianFeed (s.swapFeed name) = .ok ((), t') ∧
      (SameOutcome s (s.swapFeed name) t t' ↔ s.medianRaised = none ∨
        (s.medianRaised = some true ∧ (s.swapFeed name).medianRaised = some true) ∨
        (s.medianRaised = some false ∧ (s.swapFeed name).medianRaised = some false ∧
          ((medianPrice s.nextPriceHistory).IsMedian (s.swapFeed name).nextPriceHistory ∨
            (medianPrice s.nextPriceHistory).inverse.IsMedian (s.swapFeed name).nextPriceHistory))) ∧
      (w.info.sbdExchangeRate.inverse.lt (medianPrice s.feedPrices) =
          w.info.sbdExchangeRate.lt (medianPrice s.feedPrices) →
        (medianPrice s.feedPrices).lt w.info.sbdExchangeRate.inverse =
          (medianPrice s.feedPrices).lt w.info.sbdExchangeRate → SameOutcome s (s.swapFeed name) t t') := by
  have reads' : (s.swapFeed name).head.headBlockNumber % feedIntervalBlocks = 0 →
      ∃ witnesses, scheduledWitnesses (s.swapFeed name) = .ok (witnesses, s.swapFeed name) := by
    intro interval
    obtain ⟨witnesses, read⟩ := updateMedianFeed_reads run interval
    obtain ⟨witnesses', read', _⟩ := scheduledWitnesses_swapFeed found read
    exact ⟨witnesses', read'⟩
  obtain ⟨t', run'⟩ := updateMedianFeed_runs reads'
  have feed := updateMedianFeed_feed _ _ run
  have feed' := updateMedianFeed_feed _ _ run'
  refine ⟨t', run', ?_⟩
  by_cases computed : s.head.headBlockNumber % feedIntervalBlocks = 0 ∧ minFeeds ≤ s.feedPrices.length
  · obtain ⟨interval, enough⟩ := computed
    obtain ⟨witnesses, read⟩ := updateMedianFeed_reads run interval
    have swapped := feedPrices_swapFeed found read
    have valid' := valid.swapFeed found read
    have enough' : minFeeds ≤ (s.swapFeed name).feedPrices.length := swapped.length_eq ▸ enough
    have rates := fun p member => (valid.next enough p member).toIsRate
    have rates' := fun p member => (valid'.next enough' p member).toIsRate
    have median := valid.next enough _ (medianPrice_mem (valid.next enough) nextPriceHistory_ne_nil)
    have median' := valid'.next enough' _ (medianPrice_mem (valid'.next enough') nextPriceHistory_ne_nil)
    refine ⟨?_, fun below above => ?_⟩
    · have present : ∃ raised, s.medianRaised = some raised := ⟨_, if_pos ⟨interval, enough⟩⟩
      have present' : ∃ raised, (s.swapFeed name).medianRaised = some raised := ⟨_, if_pos ⟨interval, enough'⟩⟩
      obtain ⟨raised, is⟩ := present
      obtain ⟨raised', is'⟩ := present'
      rw [SameOutcome, feed, feed', is, is']
      cases raised with
      | false =>
        cases raised' with
        | false =>
          rw [isMedian_iff median.toIsRate rates' nextPriceHistory_ne_nil,
            isMedian_iff median.inverse.toIsRate rates' nextPriceHistory_ne_nil]
          simp [SameRate]
        | true => simp
      | true =>
        cases raised' with
        | false => simp
        | true => simp [SameRate, minPrice, swapFeed, eq_refl]
    · have nonempty : s.feedPrices ≠ [] := ne_nil_of_minFeeds enough
      have nonempty' : (s.swapFeed name).feedPrices ≠ [] := ne_nil_of_minFeeds enough'
      have feeds := fun p member => (valid.feeds p member).toIsRate
      have feeds' := fun p member => (valid'.feeds p member).toIsRate
      have middle := (valid.feeds _ (medianPrice_mem valid.feeds nonempty)).toIsRate
      -- the median of the feeds stays in the middle, so the histories have the same keys
      have stands := swapped.isMedian below above ((isMedian_iff middle feeds nonempty).mpr eq_refl)
      have same := (eq_iff (feeds' _ (medianPrice_mem valid'.feeds nonempty')) middle).mp
        ((isMedian_iff middle feeds' nonempty').mp stands)
      have key := medianPrice_key_congr rates rates' nextPriceHistory_ne_nil (nextPriceHistory_keys rfl rfl same)
      have raised : (s.swapFeed name).medianRaised = s.medianRaised := medianRaised_of_key valid.minimum rfl rfl rfl
        swapped.length_eq.symm median.toIsRate
        median'.toIsRate key
      refine ⟨?_, raised⟩
      rw [feed, feed', raised]
      cases s.medianRaised with
      | none => exact .inl eq_refl
      | some forced =>
        cases forced with
        | false => exact .inl ((eq_iff median'.toIsRate median.toIsRate).mpr key)
        | true => exact .inl eq_refl
  · have absent : s.medianRaised = none := if_neg computed
    have absent' : (s.swapFeed name).medianRaised = none := by
      refine if_neg fun both => computed ⟨both.1, ?_⟩
      obtain ⟨witnesses, read⟩ := updateMedianFeed_reads run both.1
      rw [(feedPrices_swapFeed found read).length_eq]
      exact both.2
    have same : SameOutcome s (s.swapFeed name) t t' := by
      rw [SameOutcome, feed, feed', absent, absent']
      exact ⟨.inl eq_refl, rfl⟩
    exact ⟨iff_of_true same (.inl absent), fun _ _ => same⟩

theorem IsFeed.ofSbd {sbd steem : Int} (base : 0 < sbd ∧ sbd < 2 ^ 63) (quote : 0 < steem ∧ steem < 2 ^ 63) :
    IsFeed ⟨.sbd sbd, .steem steem⟩ :=
  ⟨⟨.inl ⟨rfl, rfl⟩, ⟨base.1.le, base.2⟩, quote⟩, base.1⟩

/-- Seven witnesses with the same feed. -/
def feeding (price : Price) : Store AccountName Witness :=
  (List.range 7).foldl (fun t i => t.insert ⟨i + 1⟩
    { info := { sbdExchangeRate := price, lastSbdExchangeUpdate := 1600000000 } }) .empty

/-- A feed below the minimum: SBD is worth far more than a tenth of the market. -/
def lowFeed : Database :=
  { head := { time := 1600000000, headBlockNumber := 12000000 }
    hardforks := { processedHardforks := List.replicate 20 0 }
    schedule := { currentShuffledWitnesses := (List.range 7).map fun i => ⟨i + 1⟩, numScheduledWitnesses := 7 }
    supply := { currentSupply := 1000000, currentSbdSupply := 100000 }
    rates := { sbdInterestRate := 1000 }
    witnesses := feeding ⟨.sbd 100, .steem 1000⟩
    accounts := Store.empty.insert .alice { balances := { sbdBalance := 50000, savingsSbdBalance := 50000 } } }

/-- The median is raised. -/
def afterLowFeed : Database := stateAfter updateMedianFeed lowFeed

/-- One low feed of seven written the other way: the median is raised all the same. -/
theorem feed_orientation_lowFeed : ∃ t', updateMedianFeed (lowFeed.swapFeed ⟨1⟩) = .ok ((), t') ∧
      SameOutcome lowFeed (lowFeed.swapFeed ⟨1⟩) afterLowFeed t' := by
  have feeds : lowFeed.feedPrices = replicate 7 ⟨.sbd 100, .steem 1000⟩ := by decide +kernel
  have valid : lowFeed.FeedsValid :=
    { feeds := fun p member => by
        rw [feeds] at member
        rw [eq_of_mem_replicate member]
        exact IsFeed.ofSbd (by decide) (by decide)
      history := fun p member => absurd member not_mem_nil
      minimum := (IsFeed.ofSbd (by decide) (by decide)).toIsRate }
  have run : updateMedianFeed lowFeed = .ok ((), afterLowFeed) := stateAfter_eq (by decide +kernel)
  obtain ⟨t', run', outcome, _⟩ := @feed_orientation_iff _ _ ⟨1⟩ _ valid rfl run
  exact ⟨t', run', outcome.mpr (.inr (.inl ⟨by decide +kernel, by decide +kernel⟩))⟩

end Outcome

/-- Seven feeds in GBG, from 1 to 7 for a GOLOS. -/
def spreadFeed : Database :=
  { lowFeed with
    witnesses := (range 7).foldl (fun t i => t.insert ⟨i + 1⟩
      { info := { sbdExchangeRate := ⟨.sbd (1000 * (i + 1)), .steem 1000⟩, lastSbdExchangeUpdate := 1600000000 } })
      .empty }

/-- Four low feeds in GBG, and the same ones in GOLOS by the other three witnesses. -/
def mixedFeed : Database := ((lowFeed.swapFeed ⟨5⟩).swapFeed ⟨6⟩).swapFeed ⟨7⟩

/-- If the lowest of seven feeds is written the other way, it counts as the highest, and the median moves from 4
to 5; and a low median is no longer raised to the minimum if one more feed is in GOLOS. -/
theorem feed_orientation_matters : (FeedPublishOperation.mk .alice ⟨.sbd 1000, .steem 1000⟩).validate = .ok () ∧
      (FeedPublishOperation.mk .alice (inverse ⟨.sbd 1000, .steem 1000⟩)).validate = .ok () ∧
      (updateMedianFeed spreadFeed).isOk = true ∧
      (stateAfter updateMedianFeed spreadFeed).feed.currentMedianHistory = ⟨.sbd 4000, .steem 1000⟩ ∧
      (updateMedianFeed (spreadFeed.swapFeed ⟨1⟩)).isOk = true ∧
      (stateAfter updateMedianFeed (spreadFeed.swapFeed ⟨1⟩)).feed.currentMedianHistory = ⟨.sbd 5000, .steem 1000⟩ ∧
    (updateMedianFeed mixedFeed).isOk = true ∧ mixedFeed.medianRaised = some true ∧
      (stateAfter updateMedianFeed mixedFeed).feed.currentMedianHistory = mixedFeed.minPrice ∧
      (updateMedianFeed (mixedFeed.swapFeed ⟨1⟩)).isOk = true ∧ (mixedFeed.swapFeed ⟨1⟩).medianRaised = some false ∧
      (stateAfter updateMedianFeed (mixedFeed.swapFeed ⟨1⟩)).feed.currentMedianHistory = ⟨.steem 1000, .sbd 100⟩ := by
  decide +kernel

end Golos
