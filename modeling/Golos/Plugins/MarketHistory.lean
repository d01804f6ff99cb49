import Golos.Chain.FeedOrder
import Mathlib.Algebra.Order.BigOperators.Group.List

/-! # Candles of the market

The market history plugin folds every fill of an order into one bucket of each tracked size, and removes old buckets of
that size when it changes one.

* `candles_exact` — every stored bucket sums up the fills of its interval, every fill is in one bucket of each size, and
  only buckets that began before the cutoff are removed.
* `volume_daily_iff` — when the volumes that are reported are those of the last 24 hours.
-/

namespace Golos.MarketHistory

open Store List

/-! ## Buckets -/

/-- A `fill_order_operation`, with the time of its block. -/
structure Fill where
  openPays : Asset
  currentPays : Asset
  time : Nat

/-- The amounts of a `bucket_object`; its size and its beginning are where it is stored. -/
structure Bucket where
  highSteem : Int
  highSbd : Int
  lowSteem : Int
  lowSbd : Int
  openSteem : Int
  openSbd : Int
  closeSteem : Int
  closeSbd : Int
  steemVolume : Int
  sbdVolume : Int
deriving DecidableEq

def trackedBuckets : List Nat := [15, 60, 300, 3600, 86400]

def maximumHistoryPerBucketSize : Nat := 1000

/-- How long before the head block the cutoff is; the product is taken in 32 bits. -/
def historySeconds (seconds : Nat) : Nat := seconds * maximumHistoryPerBucketSize % 2 ^ 32

namespace Bucket

def high (b : Bucket) : Price := ⟨.sbd b.highSbd, .steem b.highSteem⟩

def low (b : Bucket) : Price := ⟨.sbd b.lowSbd, .steem b.lowSteem⟩

/-- The bucket of a first fill. -/
def create (steem sbd : Asset) : Bucket :=
  ⟨steem.amount, sbd.amount, steem.amount, sbd.amount, steem.amount, sbd.amount, steem.amount, sbd.amount, steem.amount,
    sbd.amount⟩

/-- What a further fill changes. -/
def add (b : Bucket) (steem sbd : Asset) : Bucket :=
  let price : Price := ⟨sbd, steem⟩
  let higher := b.high.lt price
  let lower := !(b.low.eq price || b.low.lt price)
  { b with
    steemVolume := b.steemVolume + steem.amount
    sbdVolume := b.sbdVolume + sbd.amount
    closeSteem := steem.amount
    closeSbd := sbd.amount
    highSteem := if higher then steem.amount else b.highSteem
    highSbd := if higher then sbd.amount else b.highSbd
    lowSteem := if lower then steem.amount else b.lowSteem
    lowSbd := if lower then sbd.amount else b.lowSbd }

end Bucket

namespace Fill

/-- The STEEM side of a fill, in either direction. -/
def steem (f : Fill) : Asset := if f.openPays.symbol = steemSymbol then f.openPays else f.currentPays

def sbd (f : Fill) : Asset := if f.openPays.symbol = steemSymbol then f.currentPays else f.openPays

/-- Where the bucket begins that a fill goes into. -/
def opens (seconds : Nat) (f : Fill) : Nat := f.time / seconds * seconds

/-- The fill is in the interval of a bucket. -/
def Within (seconds start : Nat) (f : Fill) : Prop := start ≤ f.time ∧ f.time < start + seconds

instance {seconds start : Nat} {f : Fill} : Decidable (f.Within seconds start) := inferInstanceAs (Decidable (_ ∧ _))

/-- The cutoff of a fill, which is converted to a `time_point_sec` when it is compared. -/
def cutoff (seconds : Nat) (f : Fill) : Nat := (f.time + (2 ^ 32 - historySeconds seconds)) % 2 ^ 32

/-- A fill of the market, with positive amounts of 64 bits, in a block: no block is from 1972 or earlier. -/
structure Valid (f : Fill) : Prop where
  symbols : f.openPays.symbol = steemSymbol ∧ f.currentPays.symbol = sbdSymbol ∨
    f.openPays.symbol = sbdSymbol ∧ f.currentPays.symbol = steemSymbol
  openPays : 0 < f.openPays.amount ∧ f.openPays.amount < 2 ^ 63
  currentPays : 0 < f.currentPays.amount ∧ f.currentPays.amount < 2 ^ 63
  time : historySeconds 86400 ≤ f.time ∧ f.time < 2 ^ 32

/-- The price of a fill in SBD per STEEM. -/
def rate (f : Fill) : ℚ := f.sbd.amount / f.steem.amount

end Fill

/-- One round of the loop of `update_market_histories`: the buckets of one size by their beginnings.  The index is in
the order of the beginnings, so that the loop removes all buckets before the cutoff. -/
def updateSeries (seconds : Nat) (series : Store Nat Bucket) (f : Fill) : Store Nat Bucket :=
  match series.find? (f.opens seconds) with
  | none => series.insert (f.opens seconds) (.create f.steem f.sbd)
  | some _ =>
    (series.modify (f.opens seconds) (·.add f.steem f.sbd)).filter fun start _ => f.cutoff seconds ≤ start

def updateMarketHistories (buckets : Nat → Store Nat Bucket) (f : Fill) : Nat → Store Nat Bucket :=
  fun seconds => if seconds ∈ trackedBuckets then updateSeries seconds (buckets seconds) f else buckets seconds

/-- The buckets after some fills. -/
def buckets (fills : List Fill) : Nat → Store Nat Bucket := fills.foldl updateMarketHistories fun _ => .empty

/-! ## Prices -/

section Prices

variable {f g : Fill}

theorem Fill.Valid.price_eq (valid : f.Valid) :
    (⟨.sbd f.sbd.amount, .steem f.steem.amount⟩ : Price) = ⟨f.sbd, f.steem⟩ := by
  unfold Fill.sbd Fill.steem
  obtain ⟨opens, current⟩ | ⟨opens, current⟩ := valid.symbols
  · rw [if_pos opens, if_pos opens, Asset.sbd, Asset.steem, ← current, ← opens]
  · have other : f.openPays.symbol ≠ steemSymbol := by rw [opens]; decide
    rw [if_neg other, if_neg other, Asset.sbd, Asset.steem, ← current, ← opens]

theorem Fill.Valid.isRate (valid : f.Valid) : Price.IsRate ⟨f.sbd, f.steem⟩ := by
  have positive : (0 < f.sbd.amount ∧ f.sbd.amount < 2 ^ 63) ∧ 0 < f.steem.amount ∧ f.steem.amount < 2 ^ 63 := by
    unfold Fill.sbd Fill.steem
    split
    · exact ⟨valid.currentPays, valid.openPays⟩
    · exact ⟨valid.openPays, valid.currentPays⟩
  rw [← valid.price_eq]
  exact ⟨.inl ⟨rfl, rfl⟩, ⟨positive.1.1.le, positive.1.2⟩, positive.2⟩

theorem Fill.Valid.key (valid : f.Valid) : Price.key ⟨f.sbd, f.steem⟩ = toLex (sbdSymbol, f.rate) := by
  rw [← valid.price_eq]
  rfl

theorem Fill.Valid.lt_iff (hf : f.Valid) (hg : g.Valid) :
    Price.lt ⟨f.sbd, f.steem⟩ ⟨g.sbd, g.steem⟩ = true ↔ f.rate < g.rate := by
  rw [Price.lt_iff hf.isRate hg.isRate, hf.key, hg.key, Prod.Lex.toLex_lt_toLex]
  simp

theorem Fill.Valid.eq_iff (hf : f.Valid) (hg : g.Valid) :
    Price.eq ⟨f.sbd, f.steem⟩ ⟨g.sbd, g.steem⟩ = true ↔ f.rate = g.rate := by
  rw [Price.eq_iff hf.isRate hg.isRate, hf.key, hg.key, toLex_inj]
  simp

end Prices

/-! ## Summaries -/

/-- The amounts of a fill. -/
def Fill.Shows (f : Fill) (steem sbd : Int) : Prop := steem = f.steem.amount ∧ sbd = f.sbd.amount

/-- A bucket sums up some fills. -/
structure Bucket.Summarises (b : Bucket) (fills : List Fill) : Prop where
  opens : ∃ f, fills.head? = some f ∧ f.Shows b.openSteem b.openSbd
  closes : ∃ f, fills.getLast? = some f ∧ f.Shows b.closeSteem b.closeSbd
  high : ∃ f ∈ fills, f.Shows b.highSteem b.highSbd ∧ ∀ g ∈ fills, g.rate ≤ f.rate
  low : ∃ f ∈ fills, f.Shows b.lowSteem b.lowSbd ∧ ∀ g ∈ fills, f.rate ≤ g.rate
  steemVolume : b.steemVolume = (fills.map (·.steem.amount)).sum
  sbdVolume : b.sbdVolume = (fills.map (·.sbd.amount)).sum

section Summaries

variable {f : Fill} {fills : List Fill} {b : Bucket} {seconds start : Nat} {series : Store Nat Bucket}

theorem summarises_create (f : Fill) : (Bucket.create f.steem f.sbd).Summarises [f] where
  opens := ⟨f, rfl, rfl, rfl⟩
  closes := ⟨f, rfl, rfl, rfl⟩
  high := ⟨f, mem_singleton_self f, ⟨rfl, rfl⟩, fun g member => by rw [mem_singleton.mp member]⟩
  low := ⟨f, mem_singleton_self f, ⟨rfl, rfl⟩, fun g member => by rw [mem_singleton.mp member]⟩
  steemVolume := by simp [Bucket.create]
  sbdVolume := by simp [Bucket.create]

theorem Bucket.Summarises.add (sums : b.Summarises fills) (valid : f.Valid) (allValid : ∀ g ∈ fills, g.Valid) :
    (b.add f.steem f.sbd).Summarises (fills ++ [f]) where
  opens := by
    obtain ⟨g, first, shows⟩ := sums.opens
    exact ⟨g, by rw [head?_append, first]; rfl, shows⟩
  closes := ⟨f, getLast?_concat, rfl, rfl⟩
  high := by
    obtain ⟨g, member, shows, highest⟩ := sums.high
    have compared : b.high.lt ⟨f.sbd, f.steem⟩ = true ↔ g.rate < f.rate := by
      rw [← (allValid g member).lt_iff valid, ← (allValid g member).price_eq, Bucket.high, shows.1, shows.2]
    simp only [mem_append, mem_singleton, Bucket.add, compared]
    split
    next higher =>
      refine ⟨f, .inr rfl, ⟨rfl, rfl⟩, ?_⟩
      rintro h (old | rfl)
      · exact (highest h old).trans higher.le
      · exact le_rfl
    next lower =>
      refine ⟨g, .inl member, shows, ?_⟩
      rintro h (old | rfl)
      · exact highest h old
      · exact not_lt.mp lower
  low := by
    obtain ⟨g, member, shows, lowest⟩ := sums.low
    have compared : (!(b.low.eq ⟨f.sbd, f.steem⟩ || b.low.lt ⟨f.sbd, f.steem⟩)) = true ↔ f.rate < g.rate := by
      have valid' := allValid g member
      rw [Bucket.low, shows.1, shows.2, valid'.price_eq, Bool.not_eq_true', Bool.or_eq_false_iff, ← not_le,
        le_iff_eq_or_lt, not_or,
        ← valid'.eq_iff valid, ← valid'.lt_iff valid, Bool.not_eq_true, Bool.not_eq_true]
    simp only [mem_append, mem_singleton, Bucket.add, compared]
    split
    next lower =>
      refine ⟨f, .inr rfl, ⟨rfl, rfl⟩, ?_⟩
      rintro h (old | rfl)
      · exact lower.le.trans (lowest h old)
      · exact le_rfl
    next higher =>
      refine ⟨g, .inl member, shows, ?_⟩
      rintro h (old | rfl)
      · exact lowest h old
      · exact not_lt.mp higher
  steemVolume := by simp [Bucket.add, sums.steemVolume]
  sbdVolume := by simp [Bucket.add, sums.sbdVolume]

theorem Fill.within_iff (positive : 0 < seconds) (f : Fill) :
    seconds ∣ start ∧ f.Within seconds start ↔ start = f.opens seconds := by
  have split := Nat.div_add_mod' f.time seconds
  have small := Nat.mod_lt f.time positive
  unfold Fill.Within Fill.opens
  constructor
  · rintro ⟨⟨k, rfl⟩, after, before⟩
    have here : f.time / seconds = k :=
      Nat.div_eq_of_lt_le (by rwa [Nat.mul_comm]) (by rwa [Nat.mul_comm, Nat.mul_succ])
    rw [here, Nat.mul_comm]
  · rintro rfl
    exact ⟨Nat.dvd_mul_left _ _, by omega, by omega⟩

/-! ## Series -/

/-- What is stored after some fills. -/
structure Folded (seconds : Nat) (fills : List Fill) (series : Store Nat Bucket) : Prop where
  exact : ∀ {start b}, series.find? start = some b →
    seconds ∣ start ∧ b.Summarises (fills.filter (·.Within seconds start))
  kept : ∀ f ∈ fills, series.find? (f.opens seconds) ≠ none ∨ ∃ g ∈ fills,
    f.opens seconds + historySeconds seconds < g.time

theorem tracked_sizes (tracked : seconds ∈ trackedBuckets) :
    0 < seconds ∧ seconds ≤ historySeconds seconds ∧ historySeconds seconds ≤ historySeconds 86400 := by
  have all : ∀ seconds ∈ trackedBuckets,
      0 < seconds ∧ seconds ≤ historySeconds seconds ∧ historySeconds seconds ≤ historySeconds 86400 := by decide
  exact all seconds tracked

/-- At the times of blocks the cutoff is what it should be. -/
theorem Fill.Valid.before_cutoff (valid : f.Valid) (tracked : seconds ∈ trackedBuckets) :
    start < f.cutoff seconds ↔ start + historySeconds seconds < f.time := by
  have long := (tracked_sizes tracked).2.2
  have time := valid.time
  have small : historySeconds seconds < 2 ^ 32 := Nat.mod_lt _ (by decide)
  have plain : f.cutoff seconds = f.time - historySeconds seconds := by
    have whole : f.time + (2 ^ 32 - historySeconds seconds) = f.time - historySeconds seconds + 2 ^ 32 := by omega
    rw [Fill.cutoff, whole, Nat.add_mod_right, Nat.mod_eq_of_lt (by omega)]
  omega

/-- Which buckets there are not after a fill. -/
theorem updateSeries_eq_none : (updateSeries seconds series f).find? start = none ↔
    if series.find? (f.opens seconds) = none then series.find? start = none ∧ start ≠ f.opens seconds
    else series.find? start = none ∨ start < f.cutoff seconds := by
  cases stored : series.find? (f.opens seconds) with
  | none =>
    rw [updateSeries, stored, find?_insert stored, if_pos rfl]
    by_cases same : start = f.opens seconds <;> simp [same]
  | some b =>
    rw [updateSeries, stored, if_neg nofun, Option.eq_none_iff_forall_ne_some]
    simp only [ne_eq, Store.find?_filter, find?_modify]
    cases series.find? start with
    | none => simp
    | some b' => by_cases same : start = f.opens seconds <;> simp [same]

/-- A bucket that is gone after a fill began before the cutoff. -/
theorem updateSeries_removes (valid : f.Valid) (tracked : seconds ∈ trackedBuckets) (stored : series.find? start ≠ none)
    (gone : (updateSeries seconds series f).find? start = none) : start + historySeconds seconds < f.time := by
  rw [updateSeries_eq_none, valid.before_cutoff tracked] at gone
  split at gone
  · exact absurd gone.1 stored
  · exact gone.resolve_left stored

/-- The bucket of the newest fill is always there. -/
theorem updateSeries_newest (valid : f.Valid) (tracked : seconds ∈ trackedBuckets) :
    (updateSeries seconds series f).find? (f.opens seconds) ≠ none := by
  obtain ⟨positive, long, -⟩ := tracked_sizes tracked
  have young : f.time < f.opens seconds + seconds := ((f.within_iff positive).mpr rfl).2.2
  rw [ne_eq, updateSeries_eq_none, valid.before_cutoff tracked]
  split
  · exact fun absent => absurd rfl absent.2
  next stored => exact fun gone => absurd (gone.resolve_left stored) (by omega)

theorem Folded.update (folded : Folded seconds fills series) (tracked : seconds ∈ trackedBuckets)
    (valid : f.Valid) (allValid : ∀ g ∈ fills, g.Valid) (latest : ∀ g ∈ fills, g.time ≤ f.time) :
    Folded seconds (fills ++ [f]) (updateSeries seconds series f) := by
  obtain ⟨positive, long, -⟩ := tracked_sizes tracked
  have own : seconds ∣ f.opens seconds ∧ f.Within seconds (f.opens seconds) := (f.within_iff positive).mpr rfl
  have inside : (fills ++ [f]).filter (·.Within seconds (f.opens seconds)) =
      fills.filter (·.Within seconds (f.opens seconds)) ++ [f] := by simp [own.2]
  have outside {start} (multiple : seconds ∣ start) (other : start ≠ f.opens seconds) :
      (fills ++ [f]).filter (·.Within seconds start) = fills.filter (·.Within seconds start) := by
    have elsewhere : ¬f.Within seconds start := fun within => other ((f.within_iff positive).mp ⟨multiple, within⟩)
    simp [elsewhere]
  constructor
  · intro start b found
    unfold updateSeries at found
    split at found
    next absent =>
      obtain ⟨rfl, rfl⟩ | ⟨other, found⟩ := (find?_insert_eq_some absent).mp found
      · -- an earlier fill of the interval would have left its bucket, which is too young to be removed
        have first : fills.filter (·.Within seconds (f.opens seconds)) = [] := by
          refine filter_eq_nil_iff.mpr fun g member within => ?_
          have same := (g.within_iff positive).mp ⟨own.1, of_decide_eq_true within⟩
          rcases folded.kept g member with there | ⟨h, member', old⟩
          · exact there (same ▸ absent)
          · have := latest h member'
            have := own.2.2
            omega
        rw [inside, first]
        exact ⟨own.1, summarises_create f⟩
      · obtain ⟨multiple, sums⟩ := folded.exact found
        exact ⟨multiple, outside multiple other ▸ sums⟩
    · obtain ⟨found, -⟩ := find?_filter.mp found
      obtain ⟨rfl, b', found', rfl⟩ | ⟨other, found⟩ := find?_modify_eq_some.mp found
      · obtain ⟨multiple, sums⟩ := folded.exact found'
        rw [inside]
        exact ⟨multiple, sums.add valid fun g member => allValid g (mem_filter.mp member).1⟩
      · obtain ⟨multiple, sums⟩ := folded.exact found
        exact ⟨multiple, outside multiple other ▸ sums⟩
  · intro g member
    by_cases gone : (updateSeries seconds series f).find? (g.opens seconds) = none
    · right
      rcases mem_append.mp member with old | new
      · rcases folded.kept g old with there | ⟨h, member', early⟩
        · exact ⟨f, mem_concat_self, updateSeries_removes valid tracked there gone⟩
        · exact ⟨h, mem_append_left _ member', early⟩
      · rw [mem_singleton.mp new] at gone
        exact absurd gone (updateSeries_newest valid tracked)
    · exact .inl gone

end Summaries

/-! ## Histories -/

section Histories

variable {f : Fill} {fills : List Fill} {seconds : Nat}

theorem buckets_concat (tracked : seconds ∈ trackedBuckets) :
    buckets (fills ++ [f]) seconds = updateSeries seconds (buckets fills seconds) f := by
  rw [buckets, foldl_append]
  exact if_pos tracked

theorem folded_buckets (tracked : seconds ∈ trackedBuckets) (valid : ∀ f ∈ fills, f.Valid)
    (ordered : fills.Pairwise (·.time ≤ ·.time)) : Folded seconds fills (buckets fills seconds) := by
  induction fills using reverseRecOn with
  | nil => exact ⟨fun found => (by cases found), fun f member => (by cases member)⟩
  | append_singleton fills f ih =>
    obtain ⟨ordered, -, latest⟩ := pairwise_append.mp ordered
    have allValid (g : Fill) (member : g ∈ fills) : g.Valid := valid g (mem_append_left _ member)
    rw [buckets_concat tracked]
    exact (ih allValid ordered).update tracked (valid f mem_concat_self) allValid fun g member =>
      latest g member f (mem_singleton_self f)

/-- Every stored bucket sums up the fills of its interval; every fill is in the interval of one bucket, which is stored
as long as it did not begin before the cutoff of a later fill; and a fill removes no other buckets. -/
theorem candles_exact (tracked : seconds ∈ trackedBuckets) (valid : ∀ f ∈ fills, f.Valid)
    (ordered : fills.Pairwise (·.time ≤ ·.time)) : (∀ start b, (buckets fills seconds).find? start = some b →
      seconds ∣ start ∧ b.Summarises (fills.filter (·.Within seconds start))) ∧
    (∀ f ∈ fills, ∃ start, (∀ other, seconds ∣ other ∧ f.Within seconds other ↔ other = start) ∧
      ((buckets fills seconds).find? start ≠ none ∨ ∃ g ∈ fills, start + historySeconds seconds < g.time)) ∧
    ∀ before f after start, fills = before ++ [f] ++ after → (buckets before seconds).find? start ≠ none →
      (buckets (before ++ [f]) seconds).find? start = none → start + historySeconds seconds < f.time := by
  have folded := folded_buckets tracked valid ordered
  refine ⟨fun start b => folded.exact, fun f member => ?_, fun before f after start split stored gone => ?_⟩
  · exact ⟨f.opens seconds, fun other => f.within_iff (tracked_sizes tracked).1, folded.kept f member⟩
  · rw [buckets_concat tracked] at gone
    exact updateSeries_removes (valid f (by simp [split])) tracked stored gone

/-- Fills in both directions: one of a day before, and two of one minute that remove its bucket. -/
def tradingDays : List Fill :=
  [⟨.steem 5, .sbd 1, 1499900000⟩, ⟨.steem 2, .sbd 1, 1500000000⟩, ⟨.sbd 3, .steem 4, 1500000001⟩]

theorem tradingDays_valid : ∀ f ∈ tradingDays, f.Valid := by
  simp only [tradingDays, forall_mem_cons, not_mem_nil, false_implies, implies_true, and_true]
  exact ⟨⟨.inl ⟨rfl, rfl⟩, by decide, by decide, by decide⟩, ⟨.inl ⟨rfl, rfl⟩, by decide, by decide, by decide⟩,
    .inr ⟨rfl, rfl⟩, by decide, by decide, by decide⟩

theorem candles_exact_tradingDays : (∃ b, (buckets tradingDays 60).find? 1500000000 = some b ∧
      b = ⟨4, 3, 2, 1, 2, 1, 4, 3, 6, 4⟩ ∧ b.Summarises (tradingDays.filter (·.Within 60 1500000000))) ∧
    (buckets tradingDays 60).find? 1499899980 = none ∧ 1499899980 + historySeconds 60 < 1500000001 := by
  have stored : (buckets tradingDays 60).find? 1500000000 = some ⟨4, 3, 2, 1, 2, 1, 4, 3, 6, 4⟩ := by decide +kernel
  have gone : (buckets tradingDays 60).find? 1499899980 = none := by decide +kernel
  have tracked : 60 ∈ trackedBuckets := by decide
  obtain ⟨sums, -, removed⟩ := candles_exact tracked tradingDays_valid (by decide)
  refine ⟨⟨_, stored, rfl, (sums _ _ stored).2⟩, gone, ?_⟩
  exact removed (tradingDays.take 2) ⟨.sbd 3, .steem 4, 1500000001⟩ [] 1499899980 rfl (by decide +kernel) gone

/-! ## Volumes -/

/-- `market_volume` -/
structure MarketVolume where
  steemVolume : Asset
  sbdVolume : Asset
deriving DecidableEq

/-- The buckets of a size that are not before a key of the index `by_bucket`. -/
def fromKey (buckets : Nat → Store Nat Bucket) (key : Nat × Nat) (seconds : Nat) : List (Nat × Bucket) :=
  (buckets seconds).entries.filter fun e => key.1 < seconds || key.1 == seconds && key.2 ≤ e.1

/-- `get_volume`: the walk begins at the first bucket from the key on, and ends with those of its size. -/
def getVolume (buckets : Nat → Store Nat Bucket) (now : Nat) : MarketVolume :=
  let walked := ((trackedBuckets.map (fromKey buckets (0, now - 86400))).find? (!·.isEmpty)).getD []
  ⟨.steem (walked.map (·.2.steemVolume)).sum, .sbd (walked.map (·.2.sbdVolume)).sum⟩

/-- `market_ticker`, without its prices. -/
structure MarketTicker where
  steemVolume : Asset
  sbdVolume : Asset

/-- `get_ticker` -/
def getTicker (buckets : Nat → Store Nat Bucket) (now : Nat) : MarketTicker :=
  let volume := getVolume buckets now
  ⟨volume.steemVolume, volume.sbdVolume⟩

/-- The amounts of some of the fills. -/
def volumeOf (fills : List Fill) (counts : Fill → Bool) : MarketVolume :=
  ⟨.steem ((fills.filter counts).map (·.steem.amount)).sum, .sbd ((fills.filter counts).map (·.sbd.amount)).sum⟩

/-- The bucket that the last 24 hours begin in. -/
def dayStart (now : Nat) : Nat := (now - 86400) / 15 * 15

/-- The volume of the last 24 hours, with or without the fills of the bucket they begin in. -/
def IsDaily (fills : List Fill) (now : Nat) (volume : MarketVolume) : Prop :=
  volume = volumeOf fills (dayStart now ≤ ·.time) ∨ volume = volumeOf fills (dayStart now + 15 ≤ ·.time)

/-- A bucket began before the cutoff when a fill came into another that there was already. -/
def Forgotten (seconds : Nat) (fills : List Fill) (start : Nat) : Prop :=
  ∃ h g, [h, g].Sublist fills ∧ h.opens seconds = g.opens seconds ∧ start + historySeconds seconds < g.time

theorem Forgotten.earlier {start start' : Nat} (forgotten : Forgotten seconds fills start') (le : start ≤ start') :
    Forgotten seconds fills start := by
  obtain ⟨h, g, sublist, same, late⟩ := forgotten
  exact ⟨h, g, sublist, same, by omega⟩

theorem forgotten_concat {start : Nat} : Forgotten seconds (fills ++ [f]) start ↔ Forgotten seconds fills start ∨
    (∃ h ∈ fills, h.opens seconds = f.opens seconds) ∧ start + historySeconds seconds < f.time := by
  constructor
  · rintro ⟨h, g, sublist, same, late⟩
    obtain ⟨l, l', split, old, new⟩ := sublist_append_iff.mp sublist
    obtain rfl | rfl := sublist_singleton.mp new
    · rw [append_nil] at split
      exact .inl ⟨h, g, split ▸ old, same, late⟩
    · have split : [h] ++ [g] = l ++ [f] := split
      obtain ⟨rfl, last⟩ := append_inj' split rfl
      cases last
      exact .inr ⟨⟨h, singleton_sublist.mp old, same⟩, late⟩
  · rintro (⟨h, g, sublist, same, late⟩ | ⟨⟨h, member, same⟩, late⟩)
    · exact ⟨h, g, sublist.trans (sublist_append_left ..), same, late⟩
    · exact ⟨h, f, (singleton_sublist.mpr member).append (Sublist.refl [f]), same, late⟩

/-- The buckets that are stored. -/
theorem stored_iff (tracked : seconds ∈ trackedBuckets) (valid : ∀ f ∈ fills, f.Valid)
    (ordered : fills.Pairwise (·.time ≤ ·.time)) : ∀ f ∈ fills,
      (buckets fills seconds).find? (f.opens seconds) = none ↔ Forgotten seconds fills (f.opens seconds) := by
  obtain ⟨positive, long, -⟩ := tracked_sizes tracked
  induction fills using reverseRecOn with
  | nil => exact fun f member => (by cases member)
  | append_singleton fills g ih =>
    obtain ⟨ordered, -, latest⟩ := pairwise_append.mp ordered
    have allValid (f : Fill) (member : f ∈ fills) : f.Valid := valid f (mem_append_left _ member)
    have folded := folded_buckets tracked allValid ordered
    have ends : g.time < g.opens seconds + seconds := ((g.within_iff positive).mpr rfl).2.2
    -- the bucket of the newest fill is too young for the cutoff
    have young (h : Fill) (member : h ∈ fills) : ¬g.opens seconds + historySeconds seconds < h.time := by
      have := latest h member g (mem_singleton_self g)
      omega
    have there : (∃ h ∈ fills, h.opens seconds = g.opens seconds) ↔
      (buckets fills seconds).find? (g.opens seconds) ≠ none := by
      constructor
      · rintro ⟨h, member, same⟩
        obtain stored | ⟨h', member', late⟩ := folded.kept h member
        · exact same ▸ stored
        · exact absurd (same ▸ late) (young h' member')
      · intro stored
        obtain ⟨b, found⟩ := Option.ne_none_iff_exists'.mp stored
        obtain ⟨multiple, sums⟩ := folded.exact found
        obtain ⟨h, first, -⟩ := sums.opens
        obtain ⟨member, within⟩ := mem_filter.mp (mem_of_head? first)
        exact ⟨h, member, ((h.within_iff positive).mp ⟨multiple, of_decide_eq_true within⟩).symm⟩
    intro f member
    rw [buckets_concat tracked, updateSeries_eq_none, (valid g mem_concat_self).before_cutoff tracked, forgotten_concat,
      there]
    by_cases same : f.opens seconds = g.opens seconds
    · have kept : ¬Forgotten seconds fills (f.opens seconds) := by
        rintro ⟨_, h, sublist, _, late⟩
        exact young h (sublist.subset (by simp)) (same ▸ late)
      have late : ¬f.opens seconds + historySeconds seconds < g.time := by omega
      split <;> simp_all
    · have old : f ∈ fills := by
        refine (mem_append.mp member).resolve_right fun new => same ?_
        rw [mem_singleton.mp new]
      rw [ih allValid ordered f old]
      split <;> simp_all

/-- Sums bucket by bucket are sums over the fills of the buckets. -/
theorem sum_buckets {amount : Fill → Int} {keys : List Nat} (distinct : keys.Nodup) :
    (keys.map fun start => ((fills.filter (·.opens seconds = start)).map amount).sum).sum =
      ((fills.filter (·.opens seconds ∈ keys)).map amount).sum := by
  induction keys with
  | nil => simp
  | cons start keys ih =>
    obtain ⟨fresh, distinct⟩ := nodup_cons.mp distinct
    rw [map_cons, sum_cons, ih distinct]
    clear ih
    induction fills with
    | nil => rfl
    | cons f fills ih =>
      simp only [filter_cons, mem_cons] at ih ⊢
      by_cases here : f.opens seconds = start
      · simp only [here, fresh, true_or, decide_true, decide_false, if_true, Bool.false_eq_true, if_false, map_cons,
          sum_cons, ← ih, add_assoc]
      · by_cases elsewhere : f.opens seconds ∈ keys
        · simp only [here, elsewhere, or_true, decide_true, decide_false, if_true, Bool.false_eq_true, if_false,
            map_cons, sum_cons, ← ih, add_left_comm]
        · simp only [here, elsewhere, or_false, decide_false, Bool.false_eq_true, if_false, ih]

/-- The fill is in a bucket that is stored. -/
def IsStored (series : Store Nat Bucket) (seconds : Nat) (f : Fill) : Bool := (series.find? (f.opens seconds)).isSome

theorem sum_stored {value : Bucket → Int} {amount : Fill → Int} {series : Store Nat Bucket} (positive : 0 < seconds)
    (folded : Folded seconds fills series)
    (sums : ∀ {b : Bucket} {fills}, b.Summarises fills → value b = (fills.map amount).sum) :
    (series.entries.map fun e => value e.2).sum = ((fills.filter (IsStored series seconds)).map amount).sum := by
  have keys : fills.filter (IsStored series seconds) = fills.filter (·.opens seconds ∈ series.keys) := by
    refine filter_congr fun f _ => ?_
    rw [IsStored, Bool.eq_iff_iff, Store.find?_isSome, decide_eq_true_eq]
  rw [keys, Store.keys, ← sum_buckets series.nodup, map_map]
  congr 1
  refine map_congr_left fun e member => ?_
  obtain ⟨multiple, summary⟩ := folded.exact (find?_eq_some.mpr member)
  rw [Function.comp_apply, sums summary]
  congr 2
  refine filter_congr fun f _ => ?_
  rw [decide_eq_decide, eq_comm, ← f.within_iff positive]
  exact (and_iff_right multiple).symm

/-- `get_volume` sums up what is stored in buckets of the smallest size, however old. -/
theorem getVolume_eq (valid : ∀ f ∈ fills, f.Valid) (ordered : fills.Pairwise (·.time ≤ ·.time)) (now : Nat) :
    getVolume (buckets fills) now = volumeOf fills (IsStored (buckets fills 15) 15) := by
  have tracked : 15 ∈ trackedBuckets := by decide
  have folded := folded_buckets tracked valid ordered
  have walked : fromKey (buckets fills) (0, now - 86400) 15 = (buckets fills 15).entries :=
    filter_eq_self.mpr fun _ _ => rfl
  have steem := sum_stored (by decide) folded fun summary => summary.steemVolume
  have sbd := sum_stored (by decide) folded fun summary => summary.sbdVolume
  cases first : (buckets fills 15).entries with
  | nil =>
    cases fills using reverseRecOn with
    | nil => rfl
    | append_singleton fills g _ =>
      have empty : (buckets (fills ++ [g]) 15).find? (g.opens 15) = none := by
        rw [Store.find?_eq_none, Store.keys, first]
        exact not_mem_nil
      rw [buckets_concat tracked] at empty
      exact absurd empty (updateSeries_newest (valid g mem_concat_self) tracked)
  | cons e more =>
    rw [getVolume, trackedBuckets, map_cons, walked, first, find?_cons_of_pos rfl, Option.getD_some, ← first, steem,
      sbd]
    rfl

theorem volumeOf_congr {counts counts' : Fill → Bool} (same : ∀ f ∈ fills, counts f = counts' f) :
    volumeOf fills counts = volumeOf fills counts' := by
  rw [volumeOf, volumeOf, filter_congr same]

/-- Fewer fills have a smaller volume. -/
theorem volumeOf_ne {counts counts' : Fill → Bool} (valid : ∀ f ∈ fills, f.Valid)
    (fewer : ∀ f ∈ fills, counts f = true → counts' f = true) (member : f ∈ fills) (more : counts' f = true)
    (out : counts f = false) : volumeOf fills counts ≠ volumeOf fills counts' := by
  have amounts (counts : Fill → Bool) : ((fills.filter counts).map (·.steem.amount)).sum =
      (fills.map fun f => if counts f then f.steem.amount else 0).sum := by
    have parts := sum_map_ite (counts · = true) (·.steem.amount) (fun _ => 0) fills
    simpa using parts.symm
  have less : ((fills.filter counts).map (·.steem.amount)).sum < ((fills.filter counts').map (·.steem.amount)).sum := by
    rw [amounts, amounts]
    refine sum_lt_sum _ _ (fun g inside => ?_) ⟨f, member, ?_⟩
    · have positive := (valid g inside).isRate.quote.1
      have imp := fewer g inside
      split <;> split <;> simp_all [le_of_lt]
    · have positive := (valid f member).isRate.quote.1
      rw [out, more]
      simpa using positive
  intro same
  have equal := congrArg (·.steemVolume.amount) same
  exact absurd equal less.ne

/-- The volumes are those of the last 24 hours exactly if every fill since then is in a bucket that is kept, and every
earlier fill in one that is not: that is, if a pair of fills in one bucket came at least 15000 seconds after the earlier
ones and none did after the later ones. -/
theorem volume_daily_iff {now : Nat} (valid : ∀ f ∈ fills, f.Valid)
    (ordered : fills.Pairwise (·.time ≤ ·.time)) :
    IsDaily fills now (getVolume (buckets fills) now) ∧ IsDaily fills now
        ⟨(getTicker (buckets fills) now).steemVolume, (getTicker (buckets fills) now).sbdVolume⟩ ↔
      ∀ f ∈ fills, (dayStart now + 15 ≤ f.time → ¬Forgotten 15 fills (f.opens 15)) ∧
        (f.time < dayStart now → Forgotten 15 fills (f.opens 15)) := by
  have stored (f : Fill) (member : f ∈ fills) :
    IsStored (buckets fills 15) 15 f = true ↔ ¬Forgotten 15 fills (f.opens 15) := by
    rw [← stored_iff (by decide) valid ordered f member, IsStored, Option.isSome_iff_ne_none]
  change _ ∧ IsDaily fills now (getVolume (buckets fills) now) ↔ _
  rw [and_self, getVolume_eq valid ordered]
  constructor
  · intro daily
    obtain ⟨start, bounds, volume⟩ : ∃ start, (start = dayStart now ∨ start = dayStart now + 15) ∧
        volumeOf fills (IsStored (buckets fills 15) 15) = volumeOf fills (start ≤ ·.time) := by
      obtain volume | volume := daily
      · exact ⟨_, .inl rfl, volume⟩
      · exact ⟨_, .inr rfl, volume⟩
    refine fun f member => ⟨fun recent forgotten => ?_, fun old => ?_⟩
    · -- what is stored began later, so that the fill is missing
      refine volumeOf_ne valid (fun g inside kept => decide_eq_true ?_) member (decide_eq_true (by omega)) ?_ volume
      · have later := mt forgotten.earlier ((stored g inside).mp kept)
        simp only [Fill.opens] at *
        omega
      · rw [Bool.eq_false_iff, ne_eq, stored f member]
        exact not_not_intro forgotten
    · -- with the fill all later ones would be stored
      by_contra kept
      refine volumeOf_ne valid (fun g inside since => (stored g inside).mpr fun forgotten =>
        kept (forgotten.earlier ?_))
        member ((stored f member).mpr kept) (decide_eq_false (by omega)) volume.symm
      have since := of_decide_eq_true since
      simp only [Fill.opens] at *
      omega
  · intro apart
    by_cases boundary : Forgotten 15 fills (dayStart now)
    · refine .inr (volumeOf_congr fun f member => ?_)
      rw [Bool.eq_iff_iff, stored f member, decide_eq_true_eq]
      refine ⟨fun kept => ?_, (apart f member).1⟩
      have later := mt boundary.earlier kept
      simp only [Fill.opens, dayStart] at *
      omega
    · refine .inl (volumeOf_congr fun f member => ?_)
      rw [Bool.eq_iff_iff, stored f member, decide_eq_true_eq]
      refine ⟨fun kept => not_lt.mp (mt (apart f member).2 kept),
        fun since forgotten => boundary (forgotten.earlier ?_)⟩
      simp only [Fill.opens, dayStart] at *
      omega

/-- Two fills of the last minutes. -/
theorem volume_daily_iff_recent : IsDaily [⟨.steem 2, .sbd 1, 1500100000⟩, ⟨.sbd 3, .steem 4, 1500100001⟩] 1500100060
    (getVolume (buckets [⟨.steem 2, .sbd 1, 1500100000⟩, ⟨.sbd 3, .steem 4, 1500100001⟩]) 1500100060) := by
  refine ((volume_daily_iff ?_ (by decide)).mpr fun f member => ?_).1
  · simp only [forall_mem_cons, not_mem_nil, false_implies, implies_true, and_true]
    exact ⟨⟨.inl ⟨rfl, rfl⟩, by decide, by decide, by decide⟩, .inr ⟨rfl, rfl⟩, by decide, by decide, by decide⟩
  · have early : ∀ f ∈ [(⟨.steem 2, .sbd 1, 1500100000⟩ : Fill), ⟨.sbd 3, .steem 4, 1500100001⟩],
        dayStart 1500100060 ≤ f.time ∧ f.time ≤ 1500100001 ∧ 1500099990 ≤ f.opens 15 := by decide
    refine ⟨fun _ => ?_, fun old => absurd old (not_lt.mpr (early f member).1)⟩
    rintro ⟨h, g, sublist, _, late⟩
    have last := (early g (sublist.subset (by simp))).2.1
    have first := (early f member).2.2
    have long : historySeconds 15 = 15000 := rfl
    omega

/-- A single fill stays in the volumes for good; and two fills in a bucket remove one of some hours ago. -/
theorem volume_not_daily : ¬IsDaily [⟨.steem 2, .sbd 1, 1500000000⟩] 1500200000
      (getVolume (buckets [⟨.steem 2, .sbd 1, 1500000000⟩]) 1500200000) ∧
    ¬IsDaily [⟨.steem 2, .sbd 1, 1500100000⟩, ⟨.steem 3, .sbd 1, 1500120000⟩, ⟨.steem 3, .sbd 1, 1500120001⟩] 1500120060
      (getVolume (buckets [⟨.steem 2, .sbd 1, 1500100000⟩, ⟨.steem 3, .sbd 1, 1500120000⟩,
        ⟨.steem 3, .sbd 1, 1500120001⟩]) 1500120060) := by
  constructor <;> rintro (volume | volume) <;> revert volume <;> decide +kernel

end Histories

end Golos.MarketHistory
