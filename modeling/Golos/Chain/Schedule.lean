import Golos.Chain.Inflation

/-! # The witness schedule and the head of the chain

Which witness may produce which slot, the medians of what the scheduled witnesses
report, and the bookkeeping of the head block: `update_global_dynamic_data`,
`update_signing_witness` and `update_last_irreversible_block`.

`std::nth_element` leaves open which of several equal elements it returns.  Here a
median is taken from a stable sort.
-/

namespace Golos

open Stateful

/-! ## Slots -/

/-- `STEEMIT_BLOCK_INTERVAL` -/
def blockInterval : Nat := 3

namespace Database

/-- `get_slot_time` for slots from 1 on -/
def slotTime (s : Database) (slot : Nat) : Time :=
  if s.head.headBlockNumber = 0 then s.head.time + slot * blockInterval
  else s.head.time / blockInterval * blockInterval + slot * blockInterval

/-- `get_slot_at_time` -/
def slotAtTime (s : Database) (time : Time) : Nat :=
  if time < s.slotTime 1 then 0 else (time - s.slotTime 1) / blockInterval + 1

/-- `get_scheduled_witness` -/
def scheduledWitness (s : Database) (slot : Nat) : AccountName :=
  s.schedule.currentShuffledWitnesses.getD
    ((s.head.currentAslot + slot) % s.schedule.numScheduledWitnesses) .blank

/-- The entries of `current_shuffled_witnesses` below `num_scheduled_witnesses`. -/
def scheduled (s : Database) : List AccountName :=
  (List.range s.schedule.numScheduledWitnesses).map fun i =>
    s.schedule.currentShuffledWitnesses.getD i .blank

end Database

/-- The witnesses of the schedule, as `get_witness` finds them. -/
def scheduledWitnesses : Eval (List Witness) := do
  let s ← get
  s.scheduled.mapM getWitness

/-! ## Medians -/

/-- The element `nth_element` puts in the middle. -/
def medianBy {α : Type} (le : α → α → Bool) (l : List α) : Option α :=
  (l.insertionSort fun a b => le a b)[l.length / 2]?

/-- The median of one chain property. -/
def medianOf {α : Type} (le : α → α → Bool) (active : List Witness) (param : ChainProperties → α)
    (default : α) : α :=
  (medianBy (fun a b => le (param a) (param b)) (active.map fun w => w.info.props)).elim default param

/-- The median of a window and the actions it allows, by what one action uses up. -/
def medianBattery (active : List Witness) (window items : ChainProperties → Nat) : Nat × Nat :=
  let consumption (p : ChainProperties) := window p / items p
  (medianBy (fun a b => consumption a < consumption b ||
      (consumption a == consumption b && items a ≤ items b))
    (active.map fun w => w.info.props)).elim (0, 0) fun p => (window p, items p)

/-- The median of a lower and an upper limit. -/
def medianMinMax (active : List Witness) (min max : ChainProperties → Nat) : Nat × Nat :=
  (medianBy (fun a b => min a < min b || (min a == min b && max a ≤ max b))
    (active.map fun w => w.info.props)).elim (0, 0) fun p => (min p, max p)

/-- The values of `curation_curve` -/
def CurationCurve.toNat : CurationCurve → Nat
  | .bounded => 0
  | .linear => 1
  | .squareRoot => 2
  | .detect => 100

/-- The properties `update_median_witness_props` computes. -/
def medianProps (active : List Witness) : ChainProperties :=
  let nat := medianOf (fun a b : Nat => a ≤ b) active
  let int := medianOf (fun a b : Int => a ≤ b) active
  let flag := medianOf (fun a b : Bool => a ≤ b) active
  let posts := medianBattery active (·.postsWindow) (·.postsPerWindow)
  let comments := medianBattery active (·.commentsWindow) (·.commentsPerWindow)
  let votes := medianBattery active (·.votesWindow) (·.votesPerWindow)
  let curation := medianMinMax active (·.minCurationPercent) (·.maxCurationPercent)
  { accountCreationFee := int (·.accountCreationFee) 0
    maximumBlockSize := nat (·.maximumBlockSize) 0
    sbdInterestRate := nat (·.sbdInterestRate) 0
    createAccountMinGolosFee := int (·.createAccountMinGolosFee) 0
    createAccountMinDelegation := int (·.createAccountMinDelegation) 0
    createAccountDelegationTime := nat (·.createAccountDelegationTime) 0
    minDelegation := int (·.minDelegation) 0
    auctionWindowSize := nat (·.auctionWindowSize) 0
    maxReferralInterestRate := nat (·.maxReferralInterestRate) 0
    maxReferralTermSec := nat (·.maxReferralTermSec) 0
    minReferralBreakFee := int (·.minReferralBreakFee) 0
    maxReferralBreakFee := int (·.maxReferralBreakFee) 0
    postsWindow := posts.1
    postsPerWindow := posts.2
    commentsWindow := comments.1
    commentsPerWindow := comments.2
    votesWindow := votes.1
    votesPerWindow := votes.2
    maxDelegatedVestingInterestRate := nat (·.maxDelegatedVestingInterestRate) 0
    customOpsBandwidthMultiplier := nat (·.customOpsBandwidthMultiplier) 0
    minCurationPercent := curation.1
    maxCurationPercent := curation.2
    curationRewardCurve :=
      medianOf (fun a b => a.toNat ≤ b.toNat) active (·.curationRewardCurve) .detect
    allowDistributeAuctionReward := flag (·.allowDistributeAuctionReward) false
    allowReturnAuctionRewardToFund := flag (·.allowReturnAuctionRewardToFund) false }

/-- `update_median_witness_props` -/
def updateMedianWitnessProps : Eval Unit := do
  let active ← scheduledWitnesses
  let props := medianProps active
  modifySchedule fun w => { w with medianProps := props }
  modifyRates fun r => { r with
    maximumBlockSize := props.maximumBlockSize
    sbdInterestRate := props.sbdInterestRate
    customOpsBandwidthMultiplier := props.customOpsBandwidthMultiplier }

/-! ## The schedule of a round -/

/-- `STEEMIT_MAX_VOTED_WITNESSES` -/
def maxVotedWitnesses : Nat := 19

/-- `STEEMIT_MAX_MINER_WITNESSES` -/
def maxMinerWitnesses : Nat := 1

/-- `STEEMIT_HARDFORK_REQUIRED_WITNESSES` -/
def hardforkRequiredWitnesses : Nat := 17

namespace Database

/-- The witnesses in the order of `by_vote_name`. -/
def witnessesByVote (s : Database) : List (AccountName × Witness) :=
  s.witnesses.entries.insertionSort fun a b =>
    b.2.tally.votes < a.2.tally.votes ∨
      (a.2.tally.votes = b.2.tally.votes ∧ a.1.packed ≤ b.1.packed)

/-- The witnesses in the order of `by_schedule_time`. -/
def witnessesByScheduleTime (s : Database) : List (AccountName × Witness) :=
  s.witnesses.entries.insertionSort fun a b =>
    a.2.tally.virtualScheduledTime ≤ b.2.tally.virtualScheduledTime

/-- The witnesses behind `upper_bound(0)` of `by_pow`. -/
def powQueue (s : Database) : List (AccountName × Witness) :=
  (s.witnesses.entries.filter fun e => 0 < e.2.info.powWorker).insertionSort fun a b =>
    a.2.info.powWorker ≤ b.2.info.powWorker

/-- From hardfork 14 on a witness without a signing key is not scheduled. -/
def canSign (s : Database) (w : Witness) : Bool := !(s.hasHardfork 14 && w.info.signingKey == 0)

end Database

/-- One round of the generator that shuffles the witnesses. -/
def shuffleIndex (now : Time) (i n : Nat) : Nat :=
  let k := (UInt64.ofNat now <<< 32) + UInt64.ofNat i * 2685821657736338717
  let k := k ^^^ (k >>> 12)
  let k := k ^^^ (k <<< 25)
  let k := k ^^^ (k >>> 27)
  let k := k * 2685821657736338717
  i + k.toNat % (n - i)

/-- Exchange two entries. -/
def swapEntries (l : List AccountName) (i j : Nat) : List AccountName :=
  (l.set i (l.getD j .blank)).set j (l.getD i .blank)

/-- The shuffle of the first `n` entries. -/
def shuffle (now : Time) (n : Nat) (l : List AccountName) : List AccountName :=
  (List.range n).foldl (fun l i => swapEntries l i (shuffleIndex now i n)) l

/-- The new list of active witnesses, shuffled. -/
def WitnessSchedule.activate (w : WitnessSchedule) (active : List AccountName) (now : Time)
    (headBlockNumber : Nat) : WitnessSchedule :=
  let n := max active.length 1
  { w with
    currentShuffledWitnesses := shuffle now n (if active = [] then [.blank] else active)
    numScheduledWitnesses := n
    nextShuffleBlockNum := headBlockNumber + n }

/-- The loop over the mining queue in `update_witness_schedule4`: every miner it looks at
leaves the queue, and those chosen are returned. -/
def selectMiners (voted : List AccountName) : List AccountName → (selected : List AccountName) →
    Eval (List AccountName)
  | [], selected => pure selected
  | name :: queue, selected =>
    if maxMinerWitnesses ≤ selected.length then pure selected
    else do
      let s ← get
      let w ← getWitness name
      let chosen := name ∉ voted ∧ s.canSign w
      modifyWitnessInfo name fun i => { i with
        powWorker := 0
        schedule := if chosen then .miner else i.schedule }
      modifyPow fun p => { p with numPowWitnesses := p.numPowWitnesses - 1 }
      selectMiners voted queue (if chosen then selected ++ [name] else selected)

/-- What the loop over `by_schedule_time` collects. -/
structure Timeshare where
  virtualTime : Uint128
  processed : List AccountName := []
  active : List AccountName := []

/-- The loop of `update_witness_schedule4` over `by_schedule_time`; `room` is the number of
witnesses still to be chosen. -/
def selectTimeshare (s : Database) (others : List AccountName) :
    List (AccountName × Witness) → (room : Nat) → Timeshare → Timeshare
  | [], _, t => t
  | _, 0, t => t
  | (name, w) :: rest, room + 1, t =>
    let t := { t with
      virtualTime := w.tally.virtualScheduledTime
      processed := t.processed ++ [name] }
    if s.canSign w ∧ name ∉ others then
      selectTimeshare s others rest room { t with active := t.active ++ [name] }
    else selectTimeshare s others rest (room + 1) t

/-- `VIRTUAL_SCHEDULE_LAP_LENGTH2 / (votes + 1)` -/
def lapTime (votes : Int) : Uint128 := virtualScheduleLapLength2 / BitVec.ofInt 128 (votes + 1)

/-- `reset_virtual_schedule_time` -/
def resetVirtualScheduleTime : Eval Unit := do
  modifySchedule fun w => { w with currentVirtualTime := 0 }
  let s ← get
  s.witnesses.keys.forM fun name => modifyTally name fun t => { t with
    virtualPosition := 0
    virtualLastUpdate := 0
    virtualScheduledTime := lapTime t.votes }

/-- The new virtual times of the witnesses the loop went over.  One that overflows resets
them all; the new virtual time is the result. -/
def advanceVirtualTime (processed : List AccountName) (virtualTime : Uint128) : Eval Uint128 := do
  let s ← get
  let overflows (name : AccountName) : Bool :=
    (s.witnesses.find? name).any fun w => virtualTime + lapTime w.tally.votes < virtualTime
  if processed.any overflows then do
    resetVirtualScheduleTime
    pure 0
  else do
    processed.forM fun name => modifyTally name fun t => { t with
      virtualPosition := 0
      virtualLastUpdate := virtualTime
      virtualScheduledTime := virtualTime + lapTime t.votes }
    pure virtualTime

/-- The majority the scheduled witnesses report: the largest version that enough of them run
or exceed. -/
def majorityVersion (witnesses : List Witness) (current : Nat) : Nat :=
  ((witnesses.map fun w => w.info.runningVersion).insertionSort (· ≥ ·)).getD
    (hardforkRequiredWitnesses - 1) current

/-- The hardfork vote enough scheduled witnesses agree on. -/
def agreedHardfork (witnesses : List Witness) : Option (Nat × Time) :=
  let votes := witnesses.map fun w => (w.info.hardforkVersionVote, w.info.hardforkTimeVote)
  votes.find? fun v => hardforkRequiredWitnesses ≤ votes.count v

/-- The version votes of `update_witness_schedule4`; the majority version. -/
def countVersionVotes : Eval Nat := do
  let s ← get
  if s.hasHardfork 5 then do
    let witnesses ← scheduledWitnesses
    modifyHardforks fun h => match agreedHardfork witnesses with
      | some vote => { h with nextHardfork := vote.1, nextHardforkTime := vote.2 }
      | none => { h with nextHardfork := h.currentHardforkVersion }
    pure (majorityVersion witnesses s.schedule.majorityVersion)
  else pure s.schedule.majorityVersion

/-- `update_witness_schedule4` -/
def updateWitnessSchedule4 : Eval Unit := do
  let s ← get
  let voted := ((s.witnessesByVote.filter fun e => s.canSign e.2).take maxVotedWitnesses).map Prod.fst
  voted.forM fun name => modifyWitnessInfo name fun i => { i with schedule := .top19 }
  let miners ← selectMiners voted (s.powQueue.map Prod.fst) []
  let s ← get
  let others := voted ++ miners
  let timeshare := selectTimeshare s others s.witnessesByScheduleTime
    (maxWitnesses - others.length) { virtualTime := s.schedule.currentVirtualTime }
  timeshare.active.forM fun name => modifyWitnessInfo name fun i => { i with schedule := .timeshare }
  let virtualTime ← advanceVirtualTime timeshare.processed timeshare.virtualTime
  let active := others ++ timeshare.active
  when (14400 < s.head.headBlockNumber) <|
    check (active.length = min maxWitnesses s.witnesses.entries.length)
      (.assertion "number of active witnesses does not equal expected_active_witnesses=$expected_active_witnesses")
  let majority ← countVersionVotes
  modifySchedule fun w => { w.activate active s.head.time s.head.headBlockNumber with
    witnessPayNormalizationFactor := w.top19Weight * voted.length + w.minerWeight * miners.length +
      w.timeshareWeight * timeshare.active.length
    currentVirtualTime := virtualTime
    majorityVersion := majority }
  updateMedianWitnessProps

/-- The voted part of the schedule before hardfork 4: the top witnesses, who leave the virtual
schedule, and the one whose virtual time has come; the new virtual time. -/
def electWitnesses : Eval (List AccountName × Uint128) := do
  let s ← get
  let isVoted (e : AccountName × Witness) : Bool := e.2.info.powWorker == 0
  let voted := ((s.witnessesByVote.filter isVoted).take (maxWitnesses - 2)).map Prod.fst
  voted.forM fun name => modifyTally name fun t =>
    { t with virtualScheduledTime := BitVec.allOnes 128 }
  let s ← get
  (s.witnessesByScheduleTime.find? isVoted).elim (pure (voted, 0)) fun e => do
    let due := e.2.tally.virtualScheduledTime
    let lap := if s.hasHardfork 2 then virtualScheduleLapLength2 else virtualScheduleLapLength
    modifyTally e.1 fun t => { t with
      virtualPosition := 0
      virtualScheduledTime := t.virtualScheduledTime + lap / BitVec.ofInt 128 (t.votes + 1) }
    pure (voted ++ [e.1], if due = BitVec.allOnes 128 then 0 else due)

/-- The schedule before hardfork 4. -/
def updateWitnessScheduleByPow : Eval Unit := do
  let s ← get
  let byVote := s.pow.numPowWitnesses = 0 ∨ startMinerVotingBlock < s.head.headBlockNumber
  let elected ← if byVote then electWitnesses else pure ([], 0)
  when (maxWitnesses < s.pow.numPowWitnesses) <|
    (s.powQueue.head?).elim (pure ()) fun e => do
      modifyWitnessInfo e.1 fun i => { i with powWorker := 0 }
      modifyPow fun p => { p with numPowWitnesses := p.numPowWitnesses - 1 }
  let after ← get
  let room := if startMinerVotingBlock < s.head.headBlockNumber then 1
    else max 1 (maxWitnesses - elected.1.length)
  let active := elected.1 ++ (after.powQueue.take room).map Prod.fst
  modifySchedule fun w => { w.activate active s.head.time s.head.headBlockNumber with
    currentVirtualTime :=
      if after.pow.numPowWitnesses = 0 ∨ startMinerVotingBlock < s.head.headBlockNumber then elected.2
      else w.currentVirtualTime }
  updateMedianWitnessProps

/-- `update_witness_schedule` -/
def updateWitnessSchedule : Eval Unit := do
  let s ← get
  when (s.head.headBlockNumber % maxWitnesses = 0) <|
    if s.hasHardfork 4 then updateWitnessSchedule4 else updateWitnessScheduleByPow

/-! ## The price feed -/

/-- `STEEMIT_FEED_INTERVAL_BLOCKS` -/
def feedIntervalBlocks : Nat := 60 * 60 / blockInterval

/-- `STEEMIT_MAX_FEED_AGE` -/
def maxFeedAge : Nat := 60 * 60 * 24 * 7

/-- `STEEMIT_MIN_FEEDS` -/
def minFeeds : Nat := maxWitnesses / 3

/-- `STEEMIT_FEED_HISTORY_WINDOW`, before and from hardfork 16 on. -/
def feedHistoryWindow (s : Database) : Nat := if s.hasHardfork 16 then 12 * 7 else 24 * 7

/-- Whether the feed of a witness counts.  Before hardfork 18 the age was compared the wrong
way round. -/
def feedCounts (s : Database) (w : WitnessInfo) : Bool :=
  !w.sbdExchangeRate.isNull &&
    if s.hasHardfork 18 then s.head.time < w.lastSbdExchangeUpdate + maxFeedAge
    else w.lastSbdExchangeUpdate < s.head.time + maxFeedAge

def medianPrice (prices : List Price) : Price :=
  (prices.insertionSort fun a b => !b.lt a).getD (prices.length / 2) .null

/-- `update_median_feed` -/
def updateMedianFeed : Eval Unit := do
  let s ← get
  when (s.head.headBlockNumber % feedIntervalBlocks = 0) do
    let witnesses ← scheduledWitnesses
    let feeds := (witnesses.filter fun w => feedCounts s w.info).map fun w => w.info.sbdExchangeRate
    when (minFeeds ≤ feeds.length) do
      let history := s.feed.priceHistory ++ [medianPrice feeds]
      let history := if feedHistoryWindow s < history.length then history.tail else history
      let median := medianPrice history
      -- this price limits SBD to 10% of the market cap
      let minPrice : Price := ⟨.sbd (9 * s.supply.currentSbdSupply), .steem s.supply.currentSupply⟩
      let forced := s.hasHardfork 14 && median.lt minPrice
      modifyFeed fun _ => ⟨if forced then minPrice else median, history⟩
      when forced (modifyRates fun r => { r with isForcedMinPrice := true })

/-- `update_virtual_supply` -/
def updateVirtualSupply : Eval Unit := do
  let s ← get
  let price := s.feed.currentMedianHistory
  let sbdValue ←
    if price.isNull then pure 0 else do
      let value ← times (.sbd s.supply.currentSbdSupply) price
      amountIn steemSymbol value
  let virtual := s.supply.currentSupply + sbdValue
  modifyRates fun r => { r with virtualSupply := virtual }
  when (!price.isNull ∧ s.hasHardfork 14) do
    let percent := toUint128 sbdValue * 10000 % 2 ^ 128 / toUint128 virtual % 2 ^ 16
    modifyRates fun r => { r with sbdPrintRate :=
      if percent ≤ 200 then 10000
      else if 500 ≤ percent then 0
      else (500 - percent) * 10000 / (500 - 200) }

/-! ## The head block -/

/-- A missed slot counts against its witness, who is shut down after a day without blocks. -/
def missSlot (producer witness : AccountName) : Eval Unit := do
  let s ← get
  let w ← getWitness witness
  let shutDown := s.hasHardfork 14 ∧
    blocksPerDay < s.head.headBlockNumber - w.confirmation.lastConfirmedBlockNum
  when (witness ≠ producer) <|
    modifyWitnessInfo witness fun i => { i with
      totalMissed := i.totalMissed + 1
      signingKey := if shutDown then 0 else i.signingKey }

/-- One slot more in `recent_slots_filled`. -/
def HeadProperties.fillSlot (h : HeadProperties) (filled : Bool) : HeadProperties :=
  { h with
    recentSlotsFilled := (h.recentSlotsFilled <<< 1) + (if filled then 1 else 0)
    participationCount :=
      h.participationCount - (if h.recentSlotsFilled.msb then 1 else 0) + (if filled then 1 else 0) }

/-- The head block as `update_global_dynamic_data` records it. -/
def HeadProperties.advance (h : HeadProperties) (number : Nat) (id : BlockId) (time : Time)
    (missed size : Nat) : HeadProperties :=
  { (List.range (missed + 1)).foldl (fun h i => h.fillSlot (i == 0)) h with
    headBlockNumber := number
    headBlockId := id
    time
    currentAslot := h.currentAslot + missed + 1
    averageBlockSize := (99 * h.averageBlockSize % 2 ^ 32 + size) / 100 % 2 ^ 32 }

/-- `max_virtual_bandwidth`, a product of 64-bit integers. -/
def maxVirtualBandwidth (maximumBlockSize reserveRatio : Nat) : Nat :=
  maximumBlockSize * reserveRatio * 1000000 * (60 * 60 * 24 * 7) % 2 ^ 64 / blockInterval

/-- The reserve ratio and the bandwidth it allows, after a head block. -/
def Rates.adaptBandwidth (r : Rates) (s : Database) : Rates :=
  let crowded := r.maximumBlockSize / (if s.hasHardfork 12 then 4 else 2) < s.head.averageBlockSize
  let ratio := if crowded then r.currentReserveRatio / 2 else r.currentReserveRatio + 1
  let ratio := if s.hasHardfork 2 then min ratio 20000 else ratio
  let ratio := if s.head.headBlockNumber % 20 = 0 then ratio else r.currentReserveRatio
  { r with
    currentReserveRatio := ratio
    maxVirtualBandwidth := Golos.maxVirtualBandwidth r.maximumBlockSize ratio }

/-- `STEEMIT_MAX_UNDO_HISTORY` -/
def maxUndoHistory : Nat := 10000

/-- `update_global_dynamic_data` -/
def updateGlobalDynamicData (number : Nat) (id : BlockId) (time : Time) (producer : AccountName)
    (size : Nat) : Eval Unit := do
  let s ← get
  let missed := if s.head.time ≠ 0 then s.slotAtTime time - 1 else 0
  (List.range missed).forM fun i => missSlot producer (s.scheduledWitness (i + 1))
  modifyHead fun h => h.advance number id time missed size
  let s ← get
  modifyRates fun r => r.adaptBandwidth s
  check (s.head.headBlockNumber - s.lastIrreversibleBlockNum < maxUndoHistory)
    (.internal "The database does not have enough undo history to support a blockchain with so many missed blocks. Please add a checkpoint if you would like to continue applying blocks beyond this point.")

/-- `update_signing_witness` -/
def updateSigningWitness (producer : AccountName) (number : Nat) (time : Time) : Eval Unit := do
  let s ← get
  modifyConfirmation producer fun _ => ⟨s.head.currentAslot + s.slotAtTime time, number⟩

/-- `STEEMIT_IRREVERSIBLE_THRESHOLD` -/
def irreversibleThreshold : Nat := 7500

/-- The block number that enough of the scheduled witnesses have confirmed. -/
def confirmedBlockNum (witnesses : List Witness) : Option Nat :=
  ((witnesses.map fun w => w.confirmation.lastConfirmedBlockNum).insertionSort (· ≤ ·))[
    (10000 - irreversibleThreshold) * witnesses.length / 10000]?

/-- The part of `update_last_irreversible_block` that computes the number.
`_fixed_irreversible_block_num` is never changed from its maximum. -/
def updateLastIrreversibleBlock : Eval Unit := do
  let s ← get
  if s.head.headBlockNumber < startMinerVotingBlock then
    when (maxWitnesses < s.head.headBlockNumber) <|
      setLastIrreversibleBlockNum (s.head.headBlockNumber - maxWitnesses)
  else do
    let witnesses ← scheduledWitnesses
    let confirmed ← require (confirmedBlockNum witnesses) (.internal "wit_objs[offset]")
    let new := min confirmed 4294967295
    let transit := s.transit.transitBlockNum
    when (s.lastIrreversibleBlockNum < new) <|
      setLastIrreversibleBlockNum <|
        if s.isTransitEnabled ∧ s.lastIrreversibleBlockNum < transit ∧ transit ≤ new then transit
        else new

/-! ## The transit to another chain -/

/-- `STEEMIT_TRANSIT_REQUIRED_WITNESSES` -/
def transitRequiredWitnesses : Nat := 16

/-- `process_transit_to_cyberway`, as far as it changes the state. -/
def processTransitToCyberway (number : Nat) : Eval Unit := do
  let s ← get
  when (s.hasHardfork 21 ∧ !s.isTransitEnabled) do
    let witnesses ← scheduledWitnesses
    let agreed := ((s.scheduled.zip witnesses).filter fun e =>
      e.2.info.schedule = .top19 ∧ e.2.info.transitToCyberwayVote ≠ 1476788400).map Prod.fst
    when (transitRequiredWitnesses ≤ agreed.length) <|
      modifyTransit fun _ => ⟨number, agreed⟩

/-! ## Footprints -/

section Footprints

set_option synthInstance.maxSize 1000000

variable {F : Footprint}

instance {voted queue selected} [Allows (F .pow)] [Allows (F .witnessInfo)] :
    Touches F (selectMiners voted queue selected) := by
  induction queue generalizing selected with
  | nil => unfold selectMiners; infer_instance
  | cons name queue ih => unfold selectMiners; infer_instance

variable [Allows (F .schedule)] [Allows (F .tally)] [Allows (F .hardforks)] [Allows (F .rates)]
  [Allows (F .pow)] [Allows (F .witnessInfo)] [Allows (F .feed)] [Allows (F .head)]
  [Allows (F .confirmation)] [Allows (F .lib)] [Allows (F .transit)]

deriving instance Touches F for scheduledWitnesses, updateMedianWitnessProps, resetVirtualScheduleTime,
  advanceVirtualTime, countVersionVotes, updateWitnessSchedule4, electWitnesses, updateWitnessScheduleByPow,
  updateWitnessSchedule, updateMedianFeed, updateVirtualSupply, missSlot, updateGlobalDynamicData,
  updateSigningWitness, updateLastIrreversibleBlock, processTransitToCyberway

end Footprints

end Golos
