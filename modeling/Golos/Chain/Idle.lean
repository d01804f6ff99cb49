import Golos.Chain.Bandwidth

/-! # A network nobody uses

The bare network produces blocks for as long as one likes.  Its first hardforks come by the clock, so the first blocks
have to report a version; from then on every state is `Idle`, most steps of a block find nothing to do, and the producer
is paid a fixed amount.
-/

namespace Golos

open Stateful Database Store List

variable {w : Witness} {b : Block} {s t : Database} {n : Nat}

/-! ## Idle states -/

/-- What `Idle` is about. -/
abbrev idleCells : Footprint
  | .commentPlace | .orders | .escrows | .savingsWithdraws | .changeRecoveryRequests | .declineRequests
  | .delegationExpirations | .proposals | .liquidity | .witnessVotes | .proxy | .withdrawal | .witnessInfo | .hardforks
  | .feed | .schedule | .transactions => false
  | _ => true

/-- The witness of a bare network, once it has reported its version. -/
def WitnessInfo.Reported (i : WitnessInfo) : Prop :=
  i.signingKey = 1 ∧ i.schedule = .top19 ∧ i.runningVersion = 5 * 2 ^ 16 ∧ i.powWorker = 0 ∧
    i.sbdExchangeRate.isNull = true

instance (i : WitnessInfo) : Decidable i.Reported := by unfold WitnessInfo.Reported; infer_instance

/-- Nothing waits for a block, and the only witness is the one of the genesis, after hardfork 5. -/
@[mk_iff] structure Idle (s : Database) : Prop where
  comments : s.comments.view (·.place) = []
  orders : s.orders.entries = []
  escrows : s.escrows.entries = []
  savingsWithdraws : s.savingsWithdraws.entries = []
  changeRecoveryRequests : s.changeRecoveryRequests.entries = []
  declineRequests : s.declineRequests.entries = []
  delegationExpirations : s.delegationExpirations.entries = []
  proposals : s.proposals.entries = []
  liquidity : s.liquidity.entries = []
  witnessVotes : s.witnessVotes.entries = []
  transactions : s.transactions.entries = []
  producer : (.initMiner, .blank) ∈ s.accounts.view (·.proxy)
  temp : (.temp, .blank) ∈ s.accounts.view (·.proxy)
  withdrawals : ∀ e ∈ s.accounts.view (·.withdrawal), e.2.nextVestingWithdrawal = Time.maximum
  witnesses : (s.witnesses.view (·.info)).map Prod.fst = [.initMiner]
  reported : ∀ e ∈ s.witnesses.view (·.info), e.2.Reported
  processed : s.hardforks.processedHardforks.length = 6
  hardforks : s.hardforks.lastHardfork = 5 ∧ s.hardforks.currentHardforkVersion = 5 * 2 ^ 16 ∧
    s.hardforks.nextHardfork = 5 * 2 ^ 16
  feed : s.feed.currentMedianHistory = .null
  schedule : s.schedule.currentShuffledWitnesses = [.initMiner] ∧ s.schedule.numScheduledWitnesses = 1

/-- The head after `n` blocks. -/
@[mk_iff] structure Ticked (n : Nat) (s : Database) : Prop where
  number : s.head.headBlockNumber = n
  id : s.head.headBlockId.num = n
  time : s.head.time = 1476788400 + 3 * n

/-- The tokens after `n` payments to the producer: the shares keep their price. -/
@[mk_iff] structure Coins (n : Nat) (s : Database) : Prop where
  supply : 0 ≤ s.supply.currentSupply ∧ s.supply.currentSupply ≤ 43306176000 + 1340 * n
  virtual : s.rates.virtualSupply = s.supply.currentSupply
  fund : 0 < s.supply.totalVestingFundSteem ∧ s.supply.totalVestingFundSteem ≤ 1000 * n
  shares : s.supply.totalVestingShares = 10000000 * s.supply.totalVestingFundSteem

instance : Decidable (Idle s) := decidable_of_iff _ (idle_iff s).symm

instance : Decidable (Ticked n s) := decidable_of_iff _ (ticked_iff n s).symm

instance : Decidable (Coins n s) := decidable_of_iff _ (coins_iff n s).symm

namespace Idle

theorem of_within (idle : Idle s) (frame : Within idleCells s t) : Idle t where
  comments := (frame .commentPlace rfl).trans idle.comments
  orders := (congrArg entries (frame .orders rfl)).trans idle.orders
  escrows := (congrArg entries (frame .escrows rfl)).trans idle.escrows
  savingsWithdraws := (congrArg entries (frame .savingsWithdraws rfl)).trans idle.savingsWithdraws
  changeRecoveryRequests := (congrArg entries (frame .changeRecoveryRequests rfl)).trans idle.changeRecoveryRequests
  declineRequests := (congrArg entries (frame .declineRequests rfl)).trans idle.declineRequests
  delegationExpirations := (congrArg entries (frame .delegationExpirations rfl)).trans idle.delegationExpirations
  proposals := (congrArg entries (frame .proposals rfl)).trans idle.proposals
  liquidity := (congrArg entries (frame .liquidity rfl)).trans idle.liquidity
  witnessVotes := (congrArg entries (frame .witnessVotes rfl)).trans idle.witnessVotes
  transactions := (congrArg entries (frame .transactions rfl)).trans idle.transactions
  producer := by rw [show t.accounts.view (·.proxy) = _ from frame .proxy rfl]; exact idle.producer
  temp := by rw [show t.accounts.view (·.proxy) = _ from frame .proxy rfl]; exact idle.temp
  withdrawals := by rw [show t.accounts.view (·.withdrawal) = _ from frame .withdrawal rfl]; exact idle.withdrawals
  witnesses := (congrArg (map Prod.fst) (frame .witnessInfo rfl)).trans idle.witnesses
  reported := by rw [show t.witnesses.view (·.info) = _ from frame .witnessInfo rfl]; exact idle.reported
  processed := (congrArg (·.processedHardforks.length) (frame .hardforks rfl)).trans idle.processed
  hardforks := by rw [show t.hardforks = _ from frame .hardforks rfl]; exact idle.hardforks
  feed := (congrArg FeedHistory.currentMedianHistory (frame .feed rfl)).trans idle.feed
  schedule := by rw [show t.schedule = _ from frame .schedule rfl]; exact idle.schedule

theorem hasHardfork (idle : Idle s) (k : Nat) : s.hasHardfork k = decide (k < 6) := by
  rw [Database.hasHardfork, idle.processed]

theorem notInTransit (idle : Idle s) : s.isTransitEnabled = false := by
  rw [isTransitEnabled, idle.hasHardfork]
  rfl

theorem unlessTransit (idle : Idle s) {m : Eval Unit} : Golos.unlessTransit m s = m s := by
  show (when (!s.isTransitEnabled) m) s = m s
  rw [idle.notInTransit]
  rfl

/-! ## Steps with nothing to do -/

/-- The step of a block leaves the state as it is. -/
abbrev Skips (step : BlockStep) (s : Database) : Prop := step.run Network.bare s = .ok ((), s)

theorem skips (idle : Idle s) {step : BlockStep} {m : Eval Unit}
    (isStep : step.run Network.bare = Golos.unlessTransit m)
    (nothing : m s = .ok ((), s)) : Skips step s := by
  rw [Skips, isStep, idle.unlessTransit, nothing]

/-- The loop over what is due of an empty table. -/
theorem forM_due {α : Type} {entries : List α} (empty : entries = []) {due : α → Bool} {before : α → α → Prop}
    [DecidableRel before] {f : α → Eval Unit} : ((entries.filter due).insertionSort before).forM f s = .ok ((), s) := by
  rw [empty]
  rfl

theorem clearExpiredProposals (idle : Idle s) : Skips .clearExpiredProposals s := by
  refine idle.skips rfl ?_
  show clearProposals _ s.proposals.entries.length s = _
  rw [idle.proposals]
  rfl

theorem clearExpiredOrders (idle : Idle s) : Skips .clearExpiredOrders s := idle.skips rfl (forM_due idle.orders)

theorem clearExpiredDelegations (idle : Idle s) : Skips .clearExpiredDelegations s :=
  idle.skips rfl (forM_due idle.delegationExpirations)

theorem clearNullAccountBalance (idle : Idle s) : Skips .clearNullAccountBalance s := by
  refine idle.skips rfl ?_
  show (when (s.hasHardfork 14) _) s = _
  rw [idle.hasHardfork]
  rfl

theorem processConversions (idle : Idle s) : Skips .processConversions s := by
  refine idle.skips rfl ?_
  show (when (!s.feed.currentMedianHistory.isNull) _) s = _
  rw [idle.feed]
  rfl

theorem processCommentCashout (idle : Idle s) : Skips .processCommentCashout s := by
  refine idle.skips rfl ?_
  show (when (firstCashoutTime < s.head.time) _) s = _
  unfold when
  split
  · exact forM_due (map_eq_nil_iff.mp idle.comments)
  · rfl

theorem processSavingsWithdraws (idle : Idle s) : Skips .processSavingsWithdraws s :=
  idle.skips rfl (forM_due idle.savingsWithdraws)

theorem expireEscrowRatification (idle : Idle s) : Skips .expireEscrowRatification s :=
  idle.skips rfl (forM_due idle.escrows)

theorem processDeclineVotingRights (idle : Idle s) : Skips .processDeclineVotingRights s :=
  idle.skips rfl (forM_due idle.declineRequests)

theorem processTransitToCyberway (idle : Idle s) (b : Block) :
    Skips (.processTransitToCyberway b) s := by
  show (when (s.hasHardfork 21 ∧ !s.isTransitEnabled) _) s = _
  rw [idle.hasHardfork, when, if_neg (by simp)]
  rfl

theorem processHardforks (idle : Idle s) : Skips .processHardforks s := by
  show (when (s.hardforkIsDue (s.hasHardfork 5)) _) s = _
  have notDue : s.hardforkIsDue (s.hasHardfork 5) = false := by
    rw [idle.hasHardfork, hardforkIsDue, idle.hardforks.1, idle.hardforks.2.2]
    rfl
  rw [notDue]
  rfl

theorem processVestingWithdrawals (idle : Idle s) (ticked : Ticked n s) (small : n ≤ 65536) :
    Skips .processVestingWithdrawals s := by
  refine idle.skips rfl ?_
  have absent : (s.accounts.keys.filter fun name => s.nextVestingWithdrawal name ≤ s.head.time) = [] := by
    rw [filter_eq_nil_iff]
    intro name member
    obtain ⟨a, found⟩ := Option.isSome_iff_exists.mp (find?_isSome.mpr member)
    have never := idle.withdrawals (name, a.withdrawal) (mem_map.mpr ⟨(name, a), find?_eq_some.mp found, rfl⟩)
    rw [nextVestingWithdrawal, found, Option.elim_some, never, ticked.time, decide_eq_true_eq]
    show ¬(4294967295 ≤ 1476788400 + 3 * n)
    omega
  show payWithdrawals _ _ s = _
  rw [absent, length_nil, Nat.zero_mul]
  rfl

/-! ## The witness -/

theorem exists_witness (idle : Idle s) : ∃ w, s.witnesses.entries = [(.initMiner, w)] ∧ w.info.Reported := by
  have names := idle.witnesses
  rw [view, map_map] at names
  obtain ⟨⟨name, w⟩, one, isMiner⟩ := map_eq_singleton_iff.mp names
  have isMiner : name = .initMiner := isMiner
  rw [isMiner] at one
  refine ⟨w, one, idle.reported (.initMiner, w.info) ?_⟩
  rw [view, one]
  exact mem_singleton_self _

theorem scheduledWitness (idle : Idle s) (slot : Nat) : s.scheduledWitness slot = .initMiner := by
  rw [Database.scheduledWitness, idle.schedule.1, idle.schedule.2, Nat.mod_one]
  rfl

theorem getWitness (one : s.witnesses.entries = [(.initMiner, w)]) : Golos.getWitness .initMiner s = .ok (w, s) := by
  refine run_bind rfl (run_require ?_)
  rw [find?_eq_some, one]
  exact mem_singleton_self _

theorem scheduledWitnesses (idle : Idle s) (one : s.witnesses.entries = [(.initMiner, w)]) :
    Golos.scheduledWitnesses s = .ok ([w], s) := by
  have scheduled : s.scheduled = [.initMiner] := by
    rw [scheduled, idle.schedule.1, idle.schedule.2]
    rfl
  show (s.scheduled.mapM Golos.getWitness) s = _
  rw [scheduled, mapM_cons]
  exact run_bind (getWitness one) rfl

theorem updateMedianFeed (idle : Idle s) : Skips .updateMedianFeed s := by
  refine idle.skips rfl ?_
  obtain ⟨w, one, reported⟩ := idle.exists_witness
  show (when (s.head.headBlockNumber % feedIntervalBlocks = 0) _) s = _
  unfold when
  split
  · refine run_bind (idle.scheduledWitnesses one) ?_
    have unpriced : feedCounts s w.info = false := by
      obtain ⟨-, -, -, -, isNull⟩ := reported
      rw [feedCounts, isNull]
      rfl
    rw [filter_cons_of_neg (by rw [unpriced]; exact Bool.false_ne_true)]
    rfl
  · rfl

/-! ## Rewards -/

/-- With a shift this wide a reward is never too large. -/
theorem calcPercentReward {percent multiply shift : Nat} {supply : Int} (wide : 65 ≤ shift) :
    ∃ reward, Golos.calcPercentReward percent multiply shift supply = .ok reward := by
  unfold Golos.calcPercentReward toShare
  rw [if_pos]
  · exact ⟨_, rfl⟩
  · refine Nat.lt_of_le_of_lt (Nat.mod_le _ _) ?_
    rw [Nat.div_lt_iff_lt_mul (Nat.two_pow_pos shift), ← Nat.pow_add]
    exact Nat.lt_of_lt_of_le (Nat.mod_lt _ (Nat.two_pow_pos 128)) (Nat.pow_le_pow_right Nat.two_pos (by omega))

theorem payLiquidityReward (idle : Idle s) : Skips .payLiquidityReward s := by
  refine idle.skips rfl ?_
  obtain ⟨hourly, isHourly⟩ := @calcPercentReward 750 0x6cc139a15cbd 77 s.rates.virtualSupply (by decide)
  have reward : s.liquidityReward = .ok (max (1000 * 1200) hourly) := by
    rw [liquidityReward, idle.hasHardfork, calcPercentRewardPerHour, isHourly]
    rfl
  refine run_bind rfl (run_bind (run_fromExcept reward) ?_)
  have nobody : s.topLiquidity = none := by
    rw [topLiquidity, idle.liquidity]
    rfl
  rw [nobody]
  unfold when
  split <;> rfl

theorem producerReward (idle : Idle s) (coins : Coins n s) (small : n ≤ 65536) : s.producerReward = .ok 1000 := by
  obtain ⟨⟨nonneg, bound⟩, virtual, -, -⟩ := coins
  obtain ⟨supply, isSupply⟩ := Int.eq_ofNat_of_zero_le nonneg
  have word : toUint128 (supply : Int) = supply := by
    rw [← Int.ofNat_inj, toUint128_of_lt (Int.natCast_nonneg _) (by omega)]
  have few : (supply * (750 * 0x5ccce802de5f) + 2 ^ (87 - 1)) % 2 ^ 128 / 2 ^ 87 % 2 ^ 64 < 1000 := by
    refine Nat.lt_of_le_of_lt (Nat.mod_le _ _) ?_
    rw [Nat.div_lt_iff_lt_mul (Nat.two_pow_pos 87)]
    refine Nat.lt_of_le_of_lt (Nat.mod_le _ _) ?_
    omega
  have reward : calcPercentRewardPerBlock 750 s.rates.virtualSupply = .ok
      ((supply * (750 * 0x5ccce802de5f) + 2 ^ (87 - 1)) % 2 ^ 128 / 2 ^ 87 % 2 ^ 64 : Nat) := by
    rw [virtual, isSupply, calcPercentRewardPerBlock, Golos.calcPercentReward, toShare_eq_ok, word]
    exact ⟨Nat.lt_trans few (by decide), rfl⟩
  rw [Database.producerReward, idle.hasHardfork, reward]
  show Except.ok _ = _
  rw [decide_eq_false (by decide), if_neg Bool.false_ne_true, max_eq_left (by omega)]

/-- The price of the shares is kept, so a payment always buys the same number of them. -/
theorem mulPrice_share (coins : Coins n s) (small : n ≤ 65536) :
    (Asset.steem 1000).mulPrice s.supply.vestingSharePrice = .ok (.vests 10000000000) := by
  obtain ⟨-, -, ⟨positive, bound⟩, shares⟩ := coins
  obtain ⟨fund, isFund⟩ := Int.eq_ofNat_of_zero_le positive.le
  rw [isFund] at positive bound shares
  have price : s.supply.vestingSharePrice = ⟨.vests (10000000 * fund), .steem fund⟩ := by
    rw [Supply.vestingSharePrice, shares, isFund, if_neg (by omega)]
  have word {x : Nat} (fits : x < 2 ^ 128) : toUint128 (x : Int) = x := by
    rw [← Int.ofNat_inj, toUint128_of_lt (Int.natCast_nonneg _) (by omega)]
  have product : toUint128 (toUint128 1000 * toUint128 (10000000 * (fund : Int))) / toUint128 fund = 10000000000 := by
    have shares : toUint128 (10000000 * (fund : Int)) = 10000000 * fund := by
      rw [← word (x := 10000000 * fund) (by omega)]
      rfl
    rw [shares, show toUint128 1000 = 1000 from rfl, word (by omega), ← Nat.cast_mul, word (by omega)]
    rw [← Nat.mul_assoc, Nat.mul_div_cancel _ (by omega)]
  have other : symbolName steemSymbol ≠ symbolName vestsSymbol := by decide
  rw [price]
  refine (if_neg other).trans ((if_pos rfl).trans ?_)
  unfold mulDiv
  show (validThat (0 < (fund : Int)) _ >>= fun _ =>
    validThat (toUint128 (toUint128 1000 * toUint128 (10000000 * (fund : Int))) /
    toUint128 fund < 2 ^ 64) _ >>= fun _ => toShare (toUint128 (toUint128 1000 * toUint128 (10000000 * (fund : Int))) /
    toUint128 fund) >>= _) = _
  rw [product, validThat, if_pos positive]
  rfl

theorem getAccount {name proxy : AccountName} (listed : (name, proxy) ∈ s.accounts.view (·.proxy)) :
    ∃ a, Golos.getAccount name s = .ok (a, s) ∧ a.proxy = proxy := by
  obtain ⟨⟨_, a⟩, member, same⟩ := mem_map.mp listed
  cases same
  exact ⟨a, run_bind rfl (run_require (find?_eq_some.mpr member)), rfl⟩

theorem adjustProxiedWitnessVotes (idle : Idle s) (delta : Int) :
    Golos.adjustProxiedWitnessVotes .initMiner delta s = .ok ((), s) := by
  obtain ⟨a, read, proxy⟩ := getAccount idle.producer
  refine run_bind read ?_
  rw [if_neg (by simp [proxy])]
  have nobody : s.votedWitnesses .initMiner = [] := by
    rw [votedWitnesses, filter_eq_nil_iff]
    intro w _
    rw [Store.find?, idle.witnessVotes]
    exact Bool.false_ne_true
  refine run_bind rfl ?_
  rw [nobody]
  rfl

/-- The cells a block without transactions may write once `Idle` holds. -/
abbrev paidCells : Footprint
  | .supply | .rates | .balances | .vesting | .proxied | .tally => true
  | _ => false

theorem createVesting (idle : Idle s) (coins : Coins n s) (small : n ≤ 65536) : ∃ t,
    Golos.createVesting .initMiner (.steem 1000) s = .ok (10000000000, t) ∧ t.rates = s.rates ∧
      t.supply = { s.supply with
        totalVestingFundSteem := s.supply.totalVestingFundSteem + 1000
        totalVestingShares := s.supply.totalVestingShares + 10000000000 } := by
  obtain ⟨a, read, -⟩ := getAccount idle.producer
  obtain ⟨u, deposited, rates, supply⟩ : ∃ u, modifyVestingShares .initMiner (· + 10000000000) s = .ok ((), u) ∧
      u.rates = s.rates ∧ u.supply = s.supply := ⟨_, run_bind read rfl, rfl, rfl⟩
  have frame : Within idleCells s u := frame_of_run deposited
  let v : Database := { u with supply := { u.supply with
    totalVestingFundSteem := u.supply.totalVestingFundSteem + 1000
    totalVestingShares := u.supply.totalVestingShares + 10000000000 } }
  have idle' : Idle v := (idle.of_within frame).of_within fun c _ => by cases c <;> first | rfl | contradiction
  refine ⟨v, ?_, rates, by rw [← supply]⟩
  refine run_bind rfl (bind_eq_ok.mpr ⟨.vests 10000000000, s, ?_, ?_⟩)
  · exact run_fromExcept (mulPrice_share coins small)
  refine run_bind rfl (run_bind deposited ?_)
  refine run_bind rfl (run_bind rfl ?_)
  exact run_bind (idle'.adjustProxiedWitnessVotes _) rfl

theorem processFunds (idle : Idle s) (coins : Coins n s) (small : n < 65536) (number : s.head.headBlockNumber = n + 1)
    (producer : s.head.currentWitness = .initMiner) :
    ∃ t, (BlockStep.processFunds).run Network.bare s = .ok ((), t) ∧ Within paidCells s t ∧ Coins (n + 1) t := by
  rw [BlockStep.run, idle.unlessTransit]
  obtain ⟨w, one, -⟩ := idle.exists_witness
  obtain ⟨a, read, -⟩ := getAccount idle.producer
  -- the payment, in shares or in tokens
  obtain ⟨u, paid, rates, supply⟩ : ∃ u,
      (if startMinerVotingBlock ≤ s.head.headBlockNumber ∨ a.vestingShares = 0 then do
        let _ ← Golos.createVesting .initMiner (.steem 1000)
        pure ()
      else modifyBalances .initMiner fun b => { b with balance := b.balance + 1000 }) s = .ok ((), u) ∧
        u.rates = s.rates ∧
        ∃ bought, (bought = 0 ∨ bought = 1000) ∧ u.supply = { s.supply with
          totalVestingFundSteem := s.supply.totalVestingFundSteem + bought
          totalVestingShares := s.supply.totalVestingShares + 10000000 * bought } := by
    split
    · obtain ⟨u, created, rates, supply⟩ := idle.createVesting coins small.le
      exact ⟨u, run_bind created rfl, rates, 1000, .inr rfl, supply⟩
    · refine ⟨_, run_bind read rfl, rfl, 0, .inl rfl, ?_⟩
      simp
  have frame : Within paidCells s u := by
    refine frame_of_run paid
  obtain ⟨bought, amount, supply⟩ := supply
  have content : s.contentReward = .ok 255 := by
    rw [contentReward, number, if_neg (by unfold startVestingBlock blocksPerDay; omega)]
  have curation : s.curationReward = .ok 85 := by
    rw [curationReward, number, if_neg (by unfold startVestingBlock blocksPerDay; omega)]
  obtain ⟨t, issued, issuedRates, issuedSupply⟩ : ∃ t, issueToFunds 0 340 1000 u = .ok ((), t) ∧
      t.rates.virtualSupply = u.rates.virtualSupply + 1340 ∧ t.supply = { u.supply with
        totalVestingFundSteem := u.supply.totalVestingFundSteem + 0
        totalRewardFundSteem := u.supply.totalRewardFundSteem + 340
        currentSupply := u.supply.currentSupply + 1340 } := ⟨_, rfl, rfl, rfl⟩
  have issuing : Within paidCells u t := frame_of_run issued
  refine ⟨t, ?_, trans_of _ frame issuing, ?_⟩
  · refine run_bind rfl (bind_eq_ok.mpr ⟨w, s, ?_, bind_eq_ok.mpr ⟨a, s, ?_, ?_⟩⟩)
    · rw [producer, getWitness one]
    · rw [producer, read]
    rw [if_neg (by rw [idle.hasHardfork]; decide)]
    refine run_bind (run_fromExcept (idle.producerReward coins small.le)) ?_
    refine bind_eq_ok.mpr ⟨(), u, ?_, ?_⟩
    · rw [producer]
      exact paid
    refine run_bind (run_fromExcept content) ?_
    refine run_bind (run_fromExcept curation) ?_
    rw [number, if_pos (by unfold startVestingBlock blocksPerDay; omega)]
    exact issued
  · obtain ⟨⟨nonneg, bound⟩, virtual, ⟨positive, fund⟩, shares⟩ := coins
    rw [rates] at issuedRates
    rw [supply] at issuedSupply
    have supply' : t.supply.currentSupply = s.supply.currentSupply + 1340 := congrArg Supply.currentSupply issuedSupply
    have fund' : t.supply.totalVestingFundSteem = s.supply.totalVestingFundSteem + bought + 0 :=
      congrArg Supply.totalVestingFundSteem issuedSupply
    have shares' : t.supply.totalVestingShares = s.supply.totalVestingShares + 10000000 * bought :=
      congrArg Supply.totalVestingShares issuedSupply
    constructor <;> omega

/-! ## The schedule -/

/-- What an update of the schedule may write. -/
abbrev scheduleCells : Footprint
  | .rates | .schedule | .tally | .witnessInfo | .pow | .hardforks => true
  | _ => false

theorem updateWitness (one : s.witnesses.entries = [(.initMiner, w)]) (f : Witness → Witness) :
    Golos.updateWitness .initMiner f s = .ok ((), { s with witnesses := s.witnesses.modify .initMiner f }) :=
  run_bind (getWitness one) rfl

theorem updateWitness_self (one : s.witnesses.entries = [(.initMiner, w)]) {f : Witness → Witness}
    (same : f w = w) : Golos.updateWitness .initMiner f s = .ok ((), s) := by
  have unchanged : s.witnesses.modify .initMiner f = s.witnesses := by
    apply Store.ext
    show s.witnesses.entries.map _ = s.witnesses.entries
    rw [one, map_singleton, if_pos rfl, same]
  rw [updateWitness one, unchanged]

theorem advanceVirtualTime (idle : Idle s) (time : Uint128) : ∃ time' t,
    Golos.advanceVirtualTime [.initMiner] time s = .ok (time', t) ∧ Idle t ∧ t.rates = s.rates := by
  have modified {s : Database} (idle : Idle s) (f : WitnessVotes → WitnessVotes) :
      ∃ t, modifyTally .initMiner f s = .ok ((), t) ∧ Idle t ∧ t.rates = s.rates := by
    obtain ⟨w, one, -⟩ := idle.exists_witness
    have run : modifyTally .initMiner f s = _ := updateWitness one _
    have frame : Within idleCells s _ := frame_of_run run
    exact ⟨_, run, idle.of_within frame, rfl⟩
  show ∃ time' t, (if [AccountName.initMiner].any _ = true then _ else _ : Eval Uint128) s = .ok (time', t) ∧ _
  split
  · let u : Database := { s with schedule := { s.schedule with currentVirtualTime := 0 } }
    have idle' : Idle u := { idle with }
    obtain ⟨w, one, -⟩ := idle'.exists_witness
    obtain ⟨t, run, again, rates⟩ := modified idle' fun t => { t with
      virtualPosition := 0
      virtualLastUpdate := 0
      virtualScheduledTime := lapTime t.votes }
    refine ⟨0, t, bind_eq_ok.mpr ⟨(), t, run_bind rfl (run_bind rfl ?_), rfl⟩, again, rates⟩
    rw [Store.keys, one]
    exact run_bind run rfl
  · obtain ⟨t, run, again, rates⟩ := modified idle fun t => { t with
      virtualPosition := 0
      virtualLastUpdate := time
      virtualScheduledTime := time + lapTime t.votes }
    exact ⟨time, t, run_bind (run_bind run rfl) rfl, again, rates⟩

theorem countVersionVotes (idle : Idle s) : ∃ majority t,
    Golos.countVersionVotes s = .ok (majority, t) ∧ Idle t ∧ t.rates = s.rates := by
  obtain ⟨w, one, -⟩ := idle.exists_witness
  have nothing : agreedHardfork [w] = none := by
    rw [agreedHardfork, find?_eq_none]
    intro v _
    have few := count_le_length (a := v) (l := [w].map fun w => (w.info.hardforkVersionVote, w.info.hardforkTimeVote))
    rw [length_map, length_singleton] at few
    rw [decide_eq_true_eq, hardforkRequiredWitnesses]
    omega
  show ∃ majority t, (if s.hasHardfork 5 then _ else _ : Eval Nat) s = .ok (majority, t) ∧ _
  rw [if_pos (by rw [idle.hasHardfork]; decide)]
  refine ⟨_, { s with hardforks := { s.hardforks with nextHardfork := s.hardforks.currentHardforkVersion } },
    run_bind (idle.scheduledWitnesses one) (bind_eq_ok.mpr ⟨(), _, ?_, rfl⟩), ?_, rfl⟩
  · rw [nothing]
    rfl
  · exact { idle with hardforks := ⟨idle.hardforks.1, idle.hardforks.2.1, idle.hardforks.2.1⟩ }

theorem updateMedianWitnessProps (idle : Idle s) : ∃ t,
    Golos.updateMedianWitnessProps s = .ok ((), t) ∧ Idle t ∧ t.rates.virtualSupply = s.rates.virtualSupply := by
  obtain ⟨w, one, -⟩ := idle.exists_witness
  refine ⟨_, run_bind (idle.scheduledWitnesses one) rfl, ?_, rfl⟩
  exact { idle with }

theorem activate (w : WitnessSchedule) (now : Time) (number : Nat) :
    (w.activate [.initMiner] now number).currentShuffledWitnesses = [.initMiner] ∧
      (w.activate [.initMiner] now number).numScheduledWitnesses = 1 := by
  refine ⟨?_, rfl⟩
  have index : shuffleIndex now 0 1 = 0 := by
    simp only [shuffleIndex, Nat.sub_zero, Nat.mod_one]
  simp [WitnessSchedule.activate, shuffle, index, swapEntries]

theorem updateWitnessSchedule4 (idle : Idle s) : ∃ t, Golos.updateWitnessSchedule4 s = .ok ((), t) ∧ Idle t ∧
    t.rates.virtualSupply = s.rates.virtualSupply := by
  obtain ⟨w, one, -, top19, -, notMining, -⟩ := idle.exists_witness
  have canSign : s.canSign w = true := by
    rw [canSign, idle.hasHardfork]
    rfl
  have voted : ((s.witnessesByVote.filter fun e => s.canSign e.2).take maxVotedWitnesses).map Prod.fst =
    [.initMiner] := by
    rw [witnessesByVote, one, insertionSort_cons, insertionSort_nil, orderedInsert_nil]
    simp [canSign, maxVotedWitnesses]
  have powQueue : s.powQueue = [] := by
    rw [powQueue, one, filter_cons_of_neg (by rw [notMining]; decide)]
    rfl
  have timeshare : selectTimeshare s ([.initMiner] ++ []) s.witnessesByScheduleTime
      (maxWitnesses - ([AccountName.initMiner] ++ []).length) { virtualTime := s.schedule.currentVirtualTime } =
      { virtualTime := w.tally.virtualScheduledTime, processed := [.initMiner] } := by
    rw [witnessesByScheduleTime, one, insertionSort_cons, insertionSort_nil, orderedInsert_nil]
    show selectTimeshare s [.initMiner] [(.initMiner, w)] 20 _ = _
    rw [selectTimeshare, if_neg (by simp)]
    rfl
  obtain ⟨time, s₁, advanced, idle₁, rates₁⟩ := idle.advanceVirtualTime w.tally.virtualScheduledTime
  obtain ⟨majority, s₂, counted, idle₂, rates₂⟩ := idle₁.countVersionVotes
  let s₃ : Database := { s₂ with schedule := { s₂.schedule.activate [.initMiner] s.head.time s.head.headBlockNumber with
    witnessPayNormalizationFactor :=
      s₂.schedule.top19Weight * 1 + s₂.schedule.minerWeight * 0 + s₂.schedule.timeshareWeight * 0
    currentVirtualTime := time
    majorityVersion := majority } }
  have idle₃ : Idle s₃ := { idle₂ with schedule := activate s₂.schedule s.head.time s.head.headBlockNumber }
  obtain ⟨t, props, idle', virtual⟩ := idle₃.updateMedianWitnessProps
  refine ⟨t, ?_, idle', ?_⟩
  · refine run_bind rfl ?_
    rw [voted, powQueue]
    refine bind_eq_ok.mpr ⟨(), s, ?_, ?_⟩
    · refine bind_eq_ok.mpr ⟨(), s, updateWitness_self one ?_, rfl⟩
      rw [← top19]
    refine run_bind rfl (run_bind rfl ?_)
    rw [timeshare]
    refine run_bind rfl (run_bind advanced ?_)
    refine bind_eq_ok.mpr ⟨(), s₁, ?_, run_bind counted ?_⟩
    · unfold when
      split
      · rw [one]
        rfl
      · rfl
    · exact run_bind rfl props
  · rw [virtual]
    rw [rates₂, rates₁]

theorem updateWitnessSchedule (idle : Idle s) :
    ∃ t, (BlockStep.updateWitnessSchedule).run Network.bare s = .ok ((), t) ∧
    Within scheduleCells s t ∧ Idle t ∧ t.rates.virtualSupply = s.rates.virtualSupply := by
  have written : Touches scheduleCells Golos.updateWitnessSchedule := inferInstance
  show ∃ t, (when (s.head.headBlockNumber % maxWitnesses = 0) _) s = .ok ((), t) ∧ _
  by_cases round : s.head.headBlockNumber % maxWitnesses = 0
  · obtain ⟨t, updated, idle', virtual⟩ := idle.updateWitnessSchedule4
    have run : Golos.updateWitnessSchedule s = .ok ((), t) := by
      refine run_bind rfl ?_
      rw [when, if_pos round, if_pos (by rw [idle.hasHardfork]; decide), updated]
    exact ⟨t, run, written.after run, idle', virtual⟩
  · exact ⟨s, by rw [when, if_neg round]; rfl, refl_of _ s, idle, rfl⟩

/-! ## The head block -/

theorem slotTime (ticked : Ticked n s) (started : n ≠ 0) : s.slotTime 1 = 1476788400 + 3 * (n + 1) := by
  rw [Database.slotTime, ticked.number, if_neg started, ticked.time]
  show (1476788400 + 3 * n) / 3 * 3 + 1 * 3 = 1476788400 + 3 * (n + 1)
  omega

theorem validateBlockHeader (idle : Idle s) (ticked : Ticked n s) (started : n ≠ 0) :
    Skips (.validateBlockHeader s.nextBlock) s := by
  obtain ⟨w, one, key, -⟩ := idle.exists_witness
  have slot : s.slotAtTime (s.slotTime 1) = 1 := slotAtTime_slotTime (Nat.le_refl 1)
  have later : s.head.time < s.slotTime 1 := by
    rw [slotTime ticked started, ticked.time]
    show 1476788400 + 3 * n < 1476788400 + 3 * (n + 1)
    omega
  refine run_bind rfl (run_bind (run_check rfl) ?_)
  refine run_bind (run_check later) (bind_eq_ok.mpr ⟨w, s, ?_, ?_⟩)
  · show Golos.getWitness (s.scheduledWitness 1) s = _
    rw [idle.scheduledWitness, getWitness one]
  refine run_bind (run_check (by rw [key]; rfl)) ?_
  refine bind_eq_ok.mpr ⟨(), s, run_check ?_, run_check ?_⟩
  · show 0 < s.slotAtTime (s.slotTime 1)
    rw [slot]
    decide
  · show s.scheduledWitness 1 = s.scheduledWitness (s.slotAtTime (s.slotTime 1))
    rw [slot]

theorem checkRunningVersion (idle : Idle s) (producer : b.witness = .initMiner) :
    Skips (.checkRunningVersion b) s := by
  obtain ⟨w, one, -, -, version, -⟩ := idle.exists_witness
  refine run_bind rfl ?_
  rw [when, if_pos (by rw [idle.hasHardfork]; decide)]
  refine run_bind (by rw [producer, getWitness one]) (run_check ?_)
  rw [idle.hardforks.2.1, version]

/-- Up to the head block nothing changes but the witness. -/
theorem headerSteps (idle : Idle s) (ticked : Ticked n s) (started : n ≠ 0) :
    ((Golos.headerSteps s.nextBlock).forM fun step => step.run Network.bare) s =
      .ok ((), { s with head := { s.head with currentWitness := .initMiner } }) := by
  have producer : s.nextBlock.witness = .initMiner := idle.scheduledWitness 1
  let u : Database := { s with head := { s.head with currentWitness := s.nextBlock.witness } }
  have idle' : Idle u := { idle with }
  have isU : u = { s with head := { s.head with currentWitness := .initMiner } } := by
    simp only [u, producer]
  rw [← isU]
  refine bind_eq_ok.mpr ⟨(), s, ?_, run_bind (idle.validateBlockHeader ticked started) ?_⟩
  · refine run_bind (run_check (.inl rfl)) (run_bind rfl (run_check ?_))
    rw [idle.hasHardfork]
    exact fun no => absurd no (by decide)
  refine run_bind rfl (run_bind rfl (run_bind (idle'.checkRunningVersion producer) ?_))
  refine run_bind (run_bind rfl (run_check (fun _ => rfl))) rfl

end Idle

/-! ## A block -/

/-- An idle state after `n` blocks and `k` payments. -/
@[mk_iff] structure Steady (n k : Nat) (s : Database) : Prop where
  idle : Idle s
  ticked : Ticked n s
  coins : Coins k s
  producer : s.head.currentWitness = .initMiner
  lib : n < s.lastIrreversibleBlockNum + 200

instance {k : Nat} : Decidable (Steady n k s) := decidable_of_iff _ (steady_iff n k s).symm

namespace Steady

variable {k k' : Nat}

/-- The head stays where it is. -/
theorem keep (steady : Steady n k s) (idle : Idle t) (coins : Coins k' t) (head : t.head = s.head)
    (lib : t.lastIrreversibleBlockNum = s.lastIrreversibleBlockNum) : Steady n k' t := by
  obtain ⟨number, id, time⟩ := steady.ticked
  rw [← head] at number id time
  exact ⟨idle, ⟨number, id, time⟩, coins, head ▸ steady.producer, lib ▸ steady.lib⟩

theorem updateWitnessSchedule (steady : Steady n k s) :
    ∃ t, (BlockStep.updateWitnessSchedule).run Network.bare s = .ok ((), t) ∧ Steady n k t := by
  obtain ⟨t, run, frame, idle, virtual⟩ := steady.idle.updateWitnessSchedule
  refine ⟨t, run, steady.keep idle ?_ (frame .head rfl) (frame .lib rfl)⟩
  have same : t.supply = s.supply := frame .supply rfl
  obtain ⟨supply, isVirtual, fund, shares⟩ := steady.coins
  rw [← same] at supply isVirtual fund shares
  exact ⟨supply, virtual.trans isVirtual, fund, shares⟩

theorem updateVirtualSupply (steady : Steady n k s) :
    ∃ t, (BlockStep.updateVirtualSupply).run Network.bare s = .ok ((), t) ∧ Steady n k t := by
  rw [BlockStep.run, steady.idle.unlessTransit]
  refine ⟨{ s with rates := { s.rates with virtualSupply := s.supply.currentSupply + 0 } }, ?_, ?_⟩
  · refine run_bind rfl ?_
    rw [steady.idle.feed]
    rfl
  · exact steady.keep { steady.idle with } { steady.coins with virtual := add_zero _ } rfl rfl

theorem clearExpiredTransactions (steady : Steady n k s) :
    ∃ t, (BlockStep.clearExpiredTransactions).run Network.bare s = .ok ((), t) ∧ Steady n k t := by
  rw [BlockStep.run, steady.idle.unlessTransit]
  refine ⟨_, rfl, ?_⟩
  have absent : (s.transactions.filter fun _ expiration => s.head.time ≤ expiration).entries = [] := by
    rw [Store.filter, filter_eq_nil_iff, steady.idle.transactions]
    exact fun e member => absurd member not_mem_nil
  exact steady.keep { steady.idle with transactions := absent } { steady.coins with } rfl rfl

theorem accountRecoveryProcessing (steady : Steady n k s) :
    ∃ t, (BlockStep.accountRecoveryProcessing).run Network.bare s = .ok ((), t) ∧ Steady n k t := by
  rw [BlockStep.run, steady.idle.unlessTransit]
  refine ⟨{ s with
    recoveryRequests := s.recoveryRequests.filter fun _ r => s.head.time < r.expires
    ownerHistory := s.ownerHistory.dropWhile fun h => h.lastValidTime + ownerAuthRecoveryPeriod < s.head.time }, ?_, ?_⟩
  · refine run_bind rfl (run_bind rfl (run_bind rfl ?_))
    exact Idle.forM_due steady.idle.changeRecoveryRequests
  · exact steady.keep { steady.idle with } { steady.coins with } rfl rfl

theorem processFunds (steady : Steady (n + 1) n s) (small : n < 65536) :
    ∃ t, (BlockStep.processFunds).run Network.bare s = .ok ((), t) ∧ Steady (n + 1) (n + 1) t := by
  obtain ⟨t, run, frame, coins⟩ :=
    steady.idle.processFunds steady.coins small steady.ticked.number steady.producer
  exact ⟨t, run, steady.keep (steady.idle.of_within frame.widen) coins (frame .head rfl) (frame .lib rfl)⟩

theorem andThen {step : BlockStep} {rest : List BlockStep} {u : Database}
    (first : step.run Network.bare s = .ok ((), t))
    (others : (rest.forM fun step => step.run Network.bare) t = .ok ((), u)) :
    ((step :: rest).forM fun step => step.run Network.bare) s = .ok ((), u) :=
  run_bind first others

theorem processingSteps (steady : Steady (n + 1) n s) (small : n < 65536) (b : Block) :
    ∃ t, ((Golos.processingSteps b).forM fun step => step.run Network.bare) s = .ok ((), t) ∧
      Steady (n + 1) (n + 1) t := by
  obtain ⟨s₁, run₁, steady₁⟩ := steady.clearExpiredTransactions
  obtain ⟨s₂, run₂, steady₂⟩ := steady₁.updateWitnessSchedule
  obtain ⟨s₃, run₃, steady₃⟩ := steady₂.updateVirtualSupply
  obtain ⟨s₄, run₄, steady₄⟩ := steady₃.processFunds small
  obtain ⟨s₅, run₅, steady₅⟩ := steady₄.updateVirtualSupply
  obtain ⟨t, run₆, last⟩ := steady₅.accountRecoveryProcessing
  refine ⟨t, ?_, last⟩
  refine andThen steady.idle.clearExpiredProposals (andThen run₁ ?_)
  refine andThen steady₁.idle.clearExpiredOrders (andThen steady₁.idle.clearExpiredDelegations (andThen run₂ ?_))
  refine andThen steady₂.idle.updateMedianFeed
    (andThen run₃ (andThen steady₃.idle.clearNullAccountBalance (andThen run₄ ?_)))
  refine andThen steady₄.idle.processConversions (andThen steady₄.idle.processCommentCashout ?_)
  refine andThen (steady₄.idle.processVestingWithdrawals steady₄.ticked small)
    (andThen steady₄.idle.processSavingsWithdraws ?_)
  refine andThen steady₄.idle.payLiquidityReward
    (andThen run₅ (andThen run₆ (andThen last.idle.expireEscrowRatification ?_)))
  refine andThen last.idle.processDeclineVotingRights (andThen last.idle.processHardforks ?_)
  exact andThen (last.idle.processTransitToCyberway b) rfl

/-- The block becomes the head. -/
theorem updateGlobalDynamicData (steady : Steady n k s) (started : n ≠ 0) (number : b.num = n + 1)
    (time : b.timestamp = s.slotTime 1) :
    ∃ t, (BlockStep.updateGlobalDynamicData b).run Network.bare s = .ok ((), t) ∧ Idle t ∧ Ticked (n + 1) t ∧
      Coins k t ∧
      t.head.currentWitness = .initMiner ∧ n < t.lastIrreversibleBlockNum + 200 := by
  have slot : s.slotAtTime b.timestamp = 1 := by
    rw [time]
    exact slotAtTime_slotTime (Nat.le_refl 1)
  have missed : (if s.head.time ≠ 0 then s.slotAtTime b.timestamp - 1 else 0) = 0 := by
    rw [slot]
    split <;> rfl
  let u : Database := { s with head := s.head.advance b.num b.id b.timestamp 0 b.size }
  let t : Database := { u with rates := u.rates.adaptBandwidth u }
  refine ⟨t, ?_, { steady.idle with }, ⟨number, number, ?_⟩, { steady.coins with }, steady.producer, steady.lib⟩
  · refine run_bind rfl ?_
    rw [missed]
    refine run_bind rfl (run_bind rfl (run_bind rfl ?_))
    refine run_bind rfl (run_check ?_)
    show b.num - s.lastIrreversibleBlockNum < 10000
    have := steady.lib
    omega
  · show b.timestamp = _
    rw [time, Idle.slotTime steady.ticked started]

theorem updateLastIrreversibleBlock (idle : Idle s) (ticked : Ticked (n + 1) s) (coins : Coins k s)
    (producer : s.head.currentWitness = .initMiner) (lib : n < s.lastIrreversibleBlockNum + 200) (small : n < 65536)
    (one : s.witnesses.entries = [(.initMiner, w)]) (confirmed : w.confirmation.lastConfirmedBlockNum = n + 1) :
    ∃ t, (BlockStep.updateLastIrreversibleBlock).run Network.bare s = .ok ((), t) ∧ Steady (n + 1) k t := by
  have located (lib : Nat) (recent : n + 1 < lib + 200) : Steady (n + 1) k { s with lastIrreversibleBlockNum := lib } :=
    ⟨{ idle with }, { ticked with }, { coins with }, producer, recent⟩
  by_cases early : n + 1 < startMinerVotingBlock
  · have run : (BlockStep.updateLastIrreversibleBlock).run Network.bare s =
        (when (maxWitnesses < n + 1) (setLastIrreversibleBlockNum (n + 1 - maxWitnesses))) s := by
      rw [← ticked.number] at early ⊢
      exact congrFun (if_pos early) s
    rw [run]
    unfold when maxWitnesses
    split
    · exact ⟨_, rfl, located (n + 1 - 21) (by omega)⟩
    · exact ⟨s, rfl, located s.lastIrreversibleBlockNum (by omega)⟩
  · have number : confirmedBlockNum [w] = some (n + 1) := by
      simp [confirmedBlockNum, irreversibleThreshold, confirmed]
    have fits : min (n + 1) 4294967295 = n + 1 := Nat.min_eq_left (by omega)
    -- the only witness has confirmed this very block
    have run {t : Database}
      (ended : (when (s.lastIrreversibleBlockNum < n + 1) (setLastIrreversibleBlockNum (n + 1))) s =
        .ok ((), t)) : (BlockStep.updateLastIrreversibleBlock).run Network.bare s = .ok ((), t) := by
      refine run_bind rfl ?_
      rw [ticked.number, if_neg early]
      refine run_bind (idle.scheduledWitnesses one) (run_bind (run_require number) ?_)
      rw [fits, idle.notInTransit, if_neg (by simp)]
      exact ended
    by_cases behind : s.lastIrreversibleBlockNum < n + 1
    · exact ⟨_, run (by rw [when, if_pos behind]; rfl), located (n + 1) (by omega)⟩
    · exact ⟨s, run (by rw [when, if_neg behind]; rfl), located s.lastIrreversibleBlockNum (by omega)⟩

/-- The next block of an idle network is applied, and the network is idle again. -/
theorem block (steady : Steady n n s) (started : n ≠ 0) (small : n < 65536) :
    ∃ t, Network.bare.applyBlock s.nextBlock s = .ok ((), t) ∧ Steady (n + 1) (n + 1) t := by
  let u : Database := { s with head := { s.head with currentWitness := .initMiner } }
  have header := steady.idle.headerSteps steady.ticked started
  have steady' : Steady n n u := ⟨{ steady.idle with }, { steady.ticked with }, { steady.coins with }, rfl, steady.lib⟩
  have number : s.nextBlock.num = n + 1 := congrArg (· + 1) steady.ticked.id
  obtain ⟨v, adopted, idle, ticked, coins, producer, lib⟩ := steady'.updateGlobalDynamicData started number rfl
  obtain ⟨w, one, -⟩ := idle.exists_witness
  -- the witness has signed the block
  let x : Database := { v with witnesses := v.witnesses.modify .initMiner fun w =>
    { w with confirmation := ⟨v.head.currentAslot + v.slotAtTime s.nextBlock.timestamp, s.nextBlock.num⟩ } }
  have signed : (BlockStep.updateSigningWitness s.nextBlock).run Network.bare v = .ok ((), x) := by
    have isMiner : s.nextBlock.witness = .initMiner := steady.idle.scheduledWitness 1
    refine run_bind rfl ?_
    rw [isMiner]
    exact Idle.updateWitness one _
  have signing : Touches idleCells (Golos.updateSigningWitness s.nextBlock.witness s.nextBlock.num
    s.nextBlock.timestamp) := inferInstance
  have frame : Within idleCells v x := signing.after signed
  have one' : x.witnesses.entries = [(.initMiner, { w with
      confirmation := ⟨v.head.currentAslot + v.slotAtTime s.nextBlock.timestamp, s.nextBlock.num⟩ })] := by
    show v.witnesses.entries.map _ = _
    rw [one]
    rfl
  obtain ⟨y, confirmed, steady'⟩ :=
    updateLastIrreversibleBlock (idle.of_within frame) { ticked with } { coins with } producer lib small one' number
  let z : Database := { y with blockSummary := fun r =>
    if r = s.nextBlock.num % 2 ^ 16 then s.nextBlock.id else y.blockSummary r }
  have summarized : Steady (n + 1) n z :=
    steady'.keep { steady'.idle with } { steady'.coins with } rfl rfl
  obtain ⟨t, processed, last⟩ := summarized.processingSteps small s.nextBlock
  refine ⟨t, ?_, last⟩
  rw [Network.applyBlock, blockSteps, forM_eq_forM, forM_append]
  refine run_bind header ?_
  exact andThen adopted (andThen signed (andThen confirmed (andThen rfl processed)))

end Steady

/-! ## Many blocks -/

/-- The next block with the version of hardfork 5. -/
def Database.versionedBlock (s : Database) : Block := { s.nextBlock with extensions := [.version (5 * 2 ^ 16)] }

/-- The blocks up to the first schedule after hardfork 5. -/
def Network.warmUp (net : Network) : Nat → Eval Unit
  | 0 => pure ()
  | n + 1 => do
    net.warmUp n
    let s ← get
    net.applyBlock s.versionedBlock

def warm : Database := stateAfter (Network.bare.warmUp 42) bareGenesis

theorem Network.Chain.warmUp {net : Network} {blocks : List Block} (chain : net.Chain blocks s)
    (run : net.warmUp n s = .ok ((), t)) : ∃ more, net.Chain more t :=
  chain.rounds rfl (fun _ => rfl) run

theorem warm_steady : (Network.bare.warmUp 42 bareGenesis).isOk = true ∧ Steady 42 42 warm := by
  decide +kernel

theorem warm_chain : ∃ blocks, Network.bare.Chain blocks warm :=
  (Network.Chain.genesis bareGenesis_eq).warmUp (stateAfter_eq warm_steady.1)

/-- The bare network reaches every height. -/
theorem steady_chain (late : 42 ≤ n) (small : n ≤ 65536) : ∃ blocks s, Network.bare.Chain blocks s ∧ Steady n n s := by
  induction n, late using Nat.le_induction with
  | base =>
    obtain ⟨blocks, chain⟩ := warm_chain
    exact ⟨blocks, warm, chain, warm_steady.2⟩
  | succ n late ih =>
    obtain ⟨blocks, s, chain, steady⟩ := ih (by omega)
    obtain ⟨t, run, steady'⟩ := steady.block (by omega) (by omega)
    exact ⟨_, t, chain.block run, steady'⟩

/-! ## A transaction -/

/-- An operation without an effect in the name of the account that everybody may act for, with a reference to a block.
-/
def Database.customTransaction (s : Database) (refBlockNum refBlockPrefix : Nat) : Transaction where
  id := 0
  refBlockNum := refBlockNum
  refBlockPrefix := refBlockPrefix
  expiration := s.head.time + 60
  operations := [.custom { active := [.temp] }]
  signatureKeys := []

/-- On an idle state such a transaction depends only on its reference. -/
theorem Idle.applyTransaction (idle : Idle s) (refBlockNum refBlockPrefix : Nat)
    (refers : refBlockPrefix = (s.blockSummary (refBlockNum % 2 ^ 16)).secondWord) :
    ∃ t, Golos.applyTransaction Network.bare.stack false (s.customTransaction refBlockNum refBlockPrefix) s =
      .ok ((), t) := by
  obtain ⟨a, read, -⟩ := Idle.getAccount idle.temp
  have new : s.transactions.find? 0 = none := by
    rw [Store.find?, idle.transactions]
    rfl
  have valid : validateExpiration false (s.customTransaction refBlockNum refBlockPrefix) s = .ok ((), s) := by
    refine run_bind rfl ?_
    unfold when
    split
    · refine run_bind (run_check refers) (bind_eq_ok.mpr ⟨(), s, run_check ?_, ?_⟩)
      · exact Nat.add_le_add_left (by decide) _
      · refine run_bind (run_check (fun _ => ?_)) (run_check ?_)
        · exact Nat.lt_add_of_pos_right (by decide)
        · exact Nat.le_add_right _ _
    · rfl
  let t : Database := { s with transactions := s.transactions.insert 0 (s.head.time + 60) }
  refine ⟨t, bind_eq_ok.mpr ⟨(), t, run_bind rfl (run_bind (run_check new)
    (bind_eq_ok.mpr ⟨(), s, ?_, bind_eq_ok.mpr ⟨(), s, ?_, ?_⟩⟩)), ?_⟩⟩
  · refine run_bind (run_fromExcept rfl) (run_bind (run_check nodup_nil) ?_)
    refine run_bind rfl (run_bind (run_fromExcept rfl) valid)
  · exact run_bind (run_bind read rfl) rfl
  · exact run_bind rfl (run_bind (run_check new) rfl)
  · rfl

end Golos
