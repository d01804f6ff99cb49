import Golos.Chain.WitnessVotes

/-! # Inflation

The reward amounts of `compound.hpp` and `get_*_reward`, and the block steps that
issue new tokens: `process_funds` and `pay_liquidity_reward`.
-/

namespace Golos

open Stateful

/-! ## Constants of the main network -/

/-- `STEEMIT_MAX_WITNESSES` -/
def maxWitnesses : Nat := 21

/-- `STEEMIT_START_MINER_VOTING_BLOCK` -/
def startMinerVotingBlock : Nat := 200

/-- `STEEMIT_BLOCKS_PER_DAY` -/
def blocksPerDay : Nat := 28800

/-- `STEEMIT_START_VESTING_BLOCK` -/
def startVestingBlock : Nat := blocksPerDay * 49

/-- `STEEMIT_BLOCKS_PER_YEAR` -/
def blocksPerYear : Int := 10512000

/-! ## Reward amounts -/

/-- `calc_percent_reward` -/
def calcPercentReward (percent multiply shift : Nat) (currentSupply : Int) : Except Error Int :=
  toShare ((toUint128 currentSupply * (percent * multiply) + 2 ^ (shift - 1)) % 2 ^ 128 / 2 ^ shift
    % 2 ^ 64)

def calcPercentRewardPerBlock (percent : Nat) : Int → Except Error Int :=
  calcPercentReward percent 0x5ccce802de5f 87

def calcPercentRewardPerRound (percent : Nat) : Int → Except Error Int :=
  calcPercentReward percent 0x79ccf5c73480 83

def calcPercentRewardPerHour (percent : Nat) : Int → Except Error Int :=
  calcPercentReward percent 0x6cc139a15cbd 77

namespace Database

/-- `get_liquidity_reward` -/
def liquidityReward (s : Database) : Except Error Int :=
  if s.hasHardfork 12 then .ok 0
  else (calcPercentRewardPerHour 750 s.rates.virtualSupply).map (max (1000 * 1200))

/-- `get_content_reward` -/
def contentReward (s : Database) : Except Error Int :=
  if startVestingBlock < s.head.headBlockNumber then
    (calcPercentRewardPerBlock 5813 s.rates.virtualSupply).map (max 1500)
  else .ok 255

/-- `get_curation_reward` -/
def curationReward (s : Database) : Except Error Int :=
  if startVestingBlock < s.head.headBlockNumber then
    (calcPercentRewardPerBlock 1937 s.rates.virtualSupply).map (max 500)
  else .ok 85

/-- `get_producer_reward` -/
def producerReward (s : Database) : Except Error Int :=
  (calcPercentRewardPerBlock 750 s.rates.virtualSupply).map
    (max (if s.hasHardfork 16 then 666 else 1000))

/-- `get_pow_reward` -/
def powReward (s : Database) : Except Error Int :=
  if s.pow.numPowWitnesses < maxWitnesses ∧ s.head.headBlockNumber < startVestingBlock then .ok 0
  else
    (calcPercentRewardPerRound 750 s.rates.virtualSupply).map
      (max (if s.hasHardfork 16 then 666 else 1000))

end Database

/-! ## `process_funds` -/

/-- The three parts new tokens are split into, from hardfork 16 on: content, vesting
fund and the producer of the block. -/
def Database.inflation (s : Database) (schedule : WitnessScheduleType) : Int × Int × Int :=
  let rate : Int := max (1515 - (s.head.headBlockNumber / 250000 : Nat)) 95
  let newSteem := (s.rates.virtualSupply * rate).tdiv (10000 * blocksPerYear)
  let content := (newSteem * 6667).tdiv 10000
  let vesting := (newSteem * 2667).tdiv 10000
  let weight : Nat := match schedule with
    | .timeshare => s.schedule.timeshareWeight
    | .miner => s.schedule.minerWeight
    | .top19 => s.schedule.top19Weight
    | .none => 1
  let witness := ((newSteem - content - vesting) * maxWitnesses * weight).tdiv
    s.schedule.witnessPayNormalizationFactor
  (content, vesting, witness)

/-- New tokens enter the funds and the supply; `paid` is what goes to the producer. -/
def issueToFunds (vesting content paid : Int) : Eval Unit := do
  modifySupply fun p => { p with
    totalVestingFundSteem := p.totalVestingFundSteem + vesting
    totalRewardFundSteem := p.totalRewardFundSteem + content
    currentSupply := p.currentSupply + (content + paid + vesting) }
  modifyRates fun r => { r with virtualSupply := r.virtualSupply + (content + paid + vesting) }

/-- `process_funds` -/
def processFunds : Eval Unit := do
  let s ← get
  let producer := s.head.currentWitness
  let witness ← getWitness producer
  let account ← getAccount producer
  if s.hasHardfork 16 then do
    let inflation := s.inflation witness.info.schedule
    issueToFunds inflation.2.1 inflation.1 inflation.2.2
    let _ ← createVesting producer (.steem inflation.2.2)
    pure ()
  else do
    let pay ← fromExcept s.producerReward
    (if startMinerVotingBlock ≤ s.head.headBlockNumber ∨ account.vestingShares = 0 then do
      let _ ← createVesting producer (.steem pay)
      pure ()
    else modifyBalances producer fun b => { b with balance := b.balance + pay })
    let content ← fromExcept s.contentReward
    let curation ← fromExcept s.curationReward
    let content := content + curation
    let vesting := if s.head.headBlockNumber < startVestingBlock then 0 else (content + pay) * 9
    issueToFunds vesting content pay

/-! ## `pay_liquidity_reward` -/

/-- `volume_weight() > 0` -/
def LiquidityRewardBalance.hasVolume (b : LiquidityRewardBalance) : Bool :=
  0 < b.steemVolume && 0 < b.sbdVolume

/-- The first entry of `by_volume_weight`: the largest weight, the oldest account among
equals. -/
def Database.topLiquidity (s : Database) : Option (AccountName × LiquidityRewardBalance) :=
  (s.liquidity.entries.insertionSort fun a b =>
    b.2.weight < a.2.weight ∨ (a.2.weight = b.2.weight ∧
      s.accounts.keys.idxOf a.1 ≤ s.accounts.keys.idxOf b.1)).head?

/-- `pay_liquidity_reward`; `STEEMIT_LIQUIDITY_REWARD_BLOCKS` is 1200. -/
def payLiquidityReward : Eval Unit := do
  let s ← get
  let reward ← fromExcept s.liquidityReward
  when (s.head.headBlockNumber % 1200 = 0 ∧ reward ≠ 0) <|
    s.topLiquidity.elim (pure ()) fun e =>
      when e.2.hasVolume do
        adjustSupply (.steem reward) true
        adjustBalance e.1 (.steem reward)
        change (·.liquidity) updateLiquidity "liquidity_reward_balance" e.1 fun _ =>
          { steemVolume := 0, sbdVolume := 0, weight := 0, lastUpdate := s.head.time }

/-! ## Footprints -/

section Footprints

set_option synthInstance.maxSize 1000000

variable {F : Footprint}

variable [Allows (F .supply)] [Allows (F .rates)] [Allows (F .balances)] [Allows (F .vesting)]
  [Allows (F .proxied)] [Allows (F .tally)] [Allows (F .liquidity)]

deriving instance Touches F for issueToFunds, processFunds, payLiquidityReward

end Footprints

end Golos
