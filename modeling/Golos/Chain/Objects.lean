import Mathlib.Data.BitVec
import Golos.Lib.Store
import Golos.Protocol.Operations

/-! # The objects of the chain database

One record per object type of `golos::chain`.  An object is kept under its unique
key of the source (an account under its name, a comment under author and
permlink, ...), and the order of a store is the order of creation, which is the
order of the ids the source gives out.

The members of `account_object`, `witness_object`, `comment_object` and
`dynamic_global_property_object` are grouped by what they are for: `balances`,
`withdrawal`, `delegations` and so on.  A function that changes one group leaves
the others alone, and the frame of a whole evaluator is read off from the groups
it names (`Golos.Chain.Database`).

Members whose symbol never changes (`balance` is always GOLOS, `vesting_shares`
always GESTS) are plain amounts.
-/

namespace Golos

/-- `fc::uint128_t` -/
abbrev Uint128 := BitVec 128

/-! ## Accounts -/

/-- Liquid and savings holdings, with the data the SBD interest is computed from. -/
structure Balances where
  balance : Int := 0
  savingsBalance : Int := 0
  sbdBalance : Int := 0
  sbdSeconds : Nat := 0
  sbdSecondsLastUpdate : Time := 0
  sbdLastInterestPayment : Time := 0
  savingsSbdBalance : Int := 0
  savingsSbdSeconds : Nat := 0
  savingsSbdSecondsLastUpdate : Time := 0
  savingsSbdLastInterestPayment : Time := 0

/-- A running power-down. -/
structure Withdrawal where
  vestingWithdrawRate : Int := 0
  nextVestingWithdrawal : Time := Time.maximum
  withdrawn : Int := 0
  toWithdraw : Int := 0
  withdrawRoutes : Nat := 0

structure DelegatedShares where
  delegatedVestingShares : Int := 0
  receivedVestingShares : Int := 0

/-- Voting power, posting limits and activity counters. -/
structure Activity where
  canVote : Bool := true
  votingPower : Nat := 10000
  votingCapacity : Nat := 15
  postsCapacity : Nat := 3
  commentsCapacity : Nat := 200
  lastVoteTime : Time := 0
  commentCount : Nat := 0
  lifetimeVoteCount : Nat := 0
  postCount : Nat := 0
  lastPost : Time := 0

/-- Lifetime totals of rewards received. -/
structure RewardTotals where
  benefactionRewards : Int := 0
  curationRewards : Int := 0
  delegationRewards : Int := 0
  postingRewards : Int := 0

structure AccountInfo where
  memoKey : PublicKey := 0
  created : Time := 0
  mined : Bool := true
  ownerChallenged : Bool := false
  activeChallenged : Bool := false
  lastOwnerProved : Time := 0
  lastActiveProved : Time := 0
  lastAccountUpdate : Time := 0
  lastAccountRecovery : Time := 0
  recoveryAccount : AccountName := .blank
  savingsWithdrawRequests : Nat := 0
  referrerAccount : AccountName := .blank
  referrerInterestRate : Nat := 0
  referralEndDate : Time := 0
  referralBreakFee : Int := 0

/-- `account_object` -/
structure Account where
  balances : Balances := {}
  vestingShares : Int := 0
  proxy : AccountName := .blank
  proxiedVsfVotes : Fin 4 → Int := fun _ => 0
  witnessesVotedFor : Nat := 0
  withdrawal : Withdrawal := {}
  delegated : DelegatedShares := {}
  activity : Activity := {}
  rewards : RewardTotals := {}
  info : AccountInfo := {}

namespace Account

/-- `witness_vote_weight` -/
def witnessVoteWeight (a : Account) : Int :=
  a.vestingShares + a.proxiedVsfVotes 0 + a.proxiedVsfVotes 1 + a.proxiedVsfVotes 2 +
    a.proxiedVsfVotes 3

/-- `effective_vesting_shares` -/
def effectiveVestingShares (a : Account) : Int :=
  a.vestingShares - a.delegated.delegatedVestingShares + a.delegated.receivedVestingShares

/-- `available_vesting_shares(consider_withdrawal)` -/
def availableVestingShares (a : Account) (considerWithdrawal : Bool) : Int :=
  let have_ := a.vestingShares - a.delegated.delegatedVestingShares
  if considerWithdrawal then have_ - (a.withdrawal.toWithdraw - a.withdrawal.withdrawn) else have_

end Account

/-- `account_authority_object` -/
structure AccountAuthority where
  owner : Authority
  active : Authority
  posting : Authority
  lastOwnerUpdate : Time

/-- `owner_authority_history_object` -/
structure OwnerAuthorityHistory where
  account : AccountName
  previousOwnerAuthority : Authority
  lastValidTime : Time

/-- `account_recovery_request_object`, under the account to recover. -/
structure AccountRecoveryRequest where
  newOwnerAuthority : Authority
  expires : Time

/-- `change_recovery_account_request_object`, under the account to recover. -/
structure ChangeRecoveryAccountRequest where
  recoveryAccount : AccountName
  effectiveOn : Time

/-! ## Witnesses -/

inductive WitnessScheduleType where
  | top19 | timeshare | miner | none
  deriving DecidableEq

/-- The vote total of a witness and its place in virtual time. -/
structure WitnessVotes where
  votes : Int := 0
  virtualLastUpdate : Uint128 := 0
  virtualPosition : Uint128 := 0
  virtualScheduledTime : Uint128 := BitVec.allOnes 128

/-- What `update_signing_witness` records of the last block of a witness. -/
structure Confirmation where
  lastAslot : Nat := 0
  lastConfirmedBlockNum : Nat := 0

structure WitnessInfo where
  created : Time := 0
  totalMissed : Nat := 0
  powWorker : Nat := 0
  signingKey : PublicKey := 0
  props : ChainProperties := {}
  sbdExchangeRate : Price := .null
  lastSbdExchangeUpdate : Time := 0
  schedule : WitnessScheduleType := .none
  lastWork : Nat := 0
  runningVersion : Nat := 0
  hardforkVersionVote : Nat := 0
  hardforkTimeVote : Time := 1476788400
  transitToCyberwayVote : Time := 1476788400

/-- `witness_object`, under its owner. -/
structure Witness where
  tally : WitnessVotes := {}
  confirmation : Confirmation := {}
  info : WitnessInfo := {}

/-- `witness_schedule_object` -/
structure WitnessSchedule where
  currentVirtualTime : Uint128 := 0
  nextShuffleBlockNum : Nat := 1
  currentShuffledWitnesses : List AccountName := []
  numScheduledWitnesses : Nat := 1
  top19Weight : Nat := 1
  timeshareWeight : Nat := 5
  minerWeight : Nat := 1
  witnessPayNormalizationFactor : Nat := 25
  medianProps : ChainProperties := {}
  majorityVersion : Nat := 0

/-! ## Content -/

inductive CommentMode where
  | notSet | firstPayout | secondPayout | archived
  deriving DecidableEq

/-- Where a comment stands in its discussion; fixed when it is created. -/
structure CommentPlace where
  parentAuthor : AccountName := .blank
  parentPermlink : Permlink := ""
  depth : Nat := 0
  rootComment : CommentKey

/-- Everything of a comment that payouts, votes and edits change, besides its
share counters. -/
structure CommentPayout where
  created : Time := 0
  lastPayout : Time := 0
  absRshares : Int := 0
  voteRshares : Int := 0
  childrenAbsRshares : Int := 0
  cashoutTime : Time := 0
  maxCashoutTime : Time := 0
  rewardWeight : Nat := 0
  netVotes : Int := 0
  totalVotes : Nat := 0
  mode : CommentMode := .firstPayout
  curationRewardCurve : CurationCurve := .detect
  auctionWindowRewardDestination : AuctionWindowRewardDestination := .toAuthor
  auctionWindowSize : Nat := 1800
  maxAcceptedPayout : Int := 1000000000
  percentSteemDollars : Nat := 10000
  allowReplies : Bool := true
  allowVotes : Bool := true
  allowCurationRewards : Bool := true
  curationRewardsPercent : Nat := 2500
  beneficiaries : List BeneficiaryRoute := []

/-- `comment_object`, under author and permlink. -/
structure Comment where
  place : CommentPlace
  children : Nat := 0
  netRshares : Int := 0
  childrenRshares2 : Uint128 := 0
  payout : CommentPayout := {}

/-- `delegator_vote_interest_rate` -/
structure DelegatorVoteInterestRate where
  account : AccountName
  interestRate : Nat
  payoutStrategy : DelegatorPayoutStrategy
  deriving DecidableEq

/-- `comment_vote_object`, under comment and voter. -/
structure CommentVote where
  origRshares : Int := 0
  rshares : Int := 0
  votePercent : Int := 0
  auctionTime : Nat := 0
  lastUpdate : Time := 0
  numChanges : Int := 0
  delegatorVoteInterestRates : List DelegatorVoteInterestRate := []
  deriving DecidableEq

/-- `account_bandwidth_object` of type `post`, under its account. -/
structure PostBandwidth where
  averageBandwidth : Int := 0
  lastBandwidthUpdate : Time := 0

/-! ## Holdings outside accounts -/

/-- `limit_order_object`, under seller and order id. -/
structure LimitOrder where
  created : Time
  expiration : Time
  forSale : Int
  sellPrice : Price

/-- `amount_for_sale` -/
def LimitOrder.amountForSale (o : LimitOrder) : Asset := ⟨o.forSale, o.sellPrice.base.symbol⟩

/-- `amount_to_receive` -/
def LimitOrder.amountToReceive (o : LimitOrder) : Except Error Asset :=
  o.amountForSale.mulPrice o.sellPrice

/-- `convert_request_object`, under owner and request id. -/
structure ConvertRequest where
  amount : Asset
  conversionDate : Time

/-- `escrow_object`, under sender and escrow id. -/
structure Escrow where
  toAccount : AccountName
  agent : AccountName
  ratificationDeadline : Time
  escrowExpiration : Time
  sbdBalance : Asset
  steemBalance : Asset
  pendingFee : Asset
  toApproved : Bool := false
  agentApproved : Bool := false
  disputed : Bool := false

def Escrow.isApproved (e : Escrow) : Bool := e.toApproved && e.agentApproved

/-- `savings_withdraw_object`, under sender and request id. -/
structure SavingsWithdraw where
  toAccount : AccountName
  amount : Asset
  complete : Time

/-- `liquidity_reward_balance_object`, under its owner. -/
structure LiquidityRewardBalance where
  steemVolume : Int := 0
  sbdVolume : Int := 0
  weight : Nat := 0
  lastUpdate : Time := 0

/-- `withdraw_vesting_route_object`, under its two accounts. -/
structure WithdrawVestingRoute where
  percent : Nat
  autoVest : Bool

/-- `vesting_delegation_object`, under delegator and delegatee. -/
structure VestingDelegation where
  vestingShares : Int
  interestRate : Nat := 0
  payoutStrategy : DelegatorPayoutStrategy := .toDelegator
  minDelegationTime : Time

/-- `vesting_delegation_expiration_object`, under its id. -/
structure VestingDelegationExpiration where
  delegator : AccountName
  vestingShares : Int
  expiration : Time

/-- `feed_history_object` -/
structure FeedHistory where
  currentMedianHistory : Price := .null
  priceHistory : List Price := []

/-- `proposal_object`, under author and title. -/
structure Proposal where
  id : Nat
  expirationTime : Time
  reviewPeriodTime : Option Time
  proposedOperations : List Operation
  requiredActiveApprovals : List AccountName
  availableActiveApprovals : List AccountName := []
  requiredOwnerApprovals : List AccountName
  availableOwnerApprovals : List AccountName := []
  requiredPostingApprovals : List AccountName
  availablePostingApprovals : List AccountName := []
  availableKeyApprovals : List PublicKey := []

/-! ## Global properties -/

/-- What `update_global_dynamic_data` keeps of the head block. -/
structure HeadProperties where
  headBlockNumber : Nat := 0
  headBlockId : BlockId := .zero
  time : Time := 0
  currentWitness : AccountName := .blank
  currentAslot : Nat := 0
  recentSlotsFilled : Uint128 := 0
  participationCount : Nat := 0
  averageBlockSize : Nat := 0

structure Supply where
  currentSupply : Int := 0
  currentSbdSupply : Int := 0
  totalVestingFundSteem : Int := 0
  totalVestingShares : Int := 0
  totalRewardFundSteem : Int := 0

structure Rates where
  virtualSupply : Int := 0
  sbdInterestRate : Nat := 0
  sbdPrintRate : Nat := 10000
  isForcedMinPrice : Bool := false
  maximumBlockSize : Nat := 0
  currentReserveRatio : Nat := 1
  maxVirtualBandwidth : Nat := 0
  voteRegenerationPerDay : Nat := 40
  customOpsBandwidthMultiplier : Nat := 100

structure PowProperties where
  totalPow : Nat := 2 ^ 64 - 1
  numPowWitnesses : Nat := 0

structure TransitProperties where
  transitBlockNum : Nat := 4294967295
  transitWitnesses : List AccountName := []

/-- `hardfork_property_object` -/
structure HardforkProperties where
  processedHardforks : List Time := []
  lastHardfork : Nat := 0
  currentHardforkVersion : Nat := 0
  nextHardfork : Nat := 0
  nextHardforkTime : Time := 0

end Golos
