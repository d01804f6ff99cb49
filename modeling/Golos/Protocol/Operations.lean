import Golos.Protocol.Authority

/-! # Operations

The operations of `golos::protocol` with their `validate` methods and the
authorities they require.

Memos, titles and bodies of posts, metadata and witness urls are not part of an
operation here: nothing in the chain state depends on them.  A Lean string is valid
UTF-8, so `fc::is_utf8` always holds of the texts that are kept.  Members of a fixed
symbol in the witness properties are plain amounts of GOLOS.
-/

namespace Golos

/-! ## Checks shared by the `validate` methods -/

/-- `GOLOS_CHECK_PARAM_ACCOUNT` -/
def checkAccountParam (param : String) (name : AccountName) : Except Error Unit :=
  validThat name.isValid (.invalidParameter param "Account name $name is invalid")

/-- `validate_permlink`; `STEEMIT_MAX_PERMLINK_LENGTH` is 256. -/
def checkPermlinkParam (param : String) (permlink : Permlink) : Except Error Unit :=
  validThat (permlink.utf8ByteSize < 256) (.invalidParameter param "permlink is too long")

/-- `GOLOS_CHECK_ASSET_GE0` for one symbol -/
def checkAssetGe0 (param : String) (a : Asset) (symbol : AssetSymbol) (symbolName : String) :
    Except Error Unit := do
  validThat (a.symbol = symbol) (.invalidParameter param s!"{param} must be {symbolName}")
  validThat (0 ≤ a.amount) (.invalidParameter param s!"{param} must be >=0")

/-- `GOLOS_CHECK_ASSET_GT0` for one symbol -/
def checkAssetGt0 (param : String) (a : Asset) (symbol : AssetSymbol) (symbolName : String) :
    Except Error Unit := do
  validThat (a.symbol = symbol) (.invalidParameter param s!"{param} must be {symbolName}")
  validThat (0 < a.amount) (.invalidParameter param s!"{param} must be >0")

/-- `GOLOS_CHECK_ASSET_GOLOS_OR_GBG` -/
def checkGolosOrGbg (param : String) (a : Asset) : Except Error Unit :=
  validThat (a.symbol = steemSymbol ∨ a.symbol = sbdSymbol)
    (.invalidParameter param s!"{param} must be GOLOS or GBG")

/-- `price::validate` -/
def Price.validate (p : Price) : Except Error Unit := do
  validThat (0 < p.base.amount) (.invalidValue "Amount of base must be positive")
  validThat (0 < p.quote.amount) (.invalidValue "Amount of quote must be positive")
  validThat (symbolName p.base.symbol ≠ symbolName p.quote.symbol)
    (.invalidValue "Symbols of base and quote must be different")

/-! ## Witness properties -/

inductive CurationCurve where
  | detect | bounded | linear | squareRoot
  deriving DecidableEq

/-- `chain_properties_17` -/
structure ChainProperties17 where
  accountCreationFee : Int := 1
  maximumBlockSize : Nat := 131072
  sbdInterestRate : Nat := 1000

/-- `chain_properties_18` -/
structure ChainProperties18 extends ChainProperties17 where
  createAccountMinGolosFee : Int := 30
  createAccountMinDelegation : Int := 150
  createAccountDelegationTime : Nat := 2592000
  minDelegation : Int := 10

/-- `chain_properties_19` -/
structure ChainProperties extends ChainProperties18 where
  maxReferralInterestRate : Nat := 1000
  maxReferralTermSec : Nat := 15552000
  minReferralBreakFee : Int := 1
  maxReferralBreakFee : Int := 100000
  postsWindow : Nat := 3
  postsPerWindow : Nat := 1
  commentsWindow : Nat := 200
  commentsPerWindow : Nat := 10
  votesWindow : Nat := 15
  votesPerWindow : Nat := 5
  auctionWindowSize : Nat := 1800
  maxDelegatedVestingInterestRate : Nat := 2500
  customOpsBandwidthMultiplier : Nat := 100
  minCurationPercent : Nat := 2500
  maxCurationPercent : Nat := 2500
  curationRewardCurve : CurationCurve := .linear
  allowReturnAuctionRewardToFund : Bool := true
  allowDistributeAuctionReward : Bool := true

/-- `versioned_chain_properties` -/
inductive VersionedChainProperties where
  | v17 (props : ChainProperties17)
  | v18 (props : ChainProperties18)
  | v19 (props : ChainProperties)

/-- `STEEMIT_MIN_BLOCK_SIZE_LIMIT` -/
def minBlockSizeLimit : Nat := 65536

def ChainProperties17.validate (p : ChainProperties17) : Except Error Unit := do
  validThat (1 ≤ p.accountCreationFee)
    (.invalidValue "account_creation_fee must be >=STEEMIT_MIN_ACCOUNT_CREATION_FEE")
  validThat (minBlockSizeLimit ≤ p.maximumBlockSize)
    (.invalidValue "maximum_block_size must be >=STEEMIT_MIN_BLOCK_SIZE_LIMIT")
  validThat (p.sbdInterestRate ≤ 10000)
    (.invalidValue "sbd_interest_rate must be between 0 and STEEMIT_100_PERCENT")

def ChainProperties18.validate (p : ChainProperties18) : Except Error Unit := do
  p.toChainProperties17.validate
  validThat (0 < p.createAccountMinGolosFee) (.invalidValue "create_account_min_golos_fee must be >0")
  validThat (0 < p.createAccountMinDelegation) (.invalidValue "create_account_min_delegation must be >0")
  validThat (0 < p.minDelegation) (.invalidValue "min_delegation must be >0")
  validThat (2592000 / 2 < p.createAccountDelegationTime)
    (.invalidValue "create_account_delegation_time must be >(GOLOS_CREATE_ACCOUNT_DELEGATION_TIME).to_seconds() / 2")

def ChainProperties.validate (p : ChainProperties) : Except Error Unit := do
  p.toChainProperties18.validate
  validThat (p.maxReferralInterestRate ≤ 10000)
    (.invalidValue "max_referral_interest_rate must be <=GOLOS_MAX_REFERRAL_INTEREST_RATE")
  validThat (p.maxReferralTermSec ≤ 31104000)
    (.invalidValue "max_referral_term_sec must be <=GOLOS_MAX_REFERRAL_TERM_SEC")
  validThat (0 ≤ p.minReferralBreakFee)
    (.invalidParameter "min_referral_break_fee" "Break free must be more or equal 0 GOLOS ")
  validThat (p.minReferralBreakFee ≤ p.maxReferralBreakFee)
    (.invalidParameter "max_referral_break_fee" "Maximum break free cann't be more than minimum break free")
  validThat (p.maxReferralBreakFee ≤ 100000)
    (.invalidParameter "max_referral_break_fee" "Maximum break free cann't be more than $max")
  validThat (1 ≤ p.postsWindow ∧ p.postsWindow ≤ 32767) (.invalidValue "posts_window")
  validThat (1 ≤ p.postsPerWindow ∧ p.postsPerWindow ≤ p.postsWindow) (.invalidValue "posts_per_window")
  validThat (1 ≤ p.commentsWindow ∧ p.commentsWindow ≤ 32767) (.invalidValue "comments_window")
  validThat (1 ≤ p.commentsPerWindow ∧ p.commentsPerWindow ≤ p.commentsWindow)
    (.invalidValue "comments_per_window")
  validThat (1 ≤ p.votesWindow ∧ p.votesWindow ≤ 32767) (.invalidValue "votes_window")
  validThat (1 ≤ p.votesPerWindow ∧ p.votesPerWindow ≤ p.votesWindow) (.invalidValue "votes_per_window")
  validThat (p.maxDelegatedVestingInterestRate ≤ 8000)
    (.invalidValue "max_delegated_vesting_interest_rate must be <=STEEMIT_MAX_DELEGATED_VESTING_INTEREST_RATE")
  validThat (1 ≤ p.customOpsBandwidthMultiplier)
    (.invalidValue "custom_ops_bandwidth_multiplier must be >=1")
  validThat (2500 ≤ p.minCurationPercent ∧ p.minCurationPercent ≤ p.maxCurationPercent)
    (.invalidValue "min_curation_percent")
  validThat (p.minCurationPercent ≤ p.maxCurationPercent ∧ p.maxCurationPercent ≤ 10000)
    (.invalidValue "max_curation_percent")
  validThat (p.curationRewardCurve ≠ .detect)
    (.invalidParameter "curation_reward_curve" "Curation curve should bounded or liner, or square_root")
  validThat (p.allowReturnAuctionRewardToFund ∨ p.allowDistributeAuctionReward)
    (.invalidParameter "allow_return_auction_reward_to_fund"
      "One or both options should be enabled: allow_return_auction_reward_to_fund and allow_distribute_auction_reward")

def VersionedChainProperties.validate : VersionedChainProperties → Except Error Unit
  | .v17 props => props.validate
  | .v18 props => props.validate
  | .v19 props => props.validate

/-! ## Accounts -/

structure AccountCreateOperation where
  fee : Asset
  creator : AccountName
  newAccountName : AccountName
  owner : Authority
  active : Authority
  posting : Authority
  memoKey : PublicKey

def AccountCreateOperation.validate (o : AccountCreateOperation) : Except Error Unit := do
  checkAccountParam "new_account_name" o.newAccountName
  o.owner.validate
  o.active.validate
  validThat (o.fee.symbol = steemSymbol) (.invalidParameter "fee" "Account creation fee must be GOLOS")
  validThat (0 ≤ o.fee.amount) (.invalidParameter "fee" "Account creation fee cannot be negative")

structure AccountReferralOptions where
  referrer : AccountName
  interestRate : Nat
  endDate : Time
  breakFee : Asset

def AccountReferralOptions.validate (o : AccountReferralOptions) : Except Error Unit := do
  validThat o.referrer.isValid (.invalidValue "Account name $name is invalid")
  validThat (o.breakFee.symbol = steemSymbol)
    (.invalidParameter "break_fee" "Break fee in GOLOS only is allowed.")
  validThat (0 ≤ o.breakFee.amount)
    (.invalidParameter "break_fee" "Negative break fee is not allowed.")

structure AccountCreateWithDelegationOperation where
  fee : Asset
  delegation : Asset
  creator : AccountName
  newAccountName : AccountName
  owner : Authority
  active : Authority
  posting : Authority
  memoKey : PublicKey
  extensions : List AccountReferralOptions

def AccountCreateWithDelegationOperation.validate (o : AccountCreateWithDelegationOperation) :
    Except Error Unit := do
  checkAccountParam "new_account_name" o.newAccountName
  checkAccountParam "creator" o.creator
  checkAssetGe0 "fee" o.fee steemSymbol "GOLOS"
  checkAssetGe0 "delegation" o.delegation vestsSymbol "GESTS"
  o.owner.validate
  o.active.validate
  o.posting.validate
  o.extensions.forM fun e => e.validate

structure AccountUpdateOperation where
  account : AccountName
  owner : Option Authority
  active : Option Authority
  posting : Option Authority
  memoKey : PublicKey

structure ChallengeAuthorityOperation where
  challenger : AccountName
  challenged : AccountName
  requireOwner : Bool

def ChallengeAuthorityOperation.validate (o : ChallengeAuthorityOperation) : Except Error Unit := do
  checkAccountParam "challenger" o.challenger
  checkAccountParam "challenged" o.challenged
  validThat (o.challenged ≠ o.challenger) (.logic "cannot challenge yourself")

structure ProveAuthorityOperation where
  challenged : AccountName
  requireOwner : Bool

structure RequestAccountRecoveryOperation where
  recoveryAccount : AccountName
  accountToRecover : AccountName
  newOwnerAuthority : Authority

def RequestAccountRecoveryOperation.validate (o : RequestAccountRecoveryOperation) :
    Except Error Unit := do
  checkAccountParam "recovery_account" o.recoveryAccount
  checkAccountParam "account_to_recover" o.accountToRecover
  o.newOwnerAuthority.validate

structure RecoverAccountOperation where
  accountToRecover : AccountName
  newOwnerAuthority : Authority
  recentOwnerAuthority : Authority

def RecoverAccountOperation.validate (o : RecoverAccountOperation) : Except Error Unit := do
  checkAccountParam "account_to_recover" o.accountToRecover
  validThat (o.newOwnerAuthority ≠ o.recentOwnerAuthority)
    (.logic "Cannot set new owner authority to the recent owner authority")
  validThat (!o.newOwnerAuthority.isImpossible)
    (.invalidParameter "new_owner_authority" "new owner authority cannot be impossible")
  validThat (o.newOwnerAuthority.weightThreshold ≠ 0)
    (.invalidParameter "new_owner_authority" "new owner authority cannot be trivial")
  o.newOwnerAuthority.validate
  validThat (!o.recentOwnerAuthority.isImpossible)
    (.invalidParameter "recent_owner_authority" "recent owner authority cannot be impossible")
  o.recentOwnerAuthority.validate

structure ChangeRecoveryAccountOperation where
  accountToRecover : AccountName
  newRecoveryAccount : AccountName

def ChangeRecoveryAccountOperation.validate (o : ChangeRecoveryAccountOperation) :
    Except Error Unit := do
  checkAccountParam "account_to_recover" o.accountToRecover
  checkAccountParam "new_recovery_account" o.newRecoveryAccount

structure DeclineVotingRightsOperation where
  account : AccountName
  decline : Bool

/-! ## Transfers, savings and escrow -/

structure TransferOperation where
  fromAccount : AccountName
  toAccount : AccountName
  amount : Asset

def TransferOperation.validate (o : TransferOperation) : Except Error Unit := do
  checkAccountParam "from" o.fromAccount
  checkAccountParam "to" o.toAccount
  validThat (o.amount.symbol ≠ vestsSymbol)
    (.invalidParameter "amount" "transferring of Golos Power (GESTS) is not allowed.")
  validThat (0 < o.amount.amount)
    (.invalidParameter "amount" "Cannot transfer a negative amount (aka: stealing)")

structure TransferToVestingOperation where
  fromAccount : AccountName
  /-- Blank for the sender itself. -/
  toAccount : AccountName
  amount : Asset

def TransferToVestingOperation.validate (o : TransferToVestingOperation) : Except Error Unit := do
  checkAccountParam "from" o.fromAccount
  validThat (o.amount.symbol = steemSymbol) (.invalidParameter "amount" "Amount must be GOLOS")
  validThat (0 < o.amount.amount) (.invalidParameter "amount" "Must transfer a nonzero amount")
  validThat (o.toAccount = .blank ∨ o.toAccount.isValid)
    (.invalidParameter "to" "Account name $name is invalid")

structure TransferToSavingsOperation where
  fromAccount : AccountName
  toAccount : AccountName
  amount : Asset

def TransferToSavingsOperation.validate (o : TransferToSavingsOperation) : Except Error Unit := do
  checkAccountParam "from" o.fromAccount
  checkAccountParam "to" o.toAccount
  checkGolosOrGbg "amount" o.amount
  validThat (0 < o.amount.amount) (.invalidParameter "amount" "amount must be >0")

structure TransferFromSavingsOperation where
  fromAccount : AccountName
  requestId : Nat
  toAccount : AccountName
  amount : Asset

def TransferFromSavingsOperation.validate (o : TransferFromSavingsOperation) : Except Error Unit := do
  checkAccountParam "from" o.fromAccount
  checkAccountParam "to" o.toAccount
  checkGolosOrGbg "amount" o.amount
  validThat (0 < o.amount.amount) (.invalidParameter "amount" "amount must be >0")

structure CancelTransferFromSavingsOperation where
  fromAccount : AccountName
  requestId : Nat

structure EscrowTransferOperation where
  fromAccount : AccountName
  toAccount : AccountName
  agent : AccountName
  escrowId : Nat
  sbdAmount : Asset
  steemAmount : Asset
  fee : Asset
  ratificationDeadline : Time
  escrowExpiration : Time

def EscrowTransferOperation.validate (o : EscrowTransferOperation) : Except Error Unit := do
  checkAccountParam "from" o.fromAccount
  checkAccountParam "to" o.toAccount
  checkAccountParam "agent" o.agent
  checkGolosOrGbg "fee" o.fee
  validThat (0 ≤ o.fee.amount) (.invalidParameter "fee" "fee must be >=0")
  checkAssetGe0 "sbd_amount" o.sbdAmount sbdSymbol "GBG"
  checkAssetGe0 "steem_amount" o.steemAmount steemSymbol "GOLOS"
  validThat (0 < o.sbdAmount.amount ∨ 0 < o.steemAmount.amount)
    (.logic "escrow must release a non-zero amount")
  validThat (o.fromAccount ≠ o.agent ∧ o.toAccount ≠ o.agent)
    (.invalidParameter "agent" "agent must be a third party")
  validThat (o.ratificationDeadline < o.escrowExpiration)
    (.logic "ratification deadline must be before escrow expiration")

structure EscrowApproveOperation where
  fromAccount : AccountName
  toAccount : AccountName
  agent : AccountName
  who : AccountName
  escrowId : Nat
  approve : Bool

def EscrowApproveOperation.validate (o : EscrowApproveOperation) : Except Error Unit := do
  checkAccountParam "from" o.fromAccount
  checkAccountParam "to" o.toAccount
  checkAccountParam "agent" o.agent
  checkAccountParam "who" o.who
  validThat (o.who = o.toAccount ∨ o.who = o.agent)
    (.invalidParameter "who" "to or agent must approve escrow")

structure EscrowDisputeOperation where
  fromAccount : AccountName
  toAccount : AccountName
  agent : AccountName
  who : AccountName
  escrowId : Nat

def EscrowDisputeOperation.validate (o : EscrowDisputeOperation) : Except Error Unit := do
  checkAccountParam "from" o.fromAccount
  checkAccountParam "to" o.toAccount
  checkAccountParam "agent" o.agent
  checkAccountParam "who" o.who
  validThat (o.who = o.fromAccount ∨ o.who = o.toAccount)
    (.invalidParameter "who" "who must be from or to")

structure EscrowReleaseOperation where
  fromAccount : AccountName
  toAccount : AccountName
  agent : AccountName
  who : AccountName
  receiver : AccountName
  escrowId : Nat
  sbdAmount : Asset
  steemAmount : Asset

def EscrowReleaseOperation.validate (o : EscrowReleaseOperation) : Except Error Unit := do
  checkAccountParam "from" o.fromAccount
  checkAccountParam "to" o.toAccount
  checkAccountParam "agent" o.agent
  checkAccountParam "who" o.who
  checkAccountParam "receiver" o.receiver
  validThat (o.who = o.fromAccount ∨ o.who = o.toAccount ∨ o.who = o.agent)
    (.invalidParameter "who" "who must be from or to or agent")
  validThat (o.receiver = o.fromAccount ∨ o.receiver = o.toAccount)
    (.invalidParameter "receiver" "receiver must be from or to")
  checkAssetGe0 "sbd_amount" o.sbdAmount sbdSymbol "GBG"
  checkAssetGe0 "steem_amount" o.steemAmount steemSymbol "GOLOS"
  validThat (0 < o.sbdAmount.amount ∨ 0 < o.steemAmount.amount)
    (.logic "escrow must release a non-zero amount")

/-! ## Vesting and delegation -/

structure WithdrawVestingOperation where
  account : AccountName
  vestingShares : Asset

def WithdrawVestingOperation.validate (o : WithdrawVestingOperation) : Except Error Unit := do
  checkAccountParam "account" o.account
  validThat (o.vestingShares.symbol = vestsSymbol)
    (.invalidParameter "vesting_shares" "Amount must be GESTS")
  validThat (0 ≤ o.vestingShares.amount)
    (.invalidParameter "vesting_shares" "Cannot withdraw negative GESTS")

structure SetWithdrawVestingRouteOperation where
  fromAccount : AccountName
  toAccount : AccountName
  percent : Nat
  autoVest : Bool

def SetWithdrawVestingRouteOperation.validate (o : SetWithdrawVestingRouteOperation) :
    Except Error Unit := do
  checkAccountParam "from_account" o.fromAccount
  checkAccountParam "to_account" o.toAccount
  validThat (o.percent ≤ 10000)
    (.invalidParameter "percent" "percent must be between 0 and STEEMIT_100_PERCENT")

inductive DelegatorPayoutStrategy where
  | toDelegator | toDelegatedVesting
  deriving DecidableEq

structure DelegateVestingSharesOperation where
  delegator : AccountName
  delegatee : AccountName
  vestingShares : Asset

def DelegateVestingSharesOperation.validate (o : DelegateVestingSharesOperation) :
    Except Error Unit := do
  checkAccountParam "delegator" o.delegator
  checkAccountParam "delegatee" o.delegatee
  validThat (o.delegator ≠ o.delegatee) (.logic "You cannot delegate GESTS to yourself")
  checkAssetGe0 "vesting_shares" o.vestingShares vestsSymbol "GESTS"

structure DelegateVestingSharesWithInterestOperation extends DelegateVestingSharesOperation where
  interestRate : Nat
  payoutStrategy : DelegatorPayoutStrategy

structure RejectVestingSharesDelegationOperation where
  delegator : AccountName
  delegatee : AccountName

def RejectVestingSharesDelegationOperation.validate (o : RejectVestingSharesDelegationOperation) :
    Except Error Unit := do
  checkAccountParam "delegator" o.delegator
  checkAccountParam "delegatee" o.delegatee

/-! ## Witnesses -/

structure WitnessUpdateOperation where
  owner : AccountName
  blockSigningKey : PublicKey
  props : ChainProperties17
  fee : Asset

def WitnessUpdateOperation.validate (o : WitnessUpdateOperation) : Except Error Unit := do
  checkAccountParam "owner" o.owner
  checkAssetGe0 "fee" o.fee steemSymbol "GOLOS"
  o.props.validate

structure ChainPropertiesUpdateOperation where
  owner : AccountName
  props : VersionedChainProperties

def ChainPropertiesUpdateOperation.validate (o : ChainPropertiesUpdateOperation) :
    Except Error Unit := do
  checkAccountParam "owner" o.owner
  o.props.validate

structure TransitToCyberwayOperation where
  owner : AccountName
  voteToTransit : Bool

structure AccountWitnessVoteOperation where
  account : AccountName
  witness : AccountName
  approve : Bool

def AccountWitnessVoteOperation.validate (o : AccountWitnessVoteOperation) : Except Error Unit := do
  checkAccountParam "account" o.account
  checkAccountParam "witness" o.witness

structure AccountWitnessProxyOperation where
  account : AccountName
  proxy : AccountName

def AccountWitnessProxyOperation.validate (o : AccountWitnessProxyOperation) : Except Error Unit := do
  checkAccountParam "account" o.account
  validThat (o.proxy = .blank ∨ o.proxy.isValid)
    (.invalidParameter "proxy" "Account name $name is invalid")
  validThat (o.proxy = .blank ∨ o.proxy ≠ o.account)
    (.invalidParameter "proxy" "Cannot proxy to self")

structure FeedPublishOperation where
  publisher : AccountName
  exchangeRate : Price

/-- The two symbols of a price are GOLOS and GBG, in some order. -/
def isGolosGbgMarket (base quote : AssetSymbol) : Bool :=
  (base = steemSymbol && quote = sbdSymbol) || (base = sbdSymbol && quote = steemSymbol)

def FeedPublishOperation.validate (o : FeedPublishOperation) : Except Error Unit := do
  checkAccountParam "publisher" o.publisher
  validThat (isGolosGbgMarket o.exchangeRate.base.symbol o.exchangeRate.quote.symbol)
    (.logic "Price feed must be a GOLOS/GBG price")
  o.exchangeRate.validate

/-- A block id carries the block's number in its first word. -/
structure BlockId where
  num : Nat
  digest : Nat
  deriving DecidableEq, Repr

/-- `block_id_type()` -/
def BlockId.zero : BlockId := ⟨0, 0⟩

/-- `pow_operation`.  `workIsValid` is the outcome of the hash and signature checks of
`work_input() == work.input` and `pow::validate`. -/
structure PowOperation where
  workerAccount : AccountName
  blockId : BlockId
  worker : PublicKey
  work : Nat
  workIsValid : Bool
  props : ChainProperties17

def PowOperation.validate (o : PowOperation) : Except Error Unit := do
  o.props.validate
  checkAccountParam "worker_account" o.workerAccount
  validThat o.workIsValid (.invalidParameter "work" "Invalid work result")

/-- `pow2_work`: which of the two variants an operation carries. -/
inductive Pow2Kind where
  | pow2 | equihash
  deriving DecidableEq

/-- `pow2_operation`.  `workIsValid` is the outcome of recomputing the proof. -/
structure Pow2Operation where
  kind : Pow2Kind
  workerAccount : AccountName
  inputPrevBlock : BlockId
  prevBlock : BlockId
  powSummary : Nat
  workIsValid : Bool
  newOwnerKey : Option PublicKey
  props : ChainProperties17

def Pow2Operation.validate (o : Pow2Operation) : Except Error Unit := do
  o.props.validate
  checkAccountParam "worker_account" o.workerAccount
  validThat o.workIsValid (.invalidParameter "pow_summary" "reported work does not match calculated work")

/-! ## Content -/

structure CommentOperation where
  parentAuthor : AccountName
  parentPermlink : Permlink
  author : AccountName
  permlink : Permlink

def CommentOperation.validate (o : CommentOperation) : Except Error Unit := do
  validThat (o.parentAuthor = .blank ∨ o.parentAuthor.isValid)
    (.invalidParameter "parent_author" "Account name $name is invalid")
  checkAccountParam "author" o.author
  checkPermlinkParam "parent_permlink" o.parentPermlink
  checkPermlinkParam "permlink" o.permlink

structure BeneficiaryRoute where
  account : AccountName
  weight : Nat

inductive AuctionWindowRewardDestination where
  | toRewardFund | toCurators | toAuthor
  deriving DecidableEq

/-- `comment_options_extension` -/
inductive CommentOptionsExtension where
  | payoutBeneficiaries (beneficiaries : List BeneficiaryRoute)
  | auctionWindowRewardDestination (destination : AuctionWindowRewardDestination)
  | curationRewardsPercent (percent : Nat)

def CommentOptionsExtension.validate : CommentOptionsExtension → Except Error Unit
  | .payoutBeneficiaries beneficiaries => do
    validThat (beneficiaries ≠ [] ∧ beneficiaries.length < 128)
      (.invalidParameter "beneficiaries" "Cannot specify more than 127 beneficiaries.")
    validThat (∀ b ∈ beneficiaries, b.account.isValid ∧ b.weight ≤ 10000)
      (.invalidParameter "beneficiaries" "Cannot allocate more than 100% of rewards to one account")
    validThat ((beneficiaries.map (·.weight)).sum ≤ 10000)
      (.invalidParameter "beneficiaries" "Cannot allocate more than 100% of rewards to a comment")
    validThat ((beneficiaries.map (·.account.packed)).IsChain (· < ·))
      (.invalidParameter "beneficiaries"
        "Benficiaries $first and $second not in sorted order (account ascending)")
  | .auctionWindowRewardDestination destination =>
    validThat (destination ≠ .toAuthor)
      (.invalidParameter "destination" "Auction window reward must go either to reward_fund or to curators")
  | .curationRewardsPercent percent =>
    validThat (2500 ≤ percent ∧ percent ≤ 10000)
      (.invalidParameter "percent" "Curation rewards percent must be between $min and $max.")

structure CommentOptionsOperation where
  author : AccountName
  permlink : Permlink
  maxAcceptedPayout : Asset
  percentSteemDollars : Nat
  allowVotes : Bool
  allowCurationRewards : Bool
  extensions : List CommentOptionsExtension

def CommentOptionsOperation.validate (o : CommentOptionsOperation) : Except Error Unit := do
  checkAccountParam "author" o.author
  validThat (o.percentSteemDollars ≤ 10000)
    (.invalidParameter "percent_steem_dollars" "percent_steem_dollars must be <=STEEMIT_100_PERCENT")
  checkAssetGe0 "max_accepted_payout" o.maxAcceptedPayout sbdSymbol "GBG"
  checkPermlinkParam "permlink" o.permlink
  o.extensions.forM fun e => e.validate

structure DeleteCommentOperation where
  author : AccountName
  permlink : Permlink

def DeleteCommentOperation.validate (o : DeleteCommentOperation) : Except Error Unit := do
  checkAccountParam "author" o.author
  checkPermlinkParam "permlink" o.permlink

structure VoteOperation where
  voter : AccountName
  author : AccountName
  permlink : Permlink
  weight : Int

def VoteOperation.validate (o : VoteOperation) : Except Error Unit := do
  checkAccountParam "voter" o.voter
  checkAccountParam "author" o.author
  validThat (o.weight.natAbs ≤ 10000) (.invalidParameter "weight" "Weight is not a STEEMIT percentage")
  checkPermlinkParam "permlink" o.permlink

/-! ## Market -/

structure ConvertOperation where
  owner : AccountName
  requestId : Nat
  amount : Asset

def ConvertOperation.validate (o : ConvertOperation) : Except Error Unit := do
  checkAccountParam "owner" o.owner
  checkAssetGt0 "amount" o.amount sbdSymbol "GBG"

structure LimitOrderCreateOperation where
  owner : AccountName
  orderId : Nat
  amountToSell : Asset
  minToReceive : Asset
  fillOrKill : Bool
  expiration : Time

def LimitOrderCreateOperation.validate (o : LimitOrderCreateOperation) : Except Error Unit := do
  checkAccountParam "owner" o.owner
  validThat (isGolosGbgMarket o.amountToSell.symbol o.minToReceive.symbol)
    (.logic "Limit order must be for the GOLOS:GBG market")
  Price.validate ⟨o.amountToSell, o.minToReceive⟩

structure LimitOrderCreate2Operation where
  owner : AccountName
  orderId : Nat
  amountToSell : Asset
  fillOrKill : Bool
  exchangeRate : Price
  expiration : Time

def LimitOrderCreate2Operation.validate (o : LimitOrderCreate2Operation) : Except Error Unit := do
  checkAccountParam "owner" o.owner
  o.exchangeRate.validate
  validThat (isGolosGbgMarket o.amountToSell.symbol o.exchangeRate.quote.symbol)
    (.logic "Limit order must be for the GOLOS:GBG market")
  validThat (o.amountToSell.symbol = o.exchangeRate.base.symbol)
    (.invalidParameter "amount_to_sell" "Sell asset must be the base of the price")
  let receive ← o.amountToSell.mulPrice o.exchangeRate
  validThat (0 < receive.amount)
    (.invalidParameter "amount_to_sell" "Amount to sell cannot round to 0 when traded")

structure LimitOrderCancelOperation where
  owner : AccountName
  orderId : Nat

/-! ## Proposals -/

structure ProposalUpdateOperation where
  author : AccountName
  title : String
  activeApprovalsToAdd : List AccountName
  activeApprovalsToRemove : List AccountName
  ownerApprovalsToAdd : List AccountName
  ownerApprovalsToRemove : List AccountName
  postingApprovalsToAdd : List AccountName
  postingApprovalsToRemove : List AccountName
  keyApprovalsToAdd : List PublicKey
  keyApprovalsToRemove : List PublicKey

/-- A proposal's title: not empty and at most `GOLOS_PROPOSAL_MAX_TITLE_SIZE` long. -/
def checkTitleParam (title : String) : Except Error Unit := do
  validThat (title ≠ "") (.invalidParameter "title" "title cannot be empty")
  validThat (title.utf8ByteSize ≤ 256) (.invalidParameter "title" "title is too long")

def ProposalUpdateOperation.validate (o : ProposalUpdateOperation) : Except Error Unit := do
  checkAccountParam "author" o.author
  checkTitleParam o.title
  validThat (o.ownerApprovalsToAdd ++ o.ownerApprovalsToRemove ++ o.activeApprovalsToAdd ++
      o.activeApprovalsToRemove ++ o.postingApprovalsToAdd ++ o.postingApprovalsToRemove ≠ [] ∨
      o.keyApprovalsToAdd ++ o.keyApprovalsToRemove ≠ [])
    (.logic "At least one approval add or approval remove must exist")
  validThat ((∀ a ∈ o.ownerApprovalsToAdd, a ∉ o.ownerApprovalsToRemove) ∧
      (∀ a ∈ o.activeApprovalsToAdd, a ∉ o.activeApprovalsToRemove) ∧
      (∀ a ∈ o.postingApprovalsToAdd, a ∉ o.postingApprovalsToRemove) ∧
      ∀ a ∈ o.keyApprovalsToAdd, a ∉ o.keyApprovalsToRemove)
    (.logic "Cannot add and remove approval at the same time")

structure ProposalDeleteOperation where
  author : AccountName
  title : String
  requester : AccountName

def ProposalDeleteOperation.validate (o : ProposalDeleteOperation) : Except Error Unit := do
  checkAccountParam "requester" o.requester
  checkAccountParam "author" o.author
  checkTitleParam o.title

/-! ## All operations -/

/-- The operations a transaction may carry, without the virtual ones.  A custom
operation is here by the accounts it needs; its plugin works on objects of its own. -/
inductive Operation where
  | accountCreate (o : AccountCreateOperation)
  | accountCreateWithDelegation (o : AccountCreateWithDelegationOperation)
  | accountUpdate (o : AccountUpdateOperation)
  | accountMetadata (account : AccountName)
  | challengeAuthority (o : ChallengeAuthorityOperation)
  | proveAuthority (o : ProveAuthorityOperation)
  | requestAccountRecovery (o : RequestAccountRecoveryOperation)
  | recoverAccount (o : RecoverAccountOperation)
  | changeRecoveryAccount (o : ChangeRecoveryAccountOperation)
  | resetAccount (account : AccountName)
  | setResetAccount (account currentResetAccount : AccountName)
  | declineVotingRights (o : DeclineVotingRightsOperation)
  | transfer (o : TransferOperation)
  | transferToVesting (o : TransferToVestingOperation)
  | transferToSavings (o : TransferToSavingsOperation)
  | transferFromSavings (o : TransferFromSavingsOperation)
  | cancelTransferFromSavings (o : CancelTransferFromSavingsOperation)
  | escrowTransfer (o : EscrowTransferOperation)
  | escrowApprove (o : EscrowApproveOperation)
  | escrowDispute (o : EscrowDisputeOperation)
  | escrowRelease (o : EscrowReleaseOperation)
  | withdrawVesting (o : WithdrawVestingOperation)
  | setWithdrawVestingRoute (o : SetWithdrawVestingRouteOperation)
  | delegateVestingShares (o : DelegateVestingSharesOperation)
  | delegateVestingSharesWithInterest (o : DelegateVestingSharesWithInterestOperation)
  | rejectVestingSharesDelegation (o : RejectVestingSharesDelegationOperation)
  | breakFreeReferral (referral : AccountName)
  | witnessUpdate (o : WitnessUpdateOperation)
  | chainPropertiesUpdate (o : ChainPropertiesUpdateOperation)
  | transitToCyberway (o : TransitToCyberwayOperation)
  | accountWitnessVote (o : AccountWitnessVoteOperation)
  | accountWitnessProxy (o : AccountWitnessProxyOperation)
  | feedPublish (o : FeedPublishOperation)
  | pow (o : PowOperation)
  | pow2 (o : Pow2Operation)
  | reportOverProduction (reporter : AccountName)
  | comment (o : CommentOperation)
  | commentOptions (o : CommentOptionsOperation)
  | deleteComment (o : DeleteCommentOperation)
  | vote (o : VoteOperation)
  | convert (o : ConvertOperation)
  | limitOrderCreate (o : LimitOrderCreateOperation)
  | limitOrderCreate2 (o : LimitOrderCreate2Operation)
  | limitOrderCancel (o : LimitOrderCancelOperation)
  | custom (required : RequiredAuthorities)
  | proposalCreate (author : AccountName) (title : String) (proposedOperations : List Operation)
      (expirationTime : Time) (reviewPeriodTime : Option Time)
  | proposalUpdate (o : ProposalUpdateOperation)
  | proposalDelete (o : ProposalDeleteOperation)

mutual

/-- `operation_validate` -/
def Operation.validate : Operation → Except Error Unit
  | .accountCreate o => o.validate
  | .accountCreateWithDelegation o => o.validate
  | .accountUpdate o => checkAccountParam "account" o.account
  | .accountMetadata account => checkAccountParam "account" account
  | .challengeAuthority o => o.validate
  | .proveAuthority o => checkAccountParam "challenged" o.challenged
  | .requestAccountRecovery o => o.validate
  | .recoverAccount o => o.validate
  | .changeRecoveryAccount o => o.validate
  | .resetAccount account => checkAccountParam "reset_account" account
  | .setResetAccount account _ => checkAccountParam "account" account
  | .declineVotingRights o => checkAccountParam "account" o.account
  | .transfer o => o.validate
  | .transferToVesting o => o.validate
  | .transferToSavings o => o.validate
  | .transferFromSavings o => o.validate
  | .cancelTransferFromSavings o => checkAccountParam "from" o.fromAccount
  | .escrowTransfer o => o.validate
  | .escrowApprove o => o.validate
  | .escrowDispute o => o.validate
  | .escrowRelease o => o.validate
  | .withdrawVesting o => o.validate
  | .setWithdrawVestingRoute o => o.validate
  | .delegateVestingShares o => o.validate
  | .delegateVestingSharesWithInterest o => o.toDelegateVestingSharesOperation.validate
  | .rejectVestingSharesDelegation o => o.validate
  | .breakFreeReferral referral => checkAccountParam "referral" referral
  | .witnessUpdate o => o.validate
  | .chainPropertiesUpdate o => o.validate
  | .transitToCyberway o => checkAccountParam "owner" o.owner
  | .accountWitnessVote o => o.validate
  | .accountWitnessProxy o => o.validate
  | .feedPublish o => o.validate
  | .pow o => o.validate
  | .pow2 o => o.validate
  | .reportOverProduction reporter => checkAccountParam "reporter" reporter
  | .comment o => o.validate
  | .commentOptions o => o.validate
  | .deleteComment o => o.validate
  | .vote o => o.validate
  | .convert o => o.validate
  | .limitOrderCreate o => o.validate
  | .limitOrderCreate2 o => o.validate
  | .limitOrderCancel o => checkAccountParam "owner" o.owner
  | .custom required =>
    validThat (required.active ++ required.owner ++ required.posting ≠ [])
      (.invalidParameter "required_auths" "at least one account must be specified")
  | .proposalCreate author title proposedOperations _ _ => do
    checkAccountParam "author" author
    checkTitleParam title
    validThat (!proposedOperations.isEmpty)
      (.invalidParameter "proposed_operations" "proposed_operations can't be empty")
    Operation.validateAll proposedOperations
  | .proposalUpdate o => o.validate
  | .proposalDelete o => o.validate

def Operation.validateAll : List Operation → Except Error Unit
  | [] => .ok ()
  | op :: rest => do
    op.validate
    Operation.validateAll rest

end

/-- `get_required_authorities` of one operation -/
def Operation.required : Operation → RequiredAuthorities
  | .accountCreate o => { active := [o.creator] }
  | .accountCreateWithDelegation o => { active := [o.creator] }
  | .accountUpdate o => if o.owner.isSome then { owner := [o.account] } else { active := [o.account] }
  | .accountMetadata account => { posting := [account] }
  | .challengeAuthority o => { active := [o.challenger] }
  | .proveAuthority o =>
    if o.requireOwner then { owner := [o.challenged] } else { active := [o.challenged] }
  | .requestAccountRecovery o => { active := [o.recoveryAccount] }
  | .recoverAccount o => { other := [o.newOwnerAuthority, o.recentOwnerAuthority] }
  | .changeRecoveryAccount o => { owner := [o.accountToRecover] }
  | .resetAccount account => { active := [account] }
  | .setResetAccount account currentResetAccount =>
    if currentResetAccount ≠ .blank then { owner := [account] } else { posting := [account] }
  | .declineVotingRights o => { owner := [o.account] }
  | .transfer o =>
    if o.amount.symbol ≠ vestsSymbol then { active := [o.fromAccount] } else { owner := [o.fromAccount] }
  | .transferToVesting o => { active := [o.fromAccount] }
  | .transferToSavings o => { active := [o.fromAccount] }
  | .transferFromSavings o => { active := [o.fromAccount] }
  | .cancelTransferFromSavings o => { active := [o.fromAccount] }
  | .escrowTransfer o => { active := [o.fromAccount] }
  | .escrowApprove o => { active := [o.who] }
  | .escrowDispute o => { active := [o.who] }
  | .escrowRelease o => { active := [o.who] }
  | .withdrawVesting o => { active := [o.account] }
  | .setWithdrawVestingRoute o => { active := [o.fromAccount] }
  | .delegateVestingShares o => { active := [o.delegator] }
  | .delegateVestingSharesWithInterest o => { active := [o.delegator] }
  | .rejectVestingSharesDelegation o => { active := [o.delegatee] }
  | .breakFreeReferral referral => { active := [referral] }
  | .witnessUpdate o => { active := [o.owner] }
  | .chainPropertiesUpdate o => { active := [o.owner] }
  | .transitToCyberway o => { active := [o.owner] }
  | .accountWitnessVote o => { active := [o.account] }
  | .accountWitnessProxy o => { active := [o.account] }
  | .feedPublish o => { active := [o.publisher] }
  | .pow _ => {}
  | .pow2 o => o.newOwnerKey.elim { active := [o.workerAccount] } fun key => { other := [.ofKey key] }
  | .reportOverProduction _ => {}
  | .comment o => { posting := [o.author] }
  | .commentOptions o => { posting := [o.author] }
  | .deleteComment o => { posting := [o.author] }
  | .vote o => { posting := [o.voter] }
  | .convert o => { active := [o.owner] }
  | .limitOrderCreate o => { active := [o.owner] }
  | .limitOrderCreate2 o => { active := [o.owner] }
  | .limitOrderCancel o => { active := [o.owner] }
  | .custom required => required
  | .proposalCreate author _ _ _ _ => { active := [author] }
  | .proposalUpdate o =>
    let keys := o.keyApprovalsToAdd ++ o.keyApprovalsToRemove
    { active := o.activeApprovalsToAdd ++ o.activeApprovalsToRemove
      owner := o.ownerApprovalsToAdd ++ o.ownerApprovalsToRemove
      posting := o.postingApprovalsToAdd ++ o.postingApprovalsToRemove
      other := if keys ≠ [] then [⟨keys.length, [], keys.map fun k => (k, 1)⟩] else [] }
  | .proposalDelete o => { active := [o.requester] }

/-- `transaction::get_required_authorities` -/
def requiredAuthorities (operations : List Operation) : RequiredAuthorities :=
  operations.foldl (fun r op => r.append op.required) {}

/-- Author and permlink, the key of a comment. -/
abbrev CommentKey := AccountName × Permlink

end Golos
