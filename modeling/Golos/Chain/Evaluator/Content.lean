import Golos.Chain.Evaluator.Vesting

/-! # Comments and votes

The evaluators of `comment`, `comment_options`, `delete_comment` and `vote`.  A vote
changes the net shares of its comment; `adjust_rshares2` carries the change to every
comment above it and to the total the rewards are divided by.
-/

namespace Golos

open Stateful

/-! ## Reward shares -/

/-- `get_content_constant_s` -/
def contentConstantS : Uint128 := 2000000000000

/-- `calculate_vshares_linear` -/
def vsharesLinear (rshares : Int) : Uint128 := BitVec.ofInt 128 rshares

/-- `calculate_vshares_quadratic` -/
def vsharesQuadratic (rshares : Int) : Uint128 :=
  let r := BitVec.ofInt 128 rshares
  (r + contentConstantS) * (r + contentConstantS) - contentConstantS * contentConstantS

/-- `calculate_vshares` -/
def Database.vshares (s : Database) (rshares : Int) : Uint128 :=
  if s.hasHardfork 17 then vsharesLinear rshares else vsharesQuadratic rshares

/-- The comment a reply answers. -/
def CommentPlace.parent (p : CommentPlace) : CommentKey := (p.parentAuthor, p.parentPermlink)

/-- `adjust_rshares2`, along a line of at most `fuel` comments up to a root. -/
def adjustRshares2 (old new : Uint128) : (fuel : Nat) → CommentKey → Eval Unit
  | 0, _ => throw (.internal "adjust_rshares2")
  | fuel + 1, key => do
    modifyChildrenRshares2 key fun x => x - old + new
    let c ← getComment key
    if c.place.depth ≠ 0 then adjustRshares2 old new fuel c.place.parent
    else do
      let s ← get
      setTotalRewardShares2 (s.totalRewardShares2 - old + new)

/-- The sum of two `share_type`s. -/
def addShares (x y : Int) : Except Error Int :=
  if isShare (x + y) then .ok (x + y) else .error (.assertion "Integer Overflow")

/-- `net_rshares += delta`, which throws when the sum is not a `share_type`. -/
def addNetRshares (key : CommentKey) (delta : Int) : Eval Unit := do
  let c ← getComment key
  check (isShare (c.netRshares + delta)) (.assertion "Integer Overflow")
  setNetRshares key (c.netRshares + delta)

/-- `calculate_discussion_payout_time` -/
def discussionPayoutTime (c : Comment) : Eval Time := do
  let s ← get
  if s.hasHardfork 17 ∨ c.place.parentAuthor = .blank then pure c.payout.cashoutTime
  else do
    let root ← getComment c.place.rootComment
    pure root.payout.cashoutTime

/-- The loop that counts a reply, or takes it off again, at every comment above it. -/
def countAtAncestors (f : Nat → Nat) : (fuel : Nat) → CommentKey → Eval Unit
  | 0, _ => throw (.internal "children")
  | fuel + 1, key => do
    modifyChildren key f
    let c ← getComment key
    if c.place.parentAuthor ≠ .blank then countAtAncestors f fuel c.place.parent else pure ()

/-- The capacity left after one more action, where `window` seconds give back what
`perWindow` actions use. -/
def consumeCapacity (window perWindow capacity elapsed : Nat) (message : String) : Eval Nat := do
  let consumption := window / perWindow
  let regenerated := min window (elapsed % 2 ^ 32)
  let current := min ((capacity + regenerated) % 2 ^ 16) window
  check (consumption < current + 1) (.bandwidth message)
  pure (current - consumption)

/-- An account with a challenge outstanding takes part in nothing. -/
def checkNotChallenged (name : AccountName) (message : String) : Eval Unit := do
  let a ← getAccount name
  checkLogic (!(a.info.ownerChallenged || a.info.activeChallenged)) message

namespace Evaluator

/-! ## Posting -/

/-- `validate_permlink_0_1` -/
def validatePermlink01 (permlink : Permlink) : Eval Unit := do
  check (0 < permlink.utf8ByteSize ∧ permlink.utf8ByteSize < 256)
    (.invalidValue "Permlink is not a valid size. Permlink length should be more $min and less $max")
  check (permlink.toList.all fun c => ('a' ≤ c ∧ c ≤ 'z') ∨ ('0' ≤ c ∧ c ≤ '9') ∨ c = '-')
    (.invalidValue "Invalid permlink character: $s")

/-- `STEEMIT_POST_AVERAGE_WINDOW` -/
def postAverageWindow : Nat := 60 * 60 * 24

/-- `STEEMIT_POST_WEIGHT_CONSTANT` -/
def postWeightConstant : Nat := 40000 * 40000

/-- `STEEMIT_MIN_ROOT_COMMENT_INTERVAL` -/
def minRootCommentInterval : Nat := 60 * 5

/-- `STEEMIT_MIN_REPLY_INTERVAL` -/
def minReplyInterval : Nat := 20

/-- `comment_bandwidth::hf19` -/
def postCapacity (o : CommentOperation) : Eval Unit := do
  let s ← get
  let auth ← getAccount o.author
  let props := s.schedule.medianProps
  let elapsed := s.head.time - auth.activity.lastPost
  if o.parentAuthor = .blank then do
    let left ← consumeCapacity props.postsWindow props.postsPerWindow auth.activity.postsCapacity
      elapsed "You may only post $posts_per_window times in $posts_window seconds."
    modifyActivity o.author fun a => { a with postsCapacity := left }
  else do
    let left ← consumeCapacity props.commentsWindow props.commentsPerWindow
      auth.activity.commentsCapacity elapsed
      "You may only comment $comments_per_window times in $comments_window seconds."
    modifyActivity o.author fun a => { a with commentsCapacity := left }

/-- `comment_bandwidth::hf12` and `hf6`: the earliest time is measured from the last root
post, or before hardfork 12 from the last post of either kind. -/
def postInterval (o : CommentOperation) (lastRootPost lastPost : Time) : Eval Unit := do
  let s ← get
  if o.parentAuthor = .blank then
    check (lastRootPost + minRootCommentInterval < s.head.time)
      (.bandwidth "You may only post once every 5 minutes.")
  else
    check (lastPost + minReplyInterval < s.head.time)
      (.bandwidth "You may only comment once every 20 seconds.")

/-- The average of root posts a day, once one more is made at `now`. -/
def PostBandwidth.afterPost (b : PostBandwidth) (now : Time) : Int :=
  let elapsed := min (now - b.lastBandwidthUpdate) postAverageWindow
  (b.averageBandwidth * ((postAverageWindow - elapsed : Nat) : Int)).tdiv postAverageWindow + 10000

/-- `comment_bandwidth::calculate` -/
def rewardWeight (o : CommentOperation) (band : PostBandwidth) : Eval Nat := do
  let s ← get
  if o.parentAuthor = .blank then do
    let average :=
      if s.hasHardfork 12 then PostBandwidth.afterPost band s.head.time else band.averageBandwidth
    change (·.postBandwidth) updatePostBandwidth "account_bandwidth" o.author fun _ =>
      ⟨average, s.head.time⟩
    pure (if s.hasHardfork 12 then
      min ((postWeightConstant * 10000 / (average * average).toNat)) 10000 else 10000)
  else pure 10000

/-- `comment_bandwidth::calc_reward_weight` -/
def calcRewardWeight (o : CommentOperation) : Eval Nat := do
  let s ← get
  when (s.postBandwidth.find? o.author = none) <|
    create (·.postBandwidth) updatePostBandwidth "account_bandwidth" o.author {}
  let band ← fetch (·.postBandwidth) "account_bandwidth" o.author
  let auth ← getAccount o.author
  (if s.hasHardfork 19 then postCapacity o
  else if s.hasHardfork 12 then postInterval o band.lastBandwidthUpdate auth.activity.lastPost
  else if s.hasHardfork 6 then postInterval o auth.activity.lastPost auth.activity.lastPost
  else check (auth.activity.lastPost + 60 < s.head.time)
    (.bandwidth "You may only post once per minute."))
  rewardWeight o band

/-- The place of a new comment under `parent`. -/
def CommentOperation.place (o : CommentOperation) (parent : Option Comment) : CommentPlace :=
  match parent with
  | none => ⟨.blank, o.parentPermlink, 0, (o.author, o.permlink)⟩
  | some p => ⟨o.parentAuthor, o.parentPermlink, p.place.depth + 1, p.place.rootComment⟩

/-- The settings a comment is created with. -/
def newPayout (s : Database) (author : Account) (isRoot : Bool) (rewardWeight : Nat) :
    CommentPayout :=
  let props := s.schedule.medianProps
  let now := s.head.time
  { created := now
    maxCashoutTime := Time.maximum
    rewardWeight
    auctionWindowRewardDestination :=
      if s.hasHardfork 19 then
        if props.allowDistributeAuctionReward then .toCurators else .toRewardFund
      else .toAuthor
    auctionWindowSize := if s.hasHardfork 19 then props.auctionWindowSize else 1800
    curationRewardsPercent := if s.hasHardfork 19 then props.minCurationPercent else 2500
    cashoutTime :=
      if s.hasHardfork 17 then now + cashoutWindow
      else if isRoot ∧ s.hasHardfork 12 then now + 60 * 60 * 24
      else Time.maximum
    beneficiaries :=
      if author.info.referrerAccount ≠ .blank ∧ now < author.info.referralEndDate then
        [⟨author.info.referrerAccount, author.info.referrerInterestRate⟩] else [] }

/-- The branch of `comment_evaluator` for a new comment. -/
def createPost (o : CommentOperation) (parent : Option Comment) : Eval Unit := do
  parent.elim (pure ()) fun p => do
    let root ← getComment p.place.rootComment
    checkLogic root.payout.allowReplies "The parent comment has disabled replies."
  let weight ← calcRewardWeight o
  let s ← get
  modifyActivity o.author fun a =>
    if parent.isSome then { a with lastPost := s.head.time, commentCount := a.commentCount + 1 }
    else { a with lastPost := s.head.time, postCount := a.postCount + 1 }
  when (s.hasHardfork 1) do
    inOpParam "parent_permlink" (validatePermlink01 o.parentPermlink)
    inOpParam "permlink" (validatePermlink01 o.permlink)
  let author ← getAccount o.author
  createComment (o.author, o.permlink) (CommentOperation.place o parent)
    (newPayout s author parent.isNone weight)
  when (author.info.referrerAccount ≠ .blank ∧ author.info.referralEndDate ≤ s.head.time) <|
    modifyAccountInfo o.author fun i => { i with
      referrerAccount := .blank
      referrerInterestRate := 0
      referralEndDate := 0
      referralBreakFee := 0 }
  parent.elim (pure ()) fun p =>
    countAtAncestors (· + 1) (p.place.depth + 1) (o.parentAuthor, o.parentPermlink)

/-- The branch of `comment_evaluator` for an edit.  The texts are not part of the model;
`strcmp_equal` compares sizes first. -/
def editPost (o : CommentOperation) (c : Comment) : Eval Unit := do
  checkLogic (c.place.parentAuthor = o.parentAuthor) "The parent of a comment cannot change."
  checkLogic (c.place.parentPermlink.utf8ByteSize = o.parentPermlink.utf8ByteSize ∨
      c.place.parentPermlink = o.parentPermlink)
    "The parent permlink of a comment cannot change."

/-- `STEEMIT_MAX_COMMENT_DEPTH` and the limits that hold instead of it. -/
def maxCommentDepth (s : Database) (producing : Bool) : Nat :=
  if !s.hasHardfork 17 then 5 else if producing then 0xff else 0xfff0

/-- The comment answered, if the operation names one. -/
def getParent (producing : Bool) (o : CommentOperation) : Eval (Option Comment) := do
  let s ← get
  if o.parentAuthor = .blank then pure none
  else do
    let parent ← getComment (o.parentAuthor, o.parentPermlink)
    checkLogic (parent.place.depth < maxCommentDepth s producing)
      "Comment is nested $x posts deep, maximum depth is $y."
    pure (some parent)

/-- `comment_evaluator`.  That something is posted is already required by
`comment_operation::validate`. -/
def comment (producing : Bool) (o : CommentOperation) : Eval Unit := do
  let s ← get
  let _ ← getAccount o.author
  when (s.hasHardfork 10) <| checkNotChallenged o.author
    "Operation cannot be processed because account is currently challenged."
  let parent ← getParent producing o
  (s.comments.find? (o.author, o.permlink)).elim (createPost o parent) (editPost o)

/-! ## Options -/

/-- `STEEMIT_MAX_COMMENT_BENEFICIARIES` -/
def maxCommentBeneficiaries : Nat := 64

/-- `operator()(comment_payout_beneficiaries)` of `comment_options_extension_visitor` -/
def setBeneficiaries (producing : Bool) (key : CommentKey) (beneficiaries : List BeneficiaryRoute) :
    Eval Unit := do
  let c ← getComment key
  let author ← getAccount key.1
  let referrer := author.info.referrerAccount
  when producing <|
    checkLogic (beneficiaries.length ≤ maxCommentBeneficiaries)
      "Cannot specify more than $m beneficiaries."
  let present := c.payout.beneficiaries
  (if present.map (·.account) = [referrer] then
    checkLogic (∀ b ∈ beneficiaries, b.account ≠ referrer)
      "Comment already has '$referrer' as a referrer-beneficiary."
  else checkLogic (present.length = 0) "Comment already has beneficiaries specified.")
  checkLogic (c.payout.absRshares = 0)
    "Comment must not have been voted on before specifying beneficiaries."
  beneficiaries.forM fun b => do
    let _ ← getAccount b.account
    pure ()
  modifyPayout key fun p => { p with beneficiaries := p.beneficiaries ++ beneficiaries }
  check (((present ++ beneficiaries).map (·.weight)).sum % 2 ^ 16 ≤ 10000)
    (.invalidParameter "beneficiaries" "Cannot allocate more than 100% of rewards to a comment")

/-- `operator()(comment_auction_window_reward_destination)` -/
def setAuctionWindowRewardDestination (key : CommentKey)
    (destination : AuctionWindowRewardDestination) : Eval Unit := do
  requireHardfork 19 "auction window reward destination option"
  let s ← get
  let c ← getComment key
  let props := s.schedule.medianProps
  when (s.hasHardfork 20) <| checkLogic (c.payout.absRshares = 0)
    "Comment must not have been voted on changing auction window reward destination."
  check (destination ≠ .toRewardFund ∨ props.allowReturnAuctionRewardToFund)
    (.invalidParameter "cawrd.destination" "Returning to reward fund is disallowed.")
  check (destination ≠ .toCurators ∨ props.allowDistributeAuctionReward)
    (.invalidParameter "cawrd.destination" "Distributing between curators is disallowed.")
  modifyPayout key fun p => { p with auctionWindowRewardDestination := destination }

/-- `operator()(comment_curation_rewards_percent)` -/
def setCurationRewardsPercent (key : CommentKey) (percent : Nat) : Eval Unit := do
  requireHardfork 19 "comment curation rewards percent option"
  let s ← get
  let c ← getComment key
  let props := s.schedule.medianProps
  when (s.hasHardfork 20) <| checkLogic (c.payout.absRshares = 0)
    "Comment must not have been voted on changing curation rewards percent."
  check (props.minCurationPercent ≤ percent ∧ percent ≤ props.maxCurationPercent)
    (.invalidParameter "percent" "Curation rewards percent must be between $min and $max.")
  modifyPayout key fun p => { p with curationRewardsPercent := percent }

/-- `comment_options_extension_visitor` -/
def applyOptionsExtension (producing : Bool) (key : CommentKey) : CommentOptionsExtension → Eval Unit
  | .payoutBeneficiaries beneficiaries => setBeneficiaries producing key beneficiaries
  | .auctionWindowRewardDestination destination => setAuctionWindowRewardDestination key destination
  | .curationRewardsPercent percent => setCurationRewardsPercent key percent

/-- `comment_options_evaluator` -/
def commentOptions (producing : Bool) (o : CommentOptionsOperation) : Eval Unit := do
  let s ← get
  when (s.hasHardfork 10) <| checkNotChallenged o.author
    "Operation cannot be processed because account is currently challenged."
  let key := (o.author, o.permlink)
  let c ← getComment key
  let maxAccepted ← amountIn sbdSymbol o.maxAcceptedPayout
  when (!o.allowCurationRewards ∨ !o.allowVotes ∨ maxAccepted < c.payout.maxAcceptedPayout) <|
    checkLogic (c.payout.absRshares = 0)
      "One of the included comment options requires the comment to have no rshares allocated to it."
  checkLogic (o.allowCurationRewards ≤ c.payout.allowCurationRewards)
    "Curation rewards cannot be re-enabled."
  checkLogic (o.allowVotes ≤ c.payout.allowVotes) "Voting cannot be re-enabled."
  checkLogic (maxAccepted ≤ c.payout.maxAcceptedPayout) "A comment cannot accept a greater payout."
  checkLogic (o.percentSteemDollars ≤ c.payout.percentSteemDollars)
    "A comment cannot accept a greater percent SBD."
  modifyPayout key fun p => { p with
    maxAcceptedPayout := maxAccepted
    percentSteemDollars := o.percentSteemDollars
    allowVotes := o.allowVotes
    allowCurationRewards := o.allowCurationRewards }
  o.extensions.forM fun e => applyOptionsExtension producing key e

/-- `delete_comment_evaluator` -/
def deleteComment (producing : Bool) (o : DeleteCommentOperation) : Eval Unit := do
  let s ← get
  when (s.hasHardfork 10) <| checkNotChallenged o.author
    "Operation cannot be processed because account is currently challenged."
  let key := (o.author, o.permlink)
  let c ← getComment key
  checkLogic (c.children = 0) "Cannot delete a comment with replies."
  when producing <|
    checkLogic (c.netRshares ≤ 0) "Cannot delete a comment with network positive votes."
  if 0 < c.netRshares then pure ()
  else do
    updateCommentVotes fun t => t.filter fun k _ => k.1 ≠ key
    when (s.hasHardfork 6 ∧ c.place.parentAuthor ≠ .blank) <|
      countAtAncestors (· - 1) c.place.depth c.place.parent
    removeComment key

/-! ## Votes -/

/-- What a vote costs its voter and moves on its comment. -/
structure VoteStrength where
  currentPower : Int
  usedPower : Int
  absRshares : Int

/-- The rate limit on votes. -/
def voteCapacity (voter : AccountName) : Eval Unit := do
  let s ← get
  let a ← getAccount voter
  let props := s.schedule.medianProps
  if s.hasHardfork 19 then do
    let left ← consumeCapacity props.votesWindow props.votesPerWindow a.activity.votingCapacity
      (s.head.time - a.activity.lastVoteTime)
      "Can only vote $votes_per_window times in $votes_window seconds."
    modifyActivity voter fun x => { x with votingCapacity := left }
  else
    check (a.activity.lastVoteTime + 2 < s.head.time)
      (.bandwidth "Can only vote once every 3 seconds.")

/-- The voting power used and the shares it is worth. -/
def voteStrength (voter : AccountName) (weight : Int) : Eval VoteStrength := do
  let s ← get
  let a ← getAccount voter
  let regenerated : Int :=
    10000 * (s.head.time - a.activity.lastVoteTime : Nat) / (voteRegeneration : Int)
  let current : Int := min (a.activity.votingPower + regenerated) 10000
  checkLogic (0 < current) "Account currently does not have voting power."
  let denominator : Int := (s.rates.voteRegenerationPerDay * voteRegeneration / (60 * 60 * 24) : Nat)
  check (0 < denominator) (.internal "max_vote_denom is too small")
  let used := current * weight.natAbs / 10000
  let used :=
    if s.hasHardfork 14 then (used + denominator - 1) / denominator else used / denominator + 1
  checkLogic (used ≤ current) "Account does not have enough power to vote."
  let rshares :=
    toInt64 (toUint128 (toUint128 a.effectiveVestingShares * used) / 10000 % 2 ^ 64)
  let rshares := if !s.hasHardfork 14 ∧ rshares = 0 then 1 else rshares
  when (s.hasHardfork 13) <|
    checkLogic (30000000 < rshares ∨ if s.hasHardfork 14 then weight = 0 else rshares = 1)
      "Voting weight is too small, please accumulate more voting power or steem power."
  pure ⟨current, used, rshares⟩

/-- The interest rate of a delegator on a vote.  Before the fix of `GOLOS_BUG1074` the
product was taken in 64 bits. -/
def delegatorRate (s : Database) (d : VestingDelegation) (effective : Int) : Nat :=
  if s.head.headBlockNumber < 23569125 ∧ !s.hasHardfork 20 then
    (((toInt64 ((d.vestingShares * d.interestRate) % 2 ^ 64).toNat).tdiv effective) % 2 ^ 16).toNat
  else toUint128 (d.vestingShares * d.interestRate) / toUint128 effective % 2 ^ 16

/-- The interest rates of all delegators of a voter, in the order of `by_received`. -/
def delegatorRates (s : Database) (voter : AccountName) (a : Account) :
    List DelegatorVoteInterestRate :=
  if s.hasHardfork 19 ∧ 0 < a.delegated.receivedVestingShares then
    ((s.delegations.entries.filter fun e => e.1.2 = voter).insertionSort fun x y =>
      x.1.1.packed ≤ y.1.1.packed).filterMap fun e =>
        let rate := delegatorRate s e.2 a.effectiveVestingShares
        if 0 < rate then some ⟨e.1.1, rate, e.2.payoutStrategy⟩ else none
  else []

/-- The last minute before the payout is closed for what raises the reward. -/
def checkUpvoteLockout (c : Comment) : Eval Unit := do
  let s ← get
  let payoutTime ← discussionPayoutTime c
  checkLogic (s.head.time + 60 < payoutTime)
    "Cannot increase reward of post within the last minute before payout."

/-- `avg_cashout_sec`: the payout time weighted by the shares of old and new votes. -/
def averageCashout (s : Database) (cur : Time) (oldRootAbsRshares absRshares : Int) : Nat :=
  let new := s.head.time + 60 * 60 * 24
  (cur * toUint128 oldRootAbsRshares + new * toUint128 absRshares) /
    (toUint128 (oldRootAbsRshares + absRshares)) % 2 ^ 32

/-- The update of the root of a discussion by a vote in it. -/
def CommentPayout.countVote (p : CommentPayout) (s : Database) (absRshares : Int) (average : Nat) :
    CommentPayout :=
  let p := { p with childrenAbsRshares := p.childrenAbsRshares + absRshares }
  if s.hasHardfork 17 then p
  else
    { p with
      cashoutTime :=
        if s.hasHardfork 12 ∧ 0 < p.lastPayout then p.lastPayout + 60 * 60 * 24 * 30
        else min average p.maxCashoutTime
      maxCashoutTime :=
        if p.maxCashoutTime = Time.maximum then s.head.time + 60 * 60 * 24 * 14
        else p.maxCashoutTime }

/-- The effect of a vote on the root of its discussion. -/
def voteAtRoot (c : Comment) (absRshares : Int) : Eval Unit := do
  let s ← get
  let root ← getComment c.place.rootComment
  let cur ← discussionPayoutTime c
  let average :=
    if absRshares = 0 then cur
    else averageCashout s cur root.payout.childrenAbsRshares absRshares
  modifyPayout c.place.rootComment fun p => CommentPayout.countVote p s absRshares average

/-- Move the net shares of a comment from the part `old` to the part `new` of one vote, here
and in every sum they are part of. -/
def moveRshares (key : CommentKey) (old new : Int) : Eval Unit := do
  let s ← get
  let before ← getComment key
  addNetRshares key (-old)
  addNetRshares key new
  let after ← getComment key
  adjustRshares2 (s.vshares (max before.netRshares 0)) (s.vshares (max after.netRshares 0))
    (before.place.depth + 1) key

/-- The vote object of a first vote. -/
def newVote (s : Database) (c : Comment) (o : VoteOperation) (rshares : Int)
    (rates : List DelegatorVoteInterestRate) : CommentVote :=
  let curated := 0 < rshares ∧ c.payout.lastPayout = 0 ∧ c.payout.allowCurationRewards
  let elapsed := min (s.head.time - c.payout.created) c.payout.auctionWindowSize
  { rshares
    votePercent := o.weight
    lastUpdate := s.head.time
    origRshares := if curated then rshares else 0
    auctionTime :=
      if curated ∧ 1476788510 < s.head.time then
        if s.hasHardfork 19 ∧ o.voter = o.author then c.payout.auctionWindowSize else elapsed
      else 0
    delegatorVoteInterestRates := if curated then rates else [] }

/-- The branch of `vote_evaluator` for a first vote on a comment. -/
def firstVote (o : VoteOperation) (strength : VoteStrength) : Eval Unit := do
  let s ← get
  let key := (o.author, o.permlink)
  let c ← getComment key
  let voter ← getAccount o.voter
  let rates := delegatorRates s o.voter voter
  checkOpParam "weight" (o.weight ≠ 0) "Vote weight cannot be 0"
  let rshares := if o.weight < 0 then -strength.absRshares else strength.absRshares
  when (0 < rshares) (checkUpvoteLockout c)
  modifyActivity o.voter fun a => { a with
    votingPower := (strength.currentPower - strength.usedPower).toNat
    lastVoteTime := s.head.time }
  checkLogic (0 < strength.absRshares) "Cannot vote with 0 rshares."
  let absRshares ← fromExcept (addShares c.payout.absRshares strength.absRshares)
  modifyPayout key fun p => { p with
    absRshares
    totalVotes := p.totalVotes + 1
    voteRshares := if 0 < rshares then p.voteRshares + rshares else p.voteRshares
    netVotes := if 0 < rshares then p.netVotes + 1 else p.netVotes - 1 }
  voteAtRoot c strength.absRshares
  create (·.commentVotes) updateCommentVotes "comment_vote" (key, o.voter)
    (newVote s c o rshares rates)
  moveRshares key 0 rshares
  let c ← getComment key
  when (!s.hasHardfork 6 ∧ c.netRshares = -c.payout.absRshares) <|
    check (c.payout.netVotes < 0) (.internal "Comment has negative network votes?")

/-- How the sign of a changed vote moves `net_votes`. -/
def netVotesChange (old new : Int) : Int := new.sign - old.sign

/-- `STEEMIT_MAX_VOTE_CHANGES` -/
def maxVoteChanges : Int := 5

/-- The branch of `vote_evaluator` for a changed vote. -/
def changeVote (o : VoteOperation) (strength : VoteStrength) (vote : CommentVote) : Eval Unit := do
  let s ← get
  let key := (o.author, o.permlink)
  let c ← getComment key
  checkLogic (vote.numChanges < maxVoteChanges)
    "Voter has used the maximum number of vote changes on this comment."
  checkLogic (vote.votePercent ≠ o.weight) "You have already voted in a similar way."
  let rshares := if o.weight < 0 then -strength.absRshares else strength.absRshares
  when (vote.rshares < rshares) (checkUpvoteLockout c)
  modifyActivity o.voter fun a => { a with
    votingPower := (strength.currentPower - strength.usedPower).toNat
    lastVoteTime := s.head.time }
  let absRshares ← fromExcept (addShares c.payout.absRshares strength.absRshares)
  modifyPayout key fun p => { p with
    absRshares
    netVotes := p.netVotes + netVotesChange vote.rshares rshares }
  voteAtRoot c strength.absRshares
  change (·.commentVotes) updateCommentVotes "comment_vote" (key, o.voter) fun v => { v with
    rshares
    votePercent := o.weight
    lastUpdate := s.head.time
    numChanges := v.numChanges + 1
    delegatorVoteInterestRates := [] }
  moveRshares key vote.rshares rshares

/-- A vote after the last payout of a comment, which moves no shares. -/
def lateVote (o : VoteOperation) : Eval Unit := do
  let s ← get
  let key := (o.author, o.permlink)
  if s.commentVotes.find? (key, o.voter) = none then do
    modifyPayout key fun p => { p with totalVotes := p.totalVotes + 1 }
    create (·.commentVotes) updateCommentVotes "comment_vote" (key, o.voter)
      { votePercent := o.weight, lastUpdate := s.head.time, numChanges := -2 }
  else
    change (·.commentVotes) updateCommentVotes "comment_vote" (key, o.voter) fun v =>
      { v with votePercent := o.weight, lastUpdate := s.head.time }

/-- `vote_evaluator` -/
def vote (o : VoteOperation) : Eval Unit := do
  let key := (o.author, o.permlink)
  let c ← getComment key
  let voter ← getAccount o.voter
  checkNotChallenged o.voter "Account \"$account\" is currently challenged"
  checkLogic voter.activity.canVote "Voter has declined their voting rights"
  when (0 < o.weight) (checkLogic c.payout.allowVotes "Votes are not allowed on the comment.")
  let payoutTime ← discussionPayoutTime c
  if payoutTime = Time.maximum then lateVote o
  else do
    voteCapacity o.voter
    let strength ← voteStrength o.voter o.weight
    let s ← get
    (s.commentVotes.find? (key, o.voter)).elim (firstVote o strength) (changeVote o strength)

/-! ## Footprints -/

section Footprints

set_option synthInstance.maxSize 1000000

variable {F : Footprint}

instance {old new fuel key} [Allows (F .rewardShares)] [Allows (F .childrenShares)] :
    Touches F (adjustRshares2 old new fuel key) := by
  induction fuel generalizing key with
  | zero => unfold adjustRshares2; infer_instance
  | succ fuel ih => unfold adjustRshares2; infer_instance

instance {f fuel key} [Allows (F .commentChildren)] : Touches F (countAtAncestors f fuel key) := by
  induction fuel generalizing key with
  | zero => unfold countAtAncestors; infer_instance
  | succ fuel ih => unfold countAtAncestors; infer_instance

section

variable [Allows (F .commentPayout)]

deriving instance Touches F for setBeneficiaries, setAuctionWindowRewardDestination, setCurationRewardsPercent

instance {producing key extension} : Touches F (applyOptionsExtension producing key extension) := by
  cases extension <;> (unfold applyOptionsExtension; infer_instance)

end

variable [Allows (F .commentPayout)] [Allows (F .childrenShares)] [Allows (F .netRshares)]
  [Allows (F .commentChildren)] [Allows (F .commentPlace)] [Allows (F .commentVotes)] [Allows (F .activity)]
  [Allows (F .rewardShares)] [Allows (F .postBandwidth)] [Allows (F .info)]

deriving instance Touches F for addNetRshares, discussionPayoutTime, consumeCapacity, checkNotChallenged,
  validatePermlink01, postCapacity, postInterval, rewardWeight, calcRewardWeight, createPost, editPost, getParent,
  comment, commentOptions, deleteComment, voteCapacity, voteStrength, checkUpvoteLockout, voteAtRoot, moveRshares,
  firstVote, changeVote, lateVote, vote

end Footprints

end Evaluator

end Golos
