import Golos.Chain.Evaluator.Content

/-! # Payouts of comments

`comment_curation_info` weighs the votes on a comment, `pay_curators` shares the
curation part among them, and `cashout_comment_helper` pays the author and the
beneficiaries and takes the comment's shares out of all totals.

Weights are `uint64_t` and wrap.  An amount of tokens is counted without a bound, as
every amount is: a payment the code would compute modulo `2 ^ 64` does not survive the
overflow checks of the vesting fund it is added to.
-/

namespace Golos

open Stateful

/-! ## Weights of votes -/

/-- The state of `calculate_weight_helper`. -/
structure WeightState where
  voteRshares : Int := 0
  oldVoteWeight : UInt64 := 0
  totalVoteWeight : UInt64 := 0
  auctionWindowWeight : UInt64 := 0
  votesInAuctionWindowWeight : UInt64 := 0

/-- `approx_sqrt` -/
def approxSqrt (x : Nat) : UInt64 :=
  if x = 0 then 0
  else
    let msbX := x.log2
    let msbZ := msbX / 2
    let mantissaHi := if msbX % 2 = 1 then 2 ^ msbZ else 0
    let mantissaLo := (x % 2 ^ msbX) / 2 ^ (msbX - msbZ) % 2 ^ 64
    .ofNat (2 ^ msbZ ||| ((mantissaHi ||| mantissaLo) / 2))

/-- `calculate_bounded`: W(R) = B * R / (R + 2S). -/
def boundedWeight (rshares : Int) : UInt64 :=
  let r := BitVec.ofInt 128 rshares
  .ofNat (r * BitVec.ofNat 128 (2 ^ 64 - 1) / (2 * contentConstantS + r)).toNat

/-- `calculate_curve`: the weight of a vote and the state after it. -/
def WeightState.calculateCurve (st : WeightState) (curve : CurationCurve) (vote : CommentVote) :
    Except Error (UInt64 × WeightState) :=
  let stepTo (new : UInt64) := (new - st.oldVoteWeight, { st with oldVoteWeight := new })
  match curve with
  | .bounded => .ok (stepTo (boundedWeight st.voteRshares))
  | .linear => .ok (.ofInt vote.rshares, st)
  | .squareRoot => .ok (stepTo (approxSqrt (toUint128 st.voteRshares)))
  | .detect => .error (.assertion "Unknown curation reward curve.")

/-- `calculate_weight` -/
def WeightState.calculateWeight (st : WeightState) (curve : CurationCurve) (windowSize : Nat)
    (vote : CommentVote) : Except Error (UInt64 × WeightState) := do
  if vote.origRshares ≤ 0 then pure (0, st)
  else
    let voteRshares ← addShares st.voteRshares vote.origRshares
    let (weight, st) ← { st with voteRshares }.calculateCurve curve vote
    let changed := vote.numChanges ≠ 0 ∧ vote.numChanges ≠ -1
    let inWindow := 0 < weight ∧ vote.auctionTime ≠ windowSize
    let kept : UInt64 :=
      if inWindow then .ofNat (weight.toNat * vote.auctionTime / windowSize) else weight
    let lost := weight - kept
    let st := { st with
      totalVoteWeight := st.totalVoteWeight + lost + (if changed then 0 else kept)
      auctionWindowWeight := st.auctionWindowWeight + lost
      votesInAuctionWindowWeight :=
        if inWindow ∧ ¬changed then st.votesInAuctionWindowWeight + kept
        else st.votesInAuctionWindowWeight }
    pure (if changed then 0 else kept, st)

/-- `comment_vote_info` -/
structure VoteInfo where
  voter : AccountName
  vote : CommentVote
  weight : UInt64

/-- The loop of `comment_curation_info` over the votes in the order they were cast. -/
def weighVotes (curve : CurationCurve) (windowSize : Nat) (fullList : Bool) :
    List (AccountName × CommentVote) → WeightState → Except Error (List VoteInfo × WeightState)
  | [], st => pure ([], st)
  | (voter, vote) :: rest, st => do
    let (weight, st) ← st.calculateWeight curve windowSize vote
    let (votes, st) ← weighVotes curve windowSize fullList rest st
    pure (if 0 < weight ∨ fullList then ⟨voter, vote, weight⟩ :: votes else votes, st)

/-- `comment_curation_info` -/
structure CurationInfo where
  voteList : List VoteInfo := []
  totalVoteWeight : UInt64 := 0
  auctionWindowWeight : UInt64 := 0
  votesInAuctionWindowWeight : UInt64 := 0
  votesAfterAuctionWindowWeight : UInt64 := 0

/-- `detect_curation_curve` -/
def Database.curationCurve (s : Database) (p : CommentPayout) : CurationCurve :=
  if p.curationRewardCurve = .detect then
    if s.hasHardfork 19 then s.schedule.medianProps.curationRewardCurve else .bounded
  else p.curationRewardCurve

/-- The votes on a comment, in the order of their ids. -/
def Database.votesOn (s : Database) (key : CommentKey) : List (AccountName × CommentVote) :=
  (s.commentVotes.entries.filter fun e => e.1.1 = key).map fun e => (e.1.2, e.2)

/-- The constructor of `comment_curation_info`.  After a first payout only the full list of votes
is weighed. -/
def Database.curationInfo (s : Database) (key : CommentKey) (p : CommentPayout) (fullList : Bool) :
    Except Error CurationInfo := do
  if p.lastPayout ≠ 0 ∧ !fullList then pure {}
  else
    let (votes, st) ← weighVotes (s.curationCurve p) p.auctionWindowSize fullList (s.votesOn key) {}
    pure
      { voteList := votes.insertionSort fun a b =>
          b.weight < a.weight ∨ (a.weight = b.weight ∧ s.accountId a.voter ≤ s.accountId b.voter)
        totalVoteWeight := st.totalVoteWeight
        auctionWindowWeight := st.auctionWindowWeight
        votesInAuctionWindowWeight := st.votesInAuctionWindowWeight
        votesAfterAuctionWindowWeight :=
          st.totalVoteWeight - st.votesInAuctionWindowWeight - st.auctionWindowWeight }

/-! ## Curators -/

/-- The body of the loop of `pay_delegators`: what the delegator is paid. -/
def payDelegator (delegatee : AccountName) (claim : Int) (d : DelegatorVoteInterestRate) :
    Eval Int := do
  let delegatorClaim : Int := ((claim % 2 ^ 64).toNat * d.interestRate % 2 ^ 64 / 10000 : Nat)
  if 10000 < d.interestRate ∨ delegatorClaim = 0 then pure 0
  else do
    let vesting ← createVesting d.account (.steem delegatorClaim)
    let s ← get
    when (d.payoutStrategy = .toDelegatedVesting ∧
        (s.delegations.find? (d.account, delegatee)).isSome) do
      modifyDelegated d.account fun x =>
        { x with delegatedVestingShares := x.delegatedVestingShares + vesting }
      modifyDelegated delegatee fun x =>
        { x with receivedVestingShares := x.receivedVestingShares + vesting }
      change (·.delegations) updateDelegations "vesting_delegation" (d.account, delegatee) fun x =>
        { x with vestingShares := x.vestingShares + vesting }
    modifyRewards d.account fun r =>
      { r with delegationRewards := r.delegationRewards + delegatorClaim }
    pure delegatorClaim

/-- `pay_delegators` -/
def payDelegators (delegatee : AccountName) (claim : Int) :
    List DelegatorVoteInterestRate → Eval Int
  | [] => pure 0
  | d :: rest => do
    let paid ← payDelegator delegatee claim d
    let more ← payDelegators delegatee claim rest
    pure (paid + more)

/-- `pay_curator`: what the voter is paid, less what the delegators received. -/
def payCurator (voter : AccountName) (vote : CommentVote) (claim : Int) : Eval Int := do
  let s ← get
  let _ ← getAccount voter
  let toDelegators ←
    if s.hasHardfork 19 then payDelegators voter claim vote.delegatorVoteInterestRates else pure 0
  let voterClaim := claim - toDelegators
  let _ ← createVesting voter (.steem voterClaim)
  modifyRewards voter fun r => { r with curationRewards := r.curationRewards + voterClaim }
  pure voterClaim

/-- Whether a vote was cast after the auction window and shares in what the window took. -/
def CommentPayout.sharesAuctionWindow (p : CommentPayout) (v : VoteInfo) : Bool :=
  p.auctionWindowRewardDestination = .toCurators && v.vote.auctionTime = p.auctionWindowSize

/-- The claim of a vote on the curation reward. -/
def CurationInfo.claim (info : CurationInfo) (p : CommentPayout) (maxRewards : Int) (v : VoteInfo) :
    Nat :=
  let total := info.totalVoteWeight.toNat
  let share := toUint128 (maxRewards * v.weight.toNat) / total % 2 ^ 64
  if p.sharesAuctionWindow v ∧ info.votesAfterAuctionWindowWeight ≠ 0 then
    let windowReward := toUint128 (maxRewards * info.auctionWindowWeight.toNat) / total
    (share + windowReward * v.weight.toNat % 2 ^ 128 / info.votesAfterAuctionWindowWeight.toNat)
      % 2 ^ 64
  else share

/-- Where `pay_curators` stands: what is left unclaimed, `actual_rewards`, and the heaviest vote
after the auction window, which is paid last. -/
structure CuratorPayout where
  unclaimed : Int
  actual : Int := 0
  heaviest : Option VoteInfo := none

/-- The loop of `pay_curators`.  The first claim of zero ends the loop. -/
def payVotes (info : CurationInfo) (p : CommentPayout) (maxRewards : Int) :
    List VoteInfo → CuratorPayout → Eval CuratorPayout
  | [], left => pure left
  | v :: rest, left =>
    if p.sharesAuctionWindow v ∧ left.heaviest.isNone then
      payVotes info p maxRewards rest { left with heaviest := some v }
    else if 0 < info.claim p maxRewards v then do
      let claim ← fromExcept (toShare (info.claim p maxRewards v))
      let paid ← payCurator v.voter v.vote claim
      payVotes info p maxRewards rest { left with
        unclaimed := left.unclaimed - claim
        actual := left.actual + paid }
    else pure left

/-- `total_reward_fund_steem += tokens` -/
def returnToRewardFund (tokens : Int) : Eval Unit :=
  modifySupply fun p => { p with totalRewardFundSteem := p.totalRewardFundSteem + tokens }

/-- The part of `pay_curators` that pays votes: what is left unclaimed, and `actual_rewards`, which
the last payment overwrites. -/
def payVoters (info : CurationInfo) (p : CommentPayout) (maxRewards : Int) : Eval (Int × Int) := do
  if 0 < info.totalVoteWeight ∧ p.allowCurationRewards then do
    let left ← payVotes info p maxRewards info.voteList { unclaimed := maxRewards }
    left.heaviest.elim (pure (left.unclaimed, left.actual)) fun v => do
      let paid ← payCurator v.voter v.vote left.unclaimed
      pure (0, paid)
  else pure (maxRewards, 0)

/-- `pay_curators` with an `actual_rewards` that was zero: what is left for the author, and
`actual_rewards`. -/
def payCuratorsCounted (info : CurationInfo) (p : CommentPayout) (maxRewards : Int) : Eval (Int × Int) := do
  let left ← payVoters info p maxRewards
  if !p.allowCurationRewards ∨ (p.auctionWindowRewardDestination ≠ .toAuthor ∧ 0 < left.1) then do
    returnToRewardFund left.1
    pure (0, left.2)
  else pure left

/-- `pay_curators`: what is left for the author. -/
def payCurators (info : CurationInfo) (p : CommentPayout) (maxRewards : Int) : Eval Int := do
  let left ← payCuratorsCounted info p maxRewards
  pure left.1

/-! ## The payout of a comment -/

/-- `claim_rshare_reward` -/
def claimRshareReward (rshares : Int) (rewardWeight : Nat) (maxSteem : Asset) : Eval Int := do
  check (0 < rshares) (.assertion "rshares > 0")
  let s ← get
  let rs2 := (s.vshares rshares).toNat * rewardWeight / 10000
  let total := s.totalRewardShares2.toNat
  -- dividing by zero throws in `u256`
  check (total ≠ 0) (.internal "Division by zero.")
  let payout := s.supply.totalRewardFundSteem.toNat * rs2 / total
  check (payout < 2 ^ 63) (.assertion "payout_u256 <= u256(uint64_t(std::numeric_limits<int64_t>::max()))")
  let sbdValue ← toSbd (.steem payout)
  let payout : Int := if sbdValue.amount < 20 then 0 else payout
  let payout := min payout (maxSteem.amount % 2 ^ 64)
  modifySupply fun p => { p with totalRewardFundSteem := p.totalRewardFundSteem - payout }
  pure payout

/-- The payments to beneficiaries; their sum. -/
def payBeneficiaries (authorTokens : Int) : List BeneficiaryRoute → Eval Int
  | [] => pure 0
  | b :: rest => do
    let tokens := (authorTokens * b.weight).tdiv 10000
    let _ ← createVesting b.account (.steem tokens)
    modifyRewards b.account fun r => { r with benefactionRewards := r.benefactionRewards + tokens }
    let more ← payBeneficiaries authorTokens rest
    pure (tokens + more)

/-- The amounts of `total_comment_reward_operation`. -/
structure TotalCommentReward where
  author : Int
  benefactor : Int
  curator : Int

/-- The part of `cashout_comment_helper` that pays out a claimed reward, and what it reports of it. -/
def payReward (key : CommentKey) (p : CommentPayout) (rewardTokens : Int) : Eval TotalCommentReward := do
  let curationTokens := rewardTokens * p.curationRewardsPercent / 10000
  let s ← get
  let info ← fromExcept (s.curationInfo key p false)
  let left ← payCuratorsCounted info p curationTokens
  let authorTokens := rewardTokens - curationTokens + left.1
  let toBeneficiaries ← payBeneficiaries authorTokens p.beneficiaries
  let authorTokens := authorTokens - toBeneficiaries
  let sbdSteem := (authorTokens * p.percentSteemDollars).tdiv (2 * 10000)
  let _ ← createVesting key.1 (.steem (authorTokens - sbdSteem))
  let _ ← createSbd key.1 sbdSteem
  modifyRewards key.1 fun r => { r with postingRewards := r.postingRewards + authorTokens }
  pure ⟨authorTokens, toBeneficiaries, left.2⟩

/-- The settings of a comment after a payout. -/
def CommentPayout.afterPayout (p : CommentPayout) (s : Database) (curve : CurationCurve)
    (isRoot : Bool) (rootCashout : Time) : CommentPayout :=
  let cashoutTime :=
    if s.hasHardfork 17 then Time.maximum
    else if isRoot then
      if p.lastPayout = 0 then s.head.time + 60 * 60 * 24 * 30 else Time.maximum
    else p.cashoutTime
  let discussionTime := if s.hasHardfork 17 ∨ isRoot then cashoutTime else rootCashout
  { p with
    childrenAbsRshares := 0
    absRshares := 0
    voteRshares := 0
    maxCashoutTime := Time.maximum
    curationRewardCurve := curve
    cashoutTime
    mode := if discussionTime = Time.maximum then .archived else .secondPayout
    lastPayout := s.head.time }

/-- `cashout_comment_helper`, the first half: claim and pay the reward, then take the shares
out of the totals.  The result is the curve the comment keeps. -/
def payComment (key : CommentKey) (c : Comment) : Eval CurationCurve := do
  let s ← get
  let maxSteem ← toSteem (.sbd c.payout.maxAcceptedPayout)
  let rewardTokens ← claimRshareReward c.netRshares c.payout.rewardWeight maxSteem
  when (0 < rewardTokens) do
    let _ ← payReward key c.payout rewardTokens
    pure ()
  adjustRshares2 (s.vshares c.netRshares) 0 (c.place.depth + 1) key
  pure (if 0 < rewardTokens then s.curationCurve c.payout else c.payout.curationRewardCurve)

/-- `cashout_comment_helper` -/
def cashoutCommentHelper (key : CommentKey) : Eval Unit := do
  let c ← getComment key
  let curve ← if 0 < c.netRshares then payComment key c else pure c.payout.curationRewardCurve
  let s ← get
  let root ← getComment c.place.rootComment
  -- a payout is only made for positive shares, negative ones stay for the next time
  when (0 < c.netRshares) (setNetRshares key 0)
  modifyPayout key fun p =>
    p.afterPayout s curve (c.place.parentAuthor = .blank) root.payout.cashoutTime
  let c ← getComment key
  when (c.payout.mode = .archived) <|
    updateCommentVotes fun t => t.mapValues fun k v =>
      if k.1 = key then { v with numChanges := -1 - v.numChanges } else v

/-- `STEEMIT_FIRST_CASHOUT_TIME` -/
def firstCashoutTime : Time := 1484478000

/-- The comments one pass of `process_comment_cashout` pays for a due comment: itself, or before
hardfork 17 its whole discussion. -/
def Database.cashoutGroup (s : Database) (key : CommentKey) (c : Comment) : List CommentKey :=
  if s.hasHardfork 17 then [key]
  else (s.comments.entries.filter fun e => e.2.place.rootComment = c.place.rootComment).map Prod.fst

/-- `process_comment_cashout`.  A pass moves the payout time of the comment it started from
beyond the block, so every due comment starts one pass, in the order of `by_cashout_time`. -/
def processCommentCashout : Eval Unit := do
  let s ← get
  when (firstCashoutTime < s.head.time) do
    let due := s.comments.entries.filter fun e => e.2.payout.cashoutTime ≤ s.head.time
    (due.insertionSort fun a b => a.2.payout.cashoutTime ≤ b.2.payout.cashoutTime).forM fun e =>
      (s.cashoutGroup e.1 e.2).forM cashoutCommentHelper

/-! ## Footprints -/

section Footprints

set_option synthInstance.maxSize 1000000

section

variable {F : Footprint} [Allows (F .supply)] [Allows (F .vesting)] [Allows (F .proxied)] [Allows (F .rewards)]
  [Allows (F .tally)] [Allows (F .delegated)] [Allows (F .delegations)]

deriving instance Touches F for payDelegator

end

variable {R : Database → Database → Prop} [Std.Refl R] [IsTrans Database R]
  [∀ f : Supply → Int, Preserves R (modifySupply fun p => { p with totalRewardFundSteem := f p })]

deriving instance Preserves R for returnToRewardFund, claimRshareReward

variable [∀ n a, Preserves R (createVesting n a)] [∀ n f, Preserves R (modifyRewards n f)]

instance {authorTokens routes} : Preserves R (payBeneficiaries authorTokens routes) := by
  induction routes with
  | nil => unfold payBeneficiaries; infer_instance
  | cons first rest ih => unfold payBeneficiaries; infer_instance

variable [∀ delegatee claim d, Preserves R (payDelegator delegatee claim d)]

instance {delegatee claim rates} : Preserves R (payDelegators delegatee claim rates) := by
  induction rates with
  | nil => unfold payDelegators; infer_instance
  | cons first rest ih => unfold payDelegators; infer_instance

deriving instance Preserves R for payCurator

instance {info p maxRewards votes left} : Preserves R (payVotes info p maxRewards votes left) := by
  induction votes generalizing left with
  | nil => unfold payVotes; infer_instance
  | cons first rest ih => unfold payVotes; infer_instance

variable [∀ n x, Preserves R (createSbd n x)] [∀ old new fuel key, Preserves R (adjustRshares2 old new fuel key)]
  [∀ k x, Preserves R (setNetRshares k x)] [∀ k f, Preserves R (modifyPayout k f)]
  [∀ f, Preserves R (updateCommentVotes f)]

deriving instance Preserves R for payVoters, payCuratorsCounted, payReward, payComment, cashoutCommentHelper

variable [∀ key, Preserves R (cashoutCommentHelper key)]

deriving instance Preserves R for processCommentCashout

end Footprints

end Golos
