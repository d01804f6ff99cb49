import Golos.Lib.Shares
import Golos.Chain.Curation

/-! # The payment of curators

`pay_curators` shares a reward among the votes that `comment_curation_info` lists, by their
weights; a vote with delegators is shared with them.  What the auction window took is for the
votes after the window, for the author, or for the reward fund.  Every share is rounded down,
and the heaviest vote after the window, or whoever the window's part is for, gets the rest.

* `Paid` — what a list of payments changes;
* `payCurators_conserves` — no payment is negative, and the payments, what is returned to the
  reward fund and what is left unclaimed are the reward.
-/

namespace Golos

open Stateful Shares Database List

variable {s t : Database} {delegatee : AccountName} {fullList : Bool}

/-! ## Payments -/

/-- Whom a part of a curation reward is paid to, and where it is counted. -/
inductive Payee where
  | curator | delegator
  deriving DecidableEq

structure CurationPayment where
  account : AccountName
  payee : Payee
  amount : Int

/-- The sum of payments. -/
def paidSum (l : List CurationPayment) : Int := (l.map (·.amount)).sum

/-- What an account is paid in one role. -/
def paidTo (payee : Payee) (name : AccountName) (l : List CurationPayment) : Int :=
  paidSum (l.filter fun x => x.payee = payee ∧ x.account = name)

def Database.rewardsOf (s : Database) (name : AccountName) : Option RewardTotals :=
  (s.accounts.find? name).map (·.rewards)

/-- The effect of payments: on what is counted at the accounts, and on the funds. -/
structure Paid (l : List CurationPayment) (s t : Database) : Prop where
  rewards : ∀ name, t.rewardsOf name = (s.rewardsOf name).map fun r => { r with
    curationRewards := r.curationRewards + paidTo .curator name l
    delegationRewards := r.delegationRewards + paidTo .delegator name l }
  vestingFund : t.supply.totalVestingFundSteem = s.supply.totalVestingFundSteem + paidSum l
  rewardFund : t.supply.totalRewardFundSteem = s.supply.totalRewardFundSteem

section Payments

variable {u : Database} {l l' : List CurationPayment} {amount amount' : Int} {name : AccountName} {payee : Payee}

@[simp] theorem paidSum_append : paidSum (l ++ l') = paidSum l + paidSum l' := by
  simp [paidSum]

@[simp] theorem paidTo_append : paidTo payee name (l ++ l') = paidTo payee name l + paidTo payee name l' := by
  simp [paidTo]

theorem Paid.nil : Paid [] s s := by
  refine ⟨fun name => ?_, by simp [paidSum], rfl⟩
  cases s.rewardsOf name <;> simp [paidTo, paidSum]

theorem Paid.append (first : Paid l s t) (second : Paid l' t u) : Paid (l ++ l') s u := by
  refine ⟨fun name => ?_, ?_, second.rewardFund.trans first.rewardFund⟩
  · rw [second.rewards, first.rewards]
    cases s.rewardsOf name <;> simp [add_assoc]
  · rw [second.vestingFund, first.vestingFund, paidSum_append, add_assoc]

/-- Payments of an amount in all, none of them negative. -/
def PaysOut (amount : Int) (s t : Database) : Prop :=
  ∃ l, Paid l s t ∧ (∀ x ∈ l, 0 ≤ x.amount) ∧ paidSum l = amount

theorem PaysOut.zero : PaysOut 0 s s := ⟨[], .nil, by simp, rfl⟩

theorem PaysOut.nonneg (pays : PaysOut amount s t) : 0 ≤ amount := by
  obtain ⟨l, _, nonneg, rfl⟩ := pays
  exact sum_nonneg fun x member => by
    obtain ⟨y, listed, rfl⟩ := mem_map.mp member
    exact nonneg y listed

theorem PaysOut.add (first : PaysOut amount s t) (second : PaysOut amount' t u) : PaysOut (amount + amount') s u := by
  obtain ⟨l, paid, nonneg, rfl⟩ := first
  obtain ⟨l', paid', nonneg', rfl⟩ := second
  refine ⟨l ++ l', paid.append paid', fun x member => ?_, paidSum_append⟩
  exact (mem_append.mp member).elim (nonneg x) (nonneg' x)

end Payments

/-! ## One vote -/

section Vote

variable {s : Database} {claim : Int}

/-- What neither counts a reward nor changes a fund. -/
abbrev keepsRewards : Footprint
  | .rewards | .supply => false
  | _ => true

theorem rewardsOf_of_within (within : Within keepsRewards s t) (name : AccountName) :
    t.rewardsOf name = s.rewardsOf name := by
  have same : t.accounts.view (·.rewards) = s.accounts.view (·.rewards) := within .rewards rfl
  exact Store.find?_eq_of_view same name

/-- `create_vesting` puts the tokens into the vesting fund, and counts no reward. -/
theorem createVesting_fund {name : AccountName} {amount : Int} :
    Ensures s (createVesting name (.steem amount)) fun _ t => (∀ name, t.rewardsOf name = s.rewardsOf name) ∧
      t.supply.totalVestingFundSteem = s.supply.totalVestingFundSteem + amount ∧
      t.supply.totalRewardFundSteem = s.supply.totalRewardFundSteem := by
  simp only [createVesting, ensures_steps]
  refine ensures_frame (Within keepsRewards) fun _ t₁ within₁ => ?_
  refine ensures_frame (Within keepsRewards) fun _ t₂ within₂ => ?_
  refine ensures_frame (Within keepsRewards) fun _ t₃ within₃ => ?_
  simp only [amountIn, modifySupply, ensures_steps]
  intro _
  refine ensures_frame (Within keepsRewards) fun _ t₄ within₄ => ?_
  have within : Within keepsRewards s t₃ :=
    trans_of (Within keepsRewards) within₁ (trans_of (Within keepsRewards) within₂ within₃)
  have before : t₃.supply = s.supply := within .supply rfl
  have after := within₄ .supply rfl
  simp only [Cell.read] at after
  rw [after, before]
  refine ⟨fun name => ?_, rfl, rfl⟩
  rw [rewardsOf_of_within within₄]
  exact rewardsOf_of_within within name

/-- A payment: the tokens are turned into vesting shares, and the reward is counted. -/
theorem paid_of_counted {u : Database} {x : CurationPayment} {f : RewardTotals → RewardTotals}
    (vested : (∀ name, t.rewardsOf name = s.rewardsOf name) ∧
      t.supply.totalVestingFundSteem = s.supply.totalVestingFundSteem + x.amount ∧
      t.supply.totalRewardFundSteem = s.supply.totalRewardFundSteem) (counts : ∀ r, f r = { r with
      curationRewards := r.curationRewards + if x.payee = .curator then x.amount else 0
      delegationRewards := r.delegationRewards + if x.payee = .delegator then x.amount else 0 })
    (run : modifyRewards x.account f t = .ok ((), u)) : Paid [x] s u := by
  simp only [modifyRewards, updateAccount, updateAccounts, getAccount, bind_eq_ok, require_eq_ok,
    modify_eq_ok] at run
  obtain ⟨a, _, ⟨_, _, ⟨rfl, rfl⟩, found, rfl⟩, rfl⟩ := run
  refine ⟨fun name => ?_, ?_, vested.2.2⟩
  · rw [← vested.1, rewardsOf, Store.find?_modify]
    split
    next same =>
      subst same
      cases payee : x.payee <;> cases found' : t.accounts.find? x.account <;>
        simp [rewardsOf, found', counts, paidTo, paidSum, payee]
    next other =>
      have nothing (payee : Payee) : paidTo payee name [x] = 0 := by
        rw [paidTo, filter_eq_nil_iff.mpr]
        · rfl
        · intro y member
          rw [mem_singleton.mp member]
          simp [Ne.symm other]
      cases found' : t.accounts.find? name <;> simp [rewardsOf, found', nothing]
  · simp [vested.2.1, paidSum]

/-- The product wraps around in 64 bits, which only lowers a claim. -/
theorem delegatorClaim_le (rate : Nat) (nonneg : 0 ≤ claim) :
    ((claim % 2 ^ 64).toNat * rate % 2 ^ 64 / 10000 : Nat) * (10000 : Int) ≤ claim * rate := by
  have low : (claim % 2 ^ 64).toNat ≤ claim.toNat := by omega
  have product : (claim % 2 ^ 64).toNat * rate % 2 ^ 64 ≤ claim.toNat * rate :=
    (Nat.mod_le ..).trans (Nat.mul_le_mul_right _ low)
  have rounded : (claim % 2 ^ 64).toNat * rate % 2 ^ 64 / 10000 * 10000 ≤ claim.toNat * rate :=
    (Nat.div_mul_le_self ..).trans product
  have isClaim : ((claim.toNat : Nat) : Int) = claim := Int.toNat_of_nonneg nonneg
  have cast : (((claim % 2 ^ 64).toNat * rate % 2 ^ 64 / 10000 * 10000 : Nat) : Int) ≤ (claim.toNat * rate : Nat) :=
    Int.ofNat_le.mpr rounded
  rw [Nat.cast_mul, Nat.cast_mul, isClaim] at cast
  exact cast

theorem payDelegator_pays {d : DelegatorVoteInterestRate} (nonneg : 0 ≤ claim) :
    Ensures s (payDelegator delegatee claim d) fun paid t =>
      PaysOut paid s t ∧ paid * 10000 ≤ claim * d.interestRate := by
  have bound := delegatorClaim_le d.interestRate nonneg
  unfold payDelegator
  generalize (claim % 2 ^ 64).toNat * d.interestRate % 2 ^ 64 / 10000 = delegatorClaim at *
  rw [ensures_ite]
  refine ⟨fun _ => ensures_pure.mpr ⟨.zero, ?_⟩, fun _ => ?_⟩
  · rw [zero_mul]
    exact mul_nonneg nonneg (Int.natCast_nonneg _)
  simp only [ensures_steps]
  refine createVesting_fund.mono fun vesting t vested => ?_
  refine ensures_frame (Within keepsRewards) fun _ t₁ within => ?_
  have same : t₁.supply = t.supply := within .supply rfl
  refine fun _ u run => ⟨⟨[⟨d.account, .delegator, delegatorClaim⟩], ?_, ?_, by simp [paidSum]⟩, bound⟩
  · refine paid_of_counted ⟨fun name => ?_, ?_, ?_⟩ (fun r => ?_) run
    · rw [rewardsOf_of_within within, vested.1]
    · rw [same, vested.2.1]
    · rw [same, vested.2.2]
    · simp
  · simp

theorem payDelegators_pays {rates : List DelegatorVoteInterestRate} (nonneg : 0 ≤ claim) :
    Ensures s (payDelegators delegatee claim rates) fun paid t =>
      PaysOut paid s t ∧ paid * 10000 ≤ claim * ((rates.map (·.interestRate)).sum : Nat) := by
  induction rates generalizing s with
  | nil => simp [payDelegators, PaysOut.zero]
  | cons d rest ih =>
    simp only [payDelegators, ensures_steps]
    refine (payDelegator_pays nonneg).mono fun paid t first => ?_
    refine ih.mono fun more u others => ⟨first.1.add others.1, ?_⟩
    simp only [map_cons, sum_cons, Nat.cast_add]
    linarith [first.2, others.2]

/-- What a curator is paid. -/
theorem payVoter_pays (voter : AccountName) (nonneg : 0 ≤ claim) : Ensures s (do
      let _ ← createVesting voter (.steem claim)
      modifyRewards voter fun r => { r with curationRewards := r.curationRewards + claim }) fun _ t =>
        PaysOut claim s t := by
  rw [ensures_bind]
  refine createVesting_fund.mono fun _ t vested => fun _ u run => ⟨[⟨voter, .curator, claim⟩], ?_, ?_,
    by simp [paidSum]⟩
  · exact paid_of_counted vested (fun r => by simp) run
  · simpa using nonneg

/-- All of a claim is paid, to the delegators and to the voter. -/
theorem payCurator_pays {voter : AccountName} {vote : CommentVote} (nonneg : 0 ≤ claim)
    (rates : (vote.delegatorVoteInterestRates.map (·.interestRate)).sum ≤ 10000) :
    Ensures s (payCurator voter vote claim) fun _ t => PaysOut claim s t := by
  simp only [payCurator, getAccount, ensures_bind, ensures_get, ensures_require, ensures_ite]
  refine fun a _ => ⟨fun _ => ?_, fun _ => ?_⟩
  · refine (payDelegators_pays nonneg).mono fun paid t pays => ?_
    have all : claim * ((vote.delegatorVoteInterestRates.map (·.interestRate)).sum : Nat) ≤ claim * 10000 :=
      mul_le_mul_of_nonneg_left (by exact_mod_cast rates) nonneg
    have rest : 0 ≤ claim - paid := by linarith [pays.2]
    have own := payVoter_pays (s := t) voter rest
    rw [ensures_bind] at own
    refine own.mono fun _ t₁ own => own.mono fun _ u own => ?_
    have both := pays.1.add own
    rw [add_sub_cancel] at both
    exact ensures_pure.mpr both
  · rw [ensures_pure, sub_zero]
    have own := payVoter_pays (s := s) voter nonneg
    rw [ensures_bind] at own
    exact own.mono fun _ t own => own.mono fun _ u own => ensures_pure.mpr own

end Vote

/-! ## All votes -/

section Votes

variable {s : Database} {info : CurationInfo} {p : CommentPayout} {maxRewards : Int} {votes : List VoteInfo}
  {start : CuratorPayout}

/-- The weight of a vote in what the auction window took. -/
def CommentPayout.windowWeight (p : CommentPayout) (v : VoteInfo) : Nat :=
  if p.sharesAuctionWindow v then v.weight.toNat else 0

/-- The listed weights are within the totals they are divided by. -/
abbrev CurationInfo.Adds (info : CurationInfo) (p : CommentPayout) : Prop :=
  info.auctionWindowWeight.toNat + listedSum info.voteList ≤ info.totalVoteWeight.toNat ∧
    listedAfter p.auctionWindowSize info.voteList ≤ info.votesAfterAuctionWindowWeight.toNat

/-- A claim is the share of the vote in the reward, and its share in what the window took. -/
theorem claim_le {v : VoteInfo} (nonneg : 0 ≤ maxRewards) :
    info.claim p maxRewards v ≤ share maxRewards.toNat info.totalVoteWeight.toNat v.weight.toNat +
      share (share maxRewards.toNat info.totalVoteWeight.toNat info.auctionWindowWeight.toNat)
        info.votesAfterAuctionWindowWeight.toNat (p.windowWeight v) := by
  have low (w : Nat) : toUint128 (maxRewards * w) ≤ maxRewards.toNat * w := by
    rw [toUint128]
    have isProduct : ((maxRewards.toNat * w : Nat) : Int) = maxRewards * w := by
      rw [Nat.cast_mul, Int.toNat_of_nonneg nonneg]
    omega
  have first : toUint128 (maxRewards * v.weight.toNat) / info.totalVoteWeight.toNat % 2 ^ 64 ≤
      share maxRewards.toNat info.totalVoteWeight.toNat v.weight.toNat :=
    (Nat.mod_le ..).trans (Nat.div_le_div_right (low _))
  simp only [CurationInfo.claim]
  split
  next shares =>
    rw [CommentPayout.windowWeight, if_pos shares.1]
    refine (Nat.mod_le ..).trans (Nat.add_le_add first (Nat.div_le_div_right ?_))
    exact (Nat.mod_le ..).trans (Nat.mul_le_mul_right _ (Nat.div_le_div_right (low _)))
  · exact first.trans (Nat.le_add_right ..)

theorem windowWeight_le :
    p.windowWeight v ≤ if v.vote.auctionTime = p.auctionWindowSize then v.weight.toNat else 0 := by
  rw [CommentPayout.windowWeight]
  by_cases shares : p.sharesAuctionWindow v
  · have atEnd : v.vote.auctionTime = p.auctionWindowSize := by
      simp only [CommentPayout.sharesAuctionWindow, Bool.and_eq_true, decide_eq_true_eq] at shares
      exact shares.2
    rw [if_pos shares, if_pos atEnd]
  · rw [if_neg shares]
    exact Nat.zero_le _

/-- All claims together are no more than the reward. -/
theorem sum_claim_le (nonneg : 0 ≤ maxRewards) (positive : 0 < info.totalVoteWeight) (adds : info.Adds p) :
    (info.voteList.map (info.claim p maxRewards)).sum ≤ maxRewards.toNat := by
  refine (sum_le_sum fun v _ => claim_le nonneg).trans ?_
  rw [sum_map_add]
  refine sum_share_add_le (UInt64.lt_iff_toNat_lt.mp positive) adds.1 (le_trans ?_ adds.2)
  exact sum_le_sum fun _ _ => windowWeight_le

/-- The loop pays no more than there are claims, so something is left that is not negative. -/
theorem payVotes_pays (claims : ((votes.map (info.claim p maxRewards)).sum : Int) ≤ start.unclaimed)
    (rates : ∀ v ∈ votes, (v.vote.delegatorVoteInterestRates.map (·.interestRate)).sum ≤ 10000) :
    Ensures s (payVotes info p maxRewards votes start) fun left t =>
      PaysOut (start.unclaimed - left.unclaimed) s t ∧ 0 ≤ left.unclaimed ∧
        ∀ v ∈ left.heaviest, start.heaviest = some v ∨ v ∈ votes := by
  induction votes generalizing s start with
  | nil =>
    refine ensures_pure.mpr ⟨?_, by simpa using claims, fun v => .inl⟩
    rw [sub_self]
    exact .zero
  | cons v rest ih =>
    simp only [map_cons, sum_cons] at claims
    rw [forall_mem_cons] at rates
    rw [payVotes, ensures_ite, ensures_ite]
    refine ⟨fun _ => ?_, fun _ => ⟨fun _ => ?_, fun _ => ?_⟩⟩
    · -- the heaviest vote after the window is paid last
      have further := @ih s { start with heaviest := some v } (by dsimp only; omega) rates.2
      refine further.mono fun left t pays => ⟨pays.1, pays.2.1, fun v' isLast => ?_⟩
      cases pays.2.2 v' isLast with
      | inl same =>
        cases same
        exact .inr mem_cons_self
      | inr member => exact .inr (mem_cons_of_mem _ member)
    · simp only [ensures_steps, toShare_eq_ok]
      rintro claim ⟨_, rfl⟩
      refine (payCurator_pays (Int.natCast_nonneg _) rates.1).mono fun paid t first => ?_
      refine (ih (by dsimp only; omega) rates.2).mono fun left u others => ?_
      refine ⟨?_, others.2.1, fun v' isLast => ?_⟩
      · have both := first.add others.1
        convert both using 1
        dsimp only
        omega
      · exact (others.2.2 v' isLast).imp_right (mem_cons_of_mem _)
    · -- a claim of nothing ends the loop
      rw [ensures_pure, sub_self]
      exact ⟨.zero, by omega, fun v => .inl⟩

theorem payVoters_pays (nonneg : 0 ≤ maxRewards) (adds : info.Adds p)
    (rates : ∀ v ∈ info.voteList, (v.vote.delegatorVoteInterestRates.map (·.interestRate)).sum ≤ 10000) :
    Ensures s (payVoters info p maxRewards) fun left t => PaysOut (maxRewards - left.1) s t ∧ 0 ≤ left.1 := by
  rw [payVoters, ensures_ite]
  refine ⟨fun weighed => ?_, fun _ => ?_⟩
  · have claims := sum_claim_le nonneg weighed.1 adds
    rw [ensures_bind]
    refine (payVotes_pays (by dsimp only; omega) rates).mono fun left t pays => ?_
    cases isLast : left.heaviest with
    | none => exact ensures_pure.mpr ⟨pays.1, pays.2.1⟩
    | some v =>
      have listed : v ∈ info.voteList := by
        cases pays.2.2 v (by rw [isLast]; rfl) with
        | inl absent => cases absent
        | inr member => exact member
      refine ensures_bind.mpr ((payCurator_pays pays.2.1 (rates v listed)).mono fun _ u last =>
        ensures_pure.mpr ⟨?_, le_rfl⟩)
      have both := pays.1.add last
      rwa [sub_add_cancel, ← sub_zero maxRewards] at both
  · rw [ensures_pure, sub_self]
    exact ⟨.zero, nonneg⟩

/-- The votes that are listed are some of the votes. -/
theorem weighVotes_sublist {curve : CurationCurve} {window : Nat}
    {all : List (AccountName × CommentVote)} {st st' : WeightState} {list : List VoteInfo}
    (run : weighVotes curve window fullList all st = .ok (list, st')) :
    (list.map fun v => (v.voter, v.vote)).Sublist all := by
  induction all generalizing st list with
  | nil =>
    cases run
    exact Sublist.refl _
  | cons first rest ih =>
    simp only [weighVotes, except_bind_eq_ok, Prod.exists] at run
    obtain ⟨weight, st₁, _, others, st₂, isRest, done⟩ := run
    cases done
    split
    · exact (ih isRest).cons_cons first
    · exact (ih isRest).cons first

theorem curationInfo_mem {key : CommentKey} (run : s.curationInfo key p fullList = .ok info) :
    ∀ v ∈ info.voteList, (v.voter, v.vote) ∈ s.votesOn key := by
  rw [curationInfo] at run
  split at run
  · cases run
    simp
  · simp only [except_bind_eq_ok, Prod.exists] at run
    obtain ⟨list, st, weighed, done⟩ := run
    cases done
    intro v member
    exact (weighVotes_sublist weighed).subset
      (mem_map.mpr ⟨v, (perm_insertionSort _ list).mem_iff.mp member, rfl⟩)

/-- For the votes on any comment, if the weights of `comment_curation_info` do not wrap around and
the interest rates of no vote exceed 100%, `pay_curators` makes payments that are not negative,
and returns an amount to the reward fund and leaves one unclaimed that are not negative either;
together they are the reward. -/
theorem payCurators_conserves {key : CommentKey} {c : Comment} {l : List WeighedVote} (votesStored : s.VotesStored)
    (found : s.comments.find? key = some c) (run : s.curationInfo key c.payout false = .ok info)
    (weighed : s.curveWeights key c.payout false = .ok l)
    (fits : WeighedVote.lostSum c.payout.auctionWindowSize l +
      WeighedVote.countedSum c.payout.auctionWindowSize l < 2 ^ 64)
    (rates : ∀ v ∈ s.votesOn key, (v.2.delegatorVoteInterestRates.map (·.interestRate)).sum ≤ 10000)
    (nonneg : 0 ≤ maxRewards) :
    Ensures s (payCurators info c.payout maxRewards) fun unclaimed t => ∃ payments t' returned,
      Paid payments s t' ∧ (∀ x ∈ payments, 0 ≤ x.amount) ∧
      t = { t' with supply := { t'.supply with
        totalRewardFundSteem := s.supply.totalRewardFundSteem + returned } } ∧
      0 ≤ returned ∧ 0 ≤ unclaimed ∧ paidSum payments + returned + unclaimed = maxRewards := by
  obtain ⟨info', run', sums⟩ := curationInfo_sums weighed
    (fun v isVote => (votesStored.votesOn found v isVote).inWindow)
    fits
  rw [run] at run'
  cases run'
  obtain ⟨total, auction, -, after, listed, listedAfter⟩ := sums
  have pays := @payVoters_pays s info c.payout maxRewards nonneg ⟨by omega, by omega⟩ fun v member =>
    rates _ (curationInfo_mem run v member)
  rw [payCurators, payCuratorsCounted, ensures_bind, ensures_bind]
  refine pays.mono fun left t pays => ?_
  obtain ⟨⟨payments, paid, each, sum⟩, unclaimed⟩ := pays
  rw [ensures_ite, ensures_pure, ensures_pure]
  refine ⟨fun _ => ?_, fun _ => ⟨payments, t, 0, paid, each, ?_, le_rfl, unclaimed, by omega⟩⟩
  · simp only [returnToRewardFund, modifySupply, ensures_steps]
    refine ⟨payments, t, left.1, paid, each, ?_, unclaimed, le_rfl, by omega⟩
    rw [paid.rewardFund]
  · rw [add_zero, ← paid.rewardFund]

/-- The weights of the two votes for Bob's post. -/
def upvotedInfo : CurationInfo :=
  { voteList := [⟨.bob, firstBob, 10000000000⟩]
    totalVoteWeight := 15000000000
    auctionWindowWeight := 5000000000
    votesAfterAuctionWindowWeight := 10000000000 }

/-- What is left for the author of the post. -/
def Database.unclaimedOf (s : Database) (info : CurationInfo) (maxRewards : Int) : Option Int :=
  (s.comments.find? (.bob, "post")).bind fun c => ((payCurators info c.payout maxRewards s).toOption).map (·.1)

theorem payCurators_conserves_upvoted : ∃ c t, upvoted.comments.find? (.bob, "post") = some c ∧
      upvoted.curationInfo (.bob, "post") c.payout false = .ok upvotedInfo ∧
      payCurators upvotedInfo c.payout 1000 upvoted = .ok (334, t) ∧
      ∃ payments returned, (∀ x ∈ payments, 0 ≤ x.amount) ∧ 0 ≤ returned ∧ paidSum payments + returned = 666 := by
  have unclaimed : upvoted.unclaimedOf upvotedInfo 1000 = some 334 := by decide +kernel
  obtain ⟨c, found, paid⟩ := Option.bind_eq_some_iff.mp unclaimed
  obtain ⟨⟨_, t⟩, done, same⟩ := Option.map_eq_some_iff.mp paid
  subst same
  have isDone : payCurators upvotedInfo c.payout 1000 upvoted = .ok (334, t) := by
    cases run : payCurators upvotedInfo c.payout 1000 upvoted with
    | error e => rw [run] at done; cases done
    | ok r => rw [run] at done; cases done; rfl
  have terms := postTerms_upvoted
  rw [postTerms, found] at terms
  simp only [Option.map_some, Option.some.injEq, Prod.mk.injEq] at terms
  obtain ⟨unpaid, window, curve⟩ := terms
  have run : upvoted.curationInfo (.bob, "post") c.payout false = .ok upvotedInfo := by
    rw [curationInfo_post postTerms_upvoted found, votesOn_upvoted]
    rfl
  have weighed : upvoted.curveWeights (.bob, "post") c.payout false =
      .ok [⟨firstAlice, 5000000000⟩, ⟨firstBob, 10000000000⟩] := by
    rw [Database.curveWeights, Database.curationCurve, unpaid, curve, votesOn_upvoted]
    rfl
  have conserves := payCurators_conserves upvoted_stored found run weighed (by rw [window]; decide)
    (by rw [votesOn_upvoted]; decide) (by decide : (0 : Int) ≤ 1000)
  obtain ⟨payments, _, returned, _, each, _, nonneg, _, sum⟩ := conserves _ _ isDone
  exact ⟨c, t, found, run, isDone, payments, returned, each, nonneg, by omega⟩

end Votes

end Golos
