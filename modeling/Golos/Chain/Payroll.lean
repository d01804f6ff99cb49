import Golos.Chain.CuratorPay
import Golos.Chain.Quantity

/-! # Who is paid, and what is reported

The loop of `pay_curators` goes through the listed votes from the heaviest on.  It passes over
the first vote cast after the auction window, which is paid the rest at the end, and it stops at
the first claim of zero.  `CurationInfo.roll` lists whom it pays and whom it does not reach.

* `payCuratorsCounted_eq` — `pay_curators` makes the payments of the roll, in its order;
* `payCurators_entitled_iff` — when every vote is paid its share;
* `payReward_reports_iff` — when the reported total is what the curators were paid.
-/

namespace Golos

open Stateful Shares Database List CurationInfo

variable {v : VoteInfo} {l : List VoteInfo} {α : Type} {amount claim : Int} {name delegatee : AccountName}
  {f : RewardTotals → RewardTotals}

/-! ## The roll -/

/-- The votes paid in the loop, the vote paid last, and the votes behind the end of the loop. -/
structure Payroll where
  inTurn : List VoteInfo
  last : Option VoteInfo
  unreached : List VoteInfo

namespace CurationInfo

variable (info : CurationInfo) (p : CommentPayout) (maxRewards : Int)

/-- The way of the loop over some votes, when `last` has been passed over. -/
def payroll : List VoteInfo → (last : Option VoteInfo) → Payroll
  | [], last => ⟨[], last, []⟩
  | v :: rest, last =>
    if p.sharesAuctionWindow v ∧ last.isNone then payroll rest (some v)
    else if 0 < info.claim p maxRewards v then
      { payroll rest last with inTurn := v :: (payroll rest last).inTurn }
    else ⟨[], last, v :: rest⟩

/-- The way of the loop over all votes; without weights or curation rewards it reaches nobody. -/
def roll : Payroll :=
  if 0 < info.totalVoteWeight ∧ p.allowCurationRewards then info.payroll p maxRewards info.voteList none
  else ⟨[], none, info.voteList⟩

/-- The claims of some votes together. -/
def claims (l : List VoteInfo) : Int := ((l.map (info.claim p maxRewards)).sum : Nat)

/-- What the loop leaves. -/
def rest : Int := maxRewards - info.claims p maxRewards (info.roll p maxRewards).inTurn

/-- What is paid for every vote of the roll: its claim, and to the last one what is left. -/
def payments : List (VoteInfo × Int) :=
  (info.roll p maxRewards).inTurn.map (fun v => (v, (info.claim p maxRewards v : Int))) ++
    (info.roll p maxRewards).last.toList.map fun v => (v, info.rest p maxRewards)

/-- What is left after all payments. -/
def unclaimed : Int := if (info.roll p maxRewards).last.isSome then 0 else info.rest p maxRewards

/-- Whether what is left goes back to the reward fund. -/
def Returns : Prop :=
  p.allowCurationRewards = false ∨ (p.auctionWindowRewardDestination ≠ .toAuthor ∧ 0 < info.unclaimed p maxRewards)

instance : Decidable (info.Returns p maxRewards) := inferInstanceAs (Decidable (_ ∨ _))

/-- What goes back to the reward fund. -/
def returned : Int := if info.Returns p maxRewards then info.unclaimed p maxRewards else 0

end CurationInfo

/-- The payment for a vote that has its turn. -/
def payClaim (info : CurationInfo) (p : CommentPayout) (maxRewards : Int) (v : VoteInfo) : Eval Int := do
  let claim ← fromExcept (toShare (info.claim p maxRewards v))
  payCurator v.voter v.vote claim

section Loop

variable {info : CurationInfo} {p : CommentPayout} {maxRewards : Int} {votes : List VoteInfo}

theorem claims_nil : info.claims p maxRewards [] = 0 := rfl

theorem claims_cons : info.claims p maxRewards (v :: l) = info.claim p maxRewards v + info.claims p maxRewards l := by
  simp [claims]

/-- What follows a claim knows its amount. -/
theorem payClaim_bind {k : Int → Int → Eval α} :
    (do
      let claim ← fromExcept (toShare (info.claim p maxRewards v))
      let paid ← payCurator v.voter v.vote claim
      k claim paid) = payClaim info p maxRewards v >>= k (info.claim p maxRewards v) := by
  rw [payClaim, bind_assoc]
  cases share : toShare (info.claim p maxRewards v) with
  | error e => rfl
  | ok claim =>
    obtain ⟨_, same⟩ := toShare_eq_ok.mp share
    simp only [fromExcept, pure_bind, same]

/-- The loop pays the votes that have their turn. -/
theorem payVotes_eq {start : CuratorPayout} :
    payVotes info p maxRewards votes start = (do
      let paid ← (info.payroll p maxRewards votes start.heaviest).inTurn.mapM (payClaim info p maxRewards)
      pure ⟨start.unclaimed - info.claims p maxRewards (info.payroll p maxRewards votes start.heaviest).inTurn,
        start.actual + paid.sum, (info.payroll p maxRewards votes start.heaviest).last⟩) := by
  induction votes generalizing start with
  | nil => simp [payVotes, payroll, claims_nil]
  | cons v rest ih =>
    rw [payVotes, payroll]
    split
    · rw [ih]
    · split
      · rw [payClaim_bind]
        simp only [ih, mapM_cons, bind_assoc, pure_bind, sum_cons, claims_cons, add_assoc,
          sub_sub]
      · simp [claims_nil]

/-- The payments to votes, the last one after those in turn; `actual_rewards`, which the last
payment overwrites. -/
def payRoll (info : CurationInfo) (p : CommentPayout) (maxRewards : Int) : Eval Int := do
  let paid ← (info.roll p maxRewards).inTurn.mapM (payClaim info p maxRewards)
  (info.roll p maxRewards).last.elim (pure paid.sum) fun v =>
    payCurator v.voter v.vote (info.rest p maxRewards)

theorem payVoters_eq : payVoters info p maxRewards = (do
    let actual ← payRoll info p maxRewards
    pure (info.unclaimed p maxRewards, actual)) := by
  rw [payVoters, payRoll, unclaimed, rest, roll, bind_assoc]
  split
  · rw [payVotes_eq, bind_assoc]
    funext paid
    cases (info.payroll p maxRewards info.voteList none).last with
    | none => simp
    | some v => simp
  · simp [claims_nil]

/-- `pay_curators` makes the payments of the roll and returns what it has to. -/
theorem payCuratorsCounted_eq : payCuratorsCounted info p maxRewards = (do
    let actual ← payRoll info p maxRewards
    when (info.Returns p maxRewards) (returnToRewardFund (info.returned p maxRewards))
    pure (info.unclaimed p maxRewards - info.returned p maxRewards, actual)) := by
  rw [payCuratorsCounted, payVoters_eq, bind_assoc]
  congr 1
  funext actual
  rw [pure_bind, returned]
  by_cases returns : info.Returns p maxRewards
  · have asWritten : !p.allowCurationRewards ∨
        (p.auctionWindowRewardDestination ≠ .toAuthor ∧ 0 < info.unclaimed p maxRewards) := by
      simpa [Returns] using returns
    simp only [when, if_pos returns, if_pos asWritten, sub_self]
  · have asWritten : ¬(!p.allowCurationRewards ∨
        (p.auctionWindowRewardDestination ≠ .toAuthor ∧ 0 < info.unclaimed p maxRewards)) := by
      simpa [Returns] using returns
    simp only [when, if_neg returns, if_neg asWritten, sub_zero, pure_bind]

end Loop

/-! ## Who is entitled -/

namespace CurationInfo

variable (info : CurationInfo) (p : CommentPayout) (maxRewards : Int)

/-- The share of a vote: its part of the reward, and its part of what the auction window took. -/
def shareOf (v : VoteInfo) : Nat :=
  share maxRewards.toNat info.totalVoteWeight.toNat v.weight.toNat +
    share (share maxRewards.toNat info.totalVoteWeight.toNat info.auctionWindowWeight.toNat)
      info.votesAfterAuctionWindowWeight.toNat (p.windowWeight v)

/-- Every vote with a share is paid at least its share. -/
def PaysEveryone : Prop :=
  ∀ v ∈ info.voteList, 0 < info.shareOf p maxRewards v →
    ∃ amount, (v, amount) ∈ info.payments p maxRewards ∧ info.shareOf p maxRewards v ≤ amount

/-- Nothing is returned while there is a vote from after the auction window. -/
def ReturnsNothing : Prop :=
  (∃ v ∈ info.voteList, v.vote.auctionTime = p.auctionWindowSize) → info.returned p maxRewards = 0

/-- The loop ends too late to do harm. -/
structure LeavesNobodyOut : Prop where
  /-- The votes behind the first claim of zero have no share. -/
  reached : ∀ v ∈ (info.roll p maxRewards).unreached, info.shareOf p maxRewards v = 0
  /-- If the first vote after the auction window is behind it, nothing is left. -/
  found : p.allowCurationRewards = true → (info.roll p maxRewards).last = none →
    (∃ v ∈ info.voteList, v.vote.auctionTime = p.auctionWindowSize) → info.rest p maxRewards ≤ 0
  /-- Without curation rewards there is nothing to share. -/
  allowed : p.allowCurationRewards = false →
    (∃ v ∈ info.voteList, v.vote.auctionTime = p.auctionWindowSize) → maxRewards = 0
  /-- No claim wraps around. -/
  exact : ∀ v ∈ (info.roll p maxRewards).inTurn, info.shareOf p maxRewards v ≤ info.claim p maxRewards v
  /-- Enough is left for the vote that is paid last. -/
  enough : ∀ v ∈ (info.roll p maxRewards).last, 0 < info.shareOf p maxRewards v →
    info.shareOf p maxRewards v ≤ info.rest p maxRewards

end CurationInfo

section Entitled

variable {s : Database} {key : CommentKey} {info : CurationInfo} {p : CommentPayout} {maxRewards : Int}
  {votes : List VoteInfo} {last : Option VoteInfo}

/-- The roll lists every vote once. -/
theorem payroll_perm : (last.toList ++ votes).Perm
    ((info.payroll p maxRewards votes last).last.toList ++ ((info.payroll p maxRewards votes last).inTurn ++
      (info.payroll p maxRewards votes last).unreached)) := by
  induction votes generalizing last with
  | nil => simp [payroll]
  | cons v rest ih =>
    rw [payroll]
    split
    next first =>
      have absent : last = none := Option.isNone_iff_eq_none.mp first.2
      subst absent
      exact @ih (some v)
    · split
      · refine perm_middle.trans ((ih.cons v).trans ?_)
        exact perm_middle.symm
      · exact Perm.refl _

theorem roll_perm : info.voteList.Perm ((info.roll p maxRewards).last.toList ++
    ((info.roll p maxRewards).inTurn ++ (info.roll p maxRewards).unreached)) := by
  rw [roll]
  split
  · have perm := @payroll_perm info p maxRewards info.voteList none
    exact perm
  · exact Perm.refl _

theorem mem_payments : (v, amount) ∈ info.payments p maxRewards ↔
    (v ∈ (info.roll p maxRewards).inTurn ∧ amount = info.claim p maxRewards v) ∨
      (v ∈ (info.roll p maxRewards).last ∧ amount = info.rest p maxRewards) := by
  simp only [payments, mem_append, mem_map, Prod.mk.injEq, Option.mem_toList]
  refine or_congr ⟨?_, ?_⟩ ⟨?_, ?_⟩
  · rintro ⟨_, member, rfl, rfl⟩
    exact ⟨member, rfl⟩
  · rintro ⟨member, rfl⟩
    exact ⟨v, member, rfl, rfl⟩
  · rintro ⟨_, member, rfl, rfl⟩
    exact ⟨member, rfl⟩
  · rintro ⟨member, rfl⟩
    exact ⟨v, member, rfl, rfl⟩

/-- The three parts of the roll have no vote in common. -/
theorem roll_disjoint (nodup : info.voteList.Nodup) :
    (v ∈ (info.roll p maxRewards).inTurn → v ∉ (info.roll p maxRewards).last) ∧
      (v ∈ (info.roll p maxRewards).unreached →
        v ∉ (info.roll p maxRewards).inTurn ∧ v ∉ (info.roll p maxRewards).last) := by
  have parts := (@roll_perm info p maxRewards).nodup_iff.mp nodup
  rw [nodup_append, nodup_append] at parts
  obtain ⟨_, ⟨_, _, turnApart⟩, lastApart⟩ := parts
  refine ⟨fun inTurn isLast => ?_, fun unreached => ⟨fun inTurn => ?_, fun isLast => ?_⟩⟩
  · exact lastApart v (Option.mem_toList.mpr isLast) v (mem_append_left _ inTurn) rfl
  · exact turnApart v inTurn v unreached rfl
  · exact lastApart v (Option.mem_toList.mpr isLast) v (mem_append_right _ unreached) rfl

theorem mem_voteList : v ∈ info.voteList ↔ v ∈ (info.roll p maxRewards).last ∨
    v ∈ (info.roll p maxRewards).inTurn ∨ v ∈ (info.roll p maxRewards).unreached := by
  rw [(@roll_perm info p maxRewards).mem_iff, mem_append, mem_append, Option.mem_toList,
    Option.mem_def]

theorem paysEveryone_iff (nodup : info.voteList.Nodup) : info.PaysEveryone p maxRewards ↔
    (∀ v ∈ (info.roll p maxRewards).unreached, info.shareOf p maxRewards v = 0) ∧
      (∀ v ∈ (info.roll p maxRewards).inTurn, info.shareOf p maxRewards v ≤ info.claim p maxRewards v) ∧
      ∀ v ∈ (info.roll p maxRewards).last, 0 < info.shareOf p maxRewards v →
        info.shareOf p maxRewards v ≤ info.rest p maxRewards := by
  refine ⟨fun pays => ⟨fun v unreached => ?_, fun v inTurn => ?_, fun v isLast positive => ?_⟩, ?_⟩
  · -- a share behind the end of the loop would have to be paid
    by_contra positive
    obtain ⟨amount, paid, _⟩ := pays v (mem_voteList.mpr (.inr (.inr unreached))) (Nat.pos_of_ne_zero positive)
    obtain ⟨notInTurn, notLast⟩ := (roll_disjoint nodup).2 unreached
    rcases mem_payments.mp paid with ⟨inTurn, _⟩ | ⟨isLast, _⟩
    · exact notInTurn inTurn
    · exact notLast isLast
  · by_cases nothing : info.shareOf p maxRewards v = 0
    · omega
    · obtain ⟨amount, paid, enough⟩ := pays v (mem_voteList.mpr (.inr (.inl inTurn))) (Nat.pos_of_ne_zero nothing)
      rcases mem_payments.mp paid with ⟨_, isClaim⟩ | ⟨isLast, _⟩
      · omega
      · exact absurd isLast ((roll_disjoint nodup).1 inTurn)
  · obtain ⟨amount, paid, enough⟩ := pays v (mem_voteList.mpr (.inl isLast)) positive
    rcases mem_payments.mp paid with ⟨inTurn, _⟩ | ⟨_, isRest⟩
    · exact absurd isLast ((roll_disjoint nodup).1 inTurn)
    · omega
  · rintro ⟨reached, exactly, enough⟩ v listed positive
    rcases mem_voteList.mp listed with isLast | inTurn | unreached
    · exact ⟨_, mem_payments.mpr (.inr ⟨isLast, rfl⟩), enough v isLast positive⟩
    · exact ⟨_, mem_payments.mpr (.inl ⟨inTurn, rfl⟩), by exact_mod_cast exactly v inTurn⟩
    · exact absurd (reached v unreached) (Nat.ne_of_gt positive)

theorem returned_eq_zero_iff (toCurators : p.auctionWindowRewardDestination = .toCurators) :
    info.returned p maxRewards = 0 ↔
      (p.allowCurationRewards = true → (info.roll p maxRewards).last = none → info.rest p maxRewards ≤ 0) ∧
        (p.allowCurationRewards = false → maxRewards = 0) := by
  cases allow : p.allowCurationRewards with
  | false =>
    have nobody : info.roll p maxRewards = ⟨[], none, info.voteList⟩ := by simp [roll, allow]
    simp [returned, Returns, unclaimed, rest, allow, nobody, claims_nil]
  | true =>
    have notAuthor : p.auctionWindowRewardDestination ≠ .toAuthor := by rw [toCurators]; decide
    cases isLast : (info.roll p maxRewards).last with
    | some v => simp [returned, unclaimed, isLast]
    | none =>
      have isRest : info.unclaimed p maxRewards = info.rest p maxRewards := by simp [unclaimed, isLast]
      have returns : info.Returns p maxRewards ↔ 0 < info.rest p maxRewards := by
        simp [Returns, allow, notAuthor, isRest]
      rw [returned, isRest]
      by_cases left : 0 < info.rest p maxRewards
      · rw [if_pos (returns.mpr left)]
        refine ⟨fun zero => by omega, fun absent => ?_⟩
        have := absent.1 rfl rfl
        omega
      · rw [if_neg (left ∘ returns.mp)]
        exact ⟨fun _ => ⟨fun _ _ => not_lt.mp left, fun refused => by cases refused⟩, fun _ => rfl⟩

theorem nodup_votesOn : ((s.votesOn key).map Prod.fst).Nodup := by
  have keys : ((s.commentVotes.entries.filter fun e => e.1.1 = key).map Prod.fst).Nodup :=
    (filter_sublist.map Prod.fst).nodup s.commentVotes.nodup
  rw [votesOn, map_map]
  refine Nodup.map_on (fun e member e' member' same => ?_) (Nodup.of_map _ keys)
  have key₁ : e.1.1 = key := by simpa using (mem_filter.mp member).2
  have key₂ : e'.1.1 = key := by simpa using (mem_filter.mp member').2
  exact inj_on_of_nodup_map keys member member' (Prod.ext (key₁.trans key₂.symm) same)

/-- The votes of a comment are listed once. -/
theorem curationInfo_nodup {fullList : Bool} (run : s.curationInfo key p fullList = .ok info) :
    info.voteList.Nodup := by
  rw [curationInfo] at run
  split at run
  · cases run
    exact nodup_nil
  · simp only [except_bind_eq_ok, Prod.exists] at run
    obtain ⟨list, st, weighed, done⟩ := run
    cases done
    have listed : (list.map fun v => (v.voter, v.vote)).Nodup :=
      (weighVotes_sublist weighed).nodup (Nodup.of_map Prod.fst nodup_votesOn)
    exact (perm_insertionSort _ list).nodup_iff.mpr (Nodup.of_map _ listed)

theorem weight_le_listedSum (listed : v ∈ info.voteList) : v.weight.toNat ≤ listedSum info.voteList :=
  single_le_sum (fun _ _ => Nat.zero_le _) _ (mem_map_of_mem listed)

theorem windowWeight_le_listedAfter (listed : v ∈ info.voteList) :
    p.windowWeight v ≤ listedAfter p.auctionWindowSize info.voteList := by
  have each : (if v.vote.auctionTime = p.auctionWindowSize then v.weight.toNat else 0) ≤
      listedAfter p.auctionWindowSize info.voteList :=
    single_le_sum (fun _ _ => Nat.zero_le _) _ (mem_map_of_mem listed)
  exact windowWeight_le.trans each

/-- Products of an amount and a weight do not wrap around. -/
theorem toUint128_mul {w : UInt64} (nonneg : 0 ≤ maxRewards) (small : maxRewards < 2 ^ 63) :
    toUint128 (maxRewards * w.toNat) = maxRewards.toNat * w.toNat := by
  have weight := w.toNat_lt
  have isProduct : ((maxRewards.toNat * w.toNat : Nat) : Int) = maxRewards * w.toNat := by
    rw [Nat.cast_mul, Int.toNat_of_nonneg nonneg]
  have bound : maxRewards.toNat * w.toNat ≤ 2 ^ 63 * 2 ^ 64 :=
    Nat.mul_le_mul (by omega) (le_of_lt weight)
  rw [toUint128]
  omega

/-- With weights that do not wrap around a claim is the share. -/
theorem claim_eq_shareOf (nonneg : 0 ≤ maxRewards) (small : maxRewards < 2 ^ 63)
    (adds : info.Adds p) (listed : v ∈ info.voteList) : info.claim p maxRewards v = info.shareOf p maxRewards v := by
  obtain ⟨all, after⟩ := adds
  have weight := weight_le_listedSum listed
  have windowWeight : p.windowWeight v ≤ info.votesAfterAuctionWindowWeight.toNat :=
    (windowWeight_le_listedAfter listed).trans after
  have first : share maxRewards.toNat info.totalVoteWeight.toNat v.weight.toNat ≤ maxRewards.toNat :=
    share_le (by omega)
  have window : share maxRewards.toNat info.totalVoteWeight.toNat info.auctionWindowWeight.toNat ≤ maxRewards.toNat :=
    share_le (by omega)
  have own : toUint128 (maxRewards * v.weight.toNat) / info.totalVoteWeight.toNat % 2 ^ 64 =
      share maxRewards.toNat info.totalVoteWeight.toNat v.weight.toNat := by
    rw [toUint128_mul nonneg small]
    exact Nat.mod_eq_of_lt (by unfold share at first; omega)
  have taken : toUint128 (maxRewards * info.auctionWindowWeight.toNat) / info.totalVoteWeight.toNat =
      share maxRewards.toNat info.totalVoteWeight.toNat info.auctionWindowWeight.toNat := by
    rw [toUint128_mul nonneg small, share]
  simp only [claim, shareOf]
  rw [own, taken]
  generalize share maxRewards.toNat info.totalVoteWeight.toNat info.auctionWindowWeight.toNat = windowReward at *
  split
  next shares =>
    rw [CommentPayout.windowWeight, if_pos shares.1] at windowWeight ⊢
    have product : windowReward * v.weight.toNat ≤ 2 ^ 63 * 2 ^ 64 :=
      Nat.mul_le_mul (by omega) (le_of_lt v.weight.toNat_lt)
    have again : share windowReward info.votesAfterAuctionWindowWeight.toNat v.weight.toNat ≤ windowReward :=
      share_le windowWeight
    rw [Nat.mod_eq_of_lt (by omega : windowReward * v.weight.toNat < 2 ^ 128)]
    have sum : share maxRewards.toNat info.totalVoteWeight.toNat v.weight.toNat +
        share windowReward info.votesAfterAuctionWindowWeight.toNat v.weight.toNat < 2 ^ 64 := by omega
    exact Nat.mod_eq_of_lt sum
  next shares =>
    have nothing : share windowReward info.votesAfterAuctionWindowWeight.toNat (p.windowWeight v) = 0 := by
      by_cases isAfter : p.sharesAuctionWindow v
      · have zero : info.votesAfterAuctionWindowWeight = 0 := by
          by_contra present
          exact shares ⟨isAfter, present⟩
        simp [share, zero]
      · simp [share, CommentPayout.windowWeight, isAfter]
    omega

theorem claims_append {l' : List VoteInfo} :
    info.claims p maxRewards (l ++ l') = info.claims p maxRewards l + info.claims p maxRewards l' := by
  simp [claims]

/-- With weights that do not wrap around, it is only the end of the loop that leaves votes out. -/
theorem leavesNobodyOut_of_exact (nonneg : 0 ≤ maxRewards) (small : maxRewards < 2 ^ 63)
    (adds : info.Adds p) (allowed : p.allowCurationRewards = true)
    (reached : ∀ v ∈ (info.roll p maxRewards).unreached, info.shareOf p maxRewards v = 0)
    (found : (info.roll p maxRewards).last = none →
      (∃ v ∈ info.voteList, v.vote.auctionTime = p.auctionWindowSize) → info.rest p maxRewards ≤ 0) :
    info.LeavesNobodyOut p maxRewards := by
  refine ⟨reached, fun _ => found, fun refused => ?_, fun v inTurn => ?_, fun v isLast _ => ?_⟩
  · rw [allowed] at refused
    cases refused
  · exact (claim_eq_shareOf nonneg small adds (mem_voteList.mpr (.inr (.inl inTurn)))).ge
  · have listed : v ∈ info.voteList := mem_voteList.mpr (.inl isLast)
    have positive : 0 < info.totalVoteWeight := by
      by_contra absent
      rw [roll, if_neg fun both => absent both.1] at isLast
      cases isLast
    have total : info.claims p maxRewards info.voteList ≤ maxRewards := by
      have sum := sum_claim_le nonneg positive adds
      rw [claims]
      omega
    have split : info.claims p maxRewards info.voteList =
      info.claims p maxRewards (info.roll p maxRewards).last.toList +
        info.claims p maxRewards ((info.roll p maxRewards).inTurn ++ (info.roll p maxRewards).unreached) := by
      rw [← claims_append]
      exact congrArg Nat.cast (roll_perm.map _).sum_eq
    have others : 0 ≤ info.claims p maxRewards (info.roll p maxRewards).unreached := Int.natCast_nonneg _
    rw [Option.mem_def.mp isLast, Option.toList_some, claims_cons, claims_nil, claims_append,
      claim_eq_shareOf nonneg small adds listed] at split
    rw [rest]
    omega

/-- When the auction window is for the curators, `pay_curators` makes the payments of the roll, and
every vote with a share is paid at least its share and nothing is returned while there is a vote from
after the window, exactly if the loop leaves nobody out.  With weights that do not wrap around it is enough
for that, that the votes behind the first claim of zero have no share. -/
theorem payCurators_entitled_iff {fullList : Bool} (run : s.curationInfo key p fullList = .ok info)
    (toCurators : p.auctionWindowRewardDestination = .toCurators) :
    (payCuratorsCounted info p maxRewards = do
      let actual ← payRoll info p maxRewards
      when (info.Returns p maxRewards) (returnToRewardFund (info.returned p maxRewards))
      pure (info.unclaimed p maxRewards - info.returned p maxRewards, actual)) ∧
    (info.PaysEveryone p maxRewards ∧ info.ReturnsNothing p maxRewards ↔ info.LeavesNobodyOut p maxRewards) ∧
    (0 ≤ maxRewards → maxRewards < 2 ^ 63 → info.Adds p → p.allowCurationRewards = true →
      (∀ v ∈ (info.roll p maxRewards).unreached, info.shareOf p maxRewards v = 0) →
      ((info.roll p maxRewards).last = none → (∃ v ∈ info.voteList, v.vote.auctionTime = p.auctionWindowSize) →
        info.rest p maxRewards ≤ 0) → info.LeavesNobodyOut p maxRewards) := by
  refine ⟨payCuratorsCounted_eq, ?_, leavesNobodyOut_of_exact⟩
  rw [paysEveryone_iff (curationInfo_nodup run), ReturnsNothing, returned_eq_zero_iff toCurators]
  refine ⟨?_, fun leaves => ⟨⟨leaves.reached, leaves.exact, leaves.enough⟩, fun after => ⟨?_, ?_⟩⟩⟩
  · rintro ⟨⟨reached, exactly, enough⟩, returns⟩
    exact ⟨reached, fun allow absent after => (returns after).1 allow absent,
      fun refused after => (returns after).2 refused,
      exactly, enough⟩
  · exact fun allow absent => leaves.found allow absent after
  · exact fun refused => leaves.allowed refused after

/-! ### Two votes on Bob's post -/

/-- A post of Bob that leaves what the auction window takes to the curators. -/
def curatorsPost : Database :=
  { openPost with comments := openPost.comments.mapValues fun _ c =>
      { c with payout := { c.payout with auctionWindowRewardDestination := .toCurators } } }

/-- Alice votes in the middle of the window, Bob after it. -/
def shared : Database := votedAt 1600001800 .bob 10000 (votedAt 1600000900 .alice 10000 curatorsPost)

/-- Alice votes near the beginning, and Bob votes with less weight than she keeps. -/
def shunned : Database := votedAt 1600001800 .bob 1 (votedAt 1600000100 .alice 10000 curatorsPost)

/-- What is read of the votes on the post. -/
def Database.withPost {α : Type} (s : Database) (read : CommentPayout → CurationInfo → α) : Option α :=
  (s.comments.find? (.bob, "post")).bind fun c =>
    (s.curationInfo (.bob, "post") c.payout false).toOption.map (read c.payout)

theorem withPost_eq_some {read : CommentPayout → CurationInfo → α} {a : α} (facts : s.withPost read = some a) :
    ∃ c info, s.comments.find? (.bob, "post") = some c ∧ s.curationInfo (.bob, "post") c.payout false = .ok info ∧
      read c.payout info = a := by
  obtain ⟨c, found, weighed⟩ := Option.bind_eq_some_iff.mp facts
  obtain ⟨info, isInfo, same⟩ := Option.map_eq_some_iff.mp weighed
  cases run : s.curationInfo (.bob, "post") c.payout false with
  | error e => rw [run] at isInfo; cases isInfo
  | ok info' =>
    rw [run] at isInfo
    cases isInfo
    exact ⟨c, info, found, run, same⟩

theorem payCurators_entitled_shared : ∃ c info, shared.comments.find? (.bob, "post") = some c ∧
      shared.curationInfo (.bob, "post") c.payout false = .ok info ∧
      c.payout.auctionWindowRewardDestination = .toCurators ∧ info.voteList.length = 2 ∧
      info.PaysEveryone c.payout 25000 ∧ info.ReturnsNothing c.payout 25000 := by
  have facts : (shared.withPost fun p info => (p.auctionWindowRewardDestination, p.allowCurationRewards,
      decide (info.Adds p), info.voteList.length, (info.roll p 25000).unreached.length,
        (info.roll p 25000).last.isSome)) =
      some (.toCurators, true, true, 2, 0, true) := by decide +kernel
  obtain ⟨c, info, found, run, same⟩ := withPost_eq_some facts
  simp only [Prod.mk.injEq, decide_eq_true_eq, length_eq_zero_iff] at same
  obtain ⟨toCurators, allowed, adds, two, reached, last⟩ := same
  obtain ⟨_, exactly, enough⟩ := payCurators_entitled_iff run toCurators
  have leaves : info.LeavesNobodyOut c.payout 25000 := by
    refine enough (by decide) (by decide) adds allowed ?_ fun absent => ?_
    · rw [reached]
      exact fun v member => absurd member not_mem_nil
    · rw [absent] at last
      cases last
  obtain ⟨pays, returns⟩ := exactly.mpr leaves
  exact ⟨c, info, found, run, toCurators, two, pays, returns⟩

/-- Of 18 Bob's share is 16.  The claim of Alice is zero and stands before his, so nobody is paid
and all 18 are returned. -/
theorem payCurators_leaves_out : ∃ c info v, shunned.comments.find? (.bob, "post") = some c ∧
      shunned.curationInfo (.bob, "post") c.payout false = .ok info ∧
      c.payout.auctionWindowRewardDestination = .toCurators ∧ c.payout.allowCurationRewards = true ∧
      v ∈ info.voteList ∧ v.vote.auctionTime = c.payout.auctionWindowSize ∧ info.shareOf c.payout 18 v = 16 ∧
      info.payments c.payout 18 = [] ∧ info.returned c.payout 18 = 18 ∧
      ¬info.PaysEveryone c.payout 18 ∧ ¬info.ReturnsNothing c.payout 18 := by
  have facts : (shunned.withPost fun p info => (p.auctionWindowRewardDestination, p.allowCurationRewards,
      (info.voteList.any fun v => v.vote.auctionTime = p.auctionWindowSize ∧ info.shareOf p 18 v = 16),
      (info.payments p 18).length, info.returned p 18)) = some (.toCurators, true, true, 0, 18) := by decide +kernel
  obtain ⟨c, info, found, run, same⟩ := withPost_eq_some facts
  simp only [Prod.mk.injEq, any_eq_true, decide_eq_true_eq, length_eq_zero_iff] at same
  obtain ⟨toCurators, allowed, ⟨v, listed, after, isShare⟩, nobody, returned⟩ := same
  refine ⟨c, info, v, found, run, toCurators, allowed, listed, after, isShare, nobody, returned, fun pays => ?_,
    fun returns => ?_⟩
  · obtain ⟨_, paid, _⟩ := pays v listed (by omega)
    rw [nobody] at paid
    cases paid
  · have nothing := returns ⟨v, listed, after⟩
    omega

end Entitled

/-! ## What is reported -/

/-- All that curators have been credited with. -/
def Database.curationRewards (s : Database) : Int := s.accounts.total fun _ a => a.rewards.curationRewards

/-- What a delegator receives of a claim. -/
def delegatorClaim (claim : Int) (d : DelegatorVoteInterestRate) : Int :=
  if 10000 < d.interestRate then 0 else ((claim % 2 ^ 64).toNat * d.interestRate % 2 ^ 64 / 10000 : Nat)

/-- What is left of a claim for the voter. -/
def Database.netClaim (s : Database) (vote : CommentVote) (claim : Int) : Int :=
  if s.hasHardfork 19 then claim - (vote.delegatorVoteInterestRates.map (delegatorClaim claim)).sum else claim

/-- What is left for the voters that have their turn. -/
def Database.netInTurn (s : Database) (info : CurationInfo) (p : CommentPayout) (maxRewards : Int) : Int :=
  ((info.roll p maxRewards).inTurn.map fun v => s.netClaim v.vote (info.claim p maxRewards v)).sum

/-- What is left for the voter that is paid last. -/
def Database.netLast (s : Database) (info : CurationInfo) (p : CommentPayout) (maxRewards : Int) : Int :=
  (info.roll p maxRewards).last.elim 0 fun v => s.netClaim v.vote (info.rest p maxRewards)

abbrev keepsRewardTotals : Footprint
  | .rewards => false
  | _ => true

abbrev outsideHardforks : Footprint
  | .hardforks => false
  | _ => true

section Reports

variable {s : Database} {key : CommentKey} {info : CurationInfo} {p : CommentPayout} {maxRewards : Int}

instance : Finer (Within keepsRewardTotals) (SameQuantity curationRewards) :=
  ⟨fun _ _ within =>
    Store.total_eq_of_view (within .rewards rfl)⟩

theorem accounts_curationHolder : IsHolder curationRewards (·.accounts) updateAccounts
    fun _ a => a.rewards.curationRewards := by
  refine ⟨fun f s => ?_⟩
  simp only [updateAccounts, ensures_modify, curationRewards, true_and, sub_self]

theorem moves_modifyRewards (adds : ∀ r, (f r).curationRewards = r.curationRewards + amount) :
    Moves curationRewards s (modifyRewards name f) fun _ => amount :=
  accounts_curationHolder.moves_updateAccount fun a _ => adds a.rewards

/-- Other rewards are counted apart. -/
theorem preserves_modifyRewards (same : ∀ r, (f r).curationRewards = r.curationRewards) :
    Preserves (SameQuantity curationRewards) (modifyRewards name f) :=
  preserves_of_conserves fun _ => moves_modifyRewards fun r => (same r).trans (add_zero _).symm

/-- A delegator is credited apart from the curators. -/
theorem payDelegator_credits {d : DelegatorVoteInterestRate} : Ensures s (payDelegator delegatee claim d) fun paid t =>
      paid = delegatorClaim claim d ∧ t.curationRewards = s.curationRewards := by
  have counted (amount : Int) := @preserves_modifyRewards d.account
    (fun r => { r with delegationRewards := r.delegationRewards + amount }) fun _ => rfl
  simp only [payDelegator, delegatorClaim]
  generalize (claim % 2 ^ 64).toNat * d.interestRate % 2 ^ 64 / 10000 = amount
  rw [ensures_ite]
  refine ⟨fun skipped => ensures_pure.mpr ⟨?_, rfl⟩, fun paid => ?_⟩
  · rcases skipped with tooHigh | nothing
    · rw [if_pos tooHigh]
    · rw [nothing, ite_self]
  · rw [not_or] at paid
    rw [if_neg paid.1]
    simp only [ensures_steps, true_and]
    have same := refl_of (SameQuantity curationRewards) s
    iterate 3 refine ensures_since _ same fun _ _ same => ?_
    exact same

theorem payDelegators_credits {rates : List DelegatorVoteInterestRate} :
    Ensures s (payDelegators delegatee claim rates) fun paid t =>
      paid = (rates.map (delegatorClaim claim)).sum ∧ t.curationRewards = s.curationRewards := by
  induction rates generalizing s with
  | nil => simp [payDelegators]
  | cons d rest ih =>
    simp only [payDelegators, ensures_steps, map_cons, sum_cons]
    refine Ensures.mono payDelegator_credits fun paid t first => ?_
    refine ih.mono fun more u others => ⟨?_, others.2.trans first.2⟩
    rw [first.1, others.1]

/-- A curator is credited with what it returns: the claim, less what the delegators receive. -/
theorem payCurator_credits {voter : AccountName} {vote : CommentVote} :
    Ensures s (payCurator voter vote claim) fun net t =>
      net = s.netClaim vote claim ∧ t.curationRewards = s.curationRewards + net ∧ t.hardforks = s.hardforks := by
  have credited : Ensures s (payCurator voter vote claim) fun net t =>
      net = s.netClaim vote claim ∧ t.curationRewards = s.curationRewards + net := by
    have own {t : Database} (net : Int) (same : t.curationRewards = s.curationRewards) :
        Ensures t (do
          let _ ← createVesting voter (.steem net)
          modifyRewards voter fun r => { r with curationRewards := r.curationRewards + net }
          pure net) fun paid u => paid = net ∧ u.curationRewards = s.curationRewards + paid := by
      simp only [ensures_steps, true_and]
      refine ensures_frame (SameQuantity curationRewards) fun _ u vested => ?_
      refine (moves_modifyRewards fun _ => rfl).mono fun _ v counted => ?_
      rw [counted, vested, same]
    simp only [payCurator, getAccount, ensures_steps]
    intro _ _
    rw [ensures_ite]
    refine ⟨fun late => ?_, fun early => ?_⟩
    · rw [ensures_bind]
      refine Ensures.mono payDelegators_credits fun paid t delegators => ?_
      have net : s.netClaim vote claim = claim - paid := by rw [netClaim, if_pos late, delegators.1]
      rw [net]
      exact own (claim - paid) delegators.2
    · have net : s.netClaim vote claim = claim := by rw [netClaim, if_neg early]
      rw [pure_bind, sub_zero, net]
      exact own claim rfl
  refine (credited.framed (Within outsideHardforks)).mono fun net t after => ?_
  exact ⟨after.2.1, after.2.2, after.1 .hardforks rfl⟩

theorem netClaim_congr {t : Database} (same : t.hardforks = s.hardforks) : t.netClaim = s.netClaim := by
  funext vote claim
  rw [netClaim, netClaim, hasHardfork, hasHardfork, same]

theorem payClaims_credit : Ensures s (l.mapM (payClaim info p maxRewards)) fun paid t =>
      paid.sum = (l.map fun v => s.netClaim v.vote (info.claim p maxRewards v)).sum ∧
        t.curationRewards = s.curationRewards + paid.sum ∧ t.hardforks = s.hardforks := by
  induction l generalizing s with
  | nil => simp
  | cons v l ih =>
    simp only [mapM_cons, payClaim, ensures_steps, toShare_eq_ok]
    rintro claim ⟨_, rfl⟩
    refine Ensures.mono payCurator_credits fun net t first => ih.mono fun paid u others => ?_
    obtain ⟨isNet, credited, same⟩ := first
    obtain ⟨areNet, credited', same'⟩ := others
    rw [netClaim_congr same] at areNet
    refine ⟨?_, ?_, same'.trans same⟩
    · rw [sum_cons, map_cons, sum_cons, isNet, areNet]
    · rw [credited', credited, sum_cons, add_assoc]

/-- All curators are credited with what is left of their claims, but only the last is counted if
there is one. -/
theorem payRoll_credits : Ensures s (payRoll info p maxRewards) fun actual t =>
    t.curationRewards = s.curationRewards + (s.netInTurn info p maxRewards + s.netLast info p maxRewards) ∧
      actual = (info.roll p maxRewards).last.elim (s.netInTurn info p maxRewards) fun _ =>
        s.netLast info p maxRewards := by
  rw [payRoll, ensures_bind]
  refine Ensures.mono payClaims_credit fun paid t inTurn => ?_
  obtain ⟨isNet, credited, same⟩ := inTurn
  rw [netInTurn, netLast, ← isNet]
  cases (info.roll p maxRewards).last with
  | none =>
    refine ensures_pure.mpr ⟨?_, rfl⟩
    rw [credited, Option.elim_none, add_zero]
  | some v =>
    refine Ensures.mono payCurator_credits fun net u last => ?_
    obtain ⟨isLast, creditedLast, _⟩ := last
    rw [netClaim_congr same] at isLast
    refine ⟨?_, isLast⟩
    rw [creditedLast, credited, isLast, Option.elim_some, add_assoc]

instance {authorTokens routes} : Preserves (SameQuantity curationRewards) (payBeneficiaries authorTokens routes) := by
  induction routes with
  | nil => unfold payBeneficiaries; infer_instance
  | cons b rest ih =>
    have counted := @preserves_modifyRewards b.account
      (fun r => { r with benefactionRewards := r.benefactionRewards + (authorTokens * b.weight).tdiv 10000 })
        fun _ => rfl
    unfold payBeneficiaries; infer_instance

/-- `cashout_comment_helper` reports for the curators what they are credited with, exactly if nobody
is paid last or what was paid before comes to nothing. -/
theorem payReward_reports_iff {rewardTokens : Int} (run : s.curationInfo key p false = .ok info) :
    Ensures s (payReward key p rewardTokens) fun report t =>
      report.curator = t.curationRewards - s.curationRewards ↔
        ((info.roll p (rewardTokens * p.curationRewardsPercent / 10000)).last = none ∨
          s.netInTurn info p (rewardTokens * p.curationRewardsPercent / 10000) = 0) := by
  simp only [payReward, ensures_steps, payCuratorsCounted_eq]
  intro info' run'
  rw [run] at run'
  cases run'
  generalize rewardTokens * p.curationRewardsPercent / 10000 = maxRewards
  refine Ensures.mono payRoll_credits fun actual t paid => ?_
  obtain ⟨credited, isActual⟩ := paid
  have counted (amount : Int) := @preserves_modifyRewards key.1
    (fun r => { r with postingRewards := r.postingRewards + amount }) fun _ => rfl
  have same := refl_of (SameQuantity curationRewards) t
  iterate 5 refine ensures_since _ same fun _ _ same => ?_
  rw [same, credited, add_sub_cancel_left, isActual, netLast]
  cases (info.roll p maxRewards).last with
  | none => simp
  | some v => simp

/-- What is reported for the curators and what they are credited with. -/
def Database.reported (s : Database) (key : CommentKey) (rewardTokens : Int) : Option (Int × Int) :=
  (s.comments.find? key).bind fun c => (payReward key c.payout rewardTokens s).toOption.map fun r =>
    (r.1.curator, r.2.curationRewards - s.curationRewards)

theorem reported_eq_some {rewardTokens reported credited : Int}
    (facts : s.reported key rewardTokens = some (reported, credited)) :
    ∃ c report t, s.comments.find? key = some c ∧ payReward key c.payout rewardTokens s = .ok (report, t) ∧
      report.curator = reported ∧ t.curationRewards - s.curationRewards = credited := by
  obtain ⟨c, found, paid⟩ := Option.bind_eq_some_iff.mp facts
  obtain ⟨⟨report, t⟩, done, same⟩ := Option.map_eq_some_iff.mp paid
  simp only [Prod.mk.injEq] at same
  refine ⟨c, report, t, found, ?_, same⟩
  cases run : payReward key c.payout rewardTokens s with
  | error e => rw [run] at done; cases done
  | ok r => rw [run] at done; cases done; rfl

theorem payReward_reports_upvoted : ∃ c report t, upvoted.comments.find? (.bob, "post") = some c ∧
      payReward (.bob, "post") c.payout 4000 upvoted = .ok (report, t) ∧ report.curator = 666 ∧
      report.curator = t.curationRewards - upvoted.curationRewards := by
  have facts : upvoted.reported (.bob, "post") 4000 = some (666, 666) := by decide +kernel
  have weighed : (upvoted.withPost fun p info =>
      (info.roll p (4000 * p.curationRewardsPercent / 10000)).last.isNone) = some true := by decide +kernel
  obtain ⟨c, report, t, found, run, isReported, _⟩ := reported_eq_some facts
  obtain ⟨c', info, found', isInfo, nobody⟩ := withPost_eq_some weighed
  rw [found] at found'
  cases found'
  have reports := payReward_reports_iff isInfo _ _ run
  exact ⟨c, report, t, found, run, isReported, reports.mpr (.inl (Option.isNone_iff_eq_none.mp nobody))⟩

/-- Alice is paid 4166 and Bob the rest of 25000, which alone is reported. -/
theorem payReward_reports_last : ∃ c report t, shared.comments.find? (.bob, "post") = some c ∧
      payReward (.bob, "post") c.payout 100000 shared = .ok (report, t) ∧
      report.curator = 20834 ∧ t.curationRewards - shared.curationRewards = 25000 := by
  have facts : shared.reported (.bob, "post") 100000 = some (20834, 25000) := by decide +kernel
  exact reported_eq_some facts

end Reports

end Golos
