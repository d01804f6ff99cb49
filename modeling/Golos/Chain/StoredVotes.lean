import Golos.Chain.Invariant

/-! # The votes on record

A vote object stays for as long as its comment, and the auction window of a comment never
changes.  So the time of a vote in the window, taken when it is first cast, is never beyond the
window, whatever happens to the vote and its comment later.

* `Database.VotesStored` — every vote belongs to a comment, and is in range;
* `Network.Reachable.votesStored` — this holds in every state of every run.
-/

namespace Golos

open Stateful Database Store Evaluator

set_option synthInstance.maxSize 1000000

variable {s t : Database} {key : CommentKey} {c : Comment} {f : CommentPayout → CommentPayout} {window : Nat}
  {weight : Int} {voter : AccountName} {o : VoteOperation} {strength : VoteStrength}

/-- The ranges of what is stored of a vote on a comment with an auction window. -/
structure CommentVote.Stored (window : Nat) (v : CommentVote) : Prop where
  inWindow : v.auctionTime ≤ window
  fits : v.rshares < 2 ^ 64

/-- The auction window of a comment. -/
def Database.windowOf (s : Database) (key : CommentKey) : Option Nat :=
  (s.comments.find? key).map (·.payout.auctionWindowSize)

/-- Every vote is on a comment, and in range. -/
def Database.VotesStored (s : Database) : Prop :=
  ∀ key voter v, s.commentVotes.find? (key, voter) = some v → ∃ window, s.windowOf key = some window ∧ v.Stored window

theorem Database.VotesStored.votesOn (stored : s.VotesStored)
    (found : s.comments.find? key = some c) : ∀ v ∈ s.votesOn key, v.2.Stored c.payout.auctionWindowSize := by
  intro v member
  simp only [Database.votesOn, List.mem_map, List.mem_filter, decide_eq_true_eq] at member
  obtain ⟨⟨⟨key', voter⟩, vote⟩, ⟨entry, rfl⟩, rfl⟩ := member
  obtain ⟨window, isWindow, inRange⟩ := stored key' voter vote (find?_eq_some.mpr entry)
  rw [windowOf, found] at isWindow
  cases isWindow
  exact inRange

/-! ## What leaves votes and windows alone -/

/-- The same votes, and the same auction windows. -/
structure SameVoting (s t : Database) : Prop where
  votes : t.commentVotes = s.commentVotes
  window : ∀ key, t.windowOf key = s.windowOf key

instance : Std.Refl SameVoting := ⟨fun _ => ⟨rfl, fun _ => rfl⟩⟩

instance : IsTrans Database SameVoting :=
  ⟨fun _ _ _ first second => ⟨second.votes.trans first.votes, fun key => (second.window key).trans (first.window key)⟩⟩

abbrev keepsVoting : Footprint
  | .commentPayout | .commentVotes => false
  | _ => true

theorem SameVoting.of_within (within : Within keepsVoting s t) : SameVoting s t := by
  refine ⟨within .commentVotes rfl, fun key => ?_⟩
  have payouts : t.comments.view (·.payout) = s.comments.view (·.payout) := within .commentPayout rfl
  have same := congrArg (Option.map (·.auctionWindowSize)) (find?_eq_of_view payouts key)
  simpa [windowOf, Function.comp_def] using same

instance : Finer (Within keepsVoting) SameVoting := ⟨fun _ _ => SameVoting.of_within⟩

theorem sameVoting_modifyPayout
    (kept : ∀ p, (f p).auctionWindowSize = p.auctionWindowSize) : Preserves SameVoting (modifyPayout key f) := by
  refine ⟨fun s => ?_⟩
  simp only [modifyPayout, updateComment, updateComments, getComment, ensures_steps]
  refine fun c found => ⟨rfl, fun key' => ?_⟩
  simp only [windowOf, find?_modify]
  split <;> simp [Function.comp_def, kept]

theorem SameVoting.windowOf_found (same : SameVoting s t) (found : s.comments.find? key = some c) :
    t.windowOf key = some c.payout.auctionWindowSize := by
  rw [same.window, windowOf, found]
  rfl

/-- Keeping every vote in range. -/
abbrev KeepsStored : Database → Database → Prop := Keeps VotesStored

theorem SameVoting.keepsStored (same : SameVoting s t) : KeepsStored s t := by
  intro stored key voter v found
  rw [same.votes] at found
  rw [same.window]
  exact stored key voter v found

instance : Finer SameVoting KeepsStored := ⟨fun _ _ => SameVoting.keepsStored⟩

-- every update of single fields copies the window
instance {a b c d : CommentPayout → Time} {e f g h i : CommentPayout → Int} {j k l m : CommentPayout → Nat}
    {n : CommentPayout → CommentMode} {o : CommentPayout → CurationCurve} {q r s : CommentPayout → Bool}
    {t : CommentPayout → AuctionWindowRewardDestination} {u : CommentPayout → List BeneficiaryRoute} :
    Preserves SameVoting (modifyPayout key fun p => ⟨a p, b p, e p, f p, g p, c p, d p, j p, h p, k p, n p, o p, t p,
      p.auctionWindowSize, i p, l p, q p, r p, s p, m p, u p⟩) :=
  sameVoting_modifyPayout fun _ => rfl

deriving instance Preserves SameVoting for setBeneficiaries, setAuctionWindowRewardDestination,
    setCurationRewardsPercent,
  splitComment, migrateComment

instance {producing key e} : Preserves SameVoting (applyOptionsExtension producing key e) := by
  cases e <;> (unfold applyOptionsExtension; infer_instance)

instance {absRshares average} :
    Preserves SameVoting (modifyPayout key fun p => CommentPayout.countVote p s absRshares average) :=
  sameVoting_modifyPayout fun p => by
    unfold CommentPayout.countVote
    split <;> rfl

instance {now} : Preserves SameVoting (modifyPayout key fun p => p.hardfork12 now) :=
  sameVoting_modifyPayout fun p => by
    unfold CommentPayout.hardfork12
    split
    · rfl
    · split <;> rfl

deriving instance Preserves SameVoting for commentOptions, voteAtRoot, applyHardfork12, performVestingShareSplit,
    applyHardfork17

instance {net : Network} {hardfork} : Preserves SameVoting (net.rewrite hardfork) := by
  unfold Network.rewrite
  split <;> infer_instance

/-! ## Votes -/

theorem keepsStored_updateCommentVotes
    {f : Store (CommentKey × AccountName) CommentVote → Store (CommentKey × AccountName) CommentVote}
    (kept : ∀ t k v, (f t).find? k = some v → ∃ v', t.find? k = some v' ∧ ∀ window, v'.Stored window →
      v.Stored window) :
    Preserves KeepsStored (updateCommentVotes f) := by
  refine preserves_modify fun s stored key voter v found => ?_
  obtain ⟨v', before, weaker⟩ := kept _ _ _ found
  obtain ⟨window, isWindow, inRange⟩ := stored key voter v' before
  exact ⟨window, isWindow, weaker window inRange⟩

theorem keepsStored_change {k : CommentKey × AccountName} {f : CommentVote → CommentVote}
    (kept : ∀ window v, v.Stored window → (f v).Stored window) :
    Preserves KeepsStored (change (·.commentVotes) updateCommentVotes "comment_vote" k f) := by
  have := @keepsStored_updateCommentVotes (fun t => t.modify k f) fun t k' v found => by
    rw [find?_modify] at found
    split at found
    · rw [Option.map_eq_some_iff] at found
      obtain ⟨v', before, rfl⟩ := found
      exact ⟨v', before, fun window => kept window v'⟩
    · exact ⟨v, found, fun _ => id⟩
  unfold change; infer_instance

/-- A new vote is in range if it is in the window of its comment. -/
theorem keepsStored_create {v : CommentVote} (isWindow : s.windowOf key = some window) (inRange : v.Stored window) :
    Ensures s (create (·.commentVotes) updateCommentVotes "comment_vote" (key, voter) v)
      fun _ t => KeepsStored s t := by
  simp only [create, updateCommentVotes, ensures_steps]
  intro fresh stored key' voter' v' found
  exact all_insert fresh ⟨window, isWindow, inRange⟩ (fun k => stored k.1 k.2) found

theorem newVote_stored {rshares : Int} {rates : List DelegatorVoteInterestRate}
    (fits : rshares < 2 ^ 64) : (newVote s c o rshares rates).Stored c.payout.auctionWindowSize := by
  refine ⟨?_, fits⟩
  simp only [newVote]
  split
  · split
    · exact le_rfl
    · exact Nat.min_le_right _ _
  · exact Nat.zero_le _

theorem toInt64_range {c : Prop} [Decidable c] (n : Nat) : (if c then 1 else toInt64 (n % 2 ^ 64)).natAbs < 2 ^ 64 := by
  split
  · decide
  · unfold toInt64
    split <;> omega

/-- The shares of a vote fit a `share_type`. -/
theorem voteStrength_fits : Ensures s (voteStrength voter weight) fun strength t =>
      SameVoting s t ∧ strength.absRshares.natAbs < 2 ^ 64 := by
  simp only [voteStrength, getAccount, ensures_steps]
  intro a found _ _ _
  exact ensures_frame SameVoting fun _ t same => ⟨same, toInt64_range _⟩

deriving instance Preserves SameVoting for addNetRshares, moveRshares

theorem firstVote_stored (fits : strength.absRshares.natAbs < 2 ^ 64) :
    Ensures s (firstVote o strength) fun _ t => KeepsStored s t := by
  simp only [firstVote, getComment, getAccount, ensures_bind, ensures_get, ensures_require, ensures_fromExcept]
  intro c found a isVoter
  have same := refl_of SameVoting s
  iterate 4 refine ensures_since SameVoting same fun _ _ same => ?_
  refine fun absRshares _ => ensures_since SameVoting same fun _ _ same => ?_
  refine ensures_since SameVoting same fun _ t₆ same => ?_
  refine (keepsStored_create (same.windowOf_found found) (newVote_stored (by split <;> omega))).mono fun _ t₇ kept => ?_
  refine ensures_frame SameVoting fun _ t₈ same₈ c' _ => ?_
  refine ensures_since SameVoting same₈ fun _ t₉ after stored => ?_
  exact after.keepsStored (kept (same.keepsStored stored))

theorem changeVote_stored {vote : CommentVote} (fits : strength.absRshares.natAbs < 2 ^ 64) :
    Preserves KeepsStored (changeVote o strength vote) := by
  have changed := fun now => @keepsStored_change ((o.author, o.permlink), o.voter) (fun v => { v with
    rshares := if o.weight < 0 then -strength.absRshares else strength.absRshares
    votePercent := o.weight
    lastUpdate := now
    numChanges := v.numChanges + 1
    delegatorVoteInterestRates := [] }) fun window v stored => ⟨stored.inWindow, by dsimp only; split <;> omega⟩
  unfold changeVote; infer_instance

theorem lateVote_stored (isWindow : s.windowOf (o.author, o.permlink) = some window) :
    Ensures s (lateVote o) fun _ t => KeepsStored s t := by
  simp only [lateVote, ensures_steps, ensures_ite]
  refine ⟨fun fresh => ensures_frame SameVoting fun _ t same => ?_, fun _ => ?_⟩
  · rw [← same.window] at isWindow
    refine (keepsStored_create isWindow ⟨Nat.zero_le _, (by decide : (0 : Int) < 2 ^ 64)⟩).mono
      fun _ u kept stored => ?_
    exact kept (same.keepsStored stored)
  · have := @keepsStored_change ((o.author, o.permlink), o.voter)
      (fun v => { v with votePercent := o.weight, lastUpdate := s.head.time })
      fun window v stored => ⟨stored.inWindow, stored.fits⟩
    exact this.related s

theorem vote_stored : Ensures s (vote o) fun _ t => KeepsStored s t := by
  simp only [vote, getComment, getAccount, ensures_bind, ensures_get, ensures_require]
  intro c found a isVoter
  have same := refl_of SameVoting s
  iterate 3 refine ensures_since SameVoting same fun _ _ same => ?_
  refine ensures_since SameVoting same fun payoutTime t₄ same => ?_
  rw [ensures_ite]
  refine ⟨fun _ => ?_, fun _ => ?_⟩
  · have late := lateVote_stored (same.windowOf_found found)
    exact late.mono fun _ t kept stored => kept (same.keepsStored stored)
  · rw [ensures_bind]
    refine ensures_since SameVoting same fun _ t₅ same => ?_
    rw [ensures_bind]
    refine voteStrength_fits.mono fun strength t₆ strong => ?_
    obtain ⟨same₆, fits⟩ := strong
    rw [ensures_bind, ensures_get]
    have before := (trans_of SameVoting same same₆).keepsStored
    cases t₆.commentVotes.find? ((o.author, o.permlink), o.voter) with
    | none => exact (firstVote_stored fits).mono fun _ t kept stored => kept (before stored)
    | some v => exact ((changeVote_stored fits).related t₆).mono fun _ t kept stored => kept (before stored)

/-! ## Comments -/

/-- A new comment has no votes yet. -/
instance {key place payout} : Preserves KeepsStored (createComment key place payout) := by
  refine ⟨fun s => ?_⟩
  simp only [createComment, updateComments, ensures_steps]
  intro fresh stored key' voter v found
  obtain ⟨window, isWindow, inRange⟩ := stored key' voter v found
  refine ⟨window, ?_, inRange⟩
  rw [windowOf] at isWindow ⊢
  rw [find?_insert fresh]
  split
  next same =>
    rw [same, fresh] at isWindow
    cases isWindow
  · exact isWindow

deriving instance Preserves KeepsStored for createPost, comment

/-- A comment is deleted with its votes. -/
theorem deleteComment_stored {producing : Bool} {o : DeleteCommentOperation} :
    Ensures s (deleteComment producing o) fun _ t => KeepsStored s t := by
  simp only [deleteComment, ensures_bind, ensures_get]
  have same := refl_of SameVoting s
  iterate 4 refine ensures_since SameVoting same fun _ _ same => ?_
  rw [ensures_ite, ensures_pure]
  refine ⟨fun _ => same.keepsStored, fun _ => ?_⟩
  simp only [updateCommentVotes, ensures_bind, ensures_modify]
  refine ensures_frame SameVoting fun _ t₅ same₅ => ?_
  simp only [removeComment, getComment, updateComments, ensures_steps]
  intro c' _ stored key voter v found
  rw [same₅.votes] at found
  obtain ⟨before, other⟩ := find?_filter.mp found
  have isOther : key ≠ (o.author, o.permlink) := by simpa using other
  obtain ⟨window, isWindow, inRange⟩ := same.keepsStored stored key voter v before
  refine ⟨window, ?_, inRange⟩
  have kept : t₅.windowOf key = some window := by
    rw [same₅.window]
    exact isWindow
  rw [windowOf] at kept ⊢
  rw [find?_erase, if_neg isOther]
  exact kept

instance {key} : Preserves KeepsStored (cashoutCommentHelper key) := by
  have paid := fun s curve isRoot rootCashout => @sameVoting_modifyPayout key
    (fun p => p.afterPayout s curve isRoot rootCashout) fun _ => rfl
  have marked := @keepsStored_updateCommentVotes (fun t => t.mapValues fun k v =>
      if k.1 = key then { v with numChanges := -1 - v.numChanges } else v) fun t k v found => by
    rw [find?_mapValues, Option.map_eq_some_iff] at found
    obtain ⟨v', before, rfl⟩ := found
    refine ⟨v', before, fun window stored => ?_⟩
    split
    · exact ⟨stored.inWindow, stored.fits⟩
    · exact stored
  unfold cashoutCommentHelper; infer_instance

/-! ## Runs -/

section Runs

variable {net : Network}

theorem evaluate_stored {producing nesting apply} {op : Operation} (other : op.isProposal = false) :
    Ensures s (evaluate producing nesting apply op) fun _ t => KeepsStored s t := by
  cases op <;> unfold evaluate
  case vote o => exact vote_stored
  case deleteComment o => exact deleteComment_stored
  case proposalCreate | proposalUpdate | proposalDelete => cases other
  all_goals exact ensures_frame KeepsStored fun _ _ kept => kept

theorem run_stored {step : BlockStep} (other : step.appliesOperations = false) :
    Preserves KeepsStored (step.run net) := by
  cases step <;> unfold BlockStep.run
  case applyTransaction | clearExpiredProposals => cases other
  all_goals infer_instance

theorem votesStored_keepsInvariant : net.KeepsInvariant (fun _ _ => True) VotesStored where
  genesis := by
    refine ensures_frame (Within keepsVoting) fun _ s within => ?_
    refine (SameVoting.of_within within).keepsStored fun _ _ _ found => ?_
    cases found
  operations := {
    records := fun s t within => (SameVoting.of_within within.widen).keepsStored
    evaluator := fun _ _ _ _ s other _ stored => (evaluate_stored other).mono fun _ t kept => kept stored }
  step s step other _ stored := ((run_stored other).related s).mono fun _ t kept => kept stored

/-- In every state of every run the votes are in range. -/
theorem Network.Reachable.votesStored (reachable : net.Reachable s) : s.VotesStored := by
  obtain ⟨blocks, rest, reached⟩ := reachable
  exact (votesStored_keepsInvariant.reaches reached).1

/-- The vote of Bob, who votes with the shares of Alice. -/
theorem votesStored_inUse : ((usedFor 48).state.commentVotes.find? ((.alice, "post"), .bob)).isSome ∧
    (usedFor 48).state.VotesStored := by
  obtain ⟨v, found, -⟩ := Option.map_eq_some_iff.mp usedFor_busy.state.rates
  exact ⟨Option.isSome_iff_exists.mpr ⟨v, found⟩, (usedFor_reachable 48).votesStored⟩

end Runs

end Golos
