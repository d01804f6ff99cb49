import Mathlib.Logic.Function.Basic

/-! # The reputations of the follow plugin

Before a vote on a post that is not paid out yet, the plugin takes from the author what the voter's earlier vote on the
post would have given; after it, it gives what the new vote gives, if two rules allow it.

* `vote_counts_iff` — the votes that change a reputation by what is newly counted less what was counted.
-/

namespace Golos.Reputation

section Model

variable {Name Permlink : Type} [DecidableEq Name] [DecidableEq Permlink]

/-- A `vote_operation`, with the `rshares` the chain gives it. -/
structure Vote (Name Permlink : Type) where
  voter : Name
  author : Name
  permlink : Permlink
  rshares : Int

/-- `comment_vote_index::by_comment_voter` -/
def Vote.key (v : Vote Name Permlink) : Name × Permlink × Name := (v.author, v.permlink, v.voter)

/-- The votes and the reputations on record, and which of the votes were counted. -/
structure State (Name Permlink : Type) where
  rshares : Name × Permlink × Name → Option Int
  reputation : Name → Option Int
  counted : Name × Permlink × Name → Bool

/-- What a vote gives; the last bits are noise. -/
def gives (rshares : Int) : Int := rshares >>> (6 : Nat)

namespace State

/-- `pre_operation_visitor` -/
def beforeVote (s : State Name Permlink) (v : Vote Name Permlink) : Name → Option Int :=
  match s.rshares v.key with
  | some old => Function.update s.reputation v.author ((s.reputation v.author).map (· - gives old))
  | none => s.reputation

/-- The rules: a voter with a negative reputation counts for nothing, and a vote against an author only with a higher
one. -/
def allows (reputation : Name → Option Int) (v : Vote Name Permlink) : Bool :=
  (reputation v.voter).all (0 ≤ ·) &&
    (0 ≤ v.rshares || (reputation v.voter).any ((reputation v.author).getD 0 < ·))

/-- A vote, between the `pre_operation_visitor` and the `post_operation_visitor`. -/
def vote (s : State Name Permlink) (v : Vote Name Permlink) : State Name Permlink :=
  let reputation := s.beforeVote v
  { rshares := Function.update s.rshares v.key (some v.rshares)
    reputation :=
      if allows reputation v then
        Function.update reputation v.author (some ((reputation v.author).getD 0 + gives v.rshares))
      else reputation
    counted := Function.update s.counted v.key (allows reputation v) }

/-- What the last vote with the key would give. -/
def given (s : State Name Permlink) (key : Name × Permlink × Name) : Int := (s.rshares key).elim 0 gives

/-- What is counted of it. -/
def contribution (s : State Name Permlink) (key : Name × Permlink × Name) : Int :=
  if s.counted key then s.given key else 0

def score (s : State Name Permlink) (name : Name) : Int := (s.reputation name).getD 0

end State

/-- The states that votes lead to. -/
inductive Reached : State Name Permlink → Prop
  | start : Reached ⟨fun _ => none, fun _ => none, fun _ => false⟩
  | vote {s : State Name Permlink} (before : Reached s) (v : Vote Name Permlink) : Reached (s.vote v)

/-- The reputation changes by what is newly counted less what was counted. -/
def Counts (s : State Name Permlink) (v : Vote Name Permlink) : Prop :=
  (s.vote v).score v.author - s.score v.author = (s.vote v).contribution v.key - s.contribution v.key

end Model

section Votes

variable {Name Permlink : Type} [DecidableEq Name] [DecidableEq Permlink] {s : State Name Permlink}
  {v : Vote Name Permlink}

/-- A reputation is never lost. -/
theorem vote_ne_none {name : Name} (there : s.reputation name ≠ none) : (s.vote v).reputation name ≠ none := by
  have before : s.beforeVote v name ≠ none := by
    unfold State.beforeVote
    cases s.rshares v.key with
    | none => exact there
    | some old =>
      by_cases same : name = v.author
      · subst same
        simpa using there
      · simpa [same] using there
  simp only [State.vote]
  split
  · by_cases same : name = v.author
    · subst same
      simp
    · simpa [same] using before
  · exact before

/-- An author of whom a vote was counted has a reputation. -/
theorem Reached.known (reached : Reached s) (key : Name × Permlink × Name) (counted : s.counted key = true) :
    s.reputation key.1 ≠ none := by
  induction reached with
  | start => cases counted
  | @vote s _ v ih =>
    by_cases same : key = v.key
    · have allowed : State.allows (s.beforeVote v) v = true := by simpa [State.vote, same] using counted
      simp [State.vote, allowed, same, Vote.key]
    · exact vote_ne_none (ih (by simpa [State.vote, same] using counted))

/-- What a vote does to the reputation of the author. -/
theorem score_vote (s : State Name Permlink) (v : Vote Name Permlink) : (s.vote v).score v.author =
    s.score v.author - (if s.reputation v.author = none then 0 else s.given v.key) + (s.vote v).contribution v.key := by
  have before : (s.beforeVote v v.author).getD 0 =
      s.score v.author - if s.reputation v.author = none then 0 else s.given v.key := by
    unfold State.beforeVote State.given State.score
    cases old : s.rshares v.key <;> cases there : s.reputation v.author <;> simp [there]
  have contribution : (s.vote v).contribution v.key =
    if State.allows (s.beforeVote v) v then gives v.rshares else 0 := by
    simp [State.contribution, State.given, State.vote]
  rw [← before, contribution, State.score, State.vote]
  split <;> simp [*]

/-- A vote counts as it should if the earlier vote of the voter was counted, gave nothing, or gave it to an author
without a reputation. -/
theorem vote_counts_iff (reached : Reached s) (v : Vote Name Permlink) :
    Counts s v ↔ s.counted v.key = true ∨ s.given v.key = 0 ∨ s.reputation v.author = none := by
  have previous : s.contribution v.key = if s.counted v.key then s.given v.key else 0 := rfl
  rw [Counts, score_vote, previous]
  by_cases counted : s.counted v.key = true
  · have there : s.reputation v.author ≠ none := reached.known v.key counted
    rw [if_neg there, if_pos counted]
    exact iff_of_true (by omega) (.inl counted)
  · rw [if_neg counted]
    by_cases there : s.reputation v.author = none
    · rw [if_pos there]
      exact iff_of_true (by omega) (.inr (.inr there))
    · rw [if_neg there]
      simp only [counted, there, or_false, Bool.false_eq_true, false_or]
      omega

end Votes

/-- The account 3 is voted down by 2, whom 1 has voted up; then it votes for a post of 4, to whom 1 gave a reputation.
-/
def disgraced : State Nat Nat :=
  [⟨1, 2, 0, 6400⟩, ⟨2, 3, 0, -6400⟩, ⟨1, 4, 0, 6400⟩, ⟨3, 4, 0, 6400⟩].foldl State.vote
    ⟨fun _ => none, fun _ => none, fun _ => false⟩

theorem disgraced_reached : Reached disgraced := (((Reached.start.vote _).vote _).vote _).vote _

/-- When the account 3 votes for the same post again, the author loses what was never given. -/
theorem uncounted_vote_taken : Reached disgraced ∧ disgraced.score 3 = -100 ∧ disgraced.score 4 = 100 ∧
    disgraced.contribution (4, 0, 3) = 0 ∧ (disgraced.vote ⟨3, 4, 0, 6400⟩).contribution (4, 0, 3) = 0 ∧
    (disgraced.vote ⟨3, 4, 0, 6400⟩).score 4 = 0 :=
  ⟨disgraced_reached, by decide⟩

/-- The account 1 changes its vote for the same post, which was counted. -/
theorem vote_counts_iff_disgraced : Counts disgraced ⟨1, 4, 0, 640⟩ :=
  (vote_counts_iff disgraced_reached _).mpr (.inl (by decide))

end Golos.Reputation
