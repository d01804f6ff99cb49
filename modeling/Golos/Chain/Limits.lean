import Golos.Chain.History
import Golos.Lib.TokenBucket

/-! # What is limited

Votes before the last payout of their comment, new root posts and new replies count for a limit each.  A
history tells how many of them were accepted in a period, and when an account posted or replied last.
-/

namespace Golos

/-- What is limited. -/
inductive Limit where
  | votes
  | posts
  | replies
  deriving DecidableEq

namespace Limit

def window : Limit → ChainProperties → Nat
  | votes, p => p.votesWindow
  | posts, p => p.postsWindow
  | replies, p => p.commentsWindow

def perWindow : Limit → ChainProperties → Nat
  | votes, p => p.votesPerWindow
  | posts, p => p.postsPerWindow
  | replies, p => p.commentsPerWindow

end Limit

namespace Database

/-- Whether a vote is one before the last payout. -/
def isLiveVote (s : Database) (o : VoteOperation) : Bool :=
  match s.comments.find? (o.author, o.permlink) with
  | none => false
  | some c =>
    match discussionPayoutTime c s with
    | .ok (time, _) => time ≠ Time.maximum
    | .error _ => false

/-- Whether a comment is a new one. -/
def isNewComment (s : Database) (o : CommentOperation) : Bool := s.comments.find? (o.author, o.permlink) = none

end Database

def CommentOperation.limit (o : CommentOperation) : Limit := if o.parentAuthor = .blank then .posts else .replies

/-- The limit a deed counts for, and the account it counts for. -/
def Deed.limited (s : Database) : Deed → Option (Limit × AccountName)
  | .evaluated (.vote o) => if s.isLiveVote o then some (.votes, o.voter) else none
  | .evaluated (.comment o) => if s.isNewComment o then some (o.limit, o.author) else none
  | _ => none

/-- The limit a deed counts for, as far as one account is concerned. -/
def Deed.limitOf (s : Database) (name : AccountName) (deed : Deed) : Option Limit :=
  match deed.limited s with
  | none => none
  | some (l, account) => if account = name then some l else none

/-! ## What is accepted in a period -/

section Period

variable (l : Limit) (name : AccountName) (start period : Nat)

/-- Whether an action that is limited was accepted in the period. -/
def Transition.counts (tr : Transition) : Bool :=
  TokenBucket.inPeriod start period tr.before.state.head.time && decide (tr.deed.limitOf tr.before.state name = some l)

/-- How many actions of the account were accepted in the period. -/
def Moment.acceptedIn (m : Moment) : Nat := m.transitions.countP (Transition.counts l name start period)

/-- All through the period the limit is `perWindow` actions in `window` seconds. -/
def Moment.LimitHeld (window perWindow : Nat) (m : Moment) : Prop :=
  ∀ tr ∈ m.transitions, TokenBucket.inPeriod start period tr.before.state.head.time = true →
    tr.before.state.hasHardfork 19 = true ∧ l.window tr.before.state.schedule.medianProps = window ∧
      l.perWindow tr.before.state.schedule.medianProps = perWindow

instance {window perWindow : Nat} {m : Moment} : Decidable (m.LimitHeld l start period window perWindow) :=
  inferInstanceAs (Decidable (∀ tr ∈ m.transitions, _))

end Period

/-! ## The last post or reply -/

/-- Whether a deed posts or replies for an account. -/
def Deed.posts (s : Database) (name : AccountName) (deed : Deed) : Bool :=
  deed.limitOf s name = some .posts ∨ deed.limitOf s name = some .replies

/-- The time of the last post or reply of an account. -/
def Moment.lastPosted (m : Moment) (name : AccountName) : Time :=
  ((m.past.find? fun e => e.2.posts e.1 name).map fun e => e.1.head.time).getD 0

end Golos
