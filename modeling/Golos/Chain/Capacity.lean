import Golos.Chain.Clock
import Golos.Chain.ValidProps

/-! # Capacities

From hardfork 19 on votes, root posts and replies are limited by a capacity each, a token bucket whose
size is a window of seconds and whose cost the window divided by the number of actions it allows.
Votes on comments after their last payout are not limited, and posts and replies share the time from
which both their capacities fill.
-/

namespace Golos

open Stateful Option
open Database hiding pow

set_option synthInstance.maxSize 1000000

variable {m : Meters} {change : Activity → Activity} {account name : AccountName} {balances : Balances}
  {info : AccountInfo} {net : Network} {a : Account} {message : String} {l : Limit} {t u : Database}
  {o : CommentOperation} {strength : VoteStrength} {left : Nat}

/-! ## The bucket -/

/-- What `consumeCapacity` leaves, if there is enough. -/
def spend (window perWindow capacity elapsed : Nat) : Option Nat :=
  let current := min ((capacity + min window (elapsed % 2 ^ 32)) % 2 ^ 16) window
  if window / perWindow < current + 1 then some (current - window / perWindow) else none

section Spend

variable {window perWindow capacity elapsed : Nat} {s : Database}

theorem consumeCapacity_eq : consumeCapacity window perWindow capacity elapsed message s =
    match spend window perWindow capacity elapsed with
    | some left => .ok (left, s)
    | none => .error (.bandwidth message) := by
  unfold consumeCapacity spend check
  dsimp only
  split <;> rfl

theorem consumeCapacity_ensures : Ensures s (consumeCapacity window perWindow capacity elapsed message)
    fun left t => t = s ∧ spend window perWindow capacity elapsed = some left := by
  intro left t run
  rw [consumeCapacity_eq] at run
  split at run
  next enough =>
    cases run
    exact ⟨rfl, enough⟩
  · cases run

/-- A capacity never fills faster than time passes. -/
theorem spend_le (spent : spend window perWindow capacity elapsed = some left) :
    left + window / perWindow ≤ capacity + elapsed ∧ left + window / perWindow ≤ window := by
  unfold spend at spent
  dsimp only at spent
  split at spent
  next enough =>
    rw [some.injEq] at spent
    omega
  · cases spent

/-- The 16-bit sum of what is stored and what came back is exact. -/
theorem capacity_exact (stored : capacity ≤ 32767) (valid : window ≤ 32767) :
    (capacity + min window (elapsed % 2 ^ 32)) % 2 ^ 16 = capacity + min window (elapsed % 2 ^ 32) :=
  Nat.mod_eq_of_lt (by omega)

theorem spend_eq_take (stored : capacity ≤ 32767) (valid : window ≤ 32767) (short : elapsed < 2 ^ 32) :
    spend window perWindow capacity elapsed = TokenBucket.take window (window / perWindow) capacity elapsed := by
  unfold spend TokenBucket.take
  have same : min (capacity + min window elapsed) window = min (capacity + elapsed) window := by omega
  simp only [capacity_exact stored valid]
  simp only [Nat.mod_eq_of_lt short, same, Nat.lt_succ_iff]

end Spend

/-- The attempts that are accepted, of those made at the given times. -/
def admitted (window perWindow : Nat) : (capacity last : Nat) → List Nat → List Nat
  | _, _, [] => []
  | capacity, last, now :: times =>
    match spend window perWindow capacity (now - last) with
    | some left => now :: admitted window perWindow left now times
    | none => admitted window perWindow capacity last times

/-- In every period, however long, at most one action over what the limit promises is accepted. -/
def KeepsPromise (window perWindow : Nat) : Prop :=
  ∀ capacity last times start period, capacity ≤ 32767 → (last :: times).Pairwise (· ≤ ·) →
    (∀ t ∈ times, t < 2 ^ 32) →
      (admitted window perWindow capacity last times).countP (TokenBucket.inPeriod start period) * window ≤
        perWindow * (window + period) + window

section Promise

variable {window perWindow capacity last : Nat} {times : List Nat}

theorem admitted_eq_accepted (valid : window ≤ 32767) (stored : capacity ≤ 32767) (short : ∀ t ∈ times, t < 2 ^ 32) :
    admitted window perWindow capacity last times =
      TokenBucket.accepted window (window / perWindow) capacity last times := by
  induction times generalizing capacity last with
  | nil => rfl
  | cons now times ih =>
    obtain ⟨first, others⟩ := List.forall_mem_cons.mp short
    rw [admitted, TokenBucket.accepted, spend_eq_take stored valid (by omega)]
    cases taken : TokenBucket.take window (window / perWindow) capacity (now - last) with
    | none => exact ih stored others
    | some left =>
      have fits := (TokenBucket.take_eq_some.mp taken).le.trans (Nat.min_le_right ..)
      exact congrArg _ (ih ((Nat.le_of_add_right_le fits).trans valid) others)

/-- The promise is kept exactly if the window is a multiple of the actions it allows. -/
theorem keepsPromise_iff (positive : 1 ≤ perWindow) (valid : window ≤ 32767) :
    KeepsPromise window perWindow ↔ perWindow ∣ window := by
  constructor
  · intro keeps
    by_contra lost
    have exceeded := TokenBucket.rate_exceeded positive lost
    have short : ∀ t ∈ TokenBucket.greedy (window / perWindow) perWindow (window + 1), t < 2 ^ 32 := by
      intro t member
      have cost : window / perWindow ≤ window := Nat.div_le_self ..
      have ended := TokenBucket.mem_greedy member
      have : (window + 1) * (window / perWindow) ≤ 32768 * 32767 := Nat.mul_le_mul (by omega) (cost.trans valid)
      omega
    have kept := keeps window 0 _ 0 ((window + 1) * (window / perWindow)) valid TokenBucket.greedy_sorted short
    rw [admitted_eq_accepted valid valid short] at kept
    exact absurd kept exceeded.not_ge
  · intro divides capacity last times start period stored order short
    rw [admitted_eq_accepted valid stored short]
    exact (TokenBucket.rate_of_cost divides (TokenBucket.accepted_le order)).trans (Nat.le_add_right ..)

end Promise

/-! ## What is kept of an account -/

/-- The capacities of an account and the times they fill from. -/
structure Meters where
  votingCapacity : Nat
  lastVoteTime : Time
  postsCapacity : Nat
  commentsCapacity : Nat
  lastPost : Time

def Activity.meters (a : Activity) : Meters :=
  ⟨a.votingCapacity, a.lastVoteTime, a.postsCapacity, a.commentsCapacity, a.lastPost⟩

def Database.metersOf (s : Database) (name : AccountName) : Option Meters :=
  (s.accounts.find? name).map fun a => a.activity.meters

/-- What an account starts with. -/
structure Meters.Fresh (m : Meters) : Prop where
  votingCapacity : m.votingCapacity = 15
  postsCapacity : m.postsCapacity = 3
  commentsCapacity : m.commentsCapacity = 200
  lastPost : m.lastPost = 0

/-- The meters of every account stay as they are, and those of a new one are fresh. -/
structure MetersKept (s t : Database) : Prop where
  kept : ∀ name m, s.metersOf name = some m → t.metersOf name = some m
  fresh : ∀ name m, s.metersOf name = none → t.metersOf name = some m → m.Fresh

instance : Std.Refl MetersKept := by
  refine ⟨fun s => ⟨fun _ _ => id, fun name m absent found => ?_⟩⟩
  rw [absent] at found
  cases found

instance : IsTrans Database MetersKept := by
  refine ⟨fun s t u first second => ⟨fun name m found => second.kept name m (first.kept name m found), ?_⟩⟩
  intro name m absent found
  cases middle : t.metersOf name with
  | none => exact second.fresh name m middle found
  | some m' =>
    rw [second.kept name m' middle] at found
    cases found
    exact first.fresh name _ absent middle

abbrev outsideActivity : Footprint
  | .activity => false
  | _ => true

/-- The meters of one account are changed by `f`. -/
def MetersSet (name : AccountName) (f : Meters → Meters) (s t : Database) : Prop :=
  ∀ x, t.metersOf x = if x = name then (s.metersOf x).map f else s.metersOf x

section Frames

open Evaluator

variable {s : Database} {f g : Meters → Meters}

theorem Within.metersOf (within : Within outsideActivity s t) : t.metersOf name = s.metersOf name := by
  have found : (t.accounts.find? name).map (·.activity) = (s.accounts.find? name).map (·.activity) :=
    Store.find?_eq_of_view (within .activity rfl) name
  simpa [Database.metersOf, Function.comp_def] using congrArg (Option.map Activity.meters) found

theorem metersKept_of_eq (same : ∀ name, t.metersOf name = s.metersOf name) : MetersKept s t := by
  refine ⟨fun name m found => (same name).trans found, fun name m absent found => ?_⟩
  rw [same, absent] at found
  cases found

instance : Finer (Within outsideActivity) MetersKept := ⟨fun _ _ within => metersKept_of_eq fun _ => within.metersOf⟩

theorem modifyActivity_sets (same : ∀ a, (change a).meters = f a.meters) :
    Ensures s (modifyActivity name change) fun _ t => MetersSet name f s t := by
  simp only [modifyActivity, updateAccount, getAccount, updateAccounts, ensures_steps]
  intro _ _ x
  rw [metersOf, Store.find?_modify]
  split
  · rw [map_map, metersOf, map_map]
    exact congrArg (Option.map · _) (funext fun a => same a.activity)
  · rfl

theorem MetersSet.kept (sets : MetersSet name id s t) : MetersKept s t := by
  refine metersKept_of_eq fun x => ?_
  rw [sets x, map_id, id, ite_self]

theorem MetersSet.trans (first : MetersSet name f s t) (second : MetersSet name g t u) :
    MetersSet name (g ∘ f) s u := by
  intro x
  rw [second x, first x]
  split
  · rw [map_map]
  · rfl

theorem MetersSet.frame (sets : MetersSet name f s t) (within : Within outsideActivity t u) : MetersSet name f s u :=
  fun x => within.metersOf.trans (sets x)

theorem MetersSet.after (within : Within outsideActivity s t) (sets : MetersSet name f t u) : MetersSet name f s u := by
  intro x
  rw [sets x, within.metersOf]

theorem preserves_createAccount {account : Account} (fresh : account.activity.meters.Fresh) :
    Preserves MetersKept (createAccount name account) := by
  refine ⟨fun s => ?_⟩
  simp only [createAccount, updateAccounts, ensures_steps]
  intro absent
  have looked (x : AccountName) : metersOf { s with accounts := s.accounts.insert name account } x =
      if x = name then some account.activity.meters else s.metersOf x := by
    rw [metersOf, Store.find?_insert absent]
    split <;> rfl
  have missing : s.metersOf name = none := congrArg (Option.map _) absent
  refine ⟨fun x m found => ?_, fun x m unknown found => ?_⟩
  · rw [looked, if_neg, found]
    rintro rfl
    rw [missing] at found
    cases found
  · rw [looked] at found
    split at found
    · cases found
      exact fresh
    · rw [unknown] at found
      cases found

instance {delegated : DelegatedShares} {time : Time} : Preserves MetersKept (createAccount name
      { balances, delegated, activity := { lastVoteTime := time }, info }) :=
  preserves_createAccount ⟨rfl, rfl, rfl, rfl⟩

instance {name} : Preserves MetersKept (declineVotes name) := by
  have declined : Preserves MetersKept (modifyActivity name fun x => { x with canVote := false }) :=
    ⟨fun s => Ensures.mono (modifyActivity_sets fun _ => rfl) fun _ _ sets => sets.kept⟩
  unfold declineVotes; infer_instance

instance {owner active posting : Authority} :
    Preserves MetersKept (createGenesisAccount name { balances, info } owner active posting) := by
  unfold createGenesisAccount; infer_instance

theorem initGenesis_metersKept : Preserves MetersKept net.initGenesis := by
  unfold Network.initGenesis; infer_instance

/-- Votes and posts aside, operations keep the meters. -/
def Operation.isMetered : Operation → Bool
  | .vote _ | .comment _ => true
  | _ => false

theorem evaluate_metersKept {producing nesting apply} {op : Operation} (other : op.isProposal = false)
    (free : op.isMetered = false) :
    Preserves MetersKept (evaluate producing nesting apply op) := by
  cases op <;> simp only [evaluate, accountCreate, accountCreateWithDelegation, createMinedAccount, pow, pow2]
  case proposalCreate | proposalUpdate | proposalDelete => cases other
  case vote | comment => cases free
  all_goals infer_instance

theorem run_metersKept {step : BlockStep} (noOperations : step.appliesOperations = false) :
    Preserves MetersKept (step.run net) := by
  cases step <;> simp only [BlockStep.run, processDeclineVotingRights]
  case applyTransaction | clearExpiredProposals => cases noOperations
  all_goals infer_instance

end Frames

/-! ## Limits -/

namespace Limit

/-- What is stored of the capacity. -/
def level : Limit → Meters → Nat
  | votes, m => m.votingCapacity
  | posts, m => m.postsCapacity
  | replies, m => m.commentsCapacity

/-- The time it fills from. -/
def since : Limit → Meters → Time
  | votes, m => m.lastVoteTime
  | posts, m | replies, m => m.lastPost

def put (left : Nat) : Limit → Meters → Meters
  | votes, m => { m with votingCapacity := left }
  | posts, m => { m with postsCapacity := left }
  | replies, m => { m with commentsCapacity := left }

def touch (now : Time) : Limit → Meters → Meters
  | votes, m => { m with lastVoteTime := now }
  | posts, m | replies, m => { m with lastPost := now }

end Limit

/-- What an action that is limited leaves of a capacity.  Before hardfork 19 the time since the last
action of its kind was all that counted. -/
def Limit.Allows (l : Limit) (s : Database) (m : Meters) (left : Nat) : Prop :=
  if s.hasHardfork 19 then
    spend (l.window s.schedule.medianProps) (l.perWindow s.schedule.medianProps) (l.level m)
      (s.head.time - l.since m) = some left
  else left = l.level m

/-- One more action of an account. -/
def Counted (l : Limit) (name : AccountName) (s t : Database) : Prop :=
  ∃ m left, s.metersOf name = some m ∧ l.Allows s m left ∧
    MetersSet name (l.touch s.head.time ∘ l.put left) s t

section Evaluators

open Evaluator

variable {s : Database}

/-- The limit is met, and what is left is stored. -/
def Spends (l : Limit) (name : AccountName) (s t : Database) : Prop :=
  ∃ m left, s.metersOf name = some m ∧ l.Allows s m left ∧ MetersSet name (l.put left) s t

theorem consume_spends (l : Limit)
    {change : Nat → Activity → Activity} (same : ∀ left x, (change left x).meters = l.put left x.meters)
    (late : s.hasHardfork 19 = true) (found : s.accounts.find? name = some a) :
    Ensures s (do
      let left ← consumeCapacity (l.window s.schedule.medianProps) (l.perWindow s.schedule.medianProps)
        (l.level a.activity.meters) (s.head.time - l.since a.activity.meters) message
      modifyActivity name (change left)) fun _ t => Spends l name s t := by
  have known : s.metersOf name = some a.activity.meters := congrArg (Option.map _) found
  rw [ensures_bind]
  refine Ensures.mono consumeCapacity_ensures fun left t spent => ?_
  obtain ⟨rfl, spent⟩ := spent
  refine Ensures.mono (modifyActivity_sets (same left)) fun _ _ sets => ⟨_, left, known, ?_, sets⟩
  rw [Limit.Allows, if_pos late]
  exact spent

theorem spends_of_early (early : ¬s.hasHardfork 19 = true) (found : s.accounts.find? name = some a)
    (within : Within outsideActivity s t) : Spends l name s t := by
  have known : s.metersOf name = some a.activity.meters := congrArg (Option.map _) found
  refine ⟨_, l.level a.activity.meters, known, ?_, fun x => ?_⟩
  · rw [Limit.Allows, if_neg early]
  · rw [within.metersOf]
    split
    next same =>
      rw [same, known]
      cases l <;> rfl
    · rfl

theorem voteCapacity_spends {voter : AccountName} :
    Ensures s (voteCapacity voter) fun _ t => Spends .votes voter s t := by
  simp only [voteCapacity, getAccount, ensures_steps]
  intro a found
  by_cases late : s.hasHardfork 19 = true
  · rw [if_pos late]
    exact consume_spends .votes (fun _ _ => rfl) late found
  · rw [if_neg late, ensures_check]
    exact fun _ => spends_of_early late found (refl_of (Within outsideActivity) s)

section Once

variable {f : Meters → Meters} {α β : Type}

/-! A program that changes the meters of an account once, somewhere on its way. -/

theorem metersSet_here {rest : Unit → Eval β}
    (same : ∀ a, (change a).meters = f a.meters) [frame : ∀ x, Touches outsideActivity (rest x)] :
    Ensures s (modifyActivity name change >>= rest) fun _ t => MetersSet name f s t := by
  rw [ensures_bind]
  refine Ensures.mono (modifyActivity_sets same) fun x u sets => ?_
  exact ensures_frame (Within outsideActivity) fun _ v after => sets.frame after

theorem metersSet_later {m : Eval α} {rest : α → Eval β} [frame : Touches outsideActivity m]
    (sets : ∀ a t, Ensures t (rest a) fun _ u => MetersSet name f t u) :
    Ensures s (m >>= rest) fun _ t => MetersSet name f s t := by
  rw [ensures_bind]
  refine ensures_frame (Within outsideActivity) fun a t before => ?_
  exact Ensures.mono (sets a t) fun _ u after => after.after before

end Once

theorem firstVote_sets {o : VoteOperation} : Ensures s (firstVote o strength) fun _ t =>
    MetersSet o.voter (Limit.votes.touch s.head.time) s t := by
  rw [firstVote, ensures_bind, ensures_get]
  refine metersSet_later fun c _ => metersSet_later fun voter _ => metersSet_later fun _ _ => ?_
  exact metersSet_later fun _ _ => metersSet_here fun _ => rfl

theorem changeVote_sets {o : VoteOperation} {vote : CommentVote} : Ensures s (changeVote o strength vote) fun _ t =>
      MetersSet o.voter (Limit.votes.touch s.head.time) s t := by
  rw [changeVote, ensures_bind, ensures_get]
  refine metersSet_later fun c _ => metersSet_later fun _ _ => metersSet_later fun _ _ => ?_
  exact metersSet_later fun _ _ => metersSet_here fun _ => rfl

instance preservesEq_getAccount : Preserves (@Eq Database) (getAccount name) := by
  unfold getAccount; infer_instance

instance preservesEq_getComment {key : CommentKey} : Preserves (@Eq Database) (getComment key) := by
  unfold getComment; infer_instance

instance preservesEq_checkNotChallenged : Preserves (@Eq Database) (checkNotChallenged name message) := by
  unfold checkNotChallenged; infer_instance

theorem discussionPayoutTime_ensures {c : Comment} : Ensures s (discussionPayoutTime c) fun time t =>
    t = s ∧ discussionPayoutTime c s = .ok (time, s) := by
  have unchanged : Preserves (@Eq Database) (discussionPayoutTime c) := by
    unfold discussionPayoutTime; infer_instance
  intro time t run
  obtain rfl : s = t := unchanged.after run
  exact ⟨rfl, run⟩

abbrev activityOnly : Footprint
  | .activity => true
  | _ => false

/-- A vote before the last payout. -/
theorem liveVote_counts {o : VoteOperation} : Ensures s (do
      voteCapacity o.voter
      let strength ← voteStrength o.voter o.weight
      let s ← get
      (s.commentVotes.find? ((o.author, o.permlink), o.voter)).elim (firstVote o strength) (changeVote o strength))
    fun _ t => Counted .votes o.voter s t := by
  rw [ensures_bind]
  refine Ensures.mono (Ensures.framed (Within activityOnly) voteCapacity_spends) fun _ t limited => ?_
  obtain ⟨within, m, left, known, allowed, spent⟩ := limited
  have head : t.head = s.head := within .head rfl
  have voted : Ensures t (do
      let strength ← voteStrength o.voter o.weight
      let s ← get
      (s.commentVotes.find? ((o.author, o.permlink), o.voter)).elim (firstVote o strength) (changeVote o strength))
      fun _ u => MetersSet o.voter (Limit.votes.touch t.head.time) t u := by
    rw [ensures_bind]
    have unchanged : Preserves (@Eq Database) (voteStrength o.voter o.weight) := by
      unfold voteStrength; infer_instance
    refine ensures_read fun strength => ?_
    rw [ensures_bind, ensures_get]
    cases t.commentVotes.find? ((o.author, o.permlink), o.voter) with
    | none => exact firstVote_sets
    | some vote => exact changeVote_sets
  refine Ensures.mono voted fun _ u sets => ⟨m, left, known, allowed, ?_⟩
  rw [head] at sets
  exact spent.trans sets

theorem vote_counts {o : VoteOperation} : Ensures s (vote o) fun _ t =>
    if s.isLiveVote o then Counted .votes o.voter s t else MetersKept s t := by
  simp only [vote, getComment, ensures_bind, ensures_get, ensures_require]
  intro c found
  refine ensures_read fun voter => ensures_read fun _ => ensures_read fun _ => ensures_read fun _ => ?_
  refine Ensures.mono discussionPayoutTime_ensures fun time t payout => ?_
  obtain ⟨rfl, payout⟩ := payout
  have live : t.isLiveVote o = decide (time ≠ Time.maximum) := by
    unfold isLiveVote
    rw [found]
    dsimp only
    rw [payout]
  by_cases ended : time = Time.maximum
  · rw [if_pos ended]
    refine ensures_frame MetersKept fun _ u kept => ?_
    rw [live, if_neg (by simpa using ended)]
    exact kept
  · rw [if_neg ended]
    refine Ensures.mono liveVote_counts fun _ u counted => ?_
    rw [live, if_pos (by simpa using ended)]
    exact counted

abbrev bandwidthOnly : Footprint
  | .postBandwidth => true
  | _ => false

theorem Limit.Allows.before (within : Within bandwidthOnly s t) (allowed : l.Allows t m left) : l.Allows s m left := by
  have head : t.head = s.head := within .head rfl
  have schedule : t.schedule = s.schedule := within .schedule rfl
  have hardforks : t.hardforks = s.hardforks := within .hardforks rfl
  have same : t.hasHardfork 19 = s.hasHardfork 19 := by rw [hasHardfork, hardforks]; rfl
  rwa [Limit.Allows, same, schedule, head] at allowed

theorem postCapacity_spends (late : s.hasHardfork 19 = true) :
    Ensures s (postCapacity o) fun _ t => Spends o.limit o.author s t := by
  simp only [postCapacity, getAccount, ensures_steps]
  intro a found
  by_cases root : o.parentAuthor = .blank
  · have limit : o.limit = .posts := if_pos root
    rw [if_pos root, limit]
    exact consume_spends .posts (fun _ _ => rfl) late found
  · have limit : o.limit = .replies := if_neg root
    rw [if_neg root, limit]
    exact consume_spends .replies (fun _ _ => rfl) late found

theorem Spends.frame (spends : Spends l name s t) (within : Within outsideActivity t u) : Spends l name s u := by
  obtain ⟨m, left, known, allowed, sets⟩ := spends
  exact ⟨m, left, known, allowed, sets.frame within⟩

theorem Spends.after (within : Within bandwidthOnly s t) (spends : Spends l name t u) : Spends l name s u := by
  have outside : Within outsideActivity s t := fun c other => within c (by cases c <;> first | rfl | cases other)
  obtain ⟨m, left, known, allowed, sets⟩ := spends
  exact ⟨m, left, outside.metersOf.symm.trans known, allowed.before within, sets.after outside⟩

theorem calcRewardWeight_spends : Ensures s (calcRewardWeight o) fun _ t => Spends o.limit o.author s t := by
  rw [calcRewardWeight, ensures_bind, ensures_get, ensures_bind]
  refine ensures_frame (Within bandwidthOnly) fun _ t created => ?_
  rw [ensures_bind]
  refine ensures_frame (Within bandwidthOnly) fun band u fetched => ?_
  have before := trans_of (Within bandwidthOnly) created fetched
  have hardforks : s.hardforks = u.hardforks := (before .hardforks rfl).symm
  have same (n : Nat) : s.hasHardfork n = u.hasHardfork n := by rw [hasHardfork, hardforks]; rfl
  simp only [getAccount, ensures_steps]
  intro a found
  rw [same 19]
  have limited : Ensures u (if u.hasHardfork 19 then postCapacity o
      else if s.hasHardfork 12 then postInterval o band.lastBandwidthUpdate a.activity.lastPost
      else if s.hasHardfork 6 then postInterval o a.activity.lastPost a.activity.lastPost
      else check (a.activity.lastPost + 60 < s.head.time) (.bandwidth "You may only post once per minute."))
      fun _ v => Spends o.limit o.author u v := by
    by_cases late : u.hasHardfork 19 = true
    · rw [if_pos late]
      exact postCapacity_spends late
    · rw [if_neg late]
      exact ensures_frame (Within outsideActivity) fun _ v within => spends_of_early late found within
  refine Ensures.mono limited fun _ v spends => ?_
  exact ensures_frame (Within outsideActivity) fun _ w within => (spends.frame within).after before

theorem createPost_counts {parent : Option Comment} :
    Ensures s (createPost o parent) fun _ t => Counted o.limit o.author s t := by
  have read : Preserves (@Eq Database) (parent.elim (pure ()) fun p => do
      let root ← getComment p.place.rootComment
      checkLogic root.payout.allowReplies "The parent comment has disabled replies.") := by
    cases parent <;> dsimp only [Option.elim] <;> infer_instance
  rw [createPost, ensures_bind]
  refine ensures_read fun _ => ?_
  rw [ensures_bind]
  refine Ensures.mono (Ensures.framed (Within dispatchCells) calcRewardWeight_spends) fun weight t spent => ?_
  obtain ⟨within, m, left, known, allowed, put⟩ := spent
  have head : t.head = s.head := within .head rfl
  rw [ensures_bind, ensures_get, head]
  have touched : ∀ a : Activity, (if parent.isSome then
      { a with lastPost := s.head.time, commentCount := a.commentCount + 1 }
      else { a with lastPost := s.head.time, postCount := a.postCount + 1 }).meters =
        o.limit.touch s.head.time a.meters := by
    intro a
    have limit : o.limit = .posts ∨ o.limit = .replies := by
      unfold CommentOperation.limit
      split <;> simp
    obtain root | reply := limit
    · rw [root]
      split <;> rfl
    · rw [reply]
      split <;> rfl
  refine Ensures.mono (metersSet_here touched) fun _ u sets => ⟨m, left, known, allowed, put.trans sets⟩

theorem comment_counts {producing : Bool} : Ensures s (comment producing o) fun _ t =>
    if s.isNewComment o then Counted o.limit o.author s t else MetersKept s t := by
  have parents : Preserves (@Eq Database) (getParent producing o) := by
    unfold getParent; infer_instance
  simp only [comment, ensures_bind, ensures_get]
  refine ensures_read fun _ => ensures_read fun _ => ensures_read fun parent => ?_
  cases found : s.comments.find? (o.author, o.permlink) with
  | none =>
    have new : s.isNewComment o = true := decide_eq_true found
    rw [new]
    exact createPost_counts
  | some c =>
    have old : s.isNewComment o = false := by simp [isNewComment, found]
    rw [old]
    have edited : Ensures s (editPost o c) fun _ u => MetersKept s u := Preserves.related s
    exact edited

end Evaluators

/-! ## What a deed does to the meters of an account -/

/-- The meters after a deed that counts for a limit, or for none. -/
def Meters.Next (limited : Option Limit) (s : Database) (m m' : Meters) : Prop :=
  match limited with
  | none => m' = m
  | some l => ∃ left, l.Allows s m left ∧ m' = l.touch s.head.time (l.put left m)

/-- What is known of the meters of an account after a deed. -/
structure MetersStep (limited : Option Limit) (name : AccountName) (s t : Database) : Prop where
  next : ∀ m, s.metersOf name = some m → ∃ m', t.metersOf name = some m' ∧ m.Next limited s m'
  fresh : ∀ m, s.metersOf name = none → t.metersOf name = some m → m.Fresh
  known : ∀ l, limited = some l → ∃ m, s.metersOf name = some m

section Deeds

variable {s : Database} {deed : Deed}

theorem Deed.limitOf_none (unlimited : deed.limited s = none) : deed.limitOf s name = none := by
  rw [limitOf, unlimited]

theorem MetersKept.step (kept : MetersKept s t) : MetersStep none name s t :=
  ⟨fun m found => ⟨m, kept.kept name m found, rfl⟩, kept.fresh name, nofun⟩

theorem Counted.step (counted : Counted l account s t) :
    MetersStep (if account = name then some l else none) name s t := by
  obtain ⟨m, left, known, allowed, sets⟩ := counted
  have looked := sets name
  split
  next same =>
    subst same
    rw [if_pos rfl, known, map_some] at looked
    refine ⟨fun m' found => ?_, fun m' absent => ?_, fun _ _ => ⟨m, known⟩⟩
    · cases known.symm.trans found
      exact ⟨_, looked, left, allowed, rfl⟩
    · cases known.symm.trans absent
  next other =>
    rw [if_neg fun same => other same.symm] at looked
    refine ⟨fun m' found => ⟨m', looked.trans found, rfl⟩, fun m' absent found => ?_, nofun⟩
    rw [looked, absent] at found
    cases found

theorem step_of_counts {c : Prop} [Decidable c] (limited : deed.limited s = if c then some (l, account) else none)
    (counts : if c then Counted l account s t else MetersKept s t) : MetersStep (deed.limitOf s name) name s t := by
  rw [Deed.limitOf, limited]
  split at counts
  next holds =>
    rw [if_pos holds]
    exact counts.step
  next fails =>
    rw [if_neg fails]
    exact counts.step

theorem Does.metersStep (done : Does net s deed t) (name : AccountName) :
    MetersStep (deed.limitOf s name) name s t := by
  cases done using Does.byKind with
  | record kind frame =>
    rw [Deed.limitOf_none (by cases deed <;> first | rfl | cases kind)]
    exact MetersKept.step (metersKept_of_eq fun _ => Within.metersOf frame.widen)
  | @evaluated _ _ _ _ _ op notProposal _ run =>
    by_cases metered : op.isMetered = true
    · cases op with
      | vote o => exact step_of_counts rfl (vote_counts _ _ run)
      | comment o => exact step_of_counts rfl (comment_counts _ _ run)
      | _ => cases metered
    · have kept := (evaluate_metersKept notProposal (eq_false_of_ne_true metered)).after run
      have unlimited : Deed.limited s (.evaluated op) = none := by
        cases op <;> first | rfl | exact absurd rfl metered
      rw [Deed.limitOf_none unlimited]
      exact kept.step
  | stepped noOperations run => exact MetersKept.step ((run_metersKept noOperations).after run)

variable {m' : Meters} {limited : Option Limit}

theorem Meters.Next.counted (next : m.Next (some l) s m') :
    ∃ left, l.Allows s m left ∧ l.level m' = left ∧ l.since m' = s.head.time := by
  obtain ⟨left, allowed, rfl⟩ := next
  refine ⟨left, allowed, ?_, ?_⟩ <;> cases l <;> rfl

/-- What counts for another limit keeps the capacity, but may set back the time it fills from. -/
theorem Meters.Next.other (next : m.Next limited s m') (other : limited ≠ some l) :
    l.level m' = l.level m ∧ (l.since m' = l.since m ∨ l.since m' = s.head.time) := by
  cases limited with
  | none =>
    obtain rfl : m' = m := next
    exact ⟨rfl, .inl rfl⟩
  | some l' =>
    obtain ⟨left, _, rfl⟩ := next
    cases l <;> cases l' <;> first | exact absurd rfl other | exact ⟨rfl, .inl rfl⟩ | exact ⟨rfl, .inr rfl⟩

end Deeds

/-! ## Capacities stay small -/

def Limit.Valid (l : Limit) (p : ChainProperties) : Prop :=
  1 ≤ l.perWindow p ∧ l.perWindow p ≤ l.window p ∧ l.window p ≤ 32767

theorem ChainProperties.Valid.limit {p : ChainProperties} (valid : p.Valid) (l : Limit) : l.Valid p := by
  cases l with
  | votes => exact ⟨valid.votesPerWindow.1, valid.votesPerWindow.2, valid.votesWindow.2⟩
  | posts => exact ⟨valid.postsPerWindow.1, valid.postsPerWindow.2, valid.postsWindow.2⟩
  | replies => exact ⟨valid.commentsPerWindow.1, valid.commentsPerWindow.2, valid.commentsWindow.2⟩

def Database.MetersSmall (s : Database) : Prop :=
  ∀ name m, s.metersOf name = some m → ∀ l : Limit, l.level m ≤ 32767

section Runs

variable {allowed : Database → BlockStep → Prop} {rest : List BlockStep} {s : Database}

theorem Meters.Fresh.small (fresh : m.Fresh) (l : Limit) : l.level m ≤ 32767 := by
  cases l with
  | votes => exact fresh.votingCapacity.trans_le (by decide)
  | posts => exact fresh.postsCapacity.trans_le (by decide)
  | replies => exact fresh.commentsCapacity.trans_le (by decide)

theorem Limit.Allows.small (allows : l.Allows s m left)
    (valid : l.Valid s.schedule.medianProps) (small : l.level m ≤ 32767) : left ≤ 32767 := by
  unfold Limit.Allows at allows
  split at allows
  · exact (Nat.le_of_add_right_le (spend_le allows).2).trans valid.2.2
  · exact allows.trans_le small

theorem Does.metersSmall {deed : Deed} (done : Does net s deed t) (valid : s.PropsValid) (small : s.MetersSmall) :
    t.MetersSmall := by
  intro name m' found l
  have step := done.metersStep name
  cases known : s.metersOf name with
  | none => exact (step.fresh m' known found).small l
  | some m =>
    obtain ⟨m'', found', next⟩ := step.next m known
    cases found.symm.trans found'
    by_cases counted : deed.limitOf s name = some l
    · rw [counted] at next
      obtain ⟨left, allowed, level, _⟩ := next.counted
      rw [level]
      exact allowed.small (valid.median.limit l) (small name m known l)
    · rw [(next.other counted).1]
      exact small name m known l

theorem Network.Chronicle.metersSmall {m : Moment} (chronicle : net.Chronicle allowed rest m) :
    m.state.PropsValid ∧ m.state.MetersSmall := by
  have rule := @Network.Chronicle.invariant net allowed fun m => m.state.PropsValid ∧ m.state.MetersSmall
  refine rule (fun s start => ⟨?_, ?_⟩)
    (fun m deed t _ before done => ⟨done.propsValid before.1, done.metersSmall before.1 before.2⟩) chronicle
  · exact (@propsValid_keepsInvariant net allowed).genesis _ _ start
  · have kept := initGenesis_metersKept.after start
    exact fun name m found => (kept.fresh name m rfl found).small

/-! ## What is accepted in a period -/

section Period

variable (l : Limit) (name : AccountName) (start period : Nat)

/-- As long as the period lasts, the bucket of the account accounts for what was accepted. -/
structure Moment.Metered (window perWindow : Nat) (m : Moment) : Prop where
  bound : m.acceptedIn l name start period * (window / perWindow) ≤ window + period
  spent : m.state.head.time ≤ start + period → m.acceptedIn l name start period = 0 ∨
    ∃ meters, m.state.metersOf name = some meters ∧ l.since meters ≤ m.state.head.time ∧
      TokenBucket.Spent window (window / perWindow) start (m.acceptedIn l name start period)
        (l.level meters) (l.since meters)

variable {l name start period} {window perWindow : Nat} {m : Moment} {deed : Deed}

theorem Moment.acceptedIn_next : (m.next deed t).acceptedIn l name start period =
    m.acceptedIn l name start period + if Transition.counts l name start period ⟨m, deed, t⟩ then 1 else 0 := by
  rw [acceptedIn, transitions_next, List.countP_cons]
  rfl

/-- A deed that does not count leaves room for the same actions. -/
theorem Moment.Metered.next_other (metered : m.Metered l name start period window perWindow)
    (done : Does net m.state deed t) (later : m.state.head.time ≤ t.head.time)
    (uncounted : Transition.counts l name start period ⟨m, deed, t⟩ = false) :
    (m.next deed t).Metered l name start period window perWindow := by
  have same : (m.next deed t).acceptedIn l name start period = m.acceptedIn l name start period := by
    rw [acceptedIn_next, uncounted]
    rfl
  refine ⟨same ▸ metered.bound, fun inTime => ?_⟩
  rw [same]
  obtain absent | ⟨meters, known, since, spent⟩ := metered.spent (later.trans inTime)
  · exact .inl absent
  · obtain ⟨meters', found, step⟩ := (done.metersStep name).next meters known
    -- the time is in the period, since something was spent in it before
    have inside : TokenBucket.inPeriod start period m.state.head.time = true := by
      rw [TokenBucket.inPeriod, Bool.and_eq_true, decide_eq_true_eq, decide_eq_true_eq]
      exact ⟨spent.since.trans since, later.trans inTime⟩
    have other : deed.limitOf m.state name ≠ some l := by
      simpa [Transition.counts, inside] using uncounted
    obtain ⟨level, kept | touched⟩ := step.other other
    · exact .inr ⟨meters', found, kept ▸ since.trans later, by rw [level, kept]; exact spent⟩
    · exact .inr ⟨meters', found, touched ▸ later, by rw [level, touched]; exact spent.wait since⟩

theorem Moment.Metered.next_counted (metered : m.Metered l name start period window perWindow)
    (held : (m.next deed t).LimitHeld l start period window perWindow) (done : Does net m.state deed t)
    (later : m.state.head.time ≤ t.head.time) (counted : Transition.counts l name start period ⟨m, deed, t⟩ = true) :
    (m.next deed t).Metered l name start period window perWindow := by
  have one : (m.next deed t).acceptedIn l name start period = m.acceptedIn l name start period + 1 := by
    rw [acceptedIn_next, counted]
    rfl
  rw [Transition.counts, Bool.and_eq_true, decide_eq_true_eq] at counted
  obtain ⟨inside, limited⟩ := counted
  obtain ⟨late, windowHeld, perWindowHeld⟩ := held ⟨m, deed, t⟩ List.mem_cons_self inside
  rw [TokenBucket.inPeriod, Bool.and_eq_true, decide_eq_true_eq, decide_eq_true_eq] at inside
  obtain ⟨meters, known⟩ := (done.metersStep name).known l limited
  obtain ⟨meters', found, step⟩ := (done.metersStep name).next meters known
  rw [limited] at step
  obtain ⟨left, allowed, level, since'⟩ := step.counted
  rw [Limit.Allows, if_pos late, windowHeld, perWindowHeld] at allowed
  obtain ⟨filled, fits⟩ := spend_le allowed
  have after : TokenBucket.Spent window (window / perWindow) start (m.acceptedIn l name start period + 1) left
      m.state.head.time := by
    obtain absent | ⟨meters'', known', since, spent⟩ := metered.spent inside.2
    · rw [absent]
      exact .first inside.1 fits
    · cases known.symm.trans known'
      exact spent.next since filled
  refine ⟨one ▸ after.count_mul_le inside.2, fun _ => .inr ⟨meters', found, since' ▸ later, ?_⟩⟩
  rw [one, level, since']
  exact after

theorem Moment.Metered.next (metered : m.Metered l name start period window perWindow)
    (held : (m.next deed t).LimitHeld l start period window perWindow) (done : Does net m.state deed t)
    (later : m.state.head.time ≤ t.head.time) : (m.next deed t).Metered l name start period window perWindow := by
  cases counted : Transition.counts l name start period ⟨m, deed, t⟩ with
  | true => exact metered.next_counted held done later counted
  | false => exact metered.next_other done later counted

theorem Network.Chronicle.metered (chronicle : net.Chronicle allowed rest m) (name : AccountName)
    (held : m.LimitHeld l start period window perWindow) : m.Metered l name start period window perWindow := by
  have earlier {m : Moment} {deed : Deed} {t : Database}
      (held : (m.next deed t).LimitHeld l start period window perWindow) :
      m.LimitHeld l start period window perWindow :=
    fun tr member => held tr (List.mem_cons_of_mem _ member)
  have rule := @Network.Chronicle.invariantAt net allowed fun _ m =>
    m.LimitHeld l start period window perWindow → m.Metered l name start period window perWindow
  refine rule (fun s _ _ => ⟨?_, fun _ => .inl rfl⟩) (fun _ _ => id) (fun rest m deed t notStep before done held => ?_)
    (fun step rest m t chronicle _ before done held => ?_) (fun _ _ _ _ _ => id) chronicle held
  · exact (Nat.zero_mul _).trans_le (Nat.zero_le _)
  · refine (before (earlier held)).next held done (done.sameTime fun b same => ?_).ge
    rw [same] at notStep
    cases notStep
  · exact (before (earlier held)).next held done (chronicle.time_le done)

/-- The limit itself keeps its promise of `perWindow` actions in `window` seconds, with one to spare, exactly
if the window is a multiple of the actions it allows.  In every history, in a period through which the limit
is held from hardfork 19 on, the accepted actions of an account cost no more than the window and the period,
and are within the promise if the division is exact; late votes do not count.  The 16-bit sums are exact. -/
theorem rate_limit_iff (reachable : net.Reachable s) : (∀ (l : Limit) (p : ChainProperties), p.Valid →
      (KeepsPromise (l.window p) (l.perWindow p) ↔ l.perWindow p ∣ l.window p)) ∧
    (∃ past rest, net.Chronicle (fun _ _ => True) rest ⟨past, s⟩) ∧
      ∀ past rest, net.Chronicle (fun _ _ => True) rest ⟨past, s⟩ →
        (∀ l name start period window perWindow, Moment.LimitHeld l start period window perWindow ⟨past, s⟩ →
          Moment.acceptedIn l name start period ⟨past, s⟩ * (window / perWindow) ≤ window + period ∧
          (perWindow ∣ window →
            Moment.acceptedIn l name start period ⟨past, s⟩ * window ≤ perWindow * (window + period) + window)) ∧
        ∀ name m, s.metersOf name = some m → ∀ l : Limit, l.level m < 2 ^ 15 ∧ ∀ elapsed,
          l.level m + min (l.window s.schedule.medianProps) (elapsed % 2 ^ 32) < 2 ^ 16 := by
  refine ⟨fun l p valid => ?_, reachable.chronicled, fun past rest chronicle => ⟨?_, ?_⟩⟩
  · obtain ⟨present, _, small⟩ := valid.limit l
    exact keepsPromise_iff present small
  · intro l name start period window perWindow held
    have bound := (chronicle.metered name held).bound
    exact ⟨bound, fun divides => (TokenBucket.rate_of_cost divides bound).trans (Nat.le_add_right ..)⟩
  · intro name m known l
    obtain ⟨valid, small⟩ := chronicle.metersSmall
    have level := small name m known l
    have window : l.window s.schedule.medianProps ≤ 32767 := (valid.median.limit l).2.2
    exact ⟨by omega, fun elapsed => by omega⟩

/-- Alice's five votes in one block cost all that the limit holds, and a post of the crew is within the promise. -/
theorem rate_limit_inUse : (usedFor 65).acceptedIn .votes .alice 1476788592 0 = 5 ∧
    (usedFor 65).acceptedIn .votes .alice 1476788592 0 * (5 / 3) ≤ 5 + 0 ∧
    (usedFor 65).acceptedIn .posts (.crew 0) 1476788544 51 = 1 ∧
    (usedFor 65).acceptedIn .posts (.crew 0) 1476788544 51 * 3 ≤ 1 * (3 + 51) + 3 ∧
    ∀ name m, (usedFor 65).state.metersOf name = some m → ∀ l : Limit, l.level m < 2 ^ 15 := by
  obtain ⟨-, -, limited⟩ := rate_limit_iff (usedFor_reachable 65)
  obtain ⟨held, small⟩ := limited _ _ (usedFor_chronicle 65)
  have votes := (held .votes .alice 1476788592 0 5 3 usedFor_voted.held).1
  have posts := (held .posts (.crew 0) 1476788544 51 3 1 usedFor_voted.postsHeld).2 (by decide)
  exact ⟨usedFor_voted.votes, votes, usedFor_voted.posts, posts, fun name m known l => (small name m known l).1⟩

end Period

end Runs

/-- Alice votes five times at once, where three and one to spare are promised; and no limit counts Bob's votes for
comments after their payout. -/
theorem rate_limit_exceeded : Network.bare.Chronicle (fun _ _ => True) [] (usedFor 65) ∧
    (usedFor 65).LimitHeld .votes 1476788592 0 5 3 ∧ (usedFor 65).acceptedIn .votes .alice 1476788592 0 = 5 ∧
    ¬5 * 5 ≤ 3 * (5 + 0) + 5 ∧ Network.bare.Chronicle (fun _ _ => True) [] (usedFor 68) ∧
    (∀ i < 5, ((usedFor 68).state.commentVotes.find? ((.crew i, "news"), .bob)).isSome) ∧
    (usedFor 68).acceptedIn .votes .bob 1484593695 0 = 0 :=
  ⟨usedFor_chronicle 65, usedFor_voted.held, usedFor_voted.votes, by decide, usedFor_chronicle 68,
    usedFor_quiet.stored, usedFor_quiet.lateVotes⟩

/-! ## One time for posts and replies -/

section Posting

open Evaluator

variable {allowed : Database → BlockStep → Prop} {rest : List BlockStep} {s : Database} {m : Moment} {deed : Deed}

theorem Moment.lastPosted_next : (m.next deed t).lastPosted name =
    if deed.posts m.state name then m.state.head.time else m.lastPosted name := by
  unfold lastPosted next
  rw [List.find?_cons]
  cases deed.posts m.state name <;> rfl

theorem Meters.Next.lastPost {meters meters' : Meters} (next : meters.Next (deed.limitOf s name) s meters') :
    meters'.lastPost = if deed.posts s name then s.head.time else meters.lastPost := by
  unfold Deed.posts
  generalize deed.limitOf s name = limited at next
  cases limited with
  | none =>
    obtain rfl : meters' = meters := next
    rfl
  | some l =>
    obtain ⟨left, _, rfl⟩ := next
    cases l <;> rfl

/-- What the time stored with an account says about its history. -/
structure Moment.PostsTold (m : Moment) (name : AccountName) : Prop where
  known : ∀ meters, m.state.metersOf name = some meters → meters.lastPost = m.lastPosted name
  unknown : m.state.metersOf name = none → m.lastPosted name = 0

theorem Moment.PostsTold.next (told : m.PostsTold name) (done : Does net m.state deed t) :
    (m.next deed t).PostsTold name := by
  have step := done.metersStep name
  cases found : m.state.metersOf name with
  | some meters =>
    obtain ⟨meters', found', next⟩ := step.next meters found
    refine ⟨fun meters'' same => ?_, fun absent => ?_⟩
    · cases found'.symm.trans same
      rw [next.lastPost, lastPosted_next, told.known meters found]
    · cases found'.symm.trans absent
  | none =>
    have nothing : (m.next deed t).lastPosted name = 0 := by
      have notPosted : deed.posts m.state name = false := by
        refine eq_false_of_ne_true fun posted => ?_
        obtain root | reply := of_decide_eq_true posted
        · obtain ⟨_, known⟩ := step.known _ root
          cases found.symm.trans known
        · obtain ⟨_, known⟩ := step.known _ reply
          cases found.symm.trans known
      rw [lastPosted_next, notPosted]
      exact told.unknown found
    refine ⟨fun meters' found' => ?_, fun _ => nothing⟩
    rw [nothing]
    exact (step.fresh meters' found found').lastPost

theorem Network.Chronicle.postsTold (chronicle : net.Chronicle allowed rest m) (name : AccountName) :
    m.PostsTold name := by
  have rule := @Network.Chronicle.invariant net allowed fun m => m.PostsTold name
  refine rule (fun s start => ⟨fun meters found => ?_, fun _ => rfl⟩)
    (fun m deed t _ told done => told.next done) chronicle
  exact ((initGenesis_metersKept.after start).fresh name meters rfl found).lastPost

theorem consume_passes {window perWindow capacity elapsed : Nat} {change : Nat → Activity → Activity}
    (looked : getAccount name s = .ok (a, s)) (spent : spend window perWindow capacity elapsed = some left) :
      EndsIn s (do
      let left ← consumeCapacity window perWindow capacity elapsed message
      modifyActivity name (change left)) (fun _ _ => True) fun _ => False := by
  have consumed : consumeCapacity window perWindow capacity elapsed message s = .ok (left, s) := by
    rw [consumeCapacity_eq, spent]
  exact endsIn_run_bind consumed (endsIn_run_bind looked (endsIn_modify trivial))

/-- The limit lets a post or a reply through if there is enough of the capacity. -/
theorem postCapacity_passes {meters : Meters} (late : s.hasHardfork 19 = true)
    (known : s.metersOf o.author = some meters) : (∃ t, postCapacity o s = .ok ((), t)) ↔
      ∃ left, spend (o.limit.window s.schedule.medianProps) (o.limit.perWindow s.schedule.medianProps)
        (o.limit.level meters) (s.head.time - meters.lastPost) = some left := by
  constructor
  · rintro ⟨t, run⟩
    obtain ⟨meters', left, known', allowed, _⟩ := postCapacity_spends late _ _ run
    cases known.symm.trans known'
    rw [Limit.Allows, if_pos late] at allowed
    have since : o.limit.since meters = meters.lastPost := by
      unfold CommentOperation.limit
      split <;> rfl
    exact ⟨left, since ▸ allowed⟩
  · rintro ⟨left, spent⟩
    obtain ⟨a, found, rfl⟩ := map_eq_some_iff.mp known
    have looked : getAccount o.author s = .ok (a, s) := by
      simp only [getAccount, bind_eq_ok, get_eq_ok, require_eq_ok]
      exact ⟨s, s, ⟨rfl, rfl⟩, found, rfl⟩
    have through : EndsIn s (postCapacity o) (fun _ _ => True) fun _ => False := by
      refine endsIn_get_bind (endsIn_run_bind looked (endsIn_ite (fun root => ?_) fun reply => ?_))
      · rw [CommentOperation.limit, if_pos root] at spent
        exact consume_passes looked spent
      · rw [CommentOperation.limit, if_neg reply] at spent
        exact consume_passes looked spent
    obtain ⟨_, t, run⟩ := through.runs
    exact ⟨t, run⟩

/-- From hardfork 19 on, the limit lets a new post or reply of an account through exactly if what is left of
the capacity and the seconds since its last post or reply, whichever came later, cover the cost.  So an
account that did neither for as many seconds can always do both. -/
theorem post_allowed_iff (reachable : net.Reachable s) : (∃ past rest, net.Chronicle (fun _ _ => True) rest ⟨past, s⟩) ∧
      ∀ past rest, net.Chronicle (fun _ _ => True) rest ⟨past, s⟩ →
        s.hasHardfork 19 = true → s.head.time < 2 ^ 32 → ∀ (o : CommentOperation) (meters : Meters) (cost : Nat),
          s.metersOf o.author = some meters →
          cost = o.limit.window s.schedule.medianProps / o.limit.perWindow s.schedule.medianProps →
        ((∃ t, postCapacity o s = .ok ((), t)) ↔
          cost ≤ o.limit.level meters + (s.head.time - Moment.lastPosted ⟨past, s⟩ o.author)) ∧
        (Moment.lastPosted ⟨past, s⟩ o.author + cost ≤ s.head.time → ∃ t, postCapacity o s = .ok ((), t)) := by
  refine ⟨reachable.chronicled, fun past rest chronicle late short o meters cost known costs => ?_⟩
  have told := (chronicle.postsTold o.author).known meters known
  obtain ⟨valid, small⟩ := chronicle.metersSmall
  have window : o.limit.window s.schedule.medianProps ≤ 32767 := (valid.median.limit o.limit).2.2
  have cheap : cost ≤ o.limit.window s.schedule.medianProps := costs ▸ Nat.div_le_self ..
  have exactly := @spend_eq_take _ (o.limit.perWindow s.schedule.medianProps) _ (s.head.time - meters.lastPost)
    (small o.author meters known o.limit) window ((Nat.sub_le ..).trans_lt short)
  have passes : (∃ t, postCapacity o s = .ok ((), t)) ↔
      cost ≤ o.limit.level meters + (s.head.time - Moment.lastPosted ⟨past, s⟩ o.author) := by
    rw [postCapacity_passes late known, exactly, told, ← costs]
    simp only [TokenBucket.take_eq_some]
    constructor
    · rintro ⟨left, fits⟩
      omega
    · intro enough
      exact ⟨_, Nat.sub_add_cancel (Nat.le_min.mpr ⟨enough, cheap⟩)⟩
  refine ⟨passes, fun waited => passes.mpr ?_⟩
  exact (Nat.le_sub_of_add_le' waited).trans (Nat.le_add_left ..)

/-- Three seconds after her last answer Alice can post again. -/
theorem post_allowed_inUse : (usedFor 48).lastPosted .alice = 1476788541 ∧ (usedFor 48).state.head.time = 1476788544 ∧
    ∃ t, postCapacity secondPost (usedFor 48).state = .ok ((), t) := by
  have busy := usedFor_busy.state
  obtain ⟨a, found, -⟩ := map_eq_some_iff.mp busy.shares
  have known : (usedFor 48).state.metersOf .alice = some a.activity.meters := by rw [metersOf, found, map_some]
  obtain ⟨window, perWindow⟩ := Prod.mk.injEq .. ▸ busy.posting
  have costs : 3 = secondPost.limit.window (usedFor 48).state.schedule.medianProps /
      secondPost.limit.perWindow (usedFor 48).state.schedule.medianProps := by
    show 3 = (usedFor 48).state.schedule.medianProps.postsWindow /
      (usedFor 48).state.schedule.medianProps.postsPerWindow
    rw [window, perWindow]
  obtain ⟨-, waited⟩ := (post_allowed_iff (usedFor_reachable 48)).2 _ _ (usedFor_chronicle 48)
    (hasHardfork_mono (by decide) busy.hardfork) (by rw [busy.time]; decide) secondPost _ 3 known costs
  refine ⟨usedFor_busy.lastPosted, busy.time, waited ?_⟩
  rw [busy.time]
  exact (congrArg (· + 3) usedFor_busy.lastPosted).le

end Posting

/-- After one more answer she cannot, though she has not posted for as long as the window; without it she can. -/
theorem reply_consumes_post : Network.bare.Chronicle (fun _ _ => True) [] (usedFor 48) ∧
    (usedFor 48).state.hasHardfork 20 = true ∧ (usedFor 48).state.head.time = 1476788544 ∧
    ((usedFor 48).state.schedule.medianProps.postsWindow, (usedFor 48).state.schedule.medianProps.postsPerWindow) =
      (3, 1) ∧
    (usedFor 48).acceptedIn .posts .alice 1476788541 3 = 0 ∧
    (Evaluator.comment false thanks (usedFor 48).state).isOk = true ∧
    (Evaluator.postCapacity secondPost (stateAfter (Evaluator.comment false thanks) (usedFor 48).state)).isOk = false ∧
    (Evaluator.comment false secondPost (usedFor 48).state).isOk = true := by
  have busy := usedFor_busy.state
  exact ⟨usedFor_chronicle 48, busy.hardfork, busy.time, busy.posting, usedFor_busy.posts, busy.thanked, busy.refused,
    busy.accepted⟩

end Golos
