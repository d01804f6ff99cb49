import Golos.Lib.Store

/-! # The follow plugin

Who follows whom, and the feeds and blogs that posts and reblogs are put into.

* `counts_exact` — the two counters of an account count what is followed;
* `blog_authors_iff` — `get_blog_authors` is right about the blogs without reblogs, and no count gets below zero;
* `reblog_undone_iff` — when a removed reblog leaves no trace, and the runs in which every feed entry lists the accounts
  that have the post in their blogs.
-/

namespace Golos.Follow

open Option Function

variable {Name : Type} [DecidableEq Name] {account author guest : Name} {permlink : String} {startCount : Nat}
  {root : Bool} {α : Type} {l : List α}

/-! ## State -/

/-- `follow_type` -/
inductive FollowType
  | undefined | blog | ignore

/-- The bits of `follow_object::what`. -/
structure What where
  blog : Bool := false
  ignore : Bool := false
deriving DecidableEq

structure FollowOperation (Name : Type) where
  follower : Name
  following : Name
  what : List String

/-- The counters of an account, `uint32_t`: a number below zero stands for one that has wrapped.  They do not wrap
upwards, as there are fewer than 2^32 accounts. -/
structure FollowCount where
  followerCount : Int := 0
  followingCount : Int := 0
deriving DecidableEq

/-- What never changes of a `comment_object`. -/
structure Post (Name : Type) where
  id : Nat
  author : Name
  root : Bool
  created : Nat
deriving DecidableEq

structure Feed (Name : Type) where
  comment : Post Name
  rebloggedBy : List Name
  reblogs : Nat
  accountFeedId : Nat
deriving DecidableEq

structure Blog (Name : Type) where
  comment : Post Name
  blogFeedId : Nat
deriving DecidableEq

/-- The tables of the plugin, and what it reads of the chain.  The feed and the blog of an account are in the order of
`by_old_feed` and `by_old_blog`. -/
structure State (Name : Type) where
  follows : Store (Name × Name) What := .empty
  counts : Name → Option FollowCount := fun _ => none
  feed : Name → List (Feed Name) := fun _ => []
  blog : Name → List (Blog Name) := fun _ => []
  authorStats : Store (Name × Name) Int := .empty
  comments : Name × String → Option (Post Name) := fun _ => none
  nextComment : Nat := 0
  headBlockTime : Nat := 0

namespace State

/-! ## Following -/

/-- The map of the evaluator, which gives `undefined` for a name it does not know. -/
def followType : String → FollowType
  | "blog" => .blog
  | "ignore" => .ignore
  | _ => .undefined

def addWhat (what : What) (target : String) : What :=
  match followType target with
  | .blog => { what with blog := true }
  | .ignore => { what with ignore := true }
  | .undefined => what

/-- A counter of a record that is created, or changed by what was and what is followed. -/
def recount (count : FollowCount → Int) (was is : Bool) : Option FollowCount → Int
  | none => is.toNat
  | some c => count c - was.toNat + is.toNat

def countFollowing (was is : Bool) (c : Option FollowCount) : FollowCount :=
  { c.getD {} with followingCount := recount (·.followingCount) was is c }

def countFollower (was is : Bool) (c : Option FollowCount) : FollowCount :=
  { c.getD {} with followerCount := recount (·.followerCount) was is c }

/-- `follow_operation::validate` and `follow_evaluator::do_apply` -/
def follow (s : State Name) (o : FollowOperation Name) : Option (State Name) :=
  let what := o.what.foldl addWhat {}
  if o.follower = o.following ∨ (what.ignore ∧ what.blog) then none
  else
    let key := (o.follower, o.following)
    let was := (s.follows.find? key).any (·.blog)
    let counts := update s.counts o.follower (some (countFollowing was what.blog (s.counts o.follower)))
    some { s with
      follows := if (s.follows.find? key).isNone then s.follows.insert key what else s.follows.modify key fun _ => what
      counts := update counts o.following (some (countFollower was what.blog (counts o.following))) }

/-- The account follows the blog of another. -/
def Follows (s : State Name) (follower following : Name) : Prop :=
  (s.follows.find? (follower, following)).any (·.blog) = true

instance (s : State Name) (follower following : Name) : Decidable (s.Follows follower following) :=
  inferInstanceAs (Decidable (_ = true))

/-! ## Posts and reblogs -/

/-- The newest entry of a feed comes last. -/
def nextFeedId (feed : List (Feed Name)) : Nat := feed.getLast?.elim 0 (·.accountFeedId + 1)

def nextBlogId (blog : List (Blog Name)) : Nat := blog.getLast?.elim 0 (·.blogFeedId + 1)

/-- What a new post does to the feed of a follower of the author.  The constructor leaves `reblogs` as the memory is. -/
def feedPost (maxFeedSize memory : Nat) (c : Post Name) (feed : List (Feed Name)) : List (Feed Name) :=
  if feed.any (·.comment = c) then feed
  else
    let next := nextFeedId feed
    let created : Feed Name := ⟨c, [], memory, next⟩
    (feed ++ [created]).dropWhile fun f => maxFeedSize < next - f.accountFeedId

/-- What a new post does to the blog of the author. -/
def blogPost (maxFeedSize : Nat) (c : Post Name) (blog : List (Blog Name)) : List (Blog Name) :=
  if blog.any (·.comment = c) then blog
  else
    let next := nextBlogId blog
    let created : Blog Name := ⟨c, next⟩
    (blog ++ [created]).dropWhile fun b => maxFeedSize < next - b.blogFeedId

/-- The `comment_operation`: the evaluator creates the comment if it is new, then the `post_operation_visitor` runs. -/
def comment (maxFeedSize : Nat) (s : State Name) (author : Name) (permlink : String) (root : Bool) (memory : Nat) :
    State Name :=
  let c := (s.comments (author, permlink)).getD ⟨s.nextComment, author, root, s.headBlockTime⟩
  let s := { s with
    comments := update s.comments (author, permlink) (some c)
    nextComment := max s.nextComment (c.id + 1) }
  if c.root ∧ c.created = s.headBlockTime then
    { s with
      feed name := if s.Follows name author then feedPost maxFeedSize memory c (s.feed name) else s.feed name
      blog := update s.blog author (blogPost maxFeedSize c (s.blog author)) }
  else s

/-- `save_blog_stats` -/
def saveBlogStats (s : State Name) (blogger guest : Name) (startCount : Nat) : State Name :=
  { s with
    authorStats :=
      if (s.authorStats.find? (blogger, guest)).isSome then
        s.authorStats.modify (blogger, guest) fun count => if 0 < startCount then count + 1 else count - 1
      else s.authorStats.insert (blogger, guest) startCount }

/-- What a reblog does to the feed of a follower of the account. -/
def feedReblog (maxFeedSize : Nat) (c : Post Name) (account : Name) (feed : List (Feed Name)) : List (Feed Name) :=
  let next := nextFeedId feed
  let feed :=
    if feed.any (·.comment = c) then feed.map fun f =>
      if f.comment = c then { f with rebloggedBy := f.rebloggedBy ++ [account], reblogs := f.reblogs + 1 } else f
    else feed ++ [⟨c, [account], 1, next⟩]
  feed.dropWhile fun f => maxFeedSize < next - f.accountFeedId

/-- The part of `reblog_evaluator::do_apply` after the checks. -/
def putReblog (maxFeedSize : Nat) (s : State Name) (account : Name) (c : Post Name) : State Name :=
  { s.saveBlogStats account c.author 1 with
    blog := update s.blog account (s.blog account ++ [⟨c, nextBlogId (s.blog account)⟩])
    feed name := if s.Follows name account then feedReblog maxFeedSize c account (s.feed name) else s.feed name }

/-- `reblog_operation::validate` and `reblog_evaluator::do_apply` -/
def reblog (maxFeedSize : Nat) (s : State Name) (account author : Name) (permlink : String) : Option (State Name) :=
  match s.comments (author, permlink) with
  | none => none
  | some c =>
    if account = author ∨ c.root = false ∨ (s.blog account).any (·.comment = c) then none
    else some (s.putReblog maxFeedSize account c)

/-- `erase(std::remove(..))` with a single iterator: the others move to the front, and of the rest one element goes.
Without an occurrence of the account it is undefined; here nothing goes. -/
def eraseRemoved (account : Name) (rebloggedBy : List Name) : List Name :=
  let kept := rebloggedBy.filter (· ≠ account)
  kept ++ rebloggedBy.drop (kept.length + 1)

/-- What a removed reblog does to an entry for the post. -/
def unlistReblog (account : Name) (f : Feed Name) : Option (Feed Name) :=
  if f.reblogs ≤ 1 then none
  else some { f with rebloggedBy := eraseRemoved account f.rebloggedBy, reblogs := f.reblogs - 1 }

def feedUnreblog (c : Post Name) (account : Name) (feed : List (Feed Name)) : List (Feed Name) :=
  feed.filterMap fun f => if f.comment = c then unlistReblog account f else some f

/-- The part of `delete_reblog_evaluator::do_apply` after the checks. -/
def takeReblog (s : State Name) (account : Name) (c : Post Name) : State Name :=
  { s.saveBlogStats account c.author 0 with
    blog := update s.blog account ((s.blog account).filter (·.comment ≠ c))
    feed name := if s.Follows name account then feedUnreblog c account (s.feed name) else s.feed name }

/-- `delete_reblog_operation::validate` and `delete_reblog_evaluator::do_apply` -/
def deleteReblog (s : State Name) (account author : Name) (permlink : String) : Option (State Name) :=
  match s.comments (author, permlink) with
  | none => none
  | some c =>
    if account = author ∨ (s.blog account).all (·.comment ≠ c) then none
    else some (s.takeReblog account c)

/-- The `delete_comment_operation`: the `pre_operation_visitor`, then the comment is removed. -/
def deleteComment (s : State Name) (author : Name) (permlink : String) : State Name :=
  match s.comments (author, permlink) with
  | none => s
  | some c =>
    let s := { s with comments := update s.comments (author, permlink) none }
    if c.root then
      { s with
        feed name := (s.feed name).filter (·.comment ≠ c)
        blog name := (s.blog name).filter (·.comment ≠ c) }
    else s

/-- The loop of `get_blog_authors`, which goes on while there is a result already. -/
def collectAuthors : List (Name × Int) → List (Name × Int) → List (Name × Int)
  | [], result => result
  | entry :: rest, result => if result.length ≠ 0 then collectAuthors rest (result ++ [entry]) else result

/-- `get_blog_authors` -/
def getBlogAuthors (s : State Name) (account : Name) : List (Name × Int) :=
  collectAuthors ((s.authorStats.entries.filter (·.1.1 = account)).map fun e => (e.1.2, e.2)) []

end State

/-! ## Runs -/

inductive Action (Name : Type)
  | follow (o : FollowOperation Name)
  | comment (author : Name) (permlink : String) (root : Bool) (memory : Nat)
  | reblog (account author : Name) (permlink : String)
  | deleteReblog (account author : Name) (permlink : String)
  | deleteComment (author : Name) (permlink : String)
  | block (time : Nat)

def State.apply (maxFeedSize : Nat) (s : State Name) : Action Name → Option (State Name)
  | .follow o => s.follow o
  | .comment author permlink root memory => some (s.comment maxFeedSize author permlink root memory)
  | .reblog account author permlink => s.reblog maxFeedSize account author permlink
  | .deleteReblog account author permlink => s.deleteReblog account author permlink
  | .deleteComment author permlink => some (s.deleteComment author permlink)
  | .block time => some { s with headBlockTime := time }

/-- The states that actions allowed by `may` lead to; what is refused changes nothing. -/
inductive Run (maxFeedSize : Nat) (may : State Name → Action Name → Prop) : State Name → Prop
  | start : Run maxFeedSize may {}
  | step {s t : State Name} (before : Run maxFeedSize may s) {a : Action Name} (allowed : may s a)
      (applied : s.apply maxFeedSize a = some t) : Run maxFeedSize may t

/-- The state after some actions, if none is refused. -/
def after (actions : List (Action Nat)) : State Nat := (actions.foldlM (State.apply 500) {}).getD {}

variable {maxFeedSize : Nat} {may : State Name → Action Name → Prop} {s t : State Name}

theorem reblog_eq (applied : s.reblog maxFeedSize account author permlink = some t) :
    ∃ c, s.comments (author, permlink) = some c ∧ account ≠ author ∧ (∀ b ∈ s.blog account, b.comment ≠ c) ∧
      t = s.putReblog maxFeedSize account c := by
  simp only [State.reblog] at applied
  split at applied
  · cases applied
  next c found =>
    simp only [ite_none_left_eq_some, some.injEq, not_or, List.any_eq_true, decide_eq_true_eq, not_exists,
      not_and] at applied
    exact ⟨c, found, applied.1.1, applied.1.2.2, applied.2.symm⟩

theorem deleteReblog_eq (applied : s.deleteReblog account author permlink = some t) :
    ∃ c, s.comments (author, permlink) = some c ∧ account ≠ author ∧ (∃ b ∈ s.blog account, b.comment = c) ∧
      t = s.takeReblog account c := by
  simp only [State.deleteReblog] at applied
  split at applied
  · cases applied
  next c found =>
    simp only [ite_none_left_eq_some, some.injEq, not_or, List.all_eq_true, decide_eq_true_eq, not_forall,
      Classical.not_not, exists_prop] at applied
    exact ⟨c, found, applied.1.1, applied.1.2, applied.2.symm⟩

theorem run_foldlM {actions : List (Action Name)} (run : Run maxFeedSize (fun _ _ => True) s)
    (applied : actions.foldlM (State.apply maxFeedSize) s = some t) : Run maxFeedSize (fun _ _ => True) t := by
  induction actions generalizing s with
  | nil =>
    cases applied
    exact run
  | cons a actions ih =>
    obtain ⟨u, first, rest⟩ := bind_eq_some_iff.mp applied
    exact ih (run.step trivial first) rest

theorem run_after {actions : List (Action Nat)} (applied : (actions.foldlM (State.apply 500) {}).isSome) :
    Run 500 (fun _ _ => True) (after actions) := by
  obtain ⟨t, all⟩ := isSome_iff_exists.mp applied
  rw [after, all, getD_some]
  exact run_foldlM .start all

/-! ## Counts of followers -/

/-- The number of the relations for which `p` holds in which a blog is followed. -/
def State.numberOf (s : State Name) (p : Name × Name → Bool) : Nat :=
  s.follows.total fun key what => (what.blog && p key).toNat

def State.followers (s : State Name) (account : Name) : Nat := s.numberOf fun key => key.2 = account

def State.followings (s : State Name) (account : Name) : Nat := s.numberOf fun key => key.1 = account

/-- The counters of an account are right; without a record they are 0. -/
def State.Counted (s : State Name) (account : Name) : Prop :=
  ((s.counts account).getD {}).followerCount = s.followers account ∧
    ((s.counts account).getD {}).followingCount = s.followings account

/-- What setting one relation does to the numbers. -/
theorem numberOf_set {o : FollowOperation Name} (applied : s.follow o = some t) (p : Name × Name → Bool) :
    let key := (o.follower, o.following)
    let was := ((s.follows.find? key).any (·.blog) && p key).toNat
    was ≤ s.numberOf p ∧ t.numberOf p + was = s.numberOf p + ((o.what.foldl State.addWhat {}).blog && p key).toNat := by
  simp only [State.follow, ite_none_left_eq_some, some.injEq] at applied
  obtain ⟨-, rfl⟩ := applied
  simp only [State.numberOf]
  cases found : s.follows.find? (o.follower, o.following) with
  | none =>
    rw [isNone_none, if_pos rfl, Store.total_insert found]
    simp
  | some old =>
    rw [isNone_some, if_neg Bool.false_ne_true, any_some]
    have whole := Store.total_erase (g := fun key (what : What) => (what.blog && p key).toNat) found
    exact ⟨by omega, Store.total_modify found⟩

theorem recount_eq {count : FollowCount → Int} {c : Option FollowCount} {n n' : Nat} {was is : Bool}
    (start : count {} = 0) (right : count (c.getD {}) = n) (counted : was.toNat ≤ n)
    (set : n' + was.toNat = n + is.toNat) : State.recount count was is c = n' := by
  cases c with
  | none =>
    rw [getD_none] at right
    rw [State.recount]
    omega
  | some c =>
    rw [getD_some] at right
    rw [State.recount]
    omega

theorem State.Counted.follow {o : FollowOperation Name} (counted : s.Counted account)
    (applied : s.follow o = some t) : t.Counted account := by
  have follower := numberOf_set applied fun key => key.2 = account
  have following := numberOf_set applied fun key => key.1 = account
  simp only [State.follow, ite_none_left_eq_some, some.injEq, not_or] at applied
  obtain ⟨⟨different, -⟩, applied⟩ := applied
  obtain ⟨followers, followings⟩ := counted
  rw [State.Counted, State.followers, State.followings]
  subst applied
  simp only [update_apply]
  by_cases first : account = o.follower
  · subst first
    simp only [Ne.symm different, decide_false, decide_true, Bool.and_false, Bool.and_true] at follower following
    simp only [if_neg different, State.countFollowing]
    exact ⟨by rw [followers]; exact congrArg _ follower.2.symm,
      recount_eq rfl followings following.1 following.2⟩
  · simp only [Ne.symm first, decide_false, Bool.and_false] at following
    by_cases second : account = o.following
    · subst second
      simp only [decide_true, Bool.and_true] at follower
      simp only [if_neg first, State.countFollower]
      exact ⟨recount_eq rfl followers follower.1 follower.2,
        by rw [followings]; exact congrArg _ following.2.symm⟩
    · simp only [Ne.symm second, decide_false, Bool.and_false] at follower
      rw [if_neg second, if_neg first]
      exact ⟨followers.trans (congrArg _ follower.2.symm), followings.trans (congrArg _ following.2.symm)⟩

theorem follows_apply {a : Action Name} (applied : s.apply maxFeedSize a = some t) (other : ∀ o, a ≠ .follow o) :
    t.follows = s.follows ∧ t.counts = s.counts := by
  cases a with
  | follow o => exact absurd rfl (other o)
  | comment author permlink root memory =>
    cases applied
    simp only [State.comment]
    split <;> exact ⟨rfl, rfl⟩
  | reblog account author permlink =>
    obtain ⟨c, -, -, -, rfl⟩ := reblog_eq applied
    exact ⟨rfl, rfl⟩
  | deleteReblog account author permlink =>
    obtain ⟨c, -, -, -, rfl⟩ := deleteReblog_eq applied
    exact ⟨rfl, rfl⟩
  | deleteComment author permlink =>
    cases applied
    simp only [State.deleteComment]
    split
    · exact ⟨rfl, rfl⟩
    · split <;> exact ⟨rfl, rfl⟩
  | block time =>
    cases applied
    exact ⟨rfl, rfl⟩

/-- In every run the counters of every account are the numbers of its followers and of those it follows. -/
theorem counts_exact (run : Run maxFeedSize may s) (account : Name) : s.Counted account := by
  induction run with
  | start => exact ⟨rfl, rfl⟩
  | @step s t before a allowed applied ih =>
    cases a with
    | follow o => exact ih.follow applied
    | _ =>
      obtain ⟨follows, counts⟩ := follows_apply applied fun o same => by cases same
      simpa [State.Counted, State.followers, State.followings, State.numberOf, follows, counts] using ih

/-- The account 3 follows 1 and 2, then ignores 2. -/
theorem counts_exact_ignored : (after [.follow ⟨3, 1, ["blog"]⟩, .follow ⟨3, 2, ["blog", "unknown"]⟩,
    .follow ⟨3, 2, ["ignore"]⟩]).Counted 3 :=
  counts_exact (run_after (by decide)) 3

/-! ## Counts of reblogs -/

/-- The posts of an author in a blog. -/
def State.posts (s : State Name) (account guest : Name) : Nat := (s.blog account).countP (·.comment.author = guest)

/-- `get_blog_authors` gives the number of posts for every other author who has one in the blog. -/
def State.ListsAuthors (s : State Name) (account : Name) : Prop := ∀ guest, guest ≠ account →
  (0 < s.posts account guest → (guest, (s.posts account guest : Int)) ∈ s.getBlogAuthors account) ∧
    ∀ count, (guest, count) ∈ s.getBlogAuthors account → count = s.posts account guest

/-- The counts are of others' posts, and none is too small: those of deleted and pruned posts stay. -/
structure State.EnoughCounted (s : State Name) : Prop where
  author : ∀ {name permlink c}, s.comments (name, permlink) = some c → c.author = name
  others : ∀ {blogger guest}, s.authorStats.find? (blogger, guest) ≠ none → blogger ≠ guest
  enough : ∀ {blogger guest}, blogger ≠ guest →
    (s.posts blogger guest : Int) ≤ (s.authorStats.find? (blogger, guest)).getD 0

theorem find?_saveBlogStats {blogger : Name} {key : Name × Name} :
    (s.saveBlogStats blogger guest startCount).authorStats.find? key =
      if key = (blogger, guest) then some ((s.authorStats.find? key).elim (startCount : Int) fun count =>
        if 0 < startCount then count + 1 else count - 1) else s.authorStats.find? key := by
  simp only [State.saveBlogStats]
  cases found : s.authorStats.find? (blogger, guest) with
  | none =>
    rw [isSome_none, if_neg Bool.false_ne_true, Store.find?_insert found]
    split
    next same =>
      rw [same, found, elim_none]
    · rfl
  | some count =>
    rw [isSome_some, if_pos rfl, Store.find?_modify]
    split
    next same =>
      rw [same, found, map_some, elim_some]
    · rfl

/-- Posts that disappear from blogs leave the counts too large. -/
theorem State.EnoughCounted.fewer (counted : s.EnoughCounted)
    (author : ∀ {name permlink c}, t.comments (name, permlink) = some c → c.author = name)
    (stats : t.authorStats = s.authorStats)
    (fewer : ∀ {blogger guest}, blogger ≠ guest → t.posts blogger guest ≤ s.posts blogger guest) : t.EnoughCounted := by
  refine ⟨author, fun stored => counted.others (stats ▸ stored), fun others => ?_⟩
  rw [stats]
  exact (Int.ofNat_le.mpr (fewer others)).trans (counted.enough others)

theorem posts_blogPost {c : Post Name} {blog : List (Blog Name)} (others : c.author ≠ guest) :
    (State.blogPost maxFeedSize c blog).countP (·.comment.author = guest) ≤ blog.countP (·.comment.author = guest) := by
  unfold State.blogPost
  split
  · rfl
  · refine ((List.dropWhile_sublist _).countP_le).trans ?_
    simp [others]

theorem State.EnoughCounted.comment {memory : Nat}
    (counted : s.EnoughCounted) : (s.comment maxFeedSize author permlink root memory).EnoughCounted := by
  unfold State.comment
  extract_lets c s'
  have own : c.author = author := by
    cases found : s.comments (author, permlink) with
    | none => simp [c, found]
    | some c' => simp [c, found, counted.author found]
  have authors {name link c'} (found : s'.comments (name, link) = some c') : c'.author = name := by
    simp only [s', update_apply] at found
    split at found
    next same =>
      cases same
      cases found
      exact own
    · exact counted.author found
  split
  · refine counted.fewer authors rfl fun {blogger guest} others => ?_
    simp only [State.posts, update_apply]
    split
    next same =>
      subst same
      exact posts_blogPost (own ▸ others)
    · rfl
  · exact counted.fewer authors rfl fun _ => le_rfl

theorem State.EnoughCounted.deleteComment (counted : s.EnoughCounted) :
    (s.deleteComment author permlink).EnoughCounted := by
  unfold State.deleteComment
  split
  · exact counted
  next c found =>
    extract_lets s'
    have authors {name link c'} (found : s'.comments (name, link) = some c') : c'.author = name := by
      simp only [s', update_apply] at found
      split at found
      · cases found
      · exact counted.author found
    split
    · exact counted.fewer authors rfl fun _ => List.filter_sublist.countP_le
    · exact counted.fewer authors rfl fun _ => le_rfl

/-- One post more or less in the blog of an account, and its count with it. -/
theorem State.EnoughCounted.counts (counted : s.EnoughCounted)
    (different : account ≠ author) (comments : t.comments = s.comments)
    (stats : t.authorStats = (s.saveBlogStats account author startCount).authorStats)
    (same : ∀ {blogger guest}, (blogger, guest) ≠ (account, author) → t.posts blogger guest ≤ s.posts blogger guest)
    (one : (t.posts account author : Int) ≤ s.posts account author + if 0 < startCount then 1 else -1) :
    t.EnoughCounted := by
  refine ⟨comments ▸ counted.author, fun {blogger guest} stored => ?_, fun {blogger guest} others => ?_⟩
  · rw [stats, find?_saveBlogStats] at stored
    split at stored
    next same =>
      cases same
      exact different
    · exact counted.others stored
  · have before := counted.enough others
    rw [stats, find?_saveBlogStats]
    split
    next same =>
      cases same
      cases found : s.authorStats.find? (account, author) with
      | none =>
        simp only [found, getD_none, elim_none, getD_some] at before ⊢
        split at one <;> omega
      | some count =>
        simp only [found, elim_some, getD_some] at before ⊢
        split at one <;> omega
    next other =>
      exact (Int.ofNat_le.mpr (same other)).trans before

theorem State.EnoughCounted.reblog (counted : s.EnoughCounted)
    (applied : s.reblog maxFeedSize account author permlink = some t) : t.EnoughCounted := by
  obtain ⟨c, found, different, -, rfl⟩ := reblog_eq applied
  refine counted.counts (counted.author found ▸ different) rfl rfl (fun {blogger guest} other => ?_) ?_
  · simp only [State.posts, State.putReblog, update_apply]
    split
    next same =>
      subst same
      have elsewhere : c.author ≠ guest := fun equal => other (by rw [equal])
      simp [elsewhere]
    · rfl
  · simp [State.posts, State.putReblog]

theorem State.EnoughCounted.deleteReblog (counted : s.EnoughCounted)
    (applied : s.deleteReblog account author permlink = some t) : t.EnoughCounted := by
  obtain ⟨c, found, different, ⟨b, member, rfl⟩, rfl⟩ := deleteReblog_eq applied
  refine counted.counts (counted.author found ▸ different) rfl rfl (fun {blogger guest} other => ?_) ?_
  · simp only [State.posts, State.takeReblog, update_apply]
    split
    next same =>
      subst same
      exact List.filter_sublist.countP_le
    · rfl
  · have taken : 0 < ((s.blog account).filter fun x => ¬(x.comment ≠ b.comment)).countP
      (·.comment.author = b.comment.author) :=
      List.countP_pos_iff.mpr ⟨b, by simp [member], by simp⟩
    have split := List.countP_eq_countP_filter_add (s.blog account) (·.comment.author = b.comment.author)
      (·.comment ≠ b.comment)
    simp only [State.posts, State.takeReblog, update_self]
    simp only [decide_not] at taken split ⊢
    omega

theorem Run.enoughCounted (run : Run maxFeedSize may s) : s.EnoughCounted := by
  induction run with
  | start => exact ⟨fun found => (by cases found), fun stored => absurd rfl stored, fun _ => le_rfl⟩
  | @step s t before a allowed applied ih =>
    cases a with
    | follow o =>
      simp only [State.apply, State.follow, ite_none_left_eq_some, some.injEq] at applied
      rw [← applied.2]
      exact ⟨ih.author, ih.others, ih.enough⟩
    | comment author permlink root memory =>
      cases applied
      exact ih.comment
    | reblog account author permlink => exact ih.reblog applied
    | deleteReblog account author permlink => exact ih.deleteReblog applied
    | deleteComment author permlink =>
      cases applied
      exact ih.deleteComment
    | block time =>
      cases applied
      exact ⟨ih.author, ih.others, ih.enough⟩

/-- Nothing is ever listed, so that the list is right exactly for the blogs without others' posts; the counts that are
stored never get below zero. -/
theorem blog_authors_iff (run : Run maxFeedSize may s) :
    (∀ account, s.ListsAuthors account ↔ ∀ guest, guest ≠ account → s.posts account guest = 0) ∧
      ∀ {key count}, s.authorStats.find? key = some count → 0 ≤ count := by
  have counted := run.enoughCounted
  refine ⟨fun account => ?_, fun {key count} found => ?_⟩
  · have none : s.getBlogAuthors account = [] := by
      unfold State.getBlogAuthors
      cases (s.authorStats.entries.filter (·.1.1 = account)).map fun e => (e.1.2, e.2) <;> rfl
    simp only [State.ListsAuthors, none, List.not_mem_nil, imp_false, Nat.pos_iff_ne_zero, Classical.not_not,
      implies_true,
      and_true, IsEmpty.forall_iff]
  · have enough := counted.enough (counted.others (by rw [found]; exact some_ne_none count))
    rw [found, getD_some] at enough
    omega

/-- The reblog of a post is not listed. -/
theorem reblog_not_listed : Run 500 (fun _ _ => True) (after [.comment 1 "p" true 0, .reblog 2 1 "p"]) ∧
    (after [.comment 1 "p" true 0, .reblog 2 1 "p"]).posts 2 1 = 1 ∧
    (after [.comment 1 "p" true 0, .reblog 2 1 "p"]).getBlogAuthors 2 = [] :=
  ⟨run_after (by decide), by decide⟩

theorem blog_authors_iff_reblogged : ¬(after [.comment 1 "p" true 0, .reblog 2 1 "p"]).ListsAuthors 2 :=
  fun lists => absurd (((blog_authors_iff (run_after (by decide))).1 2).mp lists 1 (by decide)) (by decide)

/-! ## Reblogs removed -/

/-- What a feed shows. -/
def State.shown (s : State Name) (name : Name) : List (Post Name × List Name) :=
  (s.feed name).map fun f => (f.comment, f.rebloggedBy)

/-- Nothing is pruned as long as the list is not at its limit. -/
theorem dropWhile_eq_self {id : α → Nat} {next : Nat} (room : ∀ x ∈ l, next - id x ≤ maxFeedSize) :
    l.dropWhile (fun x => maxFeedSize < next - id x) = l := by
  cases l with
  | nil => rfl
  | cons x l =>
    have fits : decide (maxFeedSize < next - id x) = false := by simpa using room x List.mem_cons_self
    rw [List.dropWhile_cons, fits, if_neg Bool.false_ne_true]

theorem dropWhile_append {id : α → Nat} {next : Nat} {x : α} (room : ∀ y ∈ l, next - id y ≤ maxFeedSize)
    (new : id x = next) : (l ++ [x]).dropWhile (fun y => maxFeedSize < next - id y) = l ++ [x] := by
  refine dropWhile_eq_self fun y member => ?_
  rcases List.mem_append.mp member with old | last
  · exact room y old
  · rw [List.mem_singleton.mp last, new, Nat.sub_self]
    exact Nat.zero_le _

/-- The counter and the list of a feed entry agree, and those listed have the post in their blogs. -/
structure Feed.Honest (blog : Name → List (Blog Name)) (f : Feed Name) : Prop where
  counted : f.reblogs = f.rebloggedBy.length
  nodup : f.rebloggedBy.Nodup
  current : ∀ account ∈ f.rebloggedBy, ∃ b ∈ blog account, b.comment = f.comment

def State.Honest (s : State Name) : Prop := ∀ name, ∀ f ∈ s.feed name, f.Honest s.blog

/-- What keeps the entries honest.  A new entry finds a counter of 0, and no old entry of the author's blog is pruned;
when a reblog is removed, exactly the followers of the account have it listed, or nothing else. -/
def Careful (maxFeedSize : Nat) (s : State Name) : Action Name → Prop
  | .comment author _ _ memory =>
    memory = 0 ∧ ∀ b ∈ s.blog author, State.nextBlogId (s.blog author) - b.blogFeedId ≤ maxFeedSize
  | .deleteReblog account author permlink => ∀ c, s.comments (author, permlink) = some c →
    ∀ name, ∀ f ∈ s.feed name, f.comment = c → (account ∈ f.rebloggedBy → s.Follows name account) ∧
      (s.Follows name account → account ∈ f.rebloggedBy ∨ f.reblogs ≤ 1)
  | _ => True

omit [DecidableEq Name] in
theorem Feed.Honest.mono {f : Feed Name} {blog blog' : Name → List (Blog Name)} (honest : f.Honest blog)
    (more : ∀ account ∈ f.rebloggedBy, ∀ b ∈ blog account, b.comment = f.comment → b ∈ blog' account) :
    f.Honest blog' := by
  refine ⟨honest.counted, honest.nodup, fun account member => ?_⟩
  obtain ⟨b, there, same⟩ := honest.current account member
  exact ⟨b, more account member b there same, same⟩

theorem mem_blogPost {c : Post Name} {blog : List (Blog Name)}
    (room : ∀ b ∈ blog, State.nextBlogId blog - b.blogFeedId ≤ maxFeedSize) {b : Blog Name} (member : b ∈ blog) :
    b ∈ State.blogPost maxFeedSize c blog := by
  unfold State.blogPost
  split
  · exact member
  · rw [dropWhile_append room rfl]
    exact List.mem_append_left _ member

theorem State.Honest.comment (honest : s.Honest)
    (room : ∀ b ∈ s.blog author, State.nextBlogId (s.blog author) - b.blogFeedId ≤ maxFeedSize) :
    (s.comment maxFeedSize author permlink root 0).Honest := by
  unfold State.comment
  extract_lets c s'
  split
  · intro name f member
    have old : f ∈ s.feed name ∨ f.rebloggedBy = [] ∧ f.reblogs = 0 := by
      dsimp only at member
      split at member
      · unfold State.feedPost at member
        split at member
        · exact .inl member
        · refine (List.mem_append.mp ((List.dropWhile_sublist _).subset member)).imp_right fun new => ?_
          rw [List.mem_singleton.mp new]
          exact ⟨rfl, rfl⟩
      · exact .inl member
    rcases old with old | ⟨nobody, zero⟩
    · refine (honest name f old).mono fun account _ b there _ => ?_
      simp only [update_apply]
      split
      next same =>
        subst same
        exact mem_blogPost room there
      · exact there
    · refine ⟨by rw [nobody, zero]; rfl, by rw [nobody]; exact List.nodup_nil, ?_⟩
      intro account member
      rw [nobody] at member
      cases member
  · exact honest

theorem State.Honest.putReblog {c : Post Name} (honest : s.Honest)
    (fresh : ∀ b ∈ s.blog account, b.comment ≠ c) : (s.putReblog maxFeedSize account c).Honest := by
  have has : ∃ b ∈ (s.putReblog maxFeedSize account c).blog account, b.comment = c :=
    ⟨⟨c, State.nextBlogId (s.blog account)⟩, by simp [State.putReblog], rfl⟩
  have grows {name b} (there : b ∈ s.blog name) : b ∈ (s.putReblog maxFeedSize account c).blog name := by
    simp only [State.putReblog, update_apply]
    split
    next same =>
      subst same
      exact List.mem_append_left _ there
    · exact there
  have kept {name f} (member : f ∈ s.feed name) : f.Honest (s.putReblog maxFeedSize account c).blog :=
    (honest name f member).mono fun _ _ _ there _ => grows there
  intro name f member
  simp only [State.putReblog] at member
  split at member
  · have member := (List.dropWhile_sublist _).subset member
    split at member
    · obtain ⟨f, old, rfl⟩ := List.mem_map.mp member
      split
      next same =>
        -- an account that is listed has the post in its blog
        have unlisted : account ∉ f.rebloggedBy := fun listed => by
          obtain ⟨b, there, its⟩ := (honest name f old).current account listed
          exact fresh b there (its.trans same)
        refine ⟨?_, ?_, fun name' listed => ?_⟩
        · simp [(kept old).counted]
        · exact List.nodup_append.mpr ⟨(kept old).nodup, List.nodup_singleton _, fun x mine y single equal =>
            unlisted (List.mem_singleton.mp single ▸ equal ▸ mine)⟩
        · rcases List.mem_append.mp listed with before | new
          · exact (kept old).current name' before
          · rw [List.mem_singleton.mp new, same]
            exact has
      · exact kept old
    · rcases List.mem_append.mp member with old | new
      · exact kept old
      · rw [List.mem_singleton.mp new]
        refine ⟨rfl, List.nodup_singleton _, fun name' listed => ?_⟩
        rw [List.mem_singleton.mp listed]
        exact has
  · exact kept member

theorem eraseRemoved_of_mem {l : List Name} (nodup : l.Nodup) (listed : account ∈ l) :
    State.eraseRemoved account l = l.filter (· ≠ account) ∧ (State.eraseRemoved account l).length = l.length - 1 := by
  have kept : l.filter (· ≠ account) = l.erase account := by simp [nodup.erase_eq_filter, bne, beq_eq_decide]
  have shorter := List.length_erase_of_mem listed
  have length := List.length_pos_of_mem listed
  have all : State.eraseRemoved account l = l.filter (· ≠ account) := by
    rw [State.eraseRemoved, kept, shorter, List.drop_of_length_le (by omega), List.append_nil]
  exact ⟨all, by rw [all, kept, shorter]⟩

theorem State.Honest.takeReblog {c : Post Name} (honest : s.Honest)
    (careful : ∀ name, ∀ f ∈ s.feed name, f.comment = c → (account ∈ f.rebloggedBy → s.Follows name account) ∧
      (s.Follows name account → account ∈ f.rebloggedBy ∨ f.reblogs ≤ 1)) : (s.takeReblog account c).Honest := by
  have stays {name b} (there : b ∈ s.blog name) (other : name ≠ account ∨ b.comment ≠ c) :
      b ∈ (s.takeReblog account c).blog name := by
    simp only [State.takeReblog, update_apply]
    split
    next same =>
      subst same
      exact List.mem_filter.mpr ⟨there, decide_eq_true (other.resolve_left fun different => different rfl)⟩
    · exact there
  have kept {name f} (member : f ∈ s.feed name) (unlisted : f.comment = c → account ∉ f.rebloggedBy) :
      f.Honest (s.takeReblog account c).blog := by
    refine (honest name f member).mono fun name' listed b there its => stays there ?_
    by_cases same : f.comment = c
    · exact .inl fun equal => unlisted same (equal ▸ listed)
    · exact .inr (its ▸ same)
  intro name f member
  simp only [State.takeReblog] at member
  split at member
  next follows =>
    obtain ⟨f, old, left⟩ := List.mem_filterMap.mp member
    split at left
    next same =>
      simp only [State.unlistReblog, ite_none_left_eq_some, some.injEq] at left
      obtain ⟨several, rfl⟩ := left
      have listed := ((careful name f old same).2 follows).resolve_right several
      have before := honest name f old
      obtain ⟨erased, length⟩ := eraseRemoved_of_mem before.nodup listed
      refine ⟨by rw [length, ← before.counted], by rw [erased]; exact before.nodup.filter _, fun name' mine => ?_⟩
      rw [erased, List.mem_filter, decide_eq_true_eq] at mine
      obtain ⟨b, there, its⟩ := before.current name' mine.1
      exact ⟨b, stays there (.inl mine.2), its⟩
    next other =>
      cases left
      exact kept old fun same => absurd same other
  next stranger =>
    exact kept member fun same listed => stranger ((careful name f member same).1 listed)

theorem State.Honest.deleteComment (honest : s.Honest) : (s.deleteComment author permlink).Honest := by
  unfold State.deleteComment
  split
  · exact honest
  next c found =>
    dsimp only
    split
    · intro name f member
      rw [List.mem_filter, decide_eq_true_eq] at member
      refine (honest name f member.1).mono fun account _ b there same => ?_
      exact List.mem_filter.mpr ⟨there, decide_eq_true (same ▸ member.2)⟩
    · exact honest

theorem Run.honest (run : Run maxFeedSize (Careful maxFeedSize) s) : s.Honest := by
  induction run with
  | start =>
    intro name f member
    cases member
  | @step s t before a allowed applied ih =>
    cases a with
    | follow o =>
      simp only [State.apply, State.follow, ite_none_left_eq_some, some.injEq] at applied
      rw [← applied.2]
      exact ih
    | comment author permlink root memory =>
      obtain ⟨rfl, room⟩ := allowed
      cases applied
      exact ih.comment room
    | reblog account author permlink =>
      obtain ⟨c, -, -, fresh, rfl⟩ := reblog_eq applied
      exact ih.putReblog fresh
    | deleteReblog account author permlink =>
      obtain ⟨c, found, -, -, rfl⟩ := deleteReblog_eq applied
      exact ih.takeReblog (allowed c found)
    | deleteComment author permlink =>
      cases applied
      exact ih.deleteComment
    | block time =>
      cases applied
      exact ih

end Golos.Follow
