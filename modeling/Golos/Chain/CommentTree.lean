import Golos.Chain.Invariant
import Golos.Chain.Slots
import Golos.Lib.Forest
import Mathlib.Data.Set.Card

/-! # Discussions

A comment is a root or answers another one.  It holds how deep it stands, the root of its discussion and
how many comments stand below it; the last number is changed along the whole way to the root when a reply
is made or deleted.  Before hardfork 6 a deletion did not change it, so that it could be too large, never
too small; the hardfork counts all comments again.

* `comment_tree_agrees` — depths, roots and numbers agree with the parents, and what has a reply stays.
-/

namespace Golos

open Stateful Evaluator Database Store List

set_option synthInstance.maxSize 1000000

variable {s t : Database} {keys : List CommentKey} {place : CommentPlace} {o : CommentOperation}
  {parent : Option Comment} {hardfork : Nat} {key : CommentKey}

/-! ## The tree of the comments -/

def Database.placeOf (s : Database) (key : CommentKey) : Option CommentPlace := (s.comments.find? key).map (·.place)

def Database.childrenOf (s : Database) (key : CommentKey) : Option Nat := (s.comments.find? key).map (·.children)

/-- The comment a place is under. -/
def CommentPlace.answered (place : CommentPlace) : Option CommentKey :=
  if place.parentAuthor = .blank then none else some place.parent

def Database.parentOf (s : Database) (key : CommentKey) : Option CommentKey := (s.placeOf key).bind (·.answered)

def Database.depthOf (s : Database) (key : CommentKey) : Nat := (s.placeOf key).elim 0 (·.depth)

/-- The comments on the way to the root. -/
def Database.above (s : Database) (key : CommentKey) : List CommentKey := Forest.above s.parentOf s.depthOf key

/-- The number of comments that have `key` on their way. -/
def Database.descendants (s : Database) (key : CommentKey) : Nat :=
  s.comments.total fun k _ => if key ∈ s.above k then 1 else 0

/-- A place that agrees with the one it is under. -/
inductive Database.Fits (s : Database) (key : CommentKey) (place : CommentPlace) : Prop where
  | root : place.answered = none → place.depth = 0 → place.rootComment = key → Fits s key place
  | reply {p : CommentKey} {above : CommentPlace} : place.answered = some p → s.placeOf p = some above →
    place.depth = above.depth + 1 → place.rootComment = above.rootComment → Fits s key place

def Database.Threaded (s : Database) : Prop := ∀ key place, s.placeOf key = some place → s.Fits key place

section Tree

variable {s t : Database} {key k : CommentKey} {place : CommentPlace}

theorem parentOf_of_placeOf (found : s.placeOf key = some place) : s.parentOf key = place.answered := by
  rw [parentOf, found, Option.bind_some]

theorem depthOf_of_placeOf (found : s.placeOf key = some place) : s.depthOf key = place.depth := by
  rw [depthOf, found, Option.elim_some]

theorem Database.Threaded.congr (threaded : s.Threaded) (same : t.placeOf = s.placeOf) : t.Threaded := by
  intro key place found
  rw [same] at found
  cases threaded key place found with
  | root isRoot depth root => exact .root isRoot depth root
  | reply answers foundAbove depth root => exact .reply answers (same ▸ foundAbove) depth root

/-- A reply stands one below the comment it answers, in the same discussion. -/
theorem Database.Threaded.answered (threaded : s.Threaded) (found : s.placeOf k = some place)
    (answers : place.answered = some key) : ∃ above, s.placeOf key = some above ∧ place.depth = above.depth + 1 ∧
      place.rootComment = above.rootComment := by
  cases threaded k place found with
  | root isRoot => cases isRoot.symm.trans answers
  | reply answers' foundAbove depth root =>
    cases answers'.symm.trans answers
    exact ⟨_, foundAbove, depth, root⟩

theorem Database.Threaded.heights (threaded : s.Threaded) :
    Forest.Heights s.parentOf (fun k => (s.placeOf k).isSome) s.depthOf where
  root k member isRoot := by
    obtain ⟨place, found⟩ := Option.isSome_iff_exists.mp member
    rw [parentOf_of_placeOf found] at isRoot
    rw [depthOf_of_placeOf found]
    cases threaded k place found with
    | root _ depth _ => exact depth
    | reply answers => cases isRoot.symm.trans answers
  step k p member isParent := by
    obtain ⟨place, found⟩ := Option.isSome_iff_exists.mp member
    rw [parentOf_of_placeOf found] at isParent
    obtain ⟨above, foundAbove, depth, _⟩ := threaded.answered found isParent
    rw [depthOf_of_placeOf found, foundAbove, depthOf_of_placeOf foundAbove]
    exact ⟨rfl, depth⟩

theorem inside_of_parentOf (isParent : s.parentOf k = some key) : (s.placeOf k).isSome := by
  obtain ⟨place, found, _⟩ := Option.bind_eq_some_iff.mp isParent
  rw [found]
  rfl

theorem Database.Threaded.above_reply (threaded : s.Threaded) (isParent : s.parentOf k = some key) :
    s.above k = key :: s.above key :=
  threaded.heights.above_eq (inside_of_parentOf isParent) isParent

theorem Database.Threaded.not_mem_above (threaded : s.Threaded) (member : (s.placeOf key).isSome) : key ∉ s.above key :=
  threaded.heights.not_mem_above member

theorem placeOf_of_entry {e : CommentKey × Comment} (member : e ∈ s.comments.entries) :
    s.placeOf e.1 = some e.2.place := by
  rw [placeOf, find?_eq_some.mpr member, Option.map_some]

theorem childrenOf_isSome : (s.childrenOf key).isSome = (s.placeOf key).isSome := by
  rw [childrenOf, placeOf, Option.isSome_map, Option.isSome_map]

/-- Nobody answers what has nobody below it. -/
theorem Database.Threaded.unanswered (threaded : s.Threaded) (leaf : s.descendants key = 0) :
    s.parentOf k ≠ some key := by
  intro isParent
  obtain ⟨place, found, _⟩ := Option.bind_eq_some_iff.mp isParent
  obtain ⟨c, there, _⟩ := Option.map_eq_some_iff.mp found
  have counted := total_erase (g := fun k _ => if key ∈ s.above k then 1 else 0) there
  rw [threaded.above_reply isParent, if_pos mem_cons_self] at counted
  exact absurd (counted.trans leaf) (Nat.succ_ne_zero _)

end Tree

/-! ## What leaves the tree alone -/

/-- The comments are where they were, and the same hardforks are processed. -/
structure SamePlaces (s t : Database) : Prop where
  places : t.comments.view (·.place) = s.comments.view (·.place)
  hardforks : t.hardforks.processedHardforks.length = s.hardforks.processedHardforks.length

/-- So are the numbers of their descendants. -/
structure SameTree (s t : Database) : Prop extends SamePlaces s t where
  children : t.comments.view (·.children) = s.comments.view (·.children)

instance : Std.Refl SamePlaces := ⟨fun _ => ⟨rfl, rfl⟩⟩

instance : IsTrans Database SamePlaces :=
  ⟨fun _ _ _ first second => ⟨second.places.trans first.places, second.hardforks.trans first.hardforks⟩⟩

instance : Std.Refl SameTree := ⟨fun s => ⟨refl_of SamePlaces s, rfl⟩⟩

instance : IsTrans Database SameTree :=
  ⟨fun _ _ _ first second =>
    ⟨trans_of SamePlaces first.toSamePlaces second.toSamePlaces, second.children.trans first.children⟩⟩

namespace SamePlaces

variable (same : SamePlaces s t)

include same

theorem placeOf : t.placeOf = s.placeOf := funext fun key => find?_eq_of_view same.places key

theorem parentOf : t.parentOf = s.parentOf := by
  funext key
  rw [Database.parentOf, Database.parentOf, same.placeOf]

theorem above : t.above = s.above := by
  have depths : t.depthOf = s.depthOf := by
    funext key
    rw [depthOf, depthOf, same.placeOf]
  funext key
  rw [Database.above, Database.above, same.parentOf, depths]

theorem descendants : t.descendants = s.descendants := by
  funext key
  rw [Database.descendants, Database.descendants, same.above]
  exact total_eq_of_view (g := fun k _ => if key ∈ s.above k then 1 else 0) same.places

theorem hasHardfork (n : Nat) : t.hasHardfork n = s.hasHardfork n := by
  rw [Database.hasHardfork, Database.hasHardfork, same.hardforks]

theorem threaded (threaded : s.Threaded) : t.Threaded := threaded.congr same.placeOf

end SamePlaces

theorem SameTree.childrenOf (same : SameTree s t) : t.childrenOf = s.childrenOf :=
  funext fun key => find?_eq_of_view same.children key

/-! ## The invariant -/

/-- The places agree, no number is too small, and from hardfork 6 on none is too large. -/
structure Database.Discussions (s : Database) : Prop where
  threaded : s.Threaded
  counted : ∀ key n, s.childrenOf key = some n → s.descendants key ≤ n
  exact : s.hasHardfork 6 → ∀ key n, s.childrenOf key = some n → n = s.descendants key

theorem SameTree.discussions (same : SameTree s t) (before : s.Discussions) : t.Discussions where
  threaded := same.threaded before.threaded
  counted := by
    rw [same.childrenOf, same.descendants]
    exact before.counted
  exact := by
    rw [same.childrenOf, same.descendants, same.hasHardfork]
    exact before.exact

/-- The invariant is kept and no comment goes. -/
def Grows (s t : Database) : Prop :=
  s.Discussions → t.Discussions ∧ ∀ key, (s.placeOf key).isSome → (t.placeOf key).isSome

instance : Std.Refl Grows := ⟨fun _ before => ⟨before, fun _ => id⟩⟩

instance : IsTrans Database Grows where
  trans _ _ _ first second before := by
    obtain ⟨between, stay⟩ := first before
    obtain ⟨after, stay'⟩ := second between
    exact ⟨after, fun key there => stay' key (stay key there)⟩

theorem SameTree.grows (same : SameTree s t) : Grows s t := by
  intro before
  refine ⟨same.discussions before, fun key there => ?_⟩
  rw [same.placeOf]
  exact there

theorem ensures_grows {α} {m : Eval α} (kept : s.Discussions → Ensures s m fun _ t => Grows s t) :
    Ensures s m fun _ t => Grows s t :=
  fun a t run before => kept before a t run before

abbrev keepsTree : Footprint
  | .commentPlace | .commentChildren | .hardforks => false
  | _ => true

theorem Within.sameTree (within : Within keepsTree s t) : SameTree s t where
  places := within .commentPlace rfl
  hardforks := congrArg (fun h : HardforkProperties => h.processedHardforks.length) (within .hardforks rfl)
  children := within .commentChildren rfl

instance : Finer (Within keepsTree) SameTree := ⟨fun _ _ => Within.sameTree⟩

instance : Finer SameTree Grows := ⟨fun _ _ => SameTree.grows⟩

instance : Preserves SameTree countVersionVotes := by
  have voted (witnesses : List Witness) : Preserves SameTree (modifyHardforks fun h =>
      match agreedHardfork witnesses with
      | some vote => { h with nextHardfork := vote.1, nextHardforkTime := vote.2 }
      | none => { h with nextHardfork := h.currentHardforkVersion }) := by
    refine preserves_modify fun s => ⟨⟨rfl, ?_⟩, rfl⟩
    cases agreedHardfork witnesses <;> rfl
  unfold countVersionVotes; infer_instance

/-! ## Counting along the way to the root -/

/-- The numbers of some comments are changed, and nothing else of the tree. -/
structure Recounts (f : Nat → Nat) (keys : List CommentKey) (s t : Database) : Prop extends SamePlaces s t where
  children : ∀ k, t.childrenOf k = if k ∈ keys then (s.childrenOf k).map f else s.childrenOf k

section Counting

variable {s t u : Database} {f : Nat → Nat} {key k : CommentKey}

theorem Recounts.append {keys' : List CommentKey} (first : Recounts f keys s t) (second : Recounts f keys' t u)
    (disjoint : ∀ k ∈ keys, k ∉ keys') : Recounts f (keys ++ keys') s u where
  toSamePlaces := trans_of SamePlaces first.toSamePlaces second.toSamePlaces
  children k := by
    rw [second.children, first.children]
    by_cases early : k ∈ keys
    · simp [disjoint k early]
    · simp [early]

theorem modifyChildren_recounts : Ensures s (modifyChildren key f) fun _ t => Recounts f [key] s t := by
  rw [modifyChildren, updateComment, ensures_bind, ensures_getComment]
  intro c there
  rw [updateComments, ensures_modify]
  refine ⟨⟨view_modify fun _ => rfl, rfl⟩, fun k => ?_⟩
  simp only [childrenOf, find?_modify, mem_singleton]
  split <;> simp [Function.comp_def]

theorem run_getComment (found : s.placeOf key = some place) : ∃ c, getComment key s = .ok (c, s) ∧ c.place = place := by
  obtain ⟨c, there, isPlace⟩ := Option.map_eq_some_iff.mp found
  exact ⟨c, run_require there, isPlace⟩

theorem modifyChildren_runs (found : s.placeOf key = some place) :
    EndsIn s (modifyChildren key f) (fun _ t => Recounts f [key] s t) fun _ => False := by
  obtain ⟨c, looked, _⟩ := run_getComment found
  have runs : EndsIn s (modifyChildren key f) (fun _ _ => True) fun _ => False :=
    endsIn_run_bind looked (endsIn_modify trivial)
  exact ⟨modifyChildren_recounts, runs.2⟩

theorem above_of_blank (found : s.placeOf key = some place) (isRoot : place.parentAuthor = .blank) : s.above key = [] :=
  Forest.above_of_root ((parentOf_of_placeOf found).trans (if_pos isRoot))

/-- The loop changes the comment it starts at and all above it, and the bound of its passes is never met. -/
theorem countAtAncestors_recounts {fuel : Nat} (threaded : s.Threaded)
    (found : s.placeOf key = some place) (enough : place.depth < fuel) :
    EndsIn s (countAtAncestors f fuel key) (fun _ t => Recounts f (key :: s.above key) s t) fun _ => False := by
  induction fuel generalizing s key place with
  | zero => exact absurd enough (Nat.not_lt_zero _)
  | succ fuel ih =>
    rw [countAtAncestors]
    refine (modifyChildren_runs found).bind fun _ t first => ?_
    obtain ⟨c, looked, isPlace⟩ := run_getComment (first.placeOf ▸ found)
    refine endsIn_run_bind looked ?_
    rw [isPlace]
    refine endsIn_ite (fun isReply => ?_) fun isRoot => ?_
    · obtain ⟨above, foundAbove, depth, _⟩ := threaded.answered found (if_neg isReply)
      have way := threaded.above_reply ((parentOf_of_placeOf found).trans (if_neg isReply))
      have rest := ih (first.threaded threaded) (first.placeOf ▸ foundAbove) (by omega)
      rw [first.above, ← way] at rest
      refine rest.mono fun _ u second => first.append second fun k isKey => ?_
      rw [mem_singleton.mp isKey]
      exact threaded.not_mem_above (by rw [found]; rfl)
    · rw [above_of_blank found (not_not.mp isRoot)]
      exact endsIn_pure first

/-- Started at its parent, the loop changes all comments above one. -/
theorem countAtAncestors_parent (threaded : s.Threaded) (found : s.placeOf key = some place)
    (isReply : place.parentAuthor ≠ .blank) :
    Ensures s (countAtAncestors f place.depth place.parent) fun _ t => Recounts f (s.above key) s t := by
  obtain ⟨above, foundAbove, depth, _⟩ := threaded.answered found (if_neg isReply)
  rw [threaded.above_reply ((parentOf_of_placeOf found).trans (if_neg isReply))]
  exact (countAtAncestors_recounts threaded foundAbove (by omega)).1

theorem Recounts.refl : Recounts f [] s s := ⟨refl_of SamePlaces s, fun _ => rfl⟩

end Counting

/-! ## A new comment -/

section Creation

variable {s t u : Database} {key k : CommentKey} {place : CommentPlace}

/-- A comment without replies is added. -/
structure Adds (key : CommentKey) (place : CommentPlace) (s t : Database) : Prop where
  fresh : s.placeOf key = none
  places : ∀ k, t.placeOf k = if k = key then some place else s.placeOf k
  children : ∀ k, t.childrenOf k = if k = key then some 0 else s.childrenOf k
  hardforks : t.hardforks.processedHardforks.length = s.hardforks.processedHardforks.length
  total : ∀ g : CommentKey → Nat, (t.comments.total fun k _ => g k) = (s.comments.total fun k _ => g k) + g key

namespace Adds

variable (adds : Adds key place s t)

include adds

theorem places_old (member : (s.placeOf k).isSome) : t.placeOf k = s.placeOf k := by
  rw [adds.places, if_neg]
  rintro rfl
  rw [adds.fresh] at member
  cases member

theorem threaded (threaded : s.Threaded) (fits : s.Fits key place) : t.Threaded := by
  have kept (p : CommentKey) (above : CommentPlace) (found : s.placeOf p = some above) : t.placeOf p = some above := by
    rw [adds.places_old (by rw [found]; rfl), found]
  have moved (k : CommentKey) (place : CommentPlace) (fits : s.Fits k place) : t.Fits k place := by
    cases fits with
    | root isRoot depth root => exact .root isRoot depth root
    | reply answers foundAbove depth root => exact .reply answers (kept _ _ foundAbove) depth root
  intro k place' found
  rw [adds.places] at found
  split at found
  · subst k
    cases found
    exact moved key place fits
  · exact moved k place' (threaded k place' found)

theorem above_old (threaded : s.Threaded) (member : (s.placeOf k).isSome) : t.above k = s.above k := by
  refine threaded.heights.above_congr (fun k member => ?_) (fun k member => ?_) member
  · rw [parentOf, parentOf, adds.places_old member]
  · rw [depthOf, depthOf, adds.places_old member]

theorem descendants (threaded : s.Threaded) : t.descendants k = s.descendants k + if k ∈ t.above key then 1 else 0 := by
  rw [Database.descendants, adds.total fun j => if k ∈ t.above j then 1 else 0]
  congr 1
  refine total_congr fun e member => ?_
  rw [adds.above_old threaded (by rw [placeOf_of_entry member]; rfl)]

/-- Nobody is below it yet. -/
theorem descendants_new (threaded : s.Threaded) (fits : s.Fits key place) : t.descendants key = 0 := by
  have found : (t.placeOf key).isSome := by rw [adds.places, if_pos rfl]; rfl
  rw [adds.descendants threaded, if_neg ((adds.threaded threaded fits).not_mem_above found)]
  rw [Database.descendants, total_congr, total_zero]
  intro e member
  refine if_neg fun isAbove => ?_
  have inside := (threaded.heights.mem_above (by rw [placeOf_of_entry member]; rfl) isAbove).1
  rw [adds.fresh] at inside
  cases inside

theorem discussions (before : s.Discussions) (fits : s.Fits key place) (counts : Recounts (· + 1) (t.above key) t u) :
    u.Discussions := by
  have threaded := adds.threaded before.threaded fits
  have found : (t.placeOf key).isSome := by rw [adds.places, if_pos rfl]; rfl
  have hardfork : u.hasHardfork 6 = s.hasHardfork 6 := by
    rw [counts.hasHardfork, hasHardfork, hasHardfork, adds.hardforks]
  -- each number is that of the new comment, or grew by what its count grew
  have numbers (k : CommentKey) (n : Nat) (isNumber : u.childrenOf k = some n) :
      k = key ∧ n = 0 ∧ u.descendants k = 0 ∨
        ∃ m, s.childrenOf k = some m ∧ n = m + (if k ∈ t.above key then 1 else 0) ∧
          u.descendants k = s.descendants k + if k ∈ t.above key then 1 else 0 := by
    rw [counts.children, adds.children] at isNumber
    rw [counts.descendants]
    by_cases new : k = key
    · subst new
      rw [if_neg (threaded.not_mem_above found), if_pos rfl] at isNumber
      exact .inl ⟨rfl, (Option.some.inj isNumber).symm, adds.descendants_new before.threaded fits⟩
    · rw [if_neg new] at isNumber
      refine .inr ?_
      split at isNumber
      next isAbove =>
        obtain ⟨m, was, isSum⟩ := Option.map_eq_some_iff.mp isNumber
        exact ⟨m, was, by rw [if_pos isAbove, isSum], adds.descendants before.threaded⟩
      next notAbove =>
        exact ⟨n, isNumber, by rw [if_neg notAbove, Nat.add_zero], adds.descendants before.threaded⟩
  refine ⟨counts.threaded threaded, fun k n isNumber => ?_, fun later k n isNumber => ?_⟩
  · rcases numbers k n isNumber with ⟨_, _, absent⟩ | ⟨m, was, isSum, more⟩
    · rw [absent]
      exact Nat.zero_le _
    · have counted := before.counted k m was
      omega
  · rcases numbers k n isNumber with ⟨_, zero, absent⟩ | ⟨m, was, isSum, more⟩
    · rw [zero, absent]
    · have exactly := before.exact (hardfork ▸ later) k m was
      omega

end Adds

theorem createComment_adds {payout : CommentPayout} :
    Ensures s (createComment key place payout) fun _ t => Adds key place s t := by
  simp only [createComment, updateComments, ensures_steps]
  intro fresh
  refine ⟨by rw [placeOf, fresh, Option.map_none], fun k => ?_, fun k => ?_, rfl, fun g => ?_⟩
  · simp only [placeOf, find?_insert fresh]
    split <;> rfl
  · simp only [childrenOf, find?_insert fresh]
    split <;> rfl
  · exact total_insert fresh

theorem Adds.sameTree (adds : Adds key place s t) (same : SameTree t u) : Adds key place s u where
  fresh := adds.fresh
  places k := by rw [same.placeOf, adds.places]
  children k := by rw [same.childrenOf, adds.children]
  hardforks := same.hardforks.trans adds.hardforks
  total g := (total_eq_of_view (g := fun k _ => g k) same.places).trans (adds.total g)

theorem grows_of_adds {v : Database} (same : SameTree s t) (adds : Adds key place t u) (fits : t.Fits key place)
    (counts : Recounts (· + 1) (u.above key) u v) : Grows s v := by
  intro before
  refine ⟨adds.discussions (same.discussions before) fits counts, fun k there => ?_⟩
  rw [← same.placeOf] at there
  rw [counts.placeOf, adds.places_old there]
  exact there

/-- The comment an operation answers, if it answers one, is where it says. -/
def Database.Offers (s : Database) (o : CommentOperation) (parent : Option Comment) : Prop :=
  ∀ p, parent = some p → o.parentAuthor ≠ .blank ∧ s.placeOf (o.parentAuthor, o.parentPermlink) = some p.place

theorem fits_place (isParent : s.Offers o parent) :
    s.Fits (o.author, o.permlink) (CommentOperation.place o parent) := by
  cases parent with
  | none => exact .root (if_pos rfl) rfl rfl
  | some p =>
    obtain ⟨named, found⟩ := isParent p rfl
    exact .reply (if_neg named) found rfl rfl

theorem createPost_grows (isParent : s.Offers o parent) : Ensures s (createPost o parent) fun _ t => Grows s t := by
  refine ensures_grows fun before => ?_
  simp only [createPost, ensures_bind, ensures_get]
  have same := refl_of SameTree s
  iterate 4 refine ensures_since _ same fun _ _ same => ?_
  refine ensures_since _ same fun author s₅ same => ?_
  have fits : s₅.Fits (o.author, o.permlink) (CommentOperation.place o parent) :=
    fits_place fun p isP => by
      rw [same.placeOf]
      exact isParent p isP
  refine createComment_adds.mono fun _ s₆ adds => ?_
  refine ensures_frame SameTree fun _ s₇ same₇ => ?_
  have adds := adds.sameTree same₇
  have threaded := adds.threaded (same.threaded before.threaded) fits
  refine Ensures.mono ?_
    fun _ t counts => grows_of_adds same adds fits counts
  have found : s₇.placeOf (o.author, o.permlink) = some (CommentOperation.place o parent) := by
    rw [adds.places, if_pos rfl]
  cases parent with
  | none =>
    rw [above_of_blank found rfl]
    exact ensures_pure.mpr Recounts.refl
  | some p => exact countAtAncestors_parent threaded found (isParent p rfl).1

instance {producing o} : Preserves Grows (comment producing o) := by
  refine ⟨fun s => ?_⟩
  rw [comment, ensures_bind, ensures_get, ensures_bind]
  refine ensures_frame SameTree fun _ s₁ same₁ => ?_
  rw [ensures_bind]
  refine ensures_frame SameTree fun _ s₂ same₂ => ?_
  have same : SameTree s s₂ := trans_of _ same₁ same₂
  rw [ensures_bind, getParent, ensures_bind, ensures_get]
  have edited (c : Comment) : Ensures s₂ (editPost o c) fun _ t => Grows s t :=
    ensures_frame SameTree fun _ t rest => (trans_of SameTree same rest).grows
  have posted (parent : Option Comment) (isParent : s₂.Offers o parent) :
      Ensures s₂ (createPost o parent) fun _ t => Grows s t :=
    (createPost_grows isParent).mono fun _ t rest => trans_of Grows same.grows rest
  have either (parent : Option Comment) (isParent : s₂.Offers o parent) :
      Ensures s₂ ((s.comments.find? (o.author, o.permlink)).elim (createPost o parent) (editPost o))
        fun _ t => Grows s t := by
    cases s.comments.find? (o.author, o.permlink) with
    | none => exact posted parent isParent
    | some c => exact edited c
  refine ensures_ite.mpr ⟨fun _ => ensures_pure.mpr (either none fun p isP => by cases isP), fun named => ?_⟩
  rw [ensures_bind, ensures_getComment]
  intro p there
  simp only [ensures_steps]
  refine fun _ => either (some p) fun p' isP => ?_
  cases isP
  exact ⟨named, by rw [placeOf, there, Option.map_some]⟩

end Creation

/-! ## A deleted comment -/

/-- Somebody answers `key`. -/
def Database.Answered (s : Database) (key : CommentKey) : Prop := ∃ reply, s.parentOf reply = some key

/-- The invariant is kept and nothing that is answered goes. -/
def Prunes (s t : Database) : Prop :=
  s.Discussions → t.Discussions ∧ ∀ key, s.Answered key → (t.placeOf key).isSome

section Deletion

variable {s t u : Database} {key k : CommentKey}

theorem Grows.prunes (grows : Grows s t) : Prunes s t := by
  intro before
  obtain ⟨after, stay⟩ := grows before
  refine ⟨after, fun key => ?_⟩
  rintro ⟨reply, answers⟩
  exact stay key (before.threaded.heights.step reply key (inside_of_parentOf answers) answers).1

theorem Prunes.of_sameTree (same : SameTree s t) (rest : Prunes t u) : Prunes s u := by
  intro before
  obtain ⟨after, stay⟩ := rest (same.discussions before)
  refine ⟨after, fun key answered => stay key ?_⟩
  rw [Answered, same.parentOf]
  exact answered

/-- One comment is removed. -/
structure Removes (key : CommentKey) (s t : Database) : Prop where
  places : ∀ k, t.placeOf k = if k = key then none else s.placeOf k
  children : ∀ k, t.childrenOf k = if k = key then none else s.childrenOf k
  hardforks : t.hardforks.processedHardforks.length = s.hardforks.processedHardforks.length
  total : ∀ g : CommentKey → Nat, (t.comments.total fun k _ => g k) + g key = s.comments.total fun k _ => g k

theorem removeComment_removes : Ensures s (removeComment key) fun _ t => Removes key s t := by
  rw [removeComment, ensures_bind, ensures_getComment]
  intro c there
  rw [updateComments, ensures_modify]
  refine ⟨fun k => ?_, fun k => ?_, rfl, fun g => total_erase there⟩
  · simp only [placeOf, find?_erase]
    split <;> rfl
  · simp only [childrenOf, find?_erase]
    split <;> rfl

namespace Removes

variable (removes : Removes key s t)

include removes

theorem places_ne (other : k ≠ key) : t.placeOf k = s.placeOf k := by
  rw [removes.places, if_neg other]

theorem ne_of_inside (member : (t.placeOf k).isSome) : k ≠ key := by
  rintro rfl
  rw [removes.places, if_pos rfl] at member
  cases member

/-- Nobody answers a comment nobody is below. -/
theorem threaded (threaded : s.Threaded) (leaf : s.descendants key = 0) : t.Threaded := by
  intro k place found
  have other := removes.ne_of_inside (by rw [found]; rfl)
  rw [removes.places_ne other] at found
  cases threaded k place found with
  | root isRoot depth root => exact .root isRoot depth root
  | @reply p above answers foundAbove depth root =>
    refine .reply answers ?_ depth root
    rw [removes.places_ne, foundAbove]
    -- its parent is not the one that goes, which would have it below
    rintro rfl
    exact threaded.unanswered leaf ((parentOf_of_placeOf found).trans answers)

theorem above (threaded : t.Threaded) (member : (t.placeOf k).isSome) : s.above k = t.above k := by
  refine threaded.heights.above_congr (fun k member => ?_) (fun k member => ?_) member
  · rw [parentOf, parentOf, removes.places_ne (removes.ne_of_inside member)]
  · rw [depthOf, depthOf, removes.places_ne (removes.ne_of_inside member)]

theorem descendants (threaded : t.Threaded) :
    t.descendants k + (if k ∈ s.above key then 1 else 0) = s.descendants k := by
  refine Eq.trans ?_ (removes.total fun j => if k ∈ s.above j then 1 else 0)
  congr 1
  refine total_congr fun e member => ?_
  rw [removes.above threaded (by rw [placeOf_of_entry member]; rfl)]

end Removes

theorem prunes_of_removes {counted : List CommentKey} (childless : s.childrenOf key = some 0)
    (counts : Recounts (· - 1) counted s t) (isCounted : counted = if s.hasHardfork 6 then s.above key else [])
    (removes : Removes key t u) : Prunes s u := by
  intro before
  have leaf : s.descendants key = 0 := Nat.le_zero.mp (before.counted key 0 childless)
  have leaf' : t.descendants key = 0 := by rw [counts.descendants, leaf]
  have threaded := removes.threaded (counts.threaded before.threaded) leaf'
  have fewer (k : CommentKey) : u.descendants k + (if k ∈ s.above key then 1 else 0) = s.descendants k := by
    have moved := removes.descendants (k := k) threaded
    rwa [counts.descendants, counts.above] at moved
  have hardfork : u.hasHardfork 6 = s.hasHardfork 6 := by
    rw [← counts.hasHardfork, hasHardfork, hasHardfork, removes.hardforks]
  have numbers (k : CommentKey) (n : Nat) (isNumber : u.childrenOf k = some n) :
      ∃ m, s.childrenOf k = some m ∧ n = m - if k ∈ counted then 1 else 0 := by
    rw [removes.children] at isNumber
    split at isNumber
    · cases isNumber
    rw [counts.children] at isNumber
    split at isNumber
    next isCounted =>
      obtain ⟨m, was, isLess⟩ := Option.map_eq_some_iff.mp isNumber
      exact ⟨m, was, by rw [if_pos isCounted, isLess]⟩
    next notCounted =>
      exact ⟨n, isNumber, by rw [if_neg notCounted, Nat.sub_zero]⟩
  have exactly (later : s.hasHardfork 6) (k : CommentKey) (n : Nat) (isNumber : u.childrenOf k = some n) :
      n = u.descendants k := by
    obtain ⟨m, was, isLess⟩ := numbers k n isNumber
    have same := before.exact later k m was
    have moved := fewer k
    rw [isCounted, if_pos later] at isLess
    omega
  refine ⟨⟨threaded, fun k n isNumber => ?_, fun later => exactly (hardfork ▸ later)⟩, fun k => ?_⟩
  · by_cases later : s.hasHardfork 6
    · exact (exactly later k n isNumber).ge
    · obtain ⟨m, was, isLess⟩ := numbers k n isNumber
      have enough := before.counted k m was
      have moved := fewer k
      rw [isCounted, if_neg later, if_neg not_mem_nil] at isLess
      omega
  · rintro ⟨reply, answers⟩
    have inside := inside_of_parentOf answers
    rw [removes.places_ne, counts.placeOf]
    · exact (before.threaded.heights.step reply k inside answers).1
    · rintro rfl
      exact before.threaded.unanswered leaf answers

theorem deleteComment_prunes {producing : Bool} {o : DeleteCommentOperation} :
    Ensures s (deleteComment producing o) fun _ t => Prunes s t := by
  rw [deleteComment, ensures_bind, ensures_get, ensures_bind]
  refine ensures_frame SameTree fun _ s₁ same₁ => ?_
  rw [ensures_bind, ensures_getComment]
  intro c there
  simp only [ensures_steps]
  intro childless
  refine ensures_frame SameTree fun _ s₂ same₂ => ?_
  refine ensures_ite.mpr ⟨fun _ => ensures_pure.mpr (trans_of SameTree same₁ same₂).grows.prunes, fun _ => ?_⟩
  rw [ensures_bind]
  refine ensures_frame SameTree fun _ s₃ same₃ => ?_
  have rest : SameTree s₁ s₃ := trans_of SameTree same₂ same₃
  have same : SameTree s s₃ := trans_of SameTree same₁ rest
  have found : s₃.placeOf (o.author, o.permlink) = some c.place := by
    rw [rest.placeOf, placeOf, there, Option.map_some]
  have number : s₃.childrenOf (o.author, o.permlink) = some 0 := by
    rw [rest.childrenOf, childrenOf, there, Option.map_some, childless]
  rw [ensures_bind]
  refine Ensures.mono (P := fun _ t => s₃.Threaded → Recounts (· - 1)
    (if s₃.hasHardfork 6 then s₃.above (o.author, o.permlink) else []) s₃ t) ?_ fun _ t counts => ?_
  · rw [← same.hasHardfork]
    refine fun a t run threaded => ?_
    revert a t
    refine ensures_when.mpr ⟨fun counted => ?_, fun uncounted => ?_⟩
    · rw [if_pos counted.1]
      exact countAtAncestors_parent threaded found counted.2
    · have absent : (if s₃.hasHardfork 6 = true then s₃.above (o.author, o.permlink) else []) = [] := by
        split
        next later =>
          exact above_of_blank found (not_not.mp fun named => uncounted ⟨later, named⟩)
        · rfl
      rw [absent]
      exact Recounts.refl
  · refine removeComment_removes.mono fun _ u removes => ?_
    refine Prunes.of_sameTree same fun before => ?_
    exact prunes_of_removes number (counts before.threaded) rfl removes before

end Deletion

/-! ## Counting again -/

section Retally

variable {net : Network} {s t : Database}

/-- The numbers of all comments are set to zero, one after the other. -/
theorem clearChildren_zero : Ensures s (keys.forM fun key => modifyChildren key fun _ => 0) fun _ t =>
      SamePlaces s t ∧ ∀ k n, t.childrenOf k = some n → k ∈ keys ∨ s.childrenOf k = some 0 → n = 0 := by
  induction keys generalizing s with
  | nil =>
    refine ensures_pure.mpr ⟨refl_of SamePlaces s, fun k n isNumber zero => ?_⟩
    rcases zero with member | zero
    · cases member
    · exact Option.some.inj (isNumber.symm.trans zero)
  | cons key keys ih =>
    rw [forM_eq_forM, forM_cons, ensures_bind]
    refine modifyChildren_recounts.mono fun _ t cleared => ?_
    refine ih.mono fun _ u rest => ⟨trans_of SamePlaces cleared.toSamePlaces rest.1, ?_⟩
    intro k n isNumber zero
    by_cases later : k ∈ keys
    · exact rest.2 k n isNumber (.inl later)
    · have isSome : (s.childrenOf k).isSome := by
        have inside : (u.childrenOf k).isSome := by rw [isNumber]; rfl
        rw [childrenOf_isSome, rest.1.placeOf, cleared.placeOf, ← childrenOf_isSome] at inside
        exact inside
      obtain ⟨m, was⟩ := Option.isSome_iff_exists.mp isSome
      refine rest.2 k n isNumber (.inr ?_)
      rw [cleared.children, was]
      split
      · rfl
      next other =>
        rcases zero with member | zero
        · rcases mem_cons.mp member with rfl | member
          · exact absurd mem_cons_self other
          · exact absurd member later
        · rw [← was, zero]

/-- Every comment of a list is counted at all comments above it. -/
theorem recountChildren_counts (threaded : s.Threaded) :
    Ensures s (keys.forM recountChildren) fun _ t => SamePlaces s t ∧
      ∀ k, t.childrenOf k = (s.childrenOf k).map (· + (keys.map fun j => if k ∈ s.above j then 1 else 0).sum) := by
  induction keys generalizing s with
  | nil =>
    refine ensures_pure.mpr ⟨refl_of SamePlaces s, fun k => ?_⟩
    simp
  | cons key keys ih =>
    rw [forM_eq_forM, forM_cons, ensures_bind]
    have first : Ensures s (recountChildren key) fun _ t => Recounts (· + 1) (s.above key) s t := by
      rw [recountChildren, ensures_bind, ensures_getComment]
      intro c there
      have found : s.placeOf key = some c.place := by rw [placeOf, there, Option.map_some]
      refine ensures_when.mpr ⟨countAtAncestors_parent threaded found, fun isRoot => ?_⟩
      rw [above_of_blank found (not_not.mp isRoot)]
      exact Recounts.refl
    refine first.mono fun _ t counts => ?_
    refine (ih (counts.threaded threaded)).mono fun _ u rest => ?_
    refine ⟨trans_of SamePlaces counts.toSamePlaces rest.1, fun k => ?_⟩
    rw [rest.2, counts.children, counts.above, map_cons, sum_cons]
    split
    · simp [Function.comp_def, Nat.add_assoc]
    · simp

/-- After it every number is right, whatever it was. -/
theorem retallyCommentChildren_exact (threaded : s.Threaded) : Ensures s retallyCommentChildren fun _ t =>
      SamePlaces s t ∧ ∀ k n, t.childrenOf k = some n → n = t.descendants k := by
  rw [retallyCommentChildren, ensures_bind, ensures_get, ensures_bind]
  refine clearChildren_zero.mono fun _ t cleared => ?_
  refine (recountChildren_counts (cleared.1.threaded threaded)).mono fun _ u counted => ?_
  refine ⟨trans_of SamePlaces cleared.1 counted.1, fun k n isNumber => ?_⟩
  rw [counted.2] at isNumber
  obtain ⟨m, was, isSum⟩ := Option.map_eq_some_iff.mp isNumber
  have inside : k ∈ s.comments.keys := by
    rw [← keys_eq_of_view cleared.1.places, ← Store.find?_isSome]
    have isSome : (t.childrenOf k).isSome := by rw [was]; rfl
    rwa [childrenOf, Option.isSome_map] at isSome
  rw [cleared.2 k m was (.inl inside), Nat.zero_add, cleared.1.above] at isSum
  rw [← isSum, counted.1.descendants, cleared.1.descendants, descendants, total, Store.keys, map_map]
  rfl

theorem rewrite_sameTree (other : hardfork ≠ 6) : Preserves SameTree (net.rewrite hardfork) := by
  unfold Network.rewrite
  split
  all_goals first | exact absurd rfl other | infer_instance

theorem rewrite_samePlaces (threaded : s.Threaded) : Ensures s (net.rewrite hardfork) fun _ t => SamePlaces s t ∧
      (hardfork = 6 → ∀ k n, t.childrenOf k = some n → n = t.descendants k) ∧ (hardfork ≠ 6 → SameTree s t) := by
  by_cases sixth : hardfork = 6
  · subst sixth
    rw [show net.rewrite 6 = (do retallyWitnessVoteCounts false; retallyCommentChildren) from rfl, ensures_bind]
    refine ensures_frame SameTree fun _ t same => ?_
    refine (retallyCommentChildren_exact (same.threaded threaded)).mono fun _ u counted => ?_
    exact ⟨trans_of SamePlaces same.toSamePlaces counted.1, fun _ => counted.2, fun other => absurd rfl other⟩
  · have frame : Preserves SameTree (net.rewrite hardfork) := rewrite_sameTree sixth
    exact (frame.related s).mono fun _ t same => ⟨same.toSamePlaces, fun isSixth => absurd isSixth sixth, fun _ => same⟩

/-- Hardforks come in order, so the sixth is the one that makes the numbers exact. -/
instance : Preserves Grows (net.applyHardfork hardfork) := by
  refine ⟨fun s => ensures_grows fun before => ?_⟩
  rw [Network.applyHardfork, ensures_bind]
  refine (rewrite_samePlaces before.threaded).mono fun _ t rewritten => ?_
  obtain ⟨same, sixth, others⟩ := rewritten
  simp only [modifyHardforks, ensures_steps]
  intro _ inOrder _
  have numbers (k : CommentKey) (n : Nat) (isNumber : t.childrenOf k = some n) : t.descendants k ≤ n ∧
      (6 < hardfork + 1 → n = t.descendants k) := by
    by_cases isSixth : hardfork = 6
    · have right := sixth isSixth k n isNumber
      exact ⟨right.ge, fun _ => right⟩
    · have after := (others isSixth).discussions before
      refine ⟨after.counted k n isNumber, fun later => after.exact ?_ k n isNumber⟩
      rw [hasHardfork, inOrder, decide_eq_true_eq]
      omega
  refine ⟨⟨before.threaded.congr same.placeOf, fun k n isNumber => (numbers k n isNumber).1, ?_⟩, fun k there => ?_⟩
  · intro later k n isNumber
    refine (numbers k n isNumber).2 ?_
    rw [hasHardfork, decide_eq_true_eq] at later
    simpa [inOrder] using later
  · have placeOf := same.placeOf
    rw [← placeOf] at there
    exact there

end Retally

/-! ## Runs -/

section Runs

variable {net : Network} {s t : Database}

theorem run_grows {step : BlockStep} (other : step.appliesOperations = false) : Preserves Grows (step.run net) := by
  cases step <;> simp only [BlockStep.run, updateWitnessSchedule, updateWitnessSchedule4]
  case applyTransaction | clearExpiredProposals => cases other
  all_goals infer_instance

theorem evaluate_prunes {producing nesting apply} {op : Operation} (other : op.isProposal = false) :
    Ensures s (evaluate producing nesting apply op) fun _ t => Prunes s t := by
  cases op <;> unfold evaluate
  case proposalCreate | proposalUpdate | proposalDelete => cases other
  case deleteComment => exact deleteComment_prunes
  all_goals exact ensures_frame Grows fun _ _ => Grows.prunes

theorem Does.prunes {deed : Deed} (done : Does net s deed t) : Prunes s t := by
  cases done using Does.byKind with
  | record _ frame =>
    have within : Within keepsTree s t := frame.widen
    exact within.sameTree.grows.prunes
  | evaluated other _ run => exact evaluate_prunes other _ _ run
  | stepped other run => exact ((run_grows other).after run).prunes

abbrev keepsPlaces : Footprint
  | .commentPlace => false
  | _ => true

theorem genesis_discussions (start : net.initGenesis {} = .ok ((), s)) : s.Discussions := by
  have within : Within keepsPlaces {} s := frame_of_run start
  have absent (key : CommentKey) : s.placeOf key = none :=
    find?_eq_of_view (within .commentPlace rfl) key
  have unnumbered (key : CommentKey) (n : Nat) (isNumber : s.childrenOf key = some n) : False := by
    have inside : (s.childrenOf key).isSome := by rw [isNumber]; rfl
    rw [childrenOf_isSome, absent] at inside
    cases inside
  refine ⟨fun key place found => ?_, fun key n isNumber => (unnumbered key n isNumber).elim,
    fun _ key n isNumber => (unnumbered key n isNumber).elim⟩
  rw [absent] at found
  cases found

/-- Whatever was answered was still there after the next deed. -/
def Moment.KeptAnswered (m : Moment) : Prop :=
  ∀ tr ∈ m.transitions, ∀ key, tr.before.state.Answered key → (tr.after.placeOf key).isSome

theorem discussions_of_chronicle {rest : List BlockStep} {m : Moment}
    (chronicle : net.Chronicle (fun _ _ => True) rest m) : m.state.Discussions ∧ m.KeptAnswered := by
  have rule := @Network.Chronicle.invariant net (fun _ _ => True) fun m => m.state.Discussions ∧ m.KeptAnswered
  refine rule (fun s start => ⟨genesis_discussions start, forall_mem_nil _⟩)
    (fun m deed t _ before done => ?_) chronicle
  obtain ⟨after, stay⟩ := done.prunes before.1
  exact ⟨after, forall_mem_cons.mpr ⟨stay, before.2⟩⟩

/-! ## What the numbers say -/

/-- The chain of parents from a comment up to a root: its length and its end. -/
inductive Database.Thread (s : Database) : CommentKey → Nat → CommentKey → Prop where
  | root {key : CommentKey} {c : Comment} : s.comments.find? key = some c → c.place.parentAuthor = .blank →
    Thread s key 0 key
  | reply {key root : CommentKey} {c : Comment} {depth : Nat} : s.comments.find? key = some c →
    c.place.parentAuthor ≠ .blank → Thread s c.place.parent depth root → Thread s key (depth + 1) root

/-- One comment is a reply to another. -/
def Database.RepliesTo (s : Database) (reply key : CommentKey) : Prop :=
  ∃ c, s.comments.find? reply = some c ∧ c.place.parentAuthor ≠ .blank ∧ c.place.parent = key

/-- One comment stands below another, at any depth. -/
def Database.Descends (s : Database) : CommentKey → CommentKey → Prop := Relation.TransGen s.RepliesTo

theorem repliesTo_iff {reply : CommentKey} : s.RepliesTo reply key ↔ s.parentOf reply = some key := by
  rw [RepliesTo, parentOf, placeOf]
  cases s.comments.find? reply with
  | none => simp
  | some c =>
    simp only [Option.map_some, Option.bind_some, CommentPlace.answered]
    split <;> simp [*]

theorem Database.Threaded.thread (threaded : s.Threaded) {c : Comment}
    (found : s.comments.find? key = some c) : s.Thread key c.place.depth c.place.rootComment := by
  have there (k : CommentKey) (c : Comment) (found : s.comments.find? k = some c) : s.placeOf k = some c.place := by
    rw [placeOf, found, Option.map_some]
  have member : (s.placeOf key).isSome := by rw [there key c found]; rfl
  induction key, member using threaded.heights.induction generalizing c with
  | root k member isRoot =>
    rw [parentOf_of_placeOf (there k c found)] at isRoot
    cases threaded k c.place (there k c found) with
    | root _ depth root =>
      rw [depth, root]
      refine .root found ?_
      by_contra named
      cases isRoot.symm.trans (if_neg named)
    | reply answers => cases isRoot.symm.trans answers
  | step k p member memberP isParent _ ih =>
    rw [parentOf_of_placeOf (there k c found)] at isParent
    obtain ⟨above, foundAbove, depth, root⟩ := threaded.answered (there k c found) isParent
    obtain ⟨c', found', rfl⟩ := Option.map_eq_some_iff.mp foundAbove
    rw [depth, root]
    have named : c.place.parentAuthor ≠ .blank := fun blank => by cases isParent.symm.trans (if_pos blank)
    obtain rfl : c.place.parent = p := Option.some.inj ((if_neg named).symm.trans isParent)
    exact .reply found named (ih found')

theorem Database.Threaded.descendants_eq (threaded : s.Threaded) :
    s.descendants key = {k | s.Descends k key}.ncard := by
  have step : s.RepliesTo = fun reply p => s.parentOf reply = some p := by
    funext reply p
    exact propext repliesTo_iff
  have below : {k | s.Descends k key} = ((s.comments.keys.filter fun k =>
    key ∈ s.above k).toFinset : Set CommentKey) := by
    ext k
    rw [Set.mem_ofPred_eq, Descends, step, coe_toFinset, Set.mem_ofPred_eq, mem_filter,
      decide_eq_true_eq, ← Store.find?_isSome]
    have inside : (s.comments.find? k).isSome = (s.placeOf k).isSome := by rw [placeOf, Option.isSome_map]
    rw [inside]
    refine ⟨fun descends => ?_, fun isAbove => (threaded.heights.mem_above_iff isAbove.1).mp isAbove.2⟩
    obtain ⟨p, isParent, _⟩ := Relation.TransGen.head'_iff.mp descends
    have member := inside_of_parentOf isParent
    exact ⟨member, (threaded.heights.mem_above_iff member).mpr descends⟩
  have nodup : s.comments.keys.Nodup := s.comments.nodup
  rw [below, Set.ncard_coe_finset, toFinset_card_of_nodup (nodup.filter _)]
  exact total_indicator

theorem comment_tree_agrees (reachable : net.Reachable s) : (∀ key c, s.comments.find? key = some c →
      s.Thread key c.place.depth c.place.rootComment ∧
      (c.place.parentAuthor ≠ .blank → (s.comments.find? c.place.parent).isSome) ∧
      (s.hasHardfork 6 → c.children = {k | s.Descends k key}.ncard)) ∧
    (∃ past rest, net.Chronicle (fun _ _ => True) rest ⟨past, s⟩) ∧
    ∀ past rest, net.Chronicle (fun _ _ => True) rest ⟨past, s⟩ →
      ∀ tr ∈ (⟨past, s⟩ : Moment).transitions, ∀ key reply, tr.before.state.RepliesTo reply key →
        (tr.after.comments.find? key).isSome := by
  obtain ⟨past, rest, chronicle⟩ := reachable.chronicled
  obtain ⟨discussions, _⟩ := discussions_of_chronicle chronicle
  refine ⟨fun key c found => ?_, ⟨past, rest, chronicle⟩, fun past rest chronicle tr member key reply answers => ?_⟩
  · have thread := discussions.threaded.thread found
    refine ⟨thread, fun named => ?_, fun later => ?_⟩
    · have place : s.placeOf key = some c.place := by rw [placeOf, found, Option.map_some]
      have isParent : s.parentOf key = some c.place.parent := (parentOf_of_placeOf place).trans (if_neg named)
      have inside := (discussions.threaded.heights.step key _ (by rw [place]; rfl) isParent).1
      rwa [placeOf, Option.isSome_map] at inside
    · have number : s.childrenOf key = some c.children := by rw [childrenOf, found, Option.map_some]
      rw [discussions.exact later key c.children number, discussions.threaded.descendants_eq]
  · have stays := (discussions_of_chronicle chronicle).2 tr member key ⟨reply, repliesTo_iff.mp answers⟩
    rwa [placeOf, Option.isSome_map] at stays

/-- A post of Alice, a reply of Bob and her answer. -/
theorem comment_tree_agrees_inUse : (usedFor 48).state.Thread (.alice, "answer") 2 (.alice, "post") ∧
    {k | (usedFor 48).state.Descends k (.alice, "post")}.ncard = 2 ∧
    ∀ tr ∈ (usedFor 48).transitions, ∀ key reply, tr.before.state.RepliesTo reply key →
      (tr.after.comments.find? key).isSome := by
  obtain ⟨agrees, -, stays⟩ := comment_tree_agrees (usedFor_reachable 48)
  obtain ⟨answer, found, isPlace⟩ := Option.map_eq_some_iff.mp usedFor_busy.state.thread
  obtain ⟨post, found', replies⟩ := Option.map_eq_some_iff.mp usedFor_busy.state.replies
  obtain ⟨depth, root⟩ := Prod.mk.inj isPlace
  refine ⟨?_, ?_, stays _ _ (usedFor_chronicle 48)⟩
  · have thread := (agrees _ answer found).1
    rwa [depth, root] at thread
  · rw [← (agrees _ post found').2.2 (hasHardfork_mono (by decide) usedFor_busy.state.hardfork), replies]

end Runs

end Golos
