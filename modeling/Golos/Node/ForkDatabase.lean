import Golos.Chain.Block
import Mathlib.Data.List.Chain

/-! # The fork database

The blocks that may still be undone, on every branch the node has heard of.  An item points to the
item of its parent; `fetch_branch_from` follows these pointers from two blocks down to where their
branches meet, which is what a switch from one branch to the other undoes and applies.

* `fetchBranchFrom_meets` — the two branches, for any two blocks with a common ancestor;
* `ForkDatabase.Tree.linked` — pushing blocks one after another links each to its parent.
-/

namespace Golos

open Store List

/-- `fork_item`.  `serial` tells one object from another; `prev` is a weak pointer, so the object it
names may be gone. -/
structure ForkItem where
  serial : Nat
  data : Block
  prev : Option Nat := none

namespace ForkItem

def num (item : ForkItem) : Nat := item.data.num

def id (item : ForkItem) : BlockId := item.data.id

def previousId (item : ForkItem) : BlockId := item.data.previous

end ForkItem

/-- `fork_database`.  `held` are the items to which a caller keeps a pointer. -/
structure ForkDatabase where
  index : Store BlockId ForkItem := .empty
  head : Option ForkItem := none
  held : List ForkItem := []
  maxSize : Nat := 1024
  next : Nat := 0

namespace ForkDatabase

/-- `weak_ptr::lock`: an object lives as long as the index, the head or a caller points to it. -/
def lock (db : ForkDatabase) (pointer : Option Nat) : Option ForkItem :=
  pointer.bind fun serial => (db.index.values ++ db.head.toList ++ db.held).find? (·.serial = serial)

/-- The pointer that `_push_block` gives a new item. -/
def linkTo (db : ForkDatabase) (b : Block) : Except Error (Option Nat) :=
  match db.head with
  | none => pure none
  | some head => do
    validThat (head.num - db.maxSize < b.num) (.assertion "attempting to push a block that is too old")
    if b.previous = .zero then pure none
    else match db.index.find? b.previous with
      | none => throw (.assertion "block does not link to known chain")
      | some parent => pure (some parent.serial)

/-- `push_block` -/
def pushBlock (db : ForkDatabase) (b : Block) : Except Error ForkDatabase := do
  let prev ← db.linkTo b
  let item : ForkItem := { serial := db.next, data := b, prev }
  pure { db with
    index := db.index.insert b.id item
    head := if db.head.all (·.num < b.num) then some item else db.head
    next := db.next + 1 }

/-- `branch = branch->prev.lock(); FC_ASSERT(branch)` -/
def parentOf (db : ForkDatabase) (name : String) (branch : ForkItem) : Except Error ForkItem :=
  (db.lock branch.prev).elim (.error (.assertion name)) .ok

/-- The loops of `fetch_branch_from` that bring the higher branch down to `height`: the items passed,
and the one reached. -/
def level (db : ForkDatabase) (name : String) (height : Nat) :
    Nat → ForkItem → Except Error (List ForkItem × ForkItem)
  | 0, _ => .error (.crash "the loop does not end")
  | fuel + 1, branch =>
    if height < branch.num then do
      let parent ← db.parentOf name branch
      let (passed, reached) ← db.level name height fuel parent
      pure (branch :: passed, reached)
    else pure ([], branch)

/-- The last loop of `fetch_branch_from`, which goes down both branches at once. -/
def join (db : ForkDatabase) : Nat → ForkItem → ForkItem → Except Error (List ForkItem × List ForkItem)
  | 0, _, _ => .error (.crash "the loop does not end")
  | fuel + 1, first, second =>
    if first.previousId ≠ second.previousId then do
      let firstParent ← db.parentOf "first_branch" first
      let secondParent ← db.parentOf "second_branch" second
      let (firstRest, secondRest) ← db.join fuel firstParent secondParent
      pure (first :: firstRest, second :: secondRest)
    else pure ([first], [second])

/-- `fetch_branch_from` -/
def fetchBranchFrom (db : ForkDatabase) (fuel : Nat) (first second : BlockId) :
    Except Error (List ForkItem × List ForkItem) := do
  let first ← (db.index.find? first).elim (.error (.assertion "first_branch_itr")) .ok
  let second ← (db.index.find? second).elim (.error (.assertion "second_branch_itr")) .ok
  let (firstPassed, first) ← db.level "first_branch" second.num fuel first
  let (secondPassed, second) ← db.level "second_branch" first.num fuel second
  let (firstRest, secondRest) ← db.join fuel first second
  pure (firstPassed ++ firstRest, secondPassed ++ secondRest)

/-! ## Ancestors -/

/-- An item whose parent is known points to it. -/
structure Linked (db : ForkDatabase) : Prop where
  keyed : ∀ id item, db.index.find? id = some item → item.id = id
  points : ∀ id item parent, db.index.find? id = some item → db.index.find? item.previousId = some parent →
    db.lock item.prev = some parent

/-- `passed` are the items on the way from one item down to, but without, another. -/
inductive Path (db : ForkDatabase) : ForkItem → List ForkItem → ForkItem → Prop
  | here {item : ForkItem} (known : db.index.find? item.id = some item) : Path db item [] item
  | down {item parent ancestor : ForkItem} {passed : List ForkItem} (known : db.index.find? item.id = some item)
      (isParent : db.index.find? item.previousId = some parent) (rest : Path db parent passed ancestor) :
      Path db item (item :: passed) ancestor

/-- One block is an ancestor of another, or it is the same block. -/
def Ancestor (db : ForkDatabase) (ancestor item : ForkItem) : Prop := ∃ passed, db.Path item passed ancestor

/-- Two branches from `first` and `second` down to where they meet. -/
structure Meets (db : ForkDatabase) (first second : ForkItem) (firstBranch secondBranch : List ForkItem) : Prop where
  firstStarts : firstBranch.head? = some first
  secondStarts : secondBranch.head? = some second
  firstParents : firstBranch.IsChain fun item parent => db.index.find? item.previousId = some parent
  secondParents : secondBranch.IsChain fun item parent => db.index.find? item.previousId = some parent
  meet : ∃ x ∈ firstBranch.getLast?, ∃ y ∈ secondBranch.getLast?, x.previousId = y.previousId
  apart : ∀ x ∈ firstBranch, ∀ y ∈ secondBranch, x.id = y.id → db.Ancestor first second ∨ db.Ancestor second first

variable {db : ForkDatabase} {a b c x y : ForkItem} {l m : List ForkItem}

theorem Linked.num_eq (linked : db.Linked) (isParent : db.index.find? a.previousId = some b) : a.num = b.num + 1 := by
  have same : b.id = a.previousId := linked.keyed _ _ isParent
  show a.previousId.num + 1 = b.num + 1
  rw [← same]
  rfl

namespace Path

theorem known (path : db.Path a l c) : db.index.find? a.id = some a := by
  cases path with
  | here known => exact known
  | down known => exact known

theorem num_eq (linked : db.Linked) (path : db.Path a l c) : a.num = l.length + c.num := by
  induction path with
  | here => simp
  | down _ isParent _ ih =>
    rw [linked.num_eq isParent, ih, length_cons]
    omega

theorem starts (path : db.Path a l c) : (l ++ [c]).head? = some a := by
  cases path with
  | here => rfl
  | down => rfl

theorem parents (path : db.Path a l c) :
    (l ++ [c]).IsChain fun item parent => db.index.find? item.previousId = some parent := by
  induction path with
  | here => exact .singleton _
  | down _ isParent rest ih =>
    refine IsChain.cons ih fun parent isNext => ?_
    cases rest.starts.symm.trans isNext
    exact isParent

theorem trans (path : db.Path a l b) (further : db.Path b m c) : db.Path a (l ++ m) c := by
  induction path with
  | here => exact further
  | down known isParent _ ih => exact .down known isParent (ih further)

theorem num_le (linked : db.Linked) (path : db.Path a l c) : ∀ x ∈ l ++ [c], x.num ≤ a.num := by
  induction path with
  | here => simp
  | down _ isParent _ ih =>
    intro x member
    have step := linked.num_eq isParent
    obtain rfl | member := mem_cons.mp member
    · exact le_rfl
    · exact (ih x member).trans (by omega)

end Path

/-! ## The loops -/

theorem parentOf_eq (linked : db.Linked) {name : String} (known : db.index.find? a.id = some a)
    (isParent : db.index.find? a.previousId = some b) : db.parentOf name a = .ok b := by
  rw [parentOf, linked.points _ _ _ known isParent]
  rfl

/-- A branch with an ancestor at or below `height` comes down to `height`. -/
theorem level_of_path (linked : db.Linked) (name : String) {height : Nat} (path : db.Path a l c)
    (low : c.num ≤ height) :
    ∃ passed reached rest, (∀ fuel, a.num < fuel → db.level name height fuel a = .ok (passed, reached)) ∧
      db.Path a passed reached ∧ db.Path reached rest c ∧ reached.num = min a.num height ∧
      ∀ x ∈ passed, height < x.num := by
  induction path with
  | @here item known =>
    refine ⟨[], item, [], fun fuel enough => ?_, .here known, .here known, (min_eq_left low).symm, by simp⟩
    obtain _ | fuel := fuel
    · cases enough
    · rw [level, if_neg (not_lt.mpr low)]
      rfl
  | @down item parent ancestor passed known isParent rest ih =>
    by_cases higher : height < item.num
    · obtain ⟨passed, reached, below, runs, before, after, isHeight, above⟩ := ih low
      have step := linked.num_eq isParent
      refine ⟨item :: passed, reached, below, fun fuel enough => ?_, .down known isParent before, after, by omega, ?_⟩
      · obtain _ | fuel := fuel
        · cases enough
        · rw [level, if_pos higher, parentOf_eq linked known isParent]
          show (do let (passed, reached) ← db.level name height fuel parent; pure (item :: passed, reached)) = _
          rw [runs fuel (by omega)]
          rfl
      · exact forall_mem_cons.mpr ⟨higher, above⟩
    · refine ⟨[], item, item :: passed, fun fuel enough => ?_, .here known, .down known isParent rest, by omega,
        by simp⟩
      obtain _ | fuel := fuel
      · cases enough
      · rw [level, if_neg higher]
        rfl

/-- Two branches at one height come down together to blocks that have one parent. -/
def Joins (db : ForkDatabase) (a b : ForkItem) : Prop := ∃ firstPassed first secondPassed second,
  (∀ fuel, a.num < fuel → db.join fuel a b = .ok (firstPassed ++ [first], secondPassed ++ [second])) ∧
  db.Path a firstPassed first ∧ db.Path b secondPassed second ∧ first.previousId = second.previousId ∧
  ∀ x ∈ firstPassed ++ [first], ∀ y ∈ secondPassed ++ [second], x.id = y.id → a = b

theorem joins_of_siblings (known : db.index.find? a.id = some a) (knownB : db.index.find? b.id = some b)
    (same : a.previousId = b.previousId) : db.Joins a b := by
  refine ⟨[], a, [], b, fun fuel enough => ?_, .here known, .here knownB, same, fun x isA y isB ids => ?_⟩
  · obtain _ | fuel := fuel
    · cases enough
    · rw [join, if_neg (not_not.mpr same)]
      rfl
  · obtain rfl := mem_singleton.mp isA
    obtain rfl := mem_singleton.mp isB
    exact Option.some.inj (known.symm.trans (ids ▸ knownB))

theorem joins_of_paths (linked : db.Linked) (path : db.Path a l c) :
    ∀ {b : ForkItem} {m : List ForkItem}, db.Path b m c → a.num = b.num → db.Joins a b := by
  induction path with
  | here known =>
    intro b m pathB heights
    have length := pathB.num_eq linked
    obtain rfl : m = [] := length_eq_zero_iff.mp (by omega)
    cases pathB with
    | here => exact joins_of_siblings known known rfl
  | @down a parent c passed known isParent rest ih =>
    intro b m pathB heights
    by_cases same : a.previousId = b.previousId
    · exact joins_of_siblings known pathB.known same
    have step := linked.num_eq isParent
    cases pathB with
    | here =>
      have length := rest.num_eq linked
      omega
    | @down _ parentB _ _ knownB isParentB restB =>
      have stepB := linked.num_eq isParentB
      obtain ⟨firstPassed, first, secondPassed, second, runs, toFirst, toSecond, meet, apart⟩ := ih restB (by omega)
      refine ⟨a :: firstPassed, first, b :: secondPassed, second, fun fuel enough => ?_, .down known isParent toFirst,
        .down knownB isParentB toSecond, meet, fun x onFirst y onSecond ids => ?_⟩
      · obtain _ | fuel := fuel
        · cases enough
        · rw [join, if_pos same, parentOf_eq linked known isParent]
          rw [parentOf_eq linked knownB isParentB]
          show (do
            let (firstRest, secondRest) ← db.join fuel parent parentB
            pure (a :: firstRest, b :: secondRest)) = _
          rw [runs fuel (by omega)]
          rfl
      · -- one block cannot be at two heights, and the parents differ
        have sameHeight : x.num = y.num := congrArg BlockId.num ids
        obtain rfl | onFirst := mem_cons.mp onFirst
        · obtain rfl | onSecond := mem_cons.mp onSecond
          · exact Option.some.inj (known.symm.trans (ids ▸ knownB))
          · have := toSecond.num_le linked y onSecond
            omega
        · obtain rfl | onSecond := mem_cons.mp onSecond
          · have := toFirst.num_le linked x onFirst
            omega
          · have parents := apart x onFirst y onSecond ids
            subst parents
            exact absurd ((linked.keyed _ _ isParent).symm.trans (linked.keyed _ _ isParentB)) same

/-! ## Branches -/

theorem Path.meets (path : db.Path a l x) (pathB : db.Path b m y) (same : x.previousId = y.previousId)
    (apart : ∀ x' ∈ l ++ [x], ∀ y' ∈ m ++ [y], x'.id = y'.id → db.Ancestor a b ∨ db.Ancestor b a) :
    db.Meets a b (l ++ [x]) (m ++ [y]) :=
  ⟨path.starts, pathB.starts, path.parents, pathB.parents, ⟨x, by simp, y, by simp, same⟩, apart⟩

end ForkDatabase

/-! ## Pushing blocks -/

namespace ForkDatabase

/-- Every item but a first block of a chain has its parent in the index and points to it. -/
structure Tree (db : ForkDatabase) : Prop where
  keyed : ∀ id item, db.index.find? id = some item → item.id = id
  numbered : ∀ id item, db.index.find? id = some item → item.serial < db.next
  distinct : ∀ id id' item item', db.index.find? id = some item → db.index.find? id' = some item' →
    item.serial = item'.serial → item = item'
  parents : ∀ id item, db.index.find? id = some item → item.previousId ≠ .zero →
    ∃ parent, db.index.find? item.previousId = some parent ∧ item.prev = some parent.serial

variable {db db' : ForkDatabase} {b : Block}

theorem Tree.lock_eq (tree : db.Tree) {id : BlockId} {item : ForkItem} (known : db.index.find? id = some item) :
    db.lock (some item.serial) = some item := by
  have member : item ∈ db.index.values := mem_map.mpr ⟨_, find?_eq_some.mp known, rfl⟩
  rw [lock, Option.bind_some, append_assoc, find?_append]
  obtain ⟨found, isFound⟩ : ∃ found, db.index.values.find? (·.serial = item.serial) = some found :=
    Option.isSome_iff_exists.mp (find?_isSome.mpr ⟨item, member, by simp⟩)
  obtain ⟨e, member', rfl⟩ := mem_map.mp (mem_of_find?_eq_some isFound)
  have same : e.2.serial = item.serial := by simpa using find?_some isFound
  rw [isFound, tree.distinct _ _ _ _ (find?_eq_some.mpr member') known same]
  rfl

theorem Tree.linked (tree : db.Tree) : db.Linked where
  keyed := tree.keyed
  points id item parent known isParent := by
    have notFirst : item.previousId ≠ .zero := by
      intro isZero
      have same := (tree.keyed _ _ isParent).trans isZero
      exact absurd (congrArg BlockId.num same) (Nat.succ_ne_zero _)
    obtain ⟨parent', isParent', points⟩ := tree.parents id item known notFirst
    cases isParent.symm.trans isParent'
    rw [points]
    exact tree.lock_eq isParent

theorem tree_empty : ({} : ForkDatabase).Tree :=
  ⟨by rintro _ _ ⟨⟩, by rintro _ _ ⟨⟩, by rintro _ _ _ _ ⟨⟩, by rintro _ _ ⟨⟩⟩

theorem linkTo_eq_ok {prev : Option Nat} (first : db.head = none → b.previous = .zero) (links : db.linkTo b = .ok prev)
    (notFirst : b.previous ≠ .zero) : ∃ parent, db.index.find? b.previous = some parent ∧
      prev = some parent.serial := by
  unfold linkTo at links
  split at links
  · exact absurd (first ‹_›) notFirst
  · obtain ⟨_, _, links⟩ := except_bind_eq_ok.mp links
    rw [if_neg notFirst] at links
    split at links
    · cases links
    · cases links
      exact ⟨_, ‹_›, rfl⟩

theorem head_pushBlock (pushed : db.pushBlock b = .ok db') : db'.head ≠ none := by
  obtain ⟨prev, _, made⟩ := except_bind_eq_ok.mp pushed
  cases made
  cases db.head with
  | none => simp
  | some =>
    split <;> simp

/-- A block that is pushed on a tree gives a tree, if the tree does not begin in the middle of a chain. -/
theorem tree_pushBlock (tree : db.Tree) (first : db.head = none → b.previous = .zero)
    (pushed : db.pushBlock b = .ok db') :
    db'.Tree := by
  obtain ⟨prev, links, made⟩ := except_bind_eq_ok.mp pushed
  cases made
  cases known : db.index.find? b.id with
  | some _ =>
    have same (item : ForkItem) : db.index.insert b.id item = db.index :=
      dif_pos (find?_isSome.mp (Option.isSome_of_eq_some known))
    refine ⟨?_, ?_, ?_, ?_⟩ <;> simp only [same]
    · exact tree.keyed
    · exact fun id item found => Nat.lt_succ_of_lt (tree.numbered id item found)
    · exact tree.distinct
    · exact tree.parents
  | none =>
    have kept {id : BlockId} {new parent : ForkItem} (found : db.index.find? id = some parent) :
        (db.index.insert b.id new).find? id = some parent := by
      rw [find?_insert known, if_neg (fun same => by simp [same, known] at found), found]
    refine ⟨fun id item found => ?_, fun id item found => ?_, fun id id' item item' found found' same => ?_,
      fun id item found notFirst => ?_⟩
    · rw [find?_insert known] at found
      split at found
      · cases found
        exact ‹id = b.id›.symm
      · exact tree.keyed id item found
    · rw [find?_insert known] at found
      split at found
      · cases found
        exact Nat.lt_succ_self _
      · exact Nat.lt_succ_of_lt (tree.numbered id item found)
    · rw [find?_insert known] at found found'
      split at found <;> split at found'
      · exact Option.some.inj (found.symm.trans found')
      · cases found
        exact absurd same (tree.numbered _ _ found').ne'
      · cases found'
        exact absurd same (tree.numbered _ _ found).ne
      · exact tree.distinct _ _ _ _ found found' same
    · rw [find?_insert known] at found
      split at found
      · cases found
        obtain ⟨parent, isParent, points⟩ := linkTo_eq_ok first links notFirst
        exact ⟨parent, kept isParent, points⟩
      · obtain ⟨parent, isParent, points⟩ := tree.parents id item found notFirst
        exact ⟨parent, kept isParent, points⟩

theorem tree_pushes {blocks : List Block} (tree : db.Tree) (begun : db.head ≠ none)
    (pushed : blocks.foldlM pushBlock db = .ok db') : db'.Tree := by
  induction blocks generalizing db with
  | nil =>
    cases pushed
    exact tree
  | cons b rest ih =>
    obtain ⟨middle, first, others⟩ := except_bind_eq_ok.mp pushed
    exact ih (tree_pushBlock tree (fun none => absurd none begun) first) (head_pushBlock first) others

/-- A node that hears of a chain from its first block on keeps a tree. -/
theorem tree_of_pushes {rest : List Block} (first : b.previous = .zero)
    (pushed : (b :: rest).foldlM pushBlock {} = .ok db) : db.Tree := by
  obtain ⟨middle, isFirst, others⟩ := except_bind_eq_ok.mp pushed
  exact tree_pushes (tree_pushBlock tree_empty (fun _ => first) isFirst) (head_pushBlock isFirst) others

end ForkDatabase

open ForkDatabase

/-- The branches of any two blocks with a common ancestor are found, in at most as many rounds as the
blocks are high. -/
theorem fetchBranchFrom_meets {db : ForkDatabase} (linked : db.Linked) {first second : BlockId} {a b c : ForkItem}
    (isFirst : db.index.find? first = some a) (isSecond : db.index.find? second = some b)
    (ofFirst : db.Ancestor c a) (ofSecond : db.Ancestor c b) : ∃ firstBranch secondBranch,
      (∀ fuel, first.num + second.num < fuel → db.fetchBranchFrom fuel first second = .ok (firstBranch, secondBranch)) ∧
      db.Meets a b firstBranch secondBranch := by
  obtain ⟨_, path⟩ := ofFirst
  obtain ⟨_, pathB⟩ := ofSecond
  have lowB := pathB.num_eq linked
  obtain ⟨passed, reached, rest, runs, before, after, height, above⟩ :=
    level_of_path linked "first_branch" path (by omega : c.num ≤ b.num)
  have low := after.num_eq linked
  obtain ⟨passedB, reachedB, restB, runsB, beforeB, afterB, heightB, aboveB⟩ :=
    level_of_path linked "second_branch" pathB (by omega : c.num ≤ reached.num)
  obtain ⟨us, u, vs, v, joins, toU, toV, same, together⟩ := joins_of_paths linked after afterB (by omega)
  refine ⟨passed ++ (us ++ [u]), passedB ++ (vs ++ [v]), fun fuel enough => ?_, ?_⟩
  · have highFirst : a.num = first.num := congrArg BlockId.num (linked.keyed _ _ isFirst)
    have highSecond : b.num = second.num := congrArg BlockId.num (linked.keyed _ _ isSecond)
    simp only [fetchBranchFrom, isFirst, isSecond, Option.elim, Except.bind, bind, runs fuel (by omega),
      runsB fuel (by omega), joins fuel (by omega)]
    rfl
  · rw [← append_assoc, ← append_assoc]
    refine (before.trans toU).meets (beforeB.trans toV) same fun x onFirst y onSecond ids => ?_
    rw [append_assoc, mem_append] at onFirst onSecond
    have heights : x.num = y.num := congrArg BlockId.num ids
    -- what was passed on the way down to the other block is higher than all of the other branch
    obtain onFirst | onFirst := onFirst
    · have high := above x onFirst
      have low : y.num ≤ b.num := (beforeB.trans toV).num_le linked y (by simpa using onSecond)
      omega
    · obtain onSecond | onSecond := onSecond
      · have high := aboveB y onSecond
        have low := toU.num_le linked x onFirst
        omega
      · have met := together x onFirst y onSecond ids
        subst met
        by_cases higher : b.num ≤ a.num
        · have none : passedB = [] := length_eq_zero_iff.mp (by have := beforeB.num_eq linked; omega)
          subst none
          cases beforeB
          exact .inr ⟨_, before⟩
        · have none : passed = [] := length_eq_zero_iff.mp (by have := before.num_eq linked; omega)
          subst none
          cases before
          exact .inl ⟨_, beforeB⟩

/-- A block that holds nothing but its number and its hash. -/
def Block.blank (previous : BlockId) (digest : Nat) : Block where
  previous
  digest
  timestamp := 0
  witness := .initMiner
  transactionMerkleRoot := 0
  extensions := []
  transactions := []
  merkleRoot := 0
  signee := 0
  size := 0

/-- A chain of three blocks, and another second block. -/
def forkedBlocks : List Block := [.blank .zero 1, .blank ⟨1, 1⟩ 2, .blank ⟨2, 2⟩ 3, .blank ⟨1, 1⟩ 4]

def forked : ForkDatabase := (forkedBlocks.foldlM pushBlock {}).toOption.getD {}

theorem fetchBranchFrom_meets_forked : forkedBlocks.foldlM pushBlock {} = .ok forked ∧ ∃ a b firstBranch secondBranch,
    (∀ fuel, 3 + 2 < fuel → forked.fetchBranchFrom fuel ⟨3, 3⟩ ⟨2, 4⟩ = .ok (firstBranch, secondBranch)) ∧
    forked.Meets a b firstBranch secondBranch := by
  have pushed : forkedBlocks.foldlM pushBlock {} = .ok forked := by
    have isOk : (forkedBlocks.foldlM pushBlock {}).isOk = true := by decide +kernel
    rw [forked]
    cases result : forkedBlocks.foldlM pushBlock {} with
    | error e =>
      rw [result] at isOk
      cases isOk
    | ok db => rfl
  have facts : (forked.index.find? ⟨3, 3⟩).map (·.previousId) = some ⟨2, 2⟩ ∧
      (forked.index.find? ⟨2, 2⟩).map (·.previousId) = some ⟨1, 1⟩ ∧
      (forked.index.find? ⟨2, 4⟩).map (·.previousId) = some ⟨1, 1⟩ ∧
      (forked.index.find? ⟨1, 1⟩).map (·.previousId) = some .zero := by decide +kernel
  simp only [Option.map_eq_some_iff] at facts
  obtain ⟨⟨a, isA, fromA⟩, ⟨parent, isParent, fromParent⟩, ⟨b, isB, fromB⟩, ⟨root, isRoot, -⟩⟩ := facts
  have linked := (tree_of_pushes rfl pushed).linked
  have known {id : BlockId} {item : ForkItem} (found : forked.index.find? id = some item) :
      forked.index.find? item.id = some item := by rw [linked.keyed _ _ found, found]
  have ofB : forked.Ancestor root b := ⟨_, .down (known isB) (fromB ▸ isRoot) (.here (known isRoot))⟩
  have ofA : forked.Ancestor root a :=
    ⟨_, .down (known isA) (fromA ▸ isParent) (.down (known isParent) (fromParent ▸ isRoot) (.here (known isRoot)))⟩
  exact ⟨pushed, a, b, fetchBranchFrom_meets linked isA isB ofA ofB⟩

end Golos
