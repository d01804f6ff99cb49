import Mathlib.Data.List.Find
import Mathlib.Data.List.MinMax
import Mathlib.Algebra.Order.Ring.Nat

/-! # The account history plugin

The plugin keeps an entry for every operation and every tracked account the operation concerns, numbers the
entries of an account, and removes those of old blocks.  The accounts are configured as ranges and single names;
the private message plugin has options of the same kind.

* `Options.tracked_iff` — for which names the search in the ranges gives what the options say;
* `numbering_exact` — the numbers of an account's entries, in every run.
-/

namespace Golos.AccountHistory

open List

/-! ## Tracked accounts -/

section Tracking

variable {Name : Type} [LinearOrder Name]

/-- A `flat_map` of the starts of ranges to their ends.  Its order is that of the starts. -/
abbrev Ranges (Name : Type) := List (Name × Name)

namespace Ranges

/-- `insert` leaves an entry with the same key alone. -/
def insert (m : Ranges Name) (r : Name × Name) : Ranges Name := if r.1 ∈ m.map Prod.fst then m else m ++ [r]

/-- `ranges[n] = n` -/
def assign (m : Ranges Name) (n : Name) : Ranges Name := (m.filter fun r => r.1 ≠ n) ++ [(n, n)]

/-- The test on `lower_bound(name)`: the first range that does not start before the name. -/
def finds (m : Ranges Name) (name : Name) : Bool :=
  (m.find? fun r => name ≤ r.1 && m.all fun e => e.1 < name || r.1 ≤ e.1).any fun r => r.1 ≤ name && name ≤ r.2

/-- The name is the start of a range and not after its end. -/
def StartsAt (m : Ranges Name) (name : Name) : Prop := ∃ r, m.find? (·.1 = name) = some r ∧ name ≤ r.2

/-- The inner loop of the clean-up: whether a range lies in another one that starts before it ends. -/
def embedded (m : Ranges Name) (i : Name × Name) : Bool :=
  m.any fun j => j.1 ≤ i.2 && j.1 ≠ i.1 && (j.1 ≤ i.1 && i.2 ≤ j.2)

end Ranges

/-- The options of a plugin: `track-account-range` and `track-account`, or `pm-account-range` and `pm-account-list`. -/
structure Options (Name : Type) where
  ranges : List (Name × Name)
  accounts : List Name

namespace Options

/-- `LOAD_VALUE_SET` -/
def loadRanges (o : Options Name) : Ranges Name := o.ranges.foldl Ranges.insert []

/-- The ranges of the history plugin before its clean-up: an account is a range of one name. -/
def allRanges (o : Options Name) : Ranges Name := o.accounts.foldl Ranges.assign o.loadRanges

def trackedAccounts (o : Options Name) : Ranges Name :=
  o.allRanges.filter fun i => !o.allRanges.embedded i

/-- The test of `plugin_impl::on_operation`. -/
def records (o : Options Name) (name : Name) : Bool := o.trackedAccounts.isEmpty || o.trackedAccounts.finds name

/-- `private_message_plugin_impl::is_tracked_account` -/
def isTrackedAccount (o : Options Name) (name : Name) : Bool :=
  (o.loadRanges.isEmpty && o.accounts.isEmpty) || o.accounts.contains name || o.loadRanges.finds name

/-- Nothing is configured. -/
def Nothing (o : Options Name) : Prop := o.ranges = [] ∧ o.accounts = []

/-- What is configured: the name is in a range or listed, or nothing is. -/
def Covers (o : Options Name) (name : Name) : Prop :=
  o.Nothing ∨ (∃ r ∈ o.ranges, r.1 ≤ name ∧ name ≤ r.2) ∨ name ∈ o.accounts

end Options

namespace Ranges

variable {m : Ranges Name} {name : Name} {r x : Name × Name}

theorem mem_insert (member : x ∈ m.insert r) : x ∈ m ∨ x = r := by
  unfold insert at member
  split at member
  · exact .inl member
  · simpa using member

theorem insert_ne_nil : m.insert r ≠ [] := by
  unfold insert
  split
  next there =>
    rintro rfl
    cases there
  · simp

/-- The search finds a range only at its start. -/
theorem finds_iff : m.finds name = true ↔ m.StartsAt name := by
  unfold finds StartsAt
  by_cases there : ∃ e ∈ m, e.1 = name
  · obtain ⟨e, member, rfl⟩ := there
    have first : ∀ r ∈ m, (decide (e.1 ≤ r.1) && m.all fun x => x.1 < e.1 || r.1 ≤ x.1) = decide (r.1 = e.1) := by
      intro r _
      rw [Bool.eq_iff_iff]
      simp only [Bool.and_eq_true, decide_eq_true_eq, all_eq_true, Bool.or_eq_true]
      constructor
      · rintro ⟨after, least⟩
        exact ((least e member).resolve_left (lt_irrefl _)).antisymm after
      · intro same
        exact ⟨same.ge, fun x _ => same ▸ lt_or_ge x.1 e.1⟩
    rw [find?_congr first]
    cases found : m.find? (·.1 = e.1) with
    | none => simp
    | some r =>
      have key := find?_some found
      simp [of_decide_eq_true key]
  · rw [find?_eq_none.mpr fun e member same => there ⟨e, member, of_decide_eq_true same⟩]
    cases found : m.find? fun r => name ≤ r.1 && m.all fun e => e.1 < name || r.1 ≤ e.1 with
    | none => simp
    | some r =>
      have first := find?_some found
      have after : name ≤ r.1 := of_decide_eq_true (Bool.and_eq_true_iff.mp first).1
      have before : ¬r.1 ≤ name := fun le => there ⟨r, mem_of_find?_eq_some found, le.antisymm after⟩
      simp [before]

theorem StartsAt.mem (starts : m.StartsAt name) : ∃ r ∈ m, r.1 = name ∧ name ≤ r.2 := by
  obtain ⟨r, found, ends⟩ := starts
  have key := find?_some found
  exact ⟨r, mem_of_find?_eq_some found, of_decide_eq_true key, ends⟩

/-- The range that starts first lies in no other. -/
theorem filter_eq_nil (none : (m.filter fun i => !m.embedded i) = []) : m = [] := by
  by_contra some
  obtain ⟨i, least⟩ := Option.ne_none_iff_exists'.mp (mt (argmin_eq_none (f := Prod.fst)).mp some)
  have embedded := filter_eq_nil_iff.mp none i (argmin_mem least)
  rw [Bool.not_eq_true, Bool.not_eq_false', Ranges.embedded, any_eq_true] at embedded
  obtain ⟨j, member, other⟩ := embedded
  simp only [Bool.and_eq_true, decide_eq_true_eq] at other
  exact other.1.2 (other.2.1.antisymm (le_of_mem_argmin member least))

end Ranges

namespace Options

variable {o : Options Name} {name : Name}

theorem mem_loadRanges : ∀ r ∈ o.loadRanges, r ∈ o.ranges := by
  refine foldlRecOn (motive := fun m : Ranges Name => ∀ r ∈ m, r ∈ o.ranges) _ _ (by simp) ?_
  intro m before r configured x member
  exact (Ranges.mem_insert member).elim (before x) fun same => same ▸ configured

theorem loadRanges_eq_nil : o.loadRanges = [] ↔ o.ranges = [] := by
  constructor
  · intro none
    rcases eq_nil_or_concat o.ranges with empty | ⟨l, r, split⟩
    · exact empty
    · rw [loadRanges, split, concat_eq_append, foldl_append] at none
      exact absurd none Ranges.insert_ne_nil
  · intro none
    rw [loadRanges, none]
    rfl

theorem mem_allRanges : ∀ r ∈ o.allRanges, r ∈ o.ranges ∨ r.1 ∈ o.accounts := by
  refine foldlRecOn (motive := fun m : Ranges Name => ∀ r ∈ m, r ∈ o.ranges ∨ r.1 ∈ o.accounts) _ _
    (fun r member => .inl (mem_loadRanges r member)) ?_
  intro m before n listed x member
  rcases mem_append.mp member with member | member
  · exact before x (mem_filter.mp member).1
  · rw [mem_singleton.mp member]
    exact .inr listed

theorem allRanges_eq_nil : o.allRanges = [] ↔ o.Nothing := by
  constructor
  · intro none
    rcases eq_nil_or_concat o.accounts with empty | ⟨l, n, split⟩
    · rw [allRanges, empty, foldl_nil] at none
      exact ⟨loadRanges_eq_nil.mp none, empty⟩
    · rw [allRanges, split, concat_eq_append, foldl_append] at none
      exact absurd none (by simp [Ranges.assign])
  · rintro ⟨noRanges, noAccounts⟩
    rw [allRanges, noAccounts, foldl_nil, loadRanges_eq_nil.mpr noRanges]

theorem records_iff : o.records name = true ↔ o.Nothing ∨ o.trackedAccounts.StartsAt name := by
  have none : o.trackedAccounts = [] ↔ o.Nothing := by
    rw [← allRanges_eq_nil]
    exact ⟨Ranges.filter_eq_nil, fun none => by rw [trackedAccounts, none]; rfl⟩
  rw [records, Bool.or_eq_true, List.isEmpty_iff, none, Ranges.finds_iff]

theorem isTrackedAccount_iff : o.isTrackedAccount name = true ↔
    o.Nothing ∨ name ∈ o.accounts ∨ o.loadRanges.StartsAt name := by
  rw [isTrackedAccount, Bool.or_eq_true, Bool.or_eq_true, Bool.and_eq_true, List.isEmpty_iff, List.isEmpty_iff,
    contains_iff_mem, Ranges.finds_iff, loadRanges_eq_nil, or_assoc]
  rfl

/-- The names for which the two plugins do what is configured: names that are not configured, and those at the start
of a range that the plugin still has. -/
theorem tracked_iff (o : Options Name) (name : Name) : ((o.records name = true ↔ o.Covers name) ↔
      o.Nothing ∨ ¬o.Covers name ∨ o.trackedAccounts.StartsAt name) ∧
    ((o.isTrackedAccount name = true ↔ o.Covers name) ↔
      o.Nothing ∨ ¬o.Covers name ∨ name ∈ o.accounts ∨ o.loadRanges.StartsAt name) := by
  have recorded : o.records name = true → o.Covers name := by
    rw [records_iff]
    rintro (none | starts)
    · exact .inl none
    · obtain ⟨r, member, rfl, ends⟩ := starts.mem
      rcases mem_allRanges r (mem_filter.mp member).1 with range | listed
      · exact .inr (.inl ⟨r, range, le_rfl, ends⟩)
      · exact .inr (.inr listed)
  have tracked : o.isTrackedAccount name = true → o.Covers name := by
    rw [isTrackedAccount_iff]
    rintro (none | listed | starts)
    · exact .inl none
    · exact .inr (.inr listed)
    · obtain ⟨r, member, rfl, ends⟩ := starts.mem
      exact .inr (.inl ⟨r, mem_loadRanges r member, le_rfl, ends⟩)
  have agree {found : Prop} (covered : o.Nothing ∨ found → o.Covers name) :
      ((o.Nothing ∨ found ↔ o.Covers name) ↔ o.Nothing ∨ ¬o.Covers name ∨ found) := by
    by_cases covers : o.Covers name
    · simp [covers]
    · simpa [covers] using mt covered covers
  rw [records_iff] at recorded ⊢
  rw [isTrackedAccount_iff] at tracked ⊢
  exact ⟨agree recorded, agree tracked⟩

end Options

/-- A range from 1 to 3, and the name 2. -/
theorem range_not_tracked : let o : Options Nat := ⟨[(1, 3)], []⟩
    o.Covers 2 ∧ o.records 2 = false ∧ o.isTrackedAccount 2 = false :=
  ⟨.inr (.inl ⟨(1, 3), by decide, by decide⟩), by decide, by decide⟩

end Tracking

/-! ## Numbers -/

inductive OperationDirection
  | any | sender | receiver | dual
deriving DecidableEq

structure AccountHistoryObject (Name : Type) where
  account : Name
  block : Nat
  sequence : Nat
  dir : OperationDirection
  opTag : Nat
  op : Nat

/-- What the plugin is told of an operation, with the accounts `operation_get_impacted_accounts` finds in it. -/
structure OperationNotification (Name : Type) where
  storedInDb : Bool
  block : Nat
  opTag : Nat
  dbId : Nat
  impacted : List (Name × OperationDirection)

/-- The entries on record, and all that were ever created. -/
structure History (Name : Type) where
  stored : List (AccountHistoryObject Name)
  created : List (AccountHistoryObject Name)

section Numbers

variable {Name : Type} [LinearOrder Name] {o : Options Name} {h h' : History Name} {account : Name}

/-- The numbers of an account's entries. -/
def numbers (l : List (AccountHistoryObject Name)) (account : Name) : List Nat :=
  (l.filter fun e => e.account = account).map (·.sequence)

namespace History

/-- The number at `lower_bound(account, -1)`: the indices are ordered by decreasing numbers. -/
def newest (h : History Name) (account : Name) : Option Nat := (numbers h.stored account).max?

/-- `operation_visitor`; `create` throws if the account has an entry with the number. -/
def visit (note : OperationNotification Name) (h : History Name) (item : Name × OperationDirection) :
    Option (History Name) :=
  let sequence := (h.newest item.1).elim 0 fun last => (last + 1) % 2 ^ 32
  if sequence ∈ numbers h.stored item.1 then none
  else
    let entry := ⟨item.1, note.block, sequence, item.2, note.opTag, note.dbId⟩
    some ⟨h.stored ++ [entry], h.created ++ [entry]⟩

def onOperation (o : Options Name) (note : OperationNotification Name) (h : History Name) : Option (History Name) :=
  if note.storedInDb then (note.impacted.filter fun item => o.records item.1).foldlM (visit note) h else some h

/-- `erase_old_blocks`, when a block was applied. -/
def eraseOldBlocks (historyBlocks headBlock : Nat) (h : History Name) : History Name :=
  if historyBlocks ≤ headBlock then { h with stored := h.stored.filter fun e => headBlock - historyBlocks < e.block }
  else h

end History

/-- The histories that operations and allowed removals lead to. -/
inductive Run (o : Options Name) (historyBlocks : Nat) (allowed : History Name → Nat → Prop) : History Name → Prop
  | start : Run o historyBlocks allowed ⟨[], []⟩
  | operation {h h' : History Name} (note : OperationNotification Name) (before : Run o historyBlocks allowed h)
      (applied : h.onOperation o note = some h') : Run o historyBlocks allowed h'
  | block {h : History Name} (headBlock : Nat) (before : Run o historyBlocks allowed h) (may : allowed h headBlock) :
      Run o historyBlocks allowed (h.eraseOldBlocks historyBlocks headBlock)

/-- No account loses its newest entry. -/
def KeepsNewest (historyBlocks : Nat) (h : History Name) (headBlock : Nat) : Prop :=
  ∀ account, (h.eraseOldBlocks historyBlocks headBlock).newest account = h.newest account

/-- The entries of an account that 32 bits can count are numbered from 0 on, and the last one is on record. -/
def Numbered (h : History Name) : Prop :=
  ∀ account, (numbers h.created account).length ≤ 2 ^ 32 →
    numbers h.created account = range (numbers h.created account).length ∧
    h.newest account = (numbers h.created account).getLast?

theorem numbers_concat {l : List (AccountHistoryObject Name)} {e : AccountHistoryObject Name} :
    numbers (l ++ [e]) account = numbers l account ++ if e.account = account then [e.sequence] else [] := by
  by_cases same : e.account = account <;> simp [same, numbers]

theorem History.visit_eq {note : OperationNotification Name} {item : Name × OperationDirection}
    (visited : h.visit note item = some h') : ∃ e : AccountHistoryObject Name, e.account = item.1 ∧
      e.sequence = (h.newest item.1).elim 0 (fun last => (last + 1) % 2 ^ 32) ∧
      h' = ⟨h.stored ++ [e], h.created ++ [e]⟩ := by
  simp only [visit] at visited
  split at visited
  · cases visited
  · exact ⟨_, rfl, rfl, (Option.some.inj visited).symm⟩

theorem Numbered.visit {note : OperationNotification Name} {item : Name × OperationDirection} (numbered : Numbered h)
    (visited : h.visit note item = some h') : Numbered h' := by
  obtain ⟨e, same, sequence, rfl⟩ := History.visit_eq visited
  rw [← same] at sequence
  intro account few
  by_cases its : e.account = account
  · subst its
    have concat (l : List (AccountHistoryObject Name)) :
      numbers (l ++ [e]) e.account = numbers l e.account ++ [e.sequence] := by
      rw [numbers_concat, if_pos rfl]
    simp only [History.newest, concat, length_append, length_singleton] at few ⊢
    obtain ⟨counted, last⟩ := numbered e.account (by omega)
    rw [counted, getLast?_range] at last
    -- the number given is the number of entries so far, and no number on record is larger
    have given : e.sequence = (numbers h.created e.account).length ∧
      ∀ b ∈ numbers h.stored e.account, b ≤ e.sequence := by
      rw [sequence]
      split at last
      · rw [last, max?_eq_none_iff.mp last]
        exact ⟨by simp only [Option.elim_none]; omega, by simp⟩
      · rw [last, Option.elim_some, Nat.mod_eq_of_lt (by omega)]
        exact ⟨by omega, fun b member => Nat.le_succ_of_le ((max?_eq_some_iff.mp last).2 b member)⟩
    refine ⟨by rw [given.1, range_succ, ← counted], ?_⟩
    rw [getLast?_concat, max?_eq_some_iff]
    refine ⟨mem_append_right _ (mem_singleton_self _), fun b member => ?_⟩
    rcases mem_append.mp member with member | member
    · exact given.2 b member
    · exact (mem_singleton.mp member).le
  · have same (l : List (AccountHistoryObject Name)) : numbers (l ++ [e]) account = numbers l account := by
      rw [numbers_concat, if_neg its, append_nil]
    simp only [History.newest, same] at few ⊢
    exact numbered account few

theorem Numbered.onOperation {note : OperationNotification Name} (numbered : Numbered h)
    (applied : h.onOperation o note = some h') : Numbered h' := by
  unfold History.onOperation at applied
  split at applied
  · generalize (note.impacted.filter fun item => o.records item.1) = items at applied
    induction items generalizing h with
    | nil =>
      cases applied
      exact numbered
    | cons item rest ih =>
      obtain ⟨h₁, visited, others⟩ := Option.bind_eq_some_iff.mp applied
      exact ih (numbered.visit visited) others
  · cases applied
    exact numbered

/-- As long as no account loses its newest entry, entries are numbered one after the other. -/
theorem numbering_exact {historyBlocks : Nat} (run : Run o historyBlocks (KeepsNewest historyBlocks) h) (account : Name)
    (few : (numbers h.created account).length ≤ 2 ^ 32) :
    numbers h.created account = range (numbers h.created account).length := by
  have numbered : Numbered h := by
    clear few
    induction run with
    | start => exact fun _ _ => ⟨rfl, rfl⟩
    | operation _ _ applied ih => exact ih.onOperation applied
    | @block h headBlock _ keeps ih =>
      have created : (h.eraseOldBlocks historyBlocks headBlock).created = h.created := by
        unfold History.eraseOldBlocks
        split <;> rfl
      intro account few
      rw [keeps account, created]
      exact ih account (created ▸ few)
  exact (numbered account few).1

/-- An operation of the account 1 in a block. -/
def operationIn (block : Nat) : OperationNotification Nat := ⟨true, block, 2, block, [(1, .sender)]⟩

/-- Its entry with a number. -/
def entryIn (block number : Nat) : AccountHistoryObject Nat := ⟨1, block, number, .sender, 2, block⟩

theorem run_first (allowed : History Nat → Nat → Prop) :
    Run (⟨[], []⟩ : Options Nat) 1 allowed ⟨[entryIn 1 0], [entryIn 1 0]⟩ :=
  Run.start.operation (operationIn 1) rfl

/-- The first of two entries is removed. -/
theorem numbering_exact_second : numbers (History.eraseOldBlocks 1 2 ⟨[entryIn 1 0, entryIn 2 1],
    [entryIn 1 0, entryIn 2 1]⟩).created 1 = range 2 := by
  have keeps : KeepsNewest 1 ⟨[entryIn 1 0, entryIn 2 1], [entryIn 1 0, entryIn 2 1]⟩ 2 := by
    intro account
    by_cases its : 1 = account
    · subst its
      rfl
    · simp [its, History.eraseOldBlocks, History.newest, numbers, entryIn]
  exact numbering_exact (((run_first _).operation (operationIn 2) rfl).block 2 keeps) 1 (by decide)

/-- The only entry is removed with its block, and the next one has its number. -/
theorem number_given_twice : ∃ h, Run ⟨[], []⟩ 1 (fun _ _ => True) h ∧ numbers h.created 1 = [0, 0] :=
  ⟨⟨[entryIn 3 0], [entryIn 1 0, entryIn 3 0]⟩, ((run_first _).block 2 trivial).operation (operationIn 3) rfl, rfl⟩

end Numbers

end Golos.AccountHistory
