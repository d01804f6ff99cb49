import Golos.Node.BlockLog
import Mathlib.Data.List.Induction

/-! # The block log over time

`Runs` are the histories of a log: it is opened and closed, blocks are appended in order, and while
it is closed the index can be lost or lose its last entries.  `Maintained` is what stays true.

* `round_trip` — what was appended is what is read;
* `interrupted_iff` — what the next `open` makes of an append that was interrupted.
-/

namespace Golos.Log

open Bytes List Option

variable {β : Type} {index : File} {pos : Nat}

inductive Runs (c : Codec β) : List β → BlockLog β → Prop
  | created : Runs c [] {}
  | opened {bs : List β} {s u : BlockLog β} : Runs c bs s → openLog c s = .ok u → Runs c bs u
  | appended {bs : List β} {s u : BlockLog β} {b : β} {pos : Nat} : Runs c bs s → s.isOpen = true →
      c.blockNum b = bs.length + 1 → append c b s = .ok (pos, u) → Runs c (bs ++ [b]) u
  | closed {bs : List β} {s : BlockLog β} : Runs c bs s → Runs c bs (close s)
  | indexLost {bs : List β} {s : BlockLog β} : Runs c bs s → s.isOpen = false → Runs c bs { s with indexFile := none }
  | indexCut {bs : List β} {s : BlockLog β} {index : File} (entries : Nat) : Runs c bs s → s.isOpen = false →
      s.indexFile = some index → Runs c bs { s with indexFile := some (index.take (index.length - 8 * entries)) }

/-! ## What is maintained -/

/-- A log that is closed.  Of the index any number of last entries may be missing. -/
structure Shut (c : Codec β) (bs : List β) (s : BlockLog β) : Prop where
  isOpen : s.isOpen = false
  head : s.head = none
  block : s.blockFile = some (stored (layout c 0 bs)) ∨ bs = [] ∧ s.blockFile = none
  index : ∀ file, s.indexFile = some file → ∃ entries, file =
    (stored (table (positions c 0 bs))).take ((stored (table (positions c 0 bs))).length - 8 * entries)

def Maintained (c : Codec β) (bs : List β) (s : BlockLog β) : Prop := Current c bs s ∨ Shut c bs s

section Runs

variable {c : Codec β} {b : β} {bs as : List β} {s u : BlockLog β} {back index : File}

theorem Current.shut (current : Current c bs s) : Shut c bs (close s) := by
  refine ⟨rfl, rfl, .inl current.block, fun file found => ⟨0, ?_⟩⟩
  rw [Nat.mul_zero, Nat.sub_zero, take_length]
  exact some.inj (found.symm.trans current.index)

theorem Shut.closed (shut : Shut c bs s) : Shut c bs (close s) := ⟨rfl, rfl, shut.block, shut.index⟩

theorem Shut.indexLost (shut : Shut c bs s) : Shut c bs { s with indexFile := none } :=
  ⟨shut.isOpen, shut.head, shut.block, fun _ found => nomatch found⟩

theorem Shut.indexCut (shut : Shut c bs s) (found : s.indexFile = some index) (entries : Nat) :
    Shut c bs { s with indexFile := some (index.take (index.length - 8 * entries)) } := by
  refine ⟨shut.isOpen, shut.head, shut.block, fun file same => ?_⟩
  obtain ⟨before, isCut⟩ := shut.index index found
  refine ⟨before + entries, ?_⟩
  rw [← some.inj same, isCut, take_take, length_take]
  congr 1
  omega

/-- An index with fewer entries ends with an earlier position. -/
theorem lastEntry_lt {entries : Nat}
    (kept : KeptIndex (stored (table ((positions c 0 (as ++ [b])).take entries))) (ending c 0 as))
    (storable : Storable c (as ++ [b])) : as.length < entries := by
  by_contra fewer
  have short : (positions c 0 (as ++ [b])).take entries = (positions c 0 as).take entries := by
    rw [positions_append, take_append_of_le_length (by simp; omega)]
  rw [short] at kept
  cases count : (positions c 0 as).take entries with
  | nil =>
    rw [count] at kept
    exact Bool.false_ne_true kept.1
  | cons first rest =>
    rw [count] at kept
    have large : 8 ≤ (table (first :: rest)).length := by simp
    have entry := kept.2
    rw [stored_eq (ne_nil_of_length_pos (by omega)), getLastUint64_eq large] at entry
    have listed : rest.length < (first :: rest).length := by simp
    have member (w : Nat) (mem : w ∈ first :: rest) : w ∈ positions c 0 as := by
      rw [← count] at mem
      exact mem_of_mem_take mem
    have fits (w : Nat) (mem : w ∈ first :: rest) : w < 2 ^ 64 := by
      apply storable.fits
      rw [positions_append]
      exact mem_append_left _ (member w mem)
    have read := @wordAt_table (first :: rest) rest.length [] fits listed
    have place : (table (first :: rest)).length - 8 = 8 * rest.length := by simp
    rw [append_nil] at read
    rw [place, read] at entry
    have earlier := le_of_mem_positions (member _ (getElem_mem listed))
    have same := Except.ok.inj entry
    omega

/-- A log that holds no blocks is opened as it is. -/
theorem Shut.openLog_nil (shut : Shut c [] s) : ∃ u, openLog c s = .ok u ∧ Current c [] u := by
  have block : createNonexistFile s.blockFile = [0] := by
    rcases shut.block with found | ⟨_, found⟩ <;> rw [found] <;> rfl
  have index : createNonexistFile s.indexFile = [0] := by
    cases found : s.indexFile with
    | none => rfl
    | some file =>
      obtain ⟨entries, rfl⟩ := shut.index file found
      cases entries with
      | zero => rfl
      | succ entries =>
        have gone : (stored (table (positions c 0 []))).length - 8 * (entries + 1) = 0 := by
          change 1 - 8 * (entries + 1) = 0
          omega
        rw [gone]
        rfl
  refine ⟨⟨some [0], some [0], true, none⟩, ?_, ⟨rfl, rfl, rfl, rfl⟩⟩
  rw [openLog, block, index, shut.head]
  rfl

theorem Storable.of_append (storable : Storable c (bs ++ [b])) : Storable c bs := by
  have whole := @start_le_ending β c [b] (ending c 0 bs)
  have short := storable.short
  rw [ending_append] at short
  refine ⟨fun b' mem => storable.small b' (mem_append_left _ mem), by omega, fun i b' found => ?_⟩
  apply storable.numbered i b'
  rw [List.getElem?_append_left (List.getElem?_eq_some_iff.mp found).1]
  exact found

theorem layout_ne_nil : layout c 0 (as ++ [b]) ≠ [] := by
  apply ne_nil_of_length_pos
  rw [length_layout_append, room]
  omega

/-- The last word of a whole log is the position of its last block. -/
theorem getLastUint64_layout (storable : Storable c (as ++ [b])) :
    getLastUint64 (layout c 0 (as ++ [b])) = .ok (ending c 0 as) := by
  have fits := storable.fits (@mem_positions_last β c b as)
  have length := @length_layout_append β c b as
  have before := @length_layout β c as 0
  have large : 8 ≤ (layout c 0 (as ++ [b])).length := by rw [length, room]; omega
  have there := @wordAt_append (layout c 0 as ++ c.pack b) [] (ending c 0 as) fits
  have same : layout c 0 (as ++ [b]) = layout c 0 as ++ c.pack b ++ word (ending c 0 as) ++ [] := by
    simp [layout_append, layout]
  have place : (layout c 0 (as ++ [b])).length - 8 = (layout c 0 as ++ c.pack b).length := by
    rw [length, room, length_append]
    omega
  rw [getLastUint64_eq large, place, same, there]

/-- A log with blocks is opened with all of them, and its index is complete again. -/
theorem openLog_whole [Nontrivial β] (faithful : c.Faithful) (storable : Storable c (as ++ [b]))
    (block : s.blockFile = some (layout c 0 (as ++ [b])))
    (index : ∀ file, s.indexFile = some file → ∃ entries, file = table ((positions c 0 (as ++ [b])).take entries)) :
    ∃ u, openLog c s = .ok u ∧ Current c (as ++ [b]) u := by
  have nonempty : table (positions c 0 (as ++ [b])) ≠ [] := ne_nil_of_length_pos (by simp)
  -- an index that is kept is complete
  have whole (kept : KeptIndex (createNonexistFile s.indexFile) (ending c 0 as)) :
      createNonexistFile s.indexFile = table (positions c 0 (as ++ [b])) := by
    cases found : s.indexFile with
    | none =>
      rw [found] at kept
      exact absurd kept.1 Bool.false_ne_true
    | some file =>
      obtain ⟨entries, rfl⟩ := index file found
      rw [found] at kept
      have all := lastEntry_lt kept storable
      have complete : (positions c 0 (as ++ [b])).take entries = positions c 0 (as ++ [b]) :=
        take_of_length_le (by simp; omega)
      rw [complete]
      exact createNonexistFile_some nonempty
  have last := getLastUint64_layout storable
  rw [← append_nil (layout c 0 (as ++ [b]))] at block last
  obtain ⟨u, run, keeps, same, rebuilt, kept⟩ := openLog_keeps faithful storable block last fun isKept =>
    ⟨[], by rw [whole isKept, append_nil]⟩
  refine ⟨u, run, keeps.isOpen, keeps.head, ?_, ?_⟩
  · rw [same, block, append_nil, stored_eq layout_ne_nil]
  · rw [stored_eq nonempty]
    by_cases isKept : KeptIndex (createNonexistFile s.indexFile) (ending c 0 as)
    · rw [kept isKept, whole isKept]
    · exact rebuilt isKept

theorem Maintained.openLog [Nontrivial β] (faithful : c.Faithful) (storable : Storable c bs)
    (maintained : Maintained c bs s) :
    ∃ u, openLog c s = .ok u ∧ Current c bs u := by
  rcases eq_nil_or_concat bs with rfl | ⟨as, b, rfl⟩
  · rcases maintained with current | shut
    · refine ⟨s, ?_, current⟩
      obtain ⟨blockFile, indexFile, isOpen, head⟩ := s
      obtain ⟨rfl, rfl, rfl, rfl⟩ := current
      rfl
    · exact shut.openLog_nil
  · rw [concat_eq_append] at storable maintained ⊢
    have nonempty : table (positions c 0 (as ++ [b])) ≠ [] := ne_nil_of_length_pos (by simp)
    rcases maintained with current | shut
    · apply openLog_whole faithful storable
      · rw [current.block, stored_eq layout_ne_nil]
      · intro file found
        refine ⟨(as ++ [b]).length, ?_⟩
        rw [take_of_length_le (by simp), ← stored_eq nonempty]
        exact some.inj (found.symm.trans current.index)
    · apply openLog_whole faithful storable
      · rcases shut.block with found | ⟨empty, _⟩
        · rw [found, stored_eq layout_ne_nil]
        · simp at empty
      · intro file found
        obtain ⟨entries, rfl⟩ := shut.index file found
        refine ⟨(as ++ [b]).length - entries, ?_⟩
        rw [stored_eq nonempty, ← take_table, length_table, length_positions, Nat.mul_sub]

theorem Runs.maintained [Nontrivial β] (faithful : c.Faithful) (runs : Runs c bs s)
    (small : ∀ b ∈ bs, (c.pack b).length ≤ maxBlockSize) : Storable c bs ∧ Maintained c bs s := by
  induction runs with
  | created =>
    refine ⟨⟨small, by simp [ending], fun i b found => nomatch found⟩,
      .inr ⟨rfl, rfl, .inr ⟨rfl, rfl⟩, fun _ found => nomatch found⟩⟩
  | opened _ run ih =>
    obtain ⟨storable, maintained⟩ := ih small
    obtain ⟨u, opens, current⟩ := maintained.openLog faithful storable
    rw [run] at opens
    cases opens
    exact ⟨storable, .inl current⟩
  | @appended bs s u b pos _ isOpen number run ih =>
    obtain ⟨storable, maintained⟩ := ih fun b' mem => small b' (mem_append_left _ mem)
    rcases maintained with current | shut
    · obtain ⟨after, short⟩ := append_current current number run
      refine ⟨⟨small, short, fun i b' found => ?_⟩, .inl after⟩
      by_cases before : i < bs.length
      · rw [getElem?_append_left before] at found
        exact storable.numbered i b' found
      · have listed := (List.getElem?_eq_some_iff.mp found).1
        simp only [length_append, length_singleton] at listed
        obtain rfl : i = bs.length := by omega
        simp only [getElem?_concat_length, some.injEq] at found
        rw [← found, number]
    · rw [shut.isOpen] at isOpen
      cases isOpen
  | closed _ ih =>
    obtain ⟨storable, maintained⟩ := ih small
    refine ⟨storable, .inr ?_⟩
    rcases maintained with current | shut
    · exact current.shut
    · exact shut.closed
  | indexLost _ isClosed ih =>
    obtain ⟨storable, maintained⟩ := ih small
    rcases maintained with current | shut
    · rw [current.isOpen] at isClosed
      cases isClosed
    · exact ⟨storable, .inr shut.indexLost⟩
  | indexCut entries _ isClosed found ih =>
    obtain ⟨storable, maintained⟩ := ih small
    rcases maintained with current | shut
    · rw [current.isOpen] at isClosed
      cases isClosed
    · exact ⟨storable, .inr (shut.indexCut found entries)⟩

theorem Current.keeps (current : Current c bs s) : Keeps c bs s := by
  refine ⟨current.isOpen, current.head, ?_, ?_⟩
  · rw [current.block]
    cases empty : layout c 0 bs with
    | nil => exact ⟨[0], rfl⟩
    | cons byte bytes => exact ⟨[], by rw [append_nil]; rfl⟩
  · rw [current.index]
    cases empty : table (positions c 0 bs) with
    | nil => exact ⟨[0], rfl⟩
    | cons byte bytes => exact ⟨[], by rw [append_nil]; rfl⟩

theorem Current.constructIndex (faithful : c.Faithful) (storable : Storable c bs) (current : Current c bs s)
    (nonempty : bs ≠ []) : constructIndex c s = .ok s := by
  rcases eq_nil_or_concat bs with rfl | ⟨as, b, rfl⟩
  · exact absurd rfl nonempty
  · rw [concat_eq_append] at storable current
    have block := current.block
    have last := getLastUint64_layout storable
    rw [stored_eq layout_ne_nil] at block
    rw [← append_nil (layout c 0 (as ++ [b]))] at block last
    have index := current.index
    rw [stored_eq (ne_nil_of_length_pos (by simp))] at index
    rw [constructIndex_eq faithful storable current.isOpen (by simpa using current.head) block last, ← index]

/-- Every sequence of blocks that can be stored is the contents of some log. -/
theorem Storable.exists_current (storable : Storable c bs) : ∃ s, Runs c bs s ∧ Current c bs s := by
  induction bs using reverseRecOn with
  | nil => exact ⟨⟨some [0], some [0], true, none⟩, .opened .created rfl, rfl, rfl, rfl, rfl⟩
  | append_singleton bs b ih =>
    obtain ⟨s, runs, current⟩ := ih storable.of_append
    have number : c.blockNum b = bs.length + 1 := storable.numbered bs.length b (by simp)
    have run := append_eq current number
    rw [if_pos storable.short] at run
    exact ⟨_, .appended runs current.isOpen number run, (append_current current number run).1⟩

/-- After any history every appended block is read by its number, and nothing else is; the log can be
opened, and takes the next block as long as it fits into a file; and an index that is constructed
again is the one `append` has kept. -/
theorem round_trip [Nontrivial β] (faithful : c.Faithful) (runs : Runs c bs s)
    (small : ∀ b ∈ bs, (c.pack b).length ≤ maxBlockSize) : (∃ u, openLog c s = .ok u ∧ Holds c bs u) ∧
    (s.isOpen = true → Holds c bs s ∧ (bs ≠ [] → constructIndex c s = .ok s) ∧
      ∀ b, c.blockNum b = bs.length + 1 → ending c 0 (bs ++ [b]) < 2 ^ 63 → ∃ pos u, append c b s = .ok (pos, u)) ∧
    (s.isOpen = false → ∀ k, readBlockByNum c s k = .ok none) := by
  obtain ⟨storable, maintained⟩ := runs.maintained faithful small
  refine ⟨?_, fun isOpen => ?_, fun isClosed k => ?_⟩
  · obtain ⟨u, run, current⟩ := maintained.openLog faithful storable
    exact ⟨u, run, current.keeps.holds faithful storable⟩
  · rcases maintained with current | shut
    · refine ⟨current.keeps.holds faithful storable, current.constructIndex faithful storable, fun b number short => ?_⟩
      rw [append_eq current number, if_pos short]
      exact ⟨_, _, rfl⟩
    · rw [shut.isOpen] at isOpen
      cases isOpen
  · rcases maintained with current | shut
    · rw [current.isOpen] at isClosed
      cases isClosed
    · rw [readBlockByNum, getBlockPos, shut.head]
      rfl

end Runs

/-! ## Interrupted appends -/

/-- What is found of a file when an append is interrupted: it has not been touched, or it has grown
and some of the new bytes have been written, from the front; the others are zero. -/
inductive Torn (before after : File) : File → Prop
  | untouched : Torn before after before
  | grown (written : Nat) : getMappedSize before ≤ written →
      Torn before after (after.take written ++ replicate (after.length - written) 0)

/-- `t` is what an append from `s` to `u` leaves when the process stops while it is writing. -/
structure Interrupted (s u t : BlockLog β) : Prop where
  isOpen : t.isOpen = false
  head : t.head = none
  block : ∃ before after file, s.blockFile = some before ∧ u.blockFile = some after ∧ t.blockFile = some file ∧
    Torn before after file
  index : ∃ before after file, s.indexFile = some before ∧ u.indexFile = some after ∧ t.indexFile = some file ∧
    Torn before after file

/-- The log opens again with all blocks up to the last or the new one. -/
def Recovers (c : Codec β) (bs : List β) (b : β) (t : BlockLog β) : Prop :=
  ∃ v, openLog c t = .ok v ∧ (Holds c bs v ∨ Holds c (bs ++ [b]) v)

section Interrupted

variable {c : Codec β} {b : β} {bs as : List β} {s u t : BlockLog β} {before more file : File}

theorem getLastUint64_append {front last : File} (width : last.length = 8) :
    getLastUint64 (front ++ last) = .ok (valueOf last) := by
  have place : (front ++ last).length - 8 = front.length := by simp; omega
  rw [getLastUint64_eq (by simp; omega), place, wordAt, drop_left, take_of_length_le width.le]

/-- The old contents are still there, and behind them there is nothing or what has been written. -/
theorem Torn.cases (whole : before = [] ∨ 8 ≤ before.length) (torn : Torn (stored before) (before ++ more) file) :
    file = stored before ∨ ∃ last, last.length = more.length ∧ file = before ++ last := by
  cases torn with
  | untouched => exact .inl rfl
  | grown written enough =>
    rw [getMappedSize_stored whole] at enough
    refine .inr ⟨more.take (written - before.length) ++ replicate ((before ++ more).length - written) 0, ?_, ?_⟩
    · simp; omega
    · rw [take_append, take_of_length_le enough, append_assoc]

theorem Torn.extends (nonempty : before ≠ []) (whole : before = [] ∨ 8 ≤ before.length)
    (torn : Torn (stored before) (before ++ more) file) : before <+: file := by
  rcases torn.cases whole with rfl | ⟨last, _, rfl⟩
  · exact ⟨[], by rw [stored_eq nonempty, append_nil]⟩
  · exact prefix_append _ _

theorem Storable.take (storable : Storable c bs) (n : Nat) : Storable c (bs.take n) := by
  have together := @ending_append β c (bs.drop n) 0 (bs.take n)
  have behind := @start_le_ending β c (bs.drop n) (ending c 0 (bs.take n))
  have short := storable.short
  rw [take_append_drop] at together
  refine ⟨fun b mem => storable.small b (mem_of_mem_take mem), by omega, fun i b found => ?_⟩
  rw [getElem?_take] at found
  split at found
  · exact storable.numbered i b found
  · cases found

theorem positions_of_isPrefix (isPrefix : as <+: bs) : positions c 0 as <+: positions c 0 bs := by
  obtain ⟨rest, rfl⟩ := isPrefix
  rw [positions_append]
  exact prefix_append _ _

theorem layout_of_isPrefix (isPrefix : as <+: bs) : layout c 0 as <+: layout c 0 bs := by
  obtain ⟨rest, rfl⟩ := isPrefix
  rw [layout_append]
  exact prefix_append _ _

theorem table_of_isPrefix {first second : List Nat} (isPrefix : first <+: second) : table first <+: table second := by
  obtain ⟨rest, rfl⟩ := isPrefix
  rw [table_append]
  exact prefix_append _ _

/-- A log that begins with some blocks is opened with those up to the one its last word leads to. -/
theorem openLog_at [Nontrivial β] (faithful : c.Faithful) (storable : Storable c bs) (block : t.blockFile = some file)
    (begins : layout c 0 bs <+: file) (indexed : t.indexFile = some index)
    (listed : table (positions c 0 bs) <+: index) {i : Nat} (located : (positions c 0 bs)[i]? = some pos)
    (last : getLastUint64 file = .ok pos) : ∃ v, openLog c t = .ok v ∧ Holds c (bs.take (i + 1)) v := by
  have inside : i < bs.length := by simpa using (List.getElem?_eq_some_iff.mp located).1
  have upTo : bs.take (i + 1) = bs.take i ++ [bs[i]] := by simp
  have length : (bs.take i).length = i := by simp; omega
  have there := @getElem?_positions β c bs (bs.take i) (by omega) ( take_prefix _ _)
  rw [length, located, some.injEq] at there
  subst there
  obtain ⟨back, contents⟩ := (layout_of_isPrefix ( take_prefix (i + 1) bs)).trans begins
  have nonempty : index ≠ [] := by
    intro empty
    have entries := listed.length_le
    rw [empty, length_table, length_positions, length_nil] at entries
    omega
  have prefixed : table (positions c 0 (bs.take (i + 1))) <+: createNonexistFile t.indexFile := by
    rw [indexed, createNonexistFile_some nonempty]
    exact (table_of_isPrefix (positions_of_isPrefix ( take_prefix _ _))).trans listed
  have part := storable.take (i + 1)
  rw [← contents] at block last
  rw [upTo] at block last prefixed part ⊢
  obtain ⟨v, run, keeps, _⟩ := openLog_keeps faithful part block last fun _ => prefixed
  exact ⟨v, run, keeps.holds faithful part⟩

/-- The files an interrupted append leaves. -/
theorem Interrupted.files (current : Current c bs s) (number : c.blockNum b = bs.length + 1)
    (run : append c b s = .ok (pos, u)) (interrupted : Interrupted s u t) : ∃ file index, t.blockFile = some file ∧
      Torn (stored (layout c 0 bs)) (layout c 0 bs ++ (c.pack b ++ word (ending c 0 bs))) file ∧
      t.indexFile = some index ∧
      Torn (stored (table (positions c 0 bs))) (table (positions c 0 bs) ++ word (ending c 0 bs)) index := by
  rw [append_eq current number] at run
  split at run
  · cases run
    obtain ⟨before, after, file, was, becomes, is, torn⟩ := interrupted.block
    obtain ⟨before', after', index, was', becomes', is', torn'⟩ := interrupted.index
    rw [current.block] at was
    rw [current.index] at was'
    cases was
    cases was'
    cases becomes
    cases becomes'
    refine ⟨file, index, is, ?_, is', ?_⟩
    · have after : layout c 0 (bs ++ [b]) = layout c 0 bs ++ (c.pack b ++ word (ending c 0 bs)) := by
        simp [layout_append, layout]
      rw [← after]
      exact torn
    · have after : table (positions c 0 (bs ++ [b])) = table (positions c 0 bs) ++ word (ending c 0 bs) := by
        simp [positions_append, positions]
      rw [← after]
      exact torn'
  · cases run

/-- An index that is kept for the new block has its position. -/
theorem Torn.index_kept (storable : Storable c (bs ++ [b]))
    (torn : Torn (stored (table (positions c 0 bs))) (table (positions c 0 bs) ++ word (ending c 0 bs)) index)
    (kept : KeptIndex index (ending c 0 bs)) : index = table (positions c 0 (bs ++ [b])) := by
  have whole : table (positions c 0 (bs ++ [b])) = table (positions c 0 bs) ++ word (ending c 0 bs) := by
    simp [positions_append, positions]
  rcases torn.cases (table_whole _) with rfl | ⟨last, width, rfl⟩
  · -- without the new entry it ends with an earlier position
    have short : (positions c 0 (bs ++ [b])).take bs.length = positions c 0 bs := by
      rw [positions_append, take_left' length_positions]
    rw [← short] at kept
    exact absurd (lastEntry_lt kept storable) (lt_irrefl _)
  · rw [length_word] at width
    have same := kept.2
    rw [getLastUint64_append width, Except.ok.injEq] at same
    rw [whole, ← same, word_valueOf width]

/-- If nothing was appended yet, and the log has not been touched, it is still empty. -/
theorem openLog_untouched (isOpen : t.head = none) (block : t.blockFile = some [0])
    (indexed : t.indexFile = some index) (torn : Torn [0] (word 0) index) :
    ∃ v, openLog c t = .ok v ∧ Holds c [] v := by
  have answers {v : BlockLog β} (absent : v.head = none) : Holds c [] v := by
    refine ⟨absent, fun k => ?_⟩
    rw [readBlockByNum, getBlockPos, absent]
    by_cases zero : k = 0 <;> simp <;> rfl
  have created : createNonexistFile t.indexFile = index := by
    rw [indexed]
    apply createNonexistFile_some
    rcases @Torn.cases [] (word 0) index (.inl rfl) torn with rfl | ⟨last, width, rfl⟩
    · exact cons_ne_nil _ _
    · apply ne_nil_of_length_pos
      rw [width]
      decide
  cases records : hasIndexRecords index with
  | false =>
    refine ⟨⟨some [0], some index, true, none⟩, ?_, answers rfl⟩
    rw [openLog, created, block, isOpen]
    simp only [records]
    rfl
  | true =>
    refine ⟨⟨some [0], some [0], true, none⟩, ?_, answers rfl⟩
    rw [openLog, created, block, isOpen]
    simp only [records]
    rfl

/-- An append that is interrupted is survived if the log file has not been touched or has been
written completely.  In between, what counts is the last word of the grown file, which is read as a
position: if it is the position of a block, that block becomes the head, so the append is survived
exactly if this is the last block before; an empty log has no such position. -/
theorem interrupted_iff [Nontrivial β] (faithful : c.Faithful) (runs : Runs c bs s) (isOpen : s.isOpen = true)
    (number : c.blockNum b = bs.length + 1) (small : ∀ b' ∈ bs ++ [b], (c.pack b').length ≤ maxBlockSize) {pos : Nat}
    (run : append c b s = .ok (pos, u)) (interrupted : Interrupted s u t) :
    (t.blockFile = s.blockFile ∨ t.blockFile = u.blockFile → Recovers c bs b t) ∧
    ∀ i start file, (positions c 0 bs)[i]? = some start → t.blockFile = some file → getLastUint64 file = .ok start →
      (Recovers c bs b t ↔ i + 1 = bs.length) := by
  have after : Runs c (bs ++ [b]) u := .appended runs isOpen number run
  obtain ⟨storable, maintained⟩ := runs.maintained faithful fun b' mem => small b' (mem_append_left _ mem)
  obtain ⟨storable', _⟩ := after.maintained faithful small
  have current : Current c bs s := by
    rcases maintained with current | shut
    · exact current
    · rw [shut.isOpen] at isOpen
      cases isOpen
  obtain ⟨file, index, block, torn, indexed, tornIndex⟩ := interrupted.files current number run
  -- a word that is the position of a block
  have leads (i start : Nat) (located : (positions c 0 bs)[i]? = some start) (last : getLastUint64 file = .ok start) :
      ∃ v, openLog c t = .ok v ∧ Holds c (bs.take (i + 1)) v := by
    have inside : i < bs.length := by simpa using (List.getElem?_eq_some_iff.mp located).1
    have nonempty : layout c 0 bs ≠ [] ∧ table (positions c 0 bs) ≠ [] := by
      have count := @start_le_ending β c bs 0
      have length := @length_layout β c bs 0
      constructor <;> apply ne_nil_of_length_pos
      · omega
      · simp only [length_table, length_positions]
        omega
    exact openLog_at faithful storable block (torn.extends nonempty.1 layout_whole) indexed
      (tornIndex.extends nonempty.2 (table_whole _)) located last
  refine ⟨fun complete => ?_, fun i start file' located found last => ?_⟩
  · rcases complete with same | same
    · rw [current.block, block, some.injEq] at same
      subst same
      rcases eq_nil_or_concat bs with rfl | ⟨as, b', rfl⟩
      · obtain ⟨v, opens, holds⟩ := openLog_untouched interrupted.head block indexed tornIndex
        exact ⟨v, opens, .inl holds⟩
      · rw [concat_eq_append] at *
        have located : (positions c 0 (as ++ [b']))[as.length]? = some (ending c 0 as) := by
          simp [positions_append, positions]
        have last := getLastUint64_layout storable
        rw [← stored_eq (@layout_ne_nil β c b' as)] at last
        obtain ⟨v, opens, holds⟩ := leads as.length (ending c 0 as) located last
        rw [take_of_length_le (by simp)] at holds
        exact ⟨v, opens, .inl holds⟩
    · rw [(append_current current number run).1.block, stored_eq layout_ne_nil] at same
      have last := getLastUint64_layout storable'
      rw [← append_nil (layout c 0 (bs ++ [b]))] at same last
      obtain ⟨v, opens, keeps, _⟩ := openLog_keeps faithful storable' same last fun kept => by
        rw [indexed] at kept ⊢
        cases index with
        | nil => exact absurd kept.1 Bool.false_ne_true
        | cons byte bytes =>
          rw [← tornIndex.index_kept storable' kept]
          exact prefix_refl _
      exact ⟨v, opens, .inr (keeps.holds faithful storable')⟩
  · rw [block, some.injEq] at found
    subst found
    have inside : i < bs.length := by simpa using (List.getElem?_eq_some_iff.mp located).1
    obtain ⟨v, opens, holds⟩ := leads i start located last
    constructor
    · rintro ⟨v', opens', recovered⟩
      rw [opens, Except.ok.injEq] at opens'
      subst opens'
      -- the number of the head tells how many blocks there are
      have isLast : (bs.take (i + 1)).getLast? = some bs[i] := by
        rw [getLast?_take, if_neg (by omega)]
        simp
      have count := (storable.take (i + 1)).blockNum_last isLast
      rw [length_take] at count
      have isHead : v.head = some bs[i] := holds.head.trans isLast
      rcases recovered with recovered | recovered
      · have length := storable.blockNum_last (recovered.head.symm.trans isHead)
        omega
      · have length := storable'.blockNum_last (recovered.head.symm.trans isHead)
        simp only [length_append] at length
        omega
    · intro isNext
      rw [take_of_length_le (by omega)] at holds
      exact ⟨v, opens, .inl holds⟩

end Interrupted

/-! ## Blocks that are too large -/

/-- `unpack` takes bytes from the front and does not look behind them. -/
structure Codec.Sequential (c : Codec β) : Prop where
  within : ∀ bytes b n, c.unpack bytes = some (b, n) → n ≤ bytes.length
  ignores : ∀ bytes rest b n, c.unpack bytes = some (b, n) → c.unpack (bytes ++ rest) = some (b, n)

section Oversized

variable {c : Codec β} {b : β} {bs : List β} {s : BlockLog β}

/-- Of a part of a packed block nothing is unpacked. -/
theorem unpack_take (faithful : c.Faithful) (sequential : c.Sequential) {size : Nat} (part : size < (c.pack b).length)
    (rest : List UInt8) : c.unpack ((c.pack b ++ rest).take size) = none := by
  cases unpacked : c.unpack ((c.pack b ++ rest).take size) with
  | none => rfl
  | some read =>
    have within := sequential.within _ _ _ unpacked
    have whole := sequential.ignores _ ((c.pack b ++ rest).drop size) _ _ unpacked
    rw [take_append_drop, faithful.unpack_pack, some.injEq, Prod.mk.injEq] at whole
    rw [length_take] at within
    omega

/-- A block larger than `STEEMIT_MAX_BLOCK_SIZE` is appended, but not read. -/
theorem readBlockByNum_oversized (faithful : c.Faithful) (sequential : c.Sequential) (number : c.blockNum b = 1)
    (large : maxBlockSize < (c.pack b).length) (short : ending c 0 [b] < 2 ^ 63) :
    ∃ u, Runs c [b] u ∧ u.isOpen = true ∧ u.head = some b ∧ readBlockByNum c u 1 = .error .unpackFailed := by
  have opened : Runs c [] ⟨some [0], some [0], true, none⟩ := .opened .created rfl
  have current : Current c [] ⟨some [0], some [0], true, none⟩ := ⟨rfl, rfl, rfl, rfl⟩
  have run := append_eq current number
  rw [nil_append, if_pos short] at run
  refine ⟨_, .appended opened rfl number run, rfl, rfl, ?_⟩
  have after := (append_current current number run).1
  have positions0 : positions c 0 ([] ++ [b]) = [0] := rfl
  have found : getBlockPos c _ 1 = .ok 0 := after.keeps.getBlockPos (fun pos mem => by
    rw [positions0, mem_singleton] at mem
    omega) (fun last isLast => by cases isLast; exact number) 1
  have size : getMappedSize (layout c 0 [b]) = (c.pack b).length + 8 := by
    rw [getMappedSize_eq] <;> simp [layout]
  have limit : min ((c.pack b).length + 8 - 0) maxBlockSize = maxBlockSize := by omega
  have unpacked : c.unpack (((layout c 0 [b]).drop 0).take maxBlockSize) = none := by
    rw [drop_zero, layout, append_assoc, unpack_take faithful sequential large]
  have fails : readBlock c (layout c 0 [b]) 0 = .error .unpackFailed := by
    rw [readBlock, size, check_of (by omega)]
    simp only [limit, unpacked]
    rfl
  rw [readBlockByNum_of found (by decide)]
  change (readBlock c (layout c 0 [b]) 0 >>= _) = _
  rw [fails]
  rfl

end Oversized

/-! ## Blocks of two numbers -/

/-- As many nonzero bytes as a number says, and a zero. -/
def unary (n : Nat) : List UInt8 := replicate n 1 ++ [0]

def readUnary : List UInt8 → Option (Nat × List UInt8)
  | [] => none
  | byte :: bytes => if byte = 0 then some (0, bytes) else (readUnary bytes).map fun read => (read.1 + 1, read.2)

/-- Blocks that are a number and a weight, both packed in unary. -/
def unaryCodec : Codec (Nat × Nat) where
  blockNum b := b.1
  pack b := unary b.1 ++ unary b.2
  unpack bytes := (readUnary bytes).bind fun first => (readUnary first.2).map fun second =>
    ((first.1, second.1), first.1 + 1 + (second.1 + 1))

theorem readUnary_unary (n : Nat) (rest : List UInt8) : readUnary (unary n ++ rest) = some (n, rest) := by
  induction n with
  | zero => rfl
  | succ n ih =>
    simp only [unary, append_assoc] at ih ⊢
    rw [replicate_succ, cons_append, readUnary, if_neg (by decide), ih]
    rfl

theorem readUnary_append {bytes left : List UInt8} {n : Nat} (rest : List UInt8)
    (read : readUnary bytes = some (n, left)) :
    bytes.length = n + 1 + left.length ∧ readUnary (bytes ++ rest) = some (n, left ++ rest) := by
  induction bytes generalizing n with
  | nil => cases read
  | cons byte bytes ih =>
    rw [readUnary] at read
    rw [cons_append, readUnary]
    by_cases zero : byte = 0
    · rw [if_pos zero] at read ⊢
      cases read
      simp
      omega
    · rw [if_neg zero] at read ⊢
      obtain ⟨⟨m, left'⟩, found, same⟩ := map_eq_some_iff.mp read
      cases same
      obtain ⟨length, longer⟩ := ih found
      rw [longer, length_cons]
      exact ⟨by omega, rfl⟩

theorem unaryCodec_faithful : unaryCodec.Faithful := by
  refine ⟨fun b rest => ?_⟩
  simp only [unaryCodec, append_assoc, readUnary_unary, bind_some]
  simp [unary]
  omega

theorem unaryCodec_sequential : unaryCodec.Sequential := by
  constructor
  · intro bytes b n unpacked
    obtain ⟨first, read, unpacked⟩ := bind_eq_some_iff.mp unpacked
    obtain ⟨second, read', same⟩ := map_eq_some_iff.mp unpacked
    cases same
    have length := (readUnary_append [] read).1
    have length' := (readUnary_append [] read').1
    omega
  · intro bytes rest b n unpacked
    obtain ⟨first, read, unpacked⟩ := bind_eq_some_iff.mp unpacked
    obtain ⟨second, read', same⟩ := map_eq_some_iff.mp unpacked
    cases same
    simp only [unaryCodec, (readUnary_append rest read).2, (readUnary_append rest read').2, bind_some, map_some]

theorem length_pack_unaryCodec (k n : Nat) : (unaryCodec.pack (k, n)).length = k + n + 2 := by
  simp [unaryCodec, unary]
  omega

theorem storable_unary : Storable unaryCodec [(1, 3), (2, 5)] := by
  refine ⟨by decide, by decide, fun i b found => ?_⟩
  match i with
  | 0 => cases found; rfl
  | 1 => cases found; rfl
  | i + 2 => cases found

/-- A log of two blocks that is opened again without its index. -/
theorem round_trip_unary : ∃ s u, Runs unaryCodec [(1, 3), (2, 5)] s ∧ s.indexFile = none ∧
    openLog unaryCodec s = .ok u ∧ Holds unaryCodec [(1, 3), (2, 5)] u := by
  obtain ⟨s, runs, _⟩ := storable_unary.exists_current
  have lost := Runs.indexLost (.closed runs) rfl
  obtain ⟨u, run, holds⟩ := (round_trip unaryCodec_faithful lost storable_unary.small).1
  exact ⟨_, u, lost, rfl, run, holds⟩

/-- The first block has one byte more than is read. -/
theorem round_trip_oversized : unaryCodec.Faithful ∧ ∃ u, Runs unaryCodec [(1, maxBlockSize)] u ∧ u.isOpen = true ∧
      u.head = some (1, maxBlockSize) ∧ readBlockByNum unaryCodec u 1 = .error .unpackFailed := by
  refine ⟨unaryCodec_faithful, readBlockByNum_oversized unaryCodec_faithful unaryCodec_sequential rfl ?_ ?_⟩
  · rw [length_pack_unaryCodec]
    omega
  · rw [ending, ending, room, length_pack_unaryCodec, maxBlockSize]
    omega

/-- What is left when the log file has grown for a block and nothing has been written yet. -/
def unwritten (bs : List (Nat × Nat)) (b : Nat × Nat) : BlockLog (Nat × Nat) where
  blockFile := some (layout unaryCodec 0 bs ++ replicate (room unaryCodec b) 0)
  indexFile := some (table (positions unaryCodec 0 bs))

theorem interrupted_unwritten {bs : List (Nat × Nat)} {b : Nat × Nat} {s u : BlockLog (Nat × Nat)}
    (nonempty : bs ≠ []) (current : Current unaryCodec bs s) (number : unaryCodec.blockNum b = bs.length + 1)
    (run : append unaryCodec b s = .ok (pos, u)) : Interrupted s u (unwritten bs b) := by
  have after := (append_current current number run).1
  have length : (layout unaryCodec 0 bs).length = ending unaryCodec 0 bs := by
    have length := @length_layout _ unaryCodec bs 0
    omega
  have total : (layout unaryCodec 0 (bs ++ [b])).length = ending unaryCodec 0 bs + room unaryCodec b :=
    length_layout_append
  have table_ne_nil : table (positions unaryCodec 0 bs) ≠ [] := by
    apply ne_nil_of_length_pos
    have count := length_pos_of_ne_nil nonempty
    rw [length_table, length_positions]
    omega
  refine ⟨rfl, rfl, ⟨_, _, _, current.block, after.block, rfl, ?_⟩, ⟨_, _, _, current.index, after.index, rfl, ?_⟩⟩
  · have torn := @Torn.grown (stored (layout unaryCodec 0 bs)) (layout unaryCodec 0 (bs ++ [b]))
      (ending unaryCodec 0 bs) (by rw [getMappedSize_stored layout_whole, length])
    have front : (layout unaryCodec 0 (bs ++ [b])).take (ending unaryCodec 0 bs) = layout unaryCodec 0 bs := by
      rw [layout_append, take_left' length]
    have rest : ending unaryCodec 0 bs + room unaryCodec b - ending unaryCodec 0 bs = room unaryCodec b := by omega
    rw [front, total, rest] at torn
    rw [@stored_eq (layout unaryCodec 0 (bs ++ [b])) layout_ne_nil]
    exact torn
  · have torn := @Torn.untouched (stored (table (positions unaryCodec 0 bs)))
      (stored (table (positions unaryCodec 0 (bs ++ [b]))))
    rw [stored_eq table_ne_nil] at torn ⊢
    exact torn

/-- With one block in the log nothing is lost: the last word is zero, its position. -/
theorem interrupted_first : ∃ s u, Runs unaryCodec [(1, 3)] s ∧ append unaryCodec (2, 5) s = .ok (14, u) ∧
    Interrupted s u (unwritten [(1, 3)] (2, 5)) ∧ Recovers unaryCodec [(1, 3)] (2, 5) (unwritten [(1, 3)] (2, 5)) := by
  obtain ⟨s, runs, current⟩ := (storable_unary.take 1).exists_current
  have run := append_eq (b := (2, 5)) current rfl
  rw [if_pos (by decide)] at run
  have interrupted := interrupted_unwritten (cons_ne_nil _ _) current rfl run
  refine ⟨s, _, runs, run, interrupted, ?_⟩
  exact ((interrupted_iff unaryCodec_faithful runs current.isOpen rfl (by decide) run interrupted).2 0 0 _ rfl rfl
    (by decide)).mpr rfl

/-- With two blocks the first one becomes the head. -/
theorem interrupted_loses_block : ∃ s u v, Runs unaryCodec [(1, 3), (2, 5)] s ∧
    append unaryCodec (3, 7) s = .ok (31, u) ∧ Interrupted s u (unwritten [(1, 3), (2, 5)] (3, 7)) ∧
    openLog unaryCodec (unwritten [(1, 3), (2, 5)] (3, 7)) = .ok v ∧ v.head = some (1, 3) ∧
    ¬Recovers unaryCodec [(1, 3), (2, 5)] (3, 7) (unwritten [(1, 3), (2, 5)] (3, 7)) := by
  obtain ⟨s, runs, current⟩ := storable_unary.exists_current
  have run := append_eq (b := (3, 7)) current rfl
  have interrupted := interrupted_unwritten (cons_ne_nil _ _) current rfl run
  have opens : openLog unaryCodec (unwritten [(1, 3), (2, 5)] (3, 7)) = .ok
      ⟨(unwritten [(1, 3), (2, 5)] (3, 7)).blockFile, some (word 0), true, some (1, 3)⟩ := rfl
  refine ⟨s, _, _, runs, run, interrupted, opens, rfl, ?_⟩
  rintro ⟨v, opens', recovered⟩
  rw [opens, Except.ok.injEq] at opens'
  subst opens'
  rcases recovered with recovered | recovered
  · exact absurd recovered.head (by decide)
  · exact absurd recovered.head (by decide)

end Golos.Log
