import Golos.Lib.Bytes

/-! # The block log

Irreversible blocks are kept in two files.  The log holds the packed blocks, each followed by the
position it starts at; the index holds the positions alone.  The log is found again by its last
word, which is the position of the head.

The packing of a block belongs to a library of its own, so it is a parameter here, and what is
assumed of it is `Codec.Faithful`.  A mapped file has the contents of the file.

* `Log.round_trip` — what was appended is what is read, whatever happens to the index in between;
* `Log.interrupted_iff` — which interrupted appends the next `open` survives.
-/

namespace Golos.Log

open Bytes List

variable {condition : Prop} {e : LogError} {α γ : Type} {pos : Nat}

abbrev File := List UInt8

/-- What the log uses of a block: its number, and how it is packed and unpacked.  `unpack` gives the
block and the number of bytes it took, or throws. -/
structure Codec (β : Type) where
  blockNum : β → Nat
  pack : β → List UInt8
  unpack : List UInt8 → Option (β × Nat)

structure Codec.Faithful {β : Type} (c : Codec β) : Prop where
  unpack_pack : ∀ b rest, c.unpack (c.pack b ++ rest) = some (b, (c.pack b).length)

inductive LogError where
  | readingDataBeyondEndOfFile
  | wrongPositionMarkerWasRead
  | wrongBlockNumWasRead
  | appendIndexFileAtWrongPosition
  | unpackFailed
  | resizeFailed
  | indexOverrun
  | scanDoesNotEnd
deriving DecidableEq, Repr

def check (condition : Prop) [Decidable condition] (e : LogError) : Except LogError Unit :=
  if condition then .ok () else .error e

/-- `block_log_impl` with the two files at its paths. -/
structure BlockLog (β : Type) where
  blockFile : Option File := none
  indexFile : Option File := none
  isOpen : Bool := false
  head : Option β := none

section Model

variable {β : Type}

namespace BlockLog

def blockMapped (s : BlockLog β) : File := if s.isOpen then s.blockFile.getD [] else []

def indexMapped (s : BlockLog β) : File := if s.isOpen then s.indexFile.getD [] else []

end BlockLog

def hasBlockRecords (file : File) : Bool := 8 < file.length

def hasIndexRecords (file : File) : Bool := 8 ≤ file.length

def getMappedSize (file : File) : Nat := if file.length < 8 then 0 else file.length

def getUint64 (file : File) (pos : Nat) : Except LogError Nat := do
  check (pos + 8 ≤ getMappedSize file) .readingDataBeyondEndOfFile
  pure (wordAt file pos)

def getLastUint64 (file : File) : Except LogError Nat := do
  check (8 ≤ getMappedSize file) .readingDataBeyondEndOfFile
  pure (wordAt file (getMappedSize file - 8))

/-- `block_log::npos` -/
def npos : Nat := 2 ^ 64 - 1

/-- `STEEMIT_MAX_BLOCK_SIZE` -/
def maxBlockSize : Nat := 1024 * 64 * 3 * 2000

variable (c : Codec β)

def getBlockPos (s : BlockLog β) (blockNum : Nat) : Except LogError Nat :=
  match s.head with
  | some head =>
    if blockNum ≤ c.blockNum head ∧ 0 < blockNum then getUint64 s.indexMapped (8 * (blockNum - 1))
    else pure npos
  | none => pure npos

/-- `read_block`: the block at a position and the position behind it. -/
def readBlock (file : File) (pos : Nat) : Except LogError (β × Nat) := do
  check (pos < getMappedSize file) .readingDataBeyondEndOfFile
  let availableSize := getMappedSize file - pos
  match c.unpack ((file.drop pos).take (min availableSize maxBlockSize)) with
  | none => .error .unpackFailed
  | some (block, consumed) =>
    let blockPos ← getUint64 file (pos + consumed)
    check (blockPos = pos) .wrongPositionMarkerWasRead
    pure (block, pos + consumed + 8)

def readHead (file : File) : Except LogError β := do
  let pos ← getLastUint64 file
  let read ← readBlock c file pos
  pure read.1

def createNonexistFile : Option File → File
  | none | some [] => [0]
  | some file => file

/-- `mapped_file::resize`; a file has less than 2^63 bytes. -/
def resize (s : BlockLog β) (file : File) (size : Nat) : Except LogError File := do
  check (s.isOpen = true ∧ size < 2 ^ 63) .resizeFailed
  pure (file.take size ++ replicate (size - file.length) 0)

def write (file : File) (pos : Nat) (bytes : List UInt8) : File :=
  file.take pos ++ bytes ++ file.drop (pos + bytes.length)

/-- The loop of `construct_index`: the positions it writes. -/
def scan (file : File) (endPos : Nat) : (fuel : Nat) → (pos : Nat) → Except LogError (List Nat)
  | 0, _ => .error .scanDoesNotEnd
  | fuel + 1, pos =>
    if pos ≤ endPos then do
      let read ← readBlock c file pos
      let more ← scan file endPos fuel read.2
      pure (pos :: more)
    else pure []

/-- `construct_index`.  Positions behind the end of the new index would be written outside of it. -/
def constructIndex (s : BlockLog β) : Except LogError (BlockLog β) := do
  let index ← resize s [0] (8 * (s.head.elim 0 c.blockNum))
  let endPos ← getLastUint64 s.blockMapped
  let positions ← scan c s.blockMapped endPos (endPos + 2) 0
  check ((table positions).length ≤ index.length) .indexOverrun
  pure { s with indexFile := some (write index 0 (table positions)) }

def openLog (s : BlockLog β) : Except LogError (BlockLog β) := do
  let block := createNonexistFile s.blockFile
  let index := createNonexistFile s.indexFile
  let s := { s with blockFile := some block, indexFile := some index, isOpen := true }
  if hasBlockRecords block then
    let head ← readHead c block
    let s := { s with head := some head }
    if hasIndexRecords index then
      let blockPos ← getLastUint64 block
      let indexPos ← getLastUint64 index
      if blockPos ≠ indexPos then constructIndex c s else pure s
    else constructIndex c s
  else if hasIndexRecords index then
    -- both files are removed and created again
    pure { s with blockFile := some (createNonexistFile none), indexFile := some (createNonexistFile none) }
  else pure s

def append (b : β) (s : BlockLog β) : Except LogError (Nat × BlockLog β) := do
  let data := c.pack b
  let indexPos := getMappedSize s.indexMapped
  check (indexPos + 8 = 8 * c.blockNum b) .appendIndexFileAtWrongPosition
  let blockPos := getMappedSize s.blockMapped
  let block ← resize s s.blockMapped (blockPos + data.length + 8)
  let block := write block blockPos data
  let block := write block (blockPos + data.length) (word blockPos)
  let index ← resize s s.indexMapped (indexPos + 8)
  let index := write index indexPos (word blockPos)
  pure (blockPos, { s with blockFile := some block, indexFile := some index, head := some b })

def close (s : BlockLog β) : BlockLog β := { s with isOpen := false, head := none }

def readBlockByNum (s : BlockLog β) (blockNum : Nat) : Except LogError (Option β) := do
  let pos ← getBlockPos c s blockNum
  if pos ≠ npos then
    let read ← readBlock c s.blockMapped pos
    check (c.blockNum read.1 = blockNum) .wrongBlockNumWasRead
    pure (some read.1)
  else pure none

end Model

/-! ## Reading back -/

section Reading

variable {β : Type} {c : Codec β} {b : β} {bs : List β} {file front back : File} {pos start : Nat}

@[simp] theorem check_eq_ok [Decidable condition] : check condition e = .ok () ↔ condition := by
  by_cases holds : condition <;> simp [check]

theorem check_of [Decidable condition] (holds : condition) : check condition e = .ok () := check_eq_ok.mpr holds

theorem getMappedSize_eq (large : 8 ≤ file.length) : getMappedSize file = file.length := by
  simp [getMappedSize]; omega

theorem getUint64_eq (inside : pos + 8 ≤ file.length) : getUint64 file pos = .ok (wordAt file pos) := by
  have large : getMappedSize file = file.length := getMappedSize_eq (by omega)
  rw [getUint64, large, check_of inside]
  rfl

theorem getLastUint64_eq (large : 8 ≤ file.length) : getLastUint64 file = .ok (wordAt file (file.length - 8)) := by
  rw [getLastUint64, getMappedSize_eq large, check_of large]
  rfl

variable (c) in
/-- The bytes a block takes in the log. -/
def room (b : β) : Nat := (c.pack b).length + 8

variable (c) in
/-- The blocks as they stand in the log from a position on. -/
def layout : (start : Nat) → List β → File
  | _, [] => []
  | start, b :: bs => c.pack b ++ word start ++ layout (start + room c b) bs

variable (c) in
/-- Where they start. -/
def positions : (start : Nat) → List β → List Nat
  | _, [] => []
  | start, b :: bs => start :: positions (start + room c b) bs

variable (c) in
/-- Where they end. -/
def ending : (start : Nat) → List β → Nat
  | start, [] => start
  | start, b :: bs => ending (start + room c b) bs

@[simp] theorem length_positions : (positions c start bs).length = bs.length := by
  induction bs generalizing start with
  | nil => rfl
  | cons b bs ih => simp [positions, ih]

theorem length_layout : start + (layout c start bs).length = ending c start bs := by
  induction bs generalizing start with
  | nil => rfl
  | cons b bs ih =>
    have rest := @ih (start + room c b)
    simp only [layout, ending, length_append, length_word, room] at rest ⊢
    omega

theorem layout_append (as : List β) : layout c start (as ++ bs) =
    layout c start as ++ layout c (ending c start as) bs := by
  induction as generalizing start with
  | nil => rfl
  | cons a as ih => simp [layout, ending, ih]

theorem positions_append (as : List β) :
    positions c start (as ++ bs) = positions c start as ++ positions c (ending c start as) bs := by
  induction as generalizing start with
  | nil => rfl
  | cons a as ih => simp [positions, ending, ih]

theorem ending_append (as : List β) : ending c start (as ++ bs) = ending c (ending c start as) bs := by
  induction as generalizing start with
  | nil => rfl
  | cons a as ih => simp [ending, ih]

theorem start_le_ending : start + 8 * bs.length ≤ ending c start bs := by
  induction bs generalizing start with
  | nil => simp [ending]
  | cons b bs ih =>
    have rest := @ih (start + room c b)
    simp only [ending, length_cons, room] at rest ⊢
    omega

theorem le_of_mem_positions (mem : pos ∈ positions c start bs) : start ≤ pos ∧ pos + 8 ≤ ending c start bs := by
  induction bs generalizing start with
  | nil => cases mem
  | cons b bs ih =>
    have room8 : 8 ≤ room c b := by simp [room]
    have rest := @start_le_ending β c bs (start + room c b)
    simp only [ending]
    rcases mem_cons.mp mem with rfl | mem
    · omega
    · have later := ih mem
      omega

/-- A block is read where it stands. -/
theorem readBlock_at (faithful : c.Faithful) (small : (c.pack b).length ≤ maxBlockSize) (fits : front.length < 2 ^ 64) :
    readBlock c (front ++ c.pack b ++ word front.length ++ back) front.length = .ok (b, front.length + room c b) := by
  have length : (front ++ c.pack b ++ word front.length ++ back).length =
      front.length + (c.pack b).length + 8 + back.length := by
    simp only [length_append, length_word]
  have size : getMappedSize (front ++ c.pack b ++ word front.length ++ back) =
      front.length + (c.pack b).length + 8 + back.length := by
    rw [getMappedSize_eq (by omega), length]
  -- the bytes that are unpacked begin with all of the block
  have given : ∃ rest, ((front ++ c.pack b ++ word front.length ++ back).drop front.length).take
      (min (front.length + (c.pack b).length + 8 + back.length - front.length) maxBlockSize) = c.pack b ++ rest := by
    rw [append_assoc, append_assoc, drop_left, take_append,
      take_of_length_le (by omega)]
    exact ⟨_, rfl⟩
  obtain ⟨rest, given⟩ := given
  have marker : getUint64 (front ++ c.pack b ++ word front.length ++ back) (front.length + (c.pack b).length) =
      .ok front.length := by
    have there := @wordAt_append (front ++ c.pack b) back front.length fits
    rw [length_append] at there
    rw [getUint64_eq (by omega), there]
  rw [readBlock, size, check_of (by omega)]
  simp only [given, faithful.unpack_pack]
  rw [marker]
  change (check _ _ >>= _) = _
  rw [check_of rfl]
  rfl

theorem readBlock_within {as : List β} (faithful : c.Faithful) (small : (c.pack b).length ≤ maxBlockSize)
    (fits : ending c 0 as < 2 ^ 64) :
    readBlock c (layout c 0 (as ++ b :: bs) ++ back) (ending c 0 as) = .ok (b, ending c 0 (as ++ [b])) := by
  have before : (layout c 0 as).length = ending c 0 as := by
    have length := @length_layout β c as 0
    omega
  have there := @readBlock_at β c b (layout c 0 as) (layout c (ending c 0 as + room c b) bs ++ back) faithful small
    (before ▸ fits)
  rw [before] at there
  rw [layout_append, layout, ending_append]
  simp only [append_assoc] at there ⊢
  exact there

/-- The scan of a log stops behind the block the last word leads to. -/
theorem scan_layout {as : List β} {endPos fuel : Nat} (faithful : c.Faithful)
    (small : ∀ b ∈ bs, (c.pack b).length ≤ maxBlockSize) (fits : ending c 0 (as ++ bs) < 2 ^ 64)
    (reached : ∀ pos ∈ positions c (ending c 0 as) bs, pos ≤ endPos) (stops : endPos < ending c 0 (as ++ bs))
    (enough : bs.length < fuel) :
    scan c (layout c 0 (as ++ bs) ++ back) endPos fuel (ending c 0 as) = .ok (positions c (ending c 0 as) bs) := by
  induction bs generalizing as fuel with
  | nil =>
    cases fuel with
    | zero => cases enough
    | succ fuel =>
      rw [append_nil] at stops
      rw [scan, if_neg (by omega)]
      rfl
  | cons b bs ih =>
    cases fuel with
    | zero => cases enough
    | succ fuel =>
      have first : ending c 0 as ≤ endPos := reached _ mem_cons_self
      have read := @readBlock_within β c b bs back as faithful (small b mem_cons_self) (by omega)
      have next : ending c 0 (as ++ [b]) = ending c 0 as + room c b := by rw [ending_append]; rfl
      have together : as ++ b :: bs = as ++ [b] ++ bs := by simp
      have rest : scan c (layout c 0 (as ++ b :: bs) ++ back) endPos fuel (ending c 0 (as ++ [b])) =
          .ok (positions c (ending c 0 (as ++ [b])) bs) := by
        rw [together] at fits stops ⊢
        refine ih (fun b' mem => small b' (mem_cons_of_mem _ mem)) fits (fun pos mem => ?_) stops
          (by simpa using enough)
        rw [next] at mem
        exact reached pos (mem_cons_of_mem _ mem)
      rw [scan, if_pos first, read]
      change (scan c _ _ _ _ >>= _) = _
      rw [rest, next]
      rfl

end Reading

/-! ## A log that holds some blocks -/

variable {β : Type}

/-- The blocks can be stored: none is larger than `read_block` reads, and they fit into a file. -/
structure Storable (c : Codec β) (bs : List β) : Prop where
  small : ∀ b ∈ bs, (c.pack b).length ≤ maxBlockSize
  short : ending c 0 bs < 2 ^ 63
  numbered : ∀ i b, bs[i]? = some b → c.blockNum b = i + 1

/-- An open log in which the blocks are found.  Both files may go on behind them. -/
structure Keeps (c : Codec β) (bs : List β) (u : BlockLog β) : Prop where
  isOpen : u.isOpen = true
  head : u.head = bs.getLast?
  block : ∃ back, u.blockFile = some (layout c 0 bs ++ back)
  index : ∃ back, u.indexFile = some (table (positions c 0 bs) ++ back)

/-- The log answers with these blocks. -/
structure Holds (c : Codec β) (bs : List β) (u : BlockLog β) : Prop where
  head : u.head = bs.getLast?
  reads : ∀ k, readBlockByNum c u k = .ok (if k = 0 then none else bs[k - 1]?)

section Keeping

variable {c : Codec β} {b : β} {bs as : List β} {s u : BlockLog β} {back index : File}

theorem Storable.fits (storable : Storable c bs) (mem : pos ∈ positions c 0 bs) : pos < 2 ^ 64 := by
  have inside := le_of_mem_positions mem
  have short := storable.short
  omega

theorem getElem?_positions (listed : as.length < bs.length) (isPrefix : as <+: bs) :
    (positions c 0 bs)[as.length]? = some (ending c 0 as) := by
  obtain ⟨rest, rfl⟩ := isPrefix
  cases rest with
  | nil => simp at listed
  | cons b rest => simp [positions_append, positions]

theorem Keeps.blockMapped (keeps : Keeps c bs u) : ∃ back, u.blockMapped = layout c 0 bs ++ back := by
  obtain ⟨back, block⟩ := keeps.block
  exact ⟨back, by simp [BlockLog.blockMapped, keeps.isOpen, block]⟩

theorem Keeps.indexMapped (keeps : Keeps c bs u) : ∃ back, u.indexMapped = table (positions c 0 bs) ++ back := by
  obtain ⟨back, index⟩ := keeps.index
  exact ⟨back, by simp [BlockLog.indexMapped, keeps.isOpen, index]⟩

theorem Storable.blockNum_last (storable : Storable c bs) {last : β} (isLast : bs.getLast? = some last) :
    c.blockNum last = bs.length := by
  rw [getLast?_eq_getElem?] at isLast
  have listed : bs.length - 1 < bs.length := (List.getElem?_eq_some_iff.mp isLast).1
  have numbered := storable.numbered _ _ isLast
  omega

theorem Keeps.getBlockPos (keeps : Keeps c bs u) (fits : ∀ pos ∈ positions c 0 bs, pos < 2 ^ 64)
    (count : ∀ last, bs.getLast? = some last → c.blockNum last = bs.length) (k : Nat) :
    getBlockPos c u k = .ok (if k = 0 then npos else ((positions c 0 bs)[k - 1]?).getD npos) := by
  obtain ⟨back, index⟩ := keeps.indexMapped
  rw [Log.getBlockPos, keeps.head]
  cases isLast : bs.getLast? with
  | none =>
    obtain rfl : bs = [] := getLast?_eq_none_iff.mp isLast
    by_cases zero : k = 0 <;> simp <;> rfl
  | some last =>
    simp only [count last isLast]
    by_cases inside : k ≤ bs.length ∧ 0 < k
    · have listed : k - 1 < (positions c 0 bs).length := by simp; omega
      have there := @wordAt_table (positions c 0 bs) (k - 1) back fits listed
      have length : (table (positions c 0 bs) ++ back).length = 8 * bs.length + back.length := by simp
      rw [if_pos inside, if_neg (by omega), index, getUint64_eq (by omega), there, getElem?_eq_getElem listed]
      rfl
    · rw [if_neg inside]
      by_cases zero : k = 0
      · simp [zero]; rfl
      · rw [if_neg zero, getElem?_eq_none (by simp; omega)]
        rfl

theorem readBlockByNum_of {k : Nat} (found : Log.getBlockPos c u k = .ok pos) (isPos : pos ≠ npos) :
    readBlockByNum c u k = (readBlock c u.blockMapped pos >>= fun read =>
      check (c.blockNum read.1 = k) .wrongBlockNumWasRead >>= fun _ => pure (some read.1)) := by
  rw [readBlockByNum, found]
  exact if_pos isPos

theorem Keeps.holds (faithful : c.Faithful) (storable : Storable c bs) (keeps : Keeps c bs u) : Holds c bs u := by
  refine ⟨keeps.head, fun k => ?_⟩
  obtain ⟨back, block⟩ := keeps.blockMapped
  have found := keeps.getBlockPos (fun _ mem => storable.fits mem) (fun _ => storable.blockNum_last) k
  by_cases zero : k = 0
  · rw [readBlockByNum, found]
    simp [zero]
    rfl
  rw [if_neg zero] at found ⊢
  by_cases listed : k - 1 < bs.length
  · -- the block stands behind those before it
    have isPrefix : bs.take (k - 1) <+: bs := take_prefix _ _
    have length : (bs.take (k - 1)).length = k - 1 := by simp; omega
    have split : bs = bs.take (k - 1) ++ bs[k - 1] :: bs.drop (k - 1 + 1) := by simp
    have isBlock : bs[k - 1]? = some bs[k - 1] := getElem?_eq_getElem listed
    have there := @getElem?_positions β c bs (bs.take (k - 1)) (by omega) isPrefix
    rw [length] at there
    have fits := storable.fits (mem_of_getElem? there)
    have read := @readBlock_within β c bs[k - 1] (bs.drop (k - 1 + 1)) back (bs.take (k - 1)) faithful
      (storable.small _ (getElem_mem listed)) fits
    rw [← split] at read
    have notNpos : ending c 0 (bs.take (k - 1)) ≠ npos := by
      have inside := le_of_mem_positions (mem_of_getElem? there)
      have short := storable.short
      rw [npos]
      omega
    have number : c.blockNum bs[k - 1] = k := by
      have numbered := storable.numbered _ _ isBlock
      omega
    rw [there, Option.getD_some] at found
    rw [readBlockByNum_of found notNpos, block, read, isBlock]
    change (check _ _ >>= _) = _
    rw [check_of number]
    rfl
  · rw [getElem?_eq_none (by simp; omega)] at found
    rw [readBlockByNum, found, getElem?_eq_none (by omega)]
    rfl

/-! ## Opening -/

theorem pack_ne_nil [Nontrivial β] (faithful : c.Faithful) (b : β) : c.pack b ≠ [] := by
  intro empty
  obtain ⟨other, different⟩ := exists_ne b
  have first := faithful.unpack_pack b (c.pack other)
  have second := faithful.unpack_pack other []
  rw [empty, nil_append] at first
  rw [append_nil, first, Option.some.injEq, Prod.mk.injEq] at second
  exact different second.1.symm

theorem resize_eq {file : File} {size : Nat} (isOpen : s.isOpen = true) (short : size < 2 ^ 63) :
    resize s file size = .ok (file.take size ++ replicate (size - file.length) 0) := by
  rw [resize, check_of ⟨isOpen, short⟩]
  rfl

theorem length_layout_append : (layout c 0 (as ++ [b])).length = ending c 0 as + room c b := by
  have length := @length_layout β c (as ++ [b]) 0
  rw [ending_append] at length
  simp only [ending] at length
  omega

theorem createNonexistFile_some {file : File} (nonempty : file ≠ []) : createNonexistFile (some file) = file := by
  cases file with
  | nil => exact absurd rfl nonempty
  | cons byte bytes => rfl

theorem mem_positions_last : ending c 0 as ∈ positions c 0 (as ++ [b]) := by
  rw [positions_append]
  exact mem_append_right _ mem_cons_self

theorem le_positions_last (mem : pos ∈ positions c 0 (as ++ [b])) : pos ≤ ending c 0 as := by
  rw [positions_append] at mem
  rcases mem_append.mp mem with mem | mem
  · have inside := le_of_mem_positions mem
    omega
  · simp only [positions, mem_singleton] at mem
    omega

/-- `construct_index` writes the positions of all blocks up to the one the last word leads to. -/
theorem constructIndex_eq (faithful : c.Faithful) (storable : Storable c (as ++ [b])) (isOpen : s.isOpen = true)
    (head : s.head = some b) (block : s.blockFile = some (layout c 0 (as ++ [b]) ++ back))
    (last : getLastUint64 (layout c 0 (as ++ [b]) ++ back) = .ok (ending c 0 as)) :
    constructIndex c s = .ok { s with indexFile := some (table (positions c 0 (as ++ [b]))) } := by
  have mapped : s.blockMapped = layout c 0 (as ++ [b]) ++ back := by simp [BlockLog.blockMapped, isOpen, block]
  have number : c.blockNum b = as.length + 1 := storable.numbered as.length b (by simp)
  have short := storable.short
  have inside := @start_le_ending β c (as ++ [b]) 0
  have room8 := @start_le_ending β c [b] (ending c 0 as)
  rw [← ending_append] at room8
  simp only [length_append, length_singleton] at inside room8
  have scanned : scan c (layout c 0 (as ++ [b]) ++ back) (ending c 0 as) (ending c 0 as + 2) 0 =
      .ok (positions c 0 (as ++ [b])) := by
    have all := @scan_layout β c (as ++ [b]) back [] (ending c 0 as) (ending c 0 as + 2) faithful storable.small
      (by rw [nil_append]; omega) (fun pos mem => le_positions_last mem) (by rw [nil_append]; omega)
    have count := @start_le_ending β c as 0
    exact all (by simp only [length_append, length_singleton]; omega)
  obtain ⟨index, resized, length⟩ : ∃ index : File, resize s [0] (8 * (as.length + 1)) = .ok index ∧
      index.length = 8 * (as.length + 1) :=
    ⟨_, resize_eq isOpen (by omega), by simp; omega⟩
  have width : (table (positions c 0 (as ++ [b]))).length = index.length := by simp [length]
  have written : write index 0 (table (positions c 0 (as ++ [b]))) = table (positions c 0 (as ++ [b])) := by
    rw [write, width, Nat.zero_add, drop_length]
    simp
  rw [constructIndex, head, Option.elim_some, number, resized, mapped]
  rw [last]
  change (scan _ _ _ _ _ >>= _) = _
  rw [scanned]
  change (check _ _ >>= _) = _
  rw [check_of width.le, written]
  rfl

/-- An index that is kept when the log is opened: its last word is the last word of the log. -/
def KeptIndex (index : File) (pos : Nat) : Prop := hasIndexRecords index = true ∧ getLastUint64 index = .ok pos

/-- Opening a log whose last word leads to the last of some blocks it begins with. -/
theorem openLog_keeps [Nontrivial β] (faithful : c.Faithful) (storable : Storable c (as ++ [b]))
    (block : s.blockFile = some (layout c 0 (as ++ [b]) ++ back))
    (last : getLastUint64 (layout c 0 (as ++ [b]) ++ back) = .ok (ending c 0 as))
    (index : KeptIndex (createNonexistFile s.indexFile) (ending c 0 as) →
      table (positions c 0 (as ++ [b])) <+: createNonexistFile s.indexFile) :
    ∃ u, openLog c s = .ok u ∧ Keeps c (as ++ [b]) u ∧ u.blockFile = s.blockFile ∧
      (¬KeptIndex (createNonexistFile s.indexFile) (ending c 0 as) →
        u.indexFile = some (table (positions c 0 (as ++ [b])))) ∧
      (KeptIndex (createNonexistFile s.indexFile) (ending c 0 as) →
        u.indexFile = some (createNonexistFile s.indexFile)) := by
  have length := @length_layout_append β c b as
  have some8 : 0 < (c.pack b).length := length_pos_of_ne_nil (pack_ne_nil faithful b)
  have long : 8 < (layout c 0 (as ++ [b]) ++ back).length := by
    simp only [length_append, length, room]
    omega
  have created : createNonexistFile s.blockFile = layout c 0 (as ++ [b]) ++ back := by
    rw [block]
    exact createNonexistFile_some (ne_nil_of_length_pos (by omega))
  have records : hasBlockRecords (layout c 0 (as ++ [b]) ++ back) = true := decide_eq_true long
  have fits := storable.fits (@mem_positions_last β c b as)
  have head : readHead c (layout c 0 (as ++ [b]) ++ back) = .ok b := by
    rw [readHead, last]
    change (readBlock _ _ _ >>= _) = _
    rw [@readBlock_within β c b [] back as faithful (storable.small b (by simp)) fits]
    rfl
  -- the log as it is when its index is looked at
  let opened : BlockLog β :=
    ⟨some (layout c 0 (as ++ [b]) ++ back), some (createNonexistFile s.indexFile), true, some b⟩
  have rebuilt := @constructIndex_eq β c b as opened back faithful storable rfl rfl rfl last
  have start : openLog c s = if hasIndexRecords (createNonexistFile s.indexFile) then do
      let indexPos ← getLastUint64 (createNonexistFile s.indexFile)
      if ending c 0 as ≠ indexPos then constructIndex c opened else pure opened
      else constructIndex c opened := by
    rw [openLog]
    simp only [created, records, head]
    rw [last]
    rfl
  have headLast : some b = (as ++ [b]).getLast? := by simp
  by_cases kept : KeptIndex (createNonexistFile s.indexFile) (ending c 0 as)
  · refine ⟨opened, ?_, ⟨rfl, headLast, ⟨back, rfl⟩, ?_⟩, block.symm, fun not => absurd kept not, fun _ => rfl⟩
    · rw [start, kept.1, if_pos rfl, kept.2]
      change (if _ then _ else _) = _
      rw [if_neg (fun different => different rfl)]
      rfl
    · obtain ⟨rest, same⟩ := index kept
      exact ⟨rest, congrArg some same.symm⟩
  · refine ⟨{ opened with indexFile := some (table (positions c 0 (as ++ [b]))) }, ?_,
      ⟨rfl, headLast, ⟨back, rfl⟩, ⟨[], by rw [append_nil]⟩⟩, block.symm, fun _ => rfl, fun is => absurd is kept⟩
    rw [start]
    cases records : hasIndexRecords (createNonexistFile s.indexFile) with
    | false => exact rebuilt
    | true =>
      have large : 8 ≤ (createNonexistFile s.indexFile).length := of_decide_eq_true records
      have word := getLastUint64_eq large
      have different : ending c 0 as ≠ wordAt (createNonexistFile s.indexFile)
        ((createNonexistFile s.indexFile).length - 8) :=
        fun same => kept ⟨records, by rw [word, ← same]⟩
      rw [if_pos rfl, word]
      change (if _ then _ else _) = _
      rw [if_pos different]
      exact rebuilt

/-! ## Appending -/

/-- A file with some contents, as it is created: not empty. -/
def stored (file : File) : File := createNonexistFile (some file)

theorem stored_eq {file : File} (nonempty : file ≠ []) : stored file = file := createNonexistFile_some nonempty

theorem getMappedSize_stored {file : File} (whole : file = [] ∨ 8 ≤ file.length) :
    getMappedSize (stored file) = file.length := by
  rcases whole with rfl | large
  · rfl
  · rw [stored_eq (ne_nil_of_length_pos (by omega)), getMappedSize_eq large]

/-- What is written behind the contents of a file that has been made large enough. -/
theorem write_grown {file more : File} {size : Nat} (enough : size = file.length + more.length) :
    write ((stored file).take size ++ replicate (size - (stored file).length) 0) file.length more = file ++ more := by
  have front : ((stored file).take size ++ replicate (size - (stored file).length) 0).take file.length = file := by
    cases file with
    | nil => rfl
    | cons byte bytes =>
      have all : (byte :: bytes).take size = byte :: bytes := take_of_length_le (by omega)
      rw [stored_eq (cons_ne_nil _ _), all, take_left]
  have length : ((stored file).take size ++ replicate (size - (stored file).length) 0).length = size := by
    simp; omega
  rw [write, front, drop_of_length_le (by omega), append_nil]

theorem write_write {file first second : File} (inside : pos ≤ file.length) :
    write (write file pos first) (pos + first.length) second = write file pos (first ++ second) := by
  have front : (file.take pos ++ first).length = pos + first.length := by simp; omega
  simp only [write]
  rw [take_left' front, ← drop_drop, drop_left' front, drop_drop, length_append]
  simp only [append_assoc, Nat.add_assoc]

/-- A log as it is kept while it is open. -/
structure Current (c : Codec β) (bs : List β) (s : BlockLog β) : Prop where
  isOpen : s.isOpen = true
  head : s.head = bs.getLast?
  block : s.blockFile = some (stored (layout c 0 bs))
  index : s.indexFile = some (stored (table (positions c 0 bs)))

theorem layout_whole : layout c 0 bs = [] ∨ 8 ≤ (layout c 0 bs).length := by
  cases bs with
  | nil => exact .inl rfl
  | cons b bs => simp [layout]; omega

theorem table_whole (words : List Nat) : table words = [] ∨ 8 ≤ (table words).length := by
  cases words with
  | nil => exact .inl rfl
  | cons w words => simp

theorem append_eq (current : Current c bs s) (number : c.blockNum b = bs.length + 1) :
    append c b s = if ending c 0 (bs ++ [b]) < 2 ^ 63 then .ok (ending c 0 bs, { s with
        blockFile := some (layout c 0 (bs ++ [b]))
        indexFile := some (table (positions c 0 (bs ++ [b])))
        head := some b })
      else .error .resizeFailed := by
  have block : s.blockMapped = stored (layout c 0 bs) := by simp [BlockLog.blockMapped, current.isOpen, current.block]
  have index : s.indexMapped = stored (table (positions c 0 bs)) := by
    simp [BlockLog.indexMapped, current.isOpen, current.index]
  have length : (layout c 0 bs).length = ending c 0 bs := by
    have length := @length_layout β c bs 0
    omega
  have whole : ending c 0 (bs ++ [b]) = ending c 0 bs + (c.pack b).length + 8 := by rw [ending_append]; rfl
  rw [append, block, index, getMappedSize_stored layout_whole, getMappedSize_stored (table_whole _), length,
    length_table,
    length_positions, number, check_of (by omega)]
  by_cases short : ending c 0 (bs ++ [b]) < 2 ^ 63
  · have count := @start_le_ending β c (bs ++ [b]) 0
    simp only [length_append, length_singleton] at count
    have first := @resize_eq β s (stored (layout c 0 bs)) (ending c 0 bs + (c.pack b).length + 8) current.isOpen
      (by omega)
    have second := @resize_eq β s (stored (table (positions c 0 bs))) (8 * bs.length + 8) current.isOpen (by omega)
    rw [if_pos short]
    change (resize s _ _ >>= _) = _
    rw [first]
    rw [second]
    change Except.ok (_, _) = _
    rw [write_write, ← length, write_grown (by simp; omega)]
    · have entries : 8 * bs.length = (table (positions c 0 bs)).length := by simp
      rw [entries, write_grown (by simp), layout_append, positions_append, table_append, length]
      simp [layout, positions]
    · rw [length_append, length_take, length_replicate]
      omega
  · rw [if_neg short]
    change (resize s _ _ >>= _) = _
    have fails : resize s (stored (layout c 0 bs)) (ending c 0 bs + (c.pack b).length + 8) = .error .resizeFailed := by
      rw [resize, check, if_neg (by omega)]
      rfl
    rw [fails]
    rfl

theorem append_current (current : Current c bs s) (number : c.blockNum b = bs.length + 1)
    (run : append c b s = .ok (pos, u)) : Current c (bs ++ [b]) u ∧ ending c 0 (bs ++ [b]) < 2 ^ 63 := by
  rw [append_eq current number] at run
  split at run
  next short =>
    cases run
    have nonempty : layout c 0 (bs ++ [b]) ≠ [] ∧ table (positions c 0 (bs ++ [b])) ≠ [] := by
      constructor <;> apply ne_nil_of_length_pos
      · rw [length_layout_append, room]
        omega
      · simp
    refine ⟨⟨current.isOpen, by simp, ?_, ?_⟩, short⟩
    · rw [stored_eq nonempty.1]
    · rw [stored_eq nonempty.2]
  · cases run

end Keeping

end Golos.Log
