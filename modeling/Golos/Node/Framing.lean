import Golos.Lib.Bytes

/-! # Messages on a connection

`send_message` writes a message with its header, filled up to a multiple of 16 bytes; `read_loop` reads
16 bytes and from the size in them computes how many are left.  The socket is a stream of bytes that
arrive as they were written.
-/

namespace Golos.Framing

open Bytes List

/-- `message` with its `message_header` -/
structure Message where
  size : UInt32
  msgType : UInt32
  data : List UInt8

def maxMessageSize : Nat := 1024 * 1024 * 2

/-- The first bytes of a `message` in memory. -/
def Message.header (m : Message) : List UInt8 := bytesOf 4 m.size.toNat ++ bytesOf 4 m.msgType.toNat

def Message.sizeWithPadding (m : Message) : Nat := 16 * ((8 + m.size.toNat + 15) / 16)

/-- What `send_message` writes.  `padded` is the buffer as it was allocated, with anything in it. -/
def sendMessage (padded : List UInt8) (m : Message) : List UInt8 :=
  m.header ++ m.data.take m.size.toNat ++ padded.drop (8 + m.size.toNat)

inductive ReadError where
  | eof
  | tooLarge

def read (count : Nat) (stream : List UInt8) : Except ReadError (List UInt8 × List UInt8) :=
  if count ≤ stream.length then .ok (stream.take count, stream.drop count) else .error .eof

/-- `16 * ((m.size - LEFTOVER + 15) / 16)`, in 32 bits without a sign -/
def remainingBytesWithPadding (size : UInt32) : Nat := (16 * ((size - 8 + 15) / 16)).toNat

/-- The second `read` of a round, which is left out if there is nothing to read. -/
def readRemaining (remaining : Nat) (stream : List UInt8) : Except ReadError (List UInt8 × List UInt8) :=
  if remaining ≠ 0 then read remaining stream else .ok ([], stream)

/-- One round of `read_loop` -/
def readMessage (stream : List UInt8) : Except ReadError (Message × List UInt8) := do
  let (buffer, stream) ← read 16 stream
  let size := UInt32.ofNat (valueOf (buffer.take 4))
  let msgType := UInt32.ofNat (valueOf ((buffer.drop 4).take 4))
  if maxMessageSize < size.toNat then throw .tooLarge
  else do
    let (rest, stream) ← readRemaining (remainingBytesWithPadding size) stream
    pure (⟨size, msgType, (buffer.drop 8 ++ rest).take size.toNat⟩, stream)

/-- The first rounds of `read_loop`: the messages handed on, and what is left of the stream. -/
def readLoop : Nat → List UInt8 → Except ReadError (List Message × List UInt8)
  | 0, stream => pure ([], stream)
  | rounds + 1, stream => do
    let (m, stream) ← readMessage stream
    let (ms, stream) ← readLoop rounds stream
    pure (m :: ms, stream)

/-- A message and the buffer it is sent in. -/
structure Sendable (m : Message) (padded : List UInt8) : Prop where
  size : m.size.toNat = m.data.length
  small : m.size.toNat ≤ maxMessageSize
  padded : padded.length = m.sizeWithPadding

variable {m : Message} {padded rest : List UInt8}

theorem read_append {front : List UInt8} {count : Nat} (length : front.length = count) :
    read count (front ++ rest) = .ok (front, rest) := by
  rw [read, if_pos (by rw [length_append]; omega), take_left' length, drop_left' length]

/-- Sender and receiver agree on the length, also where the receiver's subtraction wraps. -/
theorem remaining_eq (small : m.size.toNat ≤ maxMessageSize) :
    remainingBytesWithPadding m.size + 16 = m.sizeWithPadding := by
  have sum : (m.size - 8 + 15).toNat = m.size.toNat + 7 := by
    have wrapped : m.size - 8 + 15 = m.size + 7 := by grind
    rw [wrapped, UInt32.toNat_add]
    exact Nat.mod_eq_of_lt (by unfold maxMessageSize at small; simp; omega)
  have product : (16 * ((m.size - 8 + 15) / 16)).toNat = 16 * ((m.size.toNat + 7) / 16) := by
    rw [UInt32.toNat_mul, UInt32.toNat_div, sum]
    exact Nat.mod_eq_of_lt (by unfold maxMessageSize at small; simp; omega)
  rw [remainingBytesWithPadding, product, Message.sizeWithPadding]
  omega

theorem ofNat_bytesOf (word : UInt32) : UInt32.ofNat (valueOf (bytesOf 4 word.toNat)) = word := by
  rw [valueOf_bytesOf, Nat.mod_eq_of_lt (by simpa using word.toNat_lt), UInt32.ofNat_toNat]

theorem length_sendMessage (sendable : Sendable m padded) : (sendMessage padded m).length = m.sizeWithPadding := by
  have length := sendable.padded
  have size := sendable.size
  simp only [sendMessage, Message.header, length_append, length_bytesOf, length_take, length_drop, length]
  unfold Message.sizeWithPadding
  omega

/-- A message is read back, and nothing after it. -/
theorem readMessage_sendMessage (sendable : Sendable m padded) :
    readMessage (sendMessage padded m ++ rest) = .ok (m, rest) := by
  have total := length_sendMessage sendable
  have remaining := remaining_eq sendable.small
  obtain ⟨front, back, split, sixteen⟩ : ∃ front back, sendMessage padded m = front ++ back ∧ front.length = 16 :=
    ⟨_, _, (take_append_drop 16 _).symm, by rw [length_take]; omega⟩
  have left : back.length = remainingBytesWithPadding m.size := by
    rw [split, length_append] at total
    omega
  -- the header is in the first 16 bytes, the data follows it
  have header : front.take 8 = m.header := by
    have first := congrArg (take 8) split
    rwa [take_append_of_le_length (by omega), sendMessage, append_assoc,
      take_left' (by simp [Message.header]), eq_comm] at first
  have data : (front.drop 8 ++ back).take m.size.toNat = m.data := by
    have second := congrArg (drop 8) split
    rw [drop_append_of_le_length (by omega), sendMessage, append_assoc,
      drop_left' (by simp [Message.header])] at second
    rw [← second, take_left' (by rw [length_take, sendable.size]; omega), sendable.size, take_length]
  have size : front.take 4 = bytesOf 4 m.size.toNat := by
    have word := congrArg (take 4) header
    rwa [take_take, Message.header, take_left' (length_bytesOf 4 _)] at word
  have msgType : (front.drop 4).take 4 = bytesOf 4 m.msgType.toNat := by
    have word := congrArg (drop 4) header
    rwa [drop_take, Message.header, drop_left' (length_bytesOf 4 _)] at word
  have others : readRemaining (remainingBytesWithPadding m.size) (back ++ rest) = .ok (back, rest) := by
    unfold readRemaining
    split
    · exact read_append left
    · obtain rfl : back = [] := length_eq_zero_iff.mp (by omega)
      rfl
  unfold readMessage
  rw [split, append_assoc, read_append sixteen]
  show (if maxMessageSize < (UInt32.ofNat (valueOf (front.take 4))).toNat then _ else _) = _
  rw [size, ofNat_bytesOf, msgType, ofNat_bytesOf, if_neg (not_lt.mpr sendable.small), others]
  show Except.ok (_, rest) = _
  rw [data]

/-- What consecutive calls of `send_message` write. -/
def sendMessages (sent : List (Message × List UInt8)) : List UInt8 := sent.flatMap fun e => sendMessage e.2 e.1

/-- Any messages are read as they were sent.  After each of them the reader is where the writer was, and after the last
it waits for more. -/
theorem messages_framed (sent : List (Message × List UInt8)) (sendable : ∀ e ∈ sent, Sendable e.1 e.2) :
    (∀ k ≤ sent.length, ∀ rest, readLoop k (sendMessages sent ++ rest) =
      .ok ((sent.take k).map Prod.fst, sendMessages (sent.drop k) ++ rest)) ∧
    readLoop (sent.length + 1) (sendMessages sent) = .error .eof := by
  induction sent with
  | nil =>
    refine ⟨fun k none rest => ?_, rfl⟩
    obtain rfl : k = 0 := Nat.le_zero.mp none
    rfl
  | cons e sent ih =>
    obtain ⟨first, others⟩ := forall_mem_cons.mp sendable
    obtain ⟨reads, ends⟩ := ih others
    have step (rounds : Nat) (rest : List UInt8) : readLoop (rounds + 1) (sendMessages (e :: sent) ++ rest) = (do
        let (ms, stream) ← readLoop rounds (sendMessages sent ++ rest)
        pure (e.1 :: ms, stream)) := by
      rw [readLoop, sendMessages, flatMap_cons, append_assoc, readMessage_sendMessage first]
      rfl
    constructor
    · intro k inside rest
      cases k with
      | zero => rfl
      | succ k =>
        rw [step, reads k (by simpa using inside)]
        rfl
    · have last := step (sent.length + 1) []
      rw [append_nil, append_nil, ends] at last
      exact last

/-- An empty message and one of nine bytes. -/
theorem messages_framed_short :
    let sent : List (Message × List UInt8) :=
      [(⟨0, 7, []⟩, replicate 16 1), (⟨9, 8, replicate 9 5⟩, replicate 32 2)]
    readLoop 2 (sendMessages sent) = .ok (sent.map Prod.fst, []) := by
  intro sent
  have sendable : ∀ e ∈ sent, Sendable e.1 e.2 := by
    intro e member
    simp only [sent, mem_cons, not_mem_nil, or_false] at member
    rcases member with rfl | rfl
    · exact ⟨rfl, by decide, rfl⟩
    · exact ⟨rfl, by decide, rfl⟩
  have framed := (messages_framed sent sendable).1 2 (Nat.le_refl _) []
  rwa [append_nil] at framed

end Golos.Framing
