import Golos.Chain.Bandwidth
import Golos.Lib.ShiftRegister

/-! # Participation

`recent_slots_filled` takes in one bit for every slot that passes, and `participation_count` counts
its set bits.  For a block after missed slots the set bit is pushed first and the missed slots
after it, so the bit of the block stands where its first missed slot should, and leaves the
register that many slots too early.  The genesis starts with all bits set.

* `participation_exact_iff` — the count is that of the register, and when it is the number of
  blocks in the last 128 slots.
-/

namespace Golos

open Stateful ShiftRegister List

/-! ## The register -/

section Register

variable {h : HeadProperties} {bits : List Bool} {bit : Bool}

/-- The register has taken in these bits, and the count is that of the register. -/
structure HeadProperties.Registers (h : HeadProperties) (bits : List Bool) : Prop where
  filled : Shows h.recentSlotsFilled bits
  counted : h.participationCount = setBits h.recentSlotsFilled

theorem HeadProperties.Registers.fillSlot (registers : h.Registers bits) :
    (h.fillSlot bit).Registers (bit :: bits) := by
  have pushed : (h.fillSlot bit).recentSlotsFilled = h.recentSlotsFilled.shiftConcat bit := shiftLeft_add
  refine ⟨pushed ▸ registers.filled.push, ?_⟩
  rw [pushed, setBits_push (by decide), ← registers.counted]
  rfl

theorem HeadProperties.Registers.fillMissed (registers : h.Registers bits) (missed : Nat) :
    (((range missed).map Nat.succ).foldl (fun h i => h.fillSlot (i == 0)) h).Registers
      (replicate missed false ++ bits) := by
  induction missed with
  | zero => exact registers
  | succ missed ih =>
    rw [range_succ, map_append, foldl_append, replicate_succ, cons_append]
    exact ih.fillSlot

/-- The bit of the block goes in before those of the slots missed ahead of it. -/
theorem HeadProperties.Registers.advance (registers : h.Registers bits) {number : Nat} {id : BlockId} {time : Time}
    {missed size : Nat} :
    (h.advance number id time missed size).Registers (replicate missed false ++ true :: bits) := by
  have first : (h.fillSlot true).Registers (true :: bits) := registers.fillSlot
  have filled := first.fillMissed missed
  rw [HeadProperties.advance, range_succ_eq_map, foldl_cons]
  exact ⟨filled.filled, filled.counted⟩

end Register

/-! ## Along a chain -/

section Chains

variable {net : Network} {line : List Applied} {s : Database} {e : Applied}

/-- The slots missed right before a block. -/
def Applied.missed (e : Applied) : Nat := e.before.missedBefore e.block.timestamp

def pushedBits : List Applied → List Bool
  | [] => []
  | e :: line => replicate e.missed false ++ true :: pushedBits line

theorem registers_genesis {h : HeadProperties} (ones : h.recentSlotsFilled = BitVec.allOnes 128)
    (count : h.participationCount = 128) : h.Registers [] := by
  have all : setBits (BitVec.allOnes 128) = 128 := (@shows_allOnes 128).setBits_eq
  exact ⟨ones ▸ shows_allOnes, by rw [count, ones, all]⟩

theorem Network.initGenesis_head : Ensures s net.initGenesis fun _ t =>
    t.head.Registers [] ∧ t.head.currentAslot = s.head.currentAslot := by
  simp only [Network.initGenesis, modifyHead, modifySupply, modifyRates, modifyHardforks, modifySchedule, ensures_steps]
  intro _ s₁ miners _ s₂ null _ s₃ temp _ s₄ initMiner _ s₅ witness _ t imported
  have kept {m : Eval Unit} {s t : Database} [Touches keepsHead m] (run : m s = .ok ((), t)) :
      t.head = s.head := by
    have frame : Within keepsHead s t := frame_of_run run
    exact frame .head rfl
  have before : s₅.head = s.head := by
    rw [kept witness, kept initMiner, kept temp, kept null, kept miners]
  have after : Within keepsHead _ t := frame_of_run imported
  have same := after .head rfl
  refine ⟨registers_genesis (congrArg HeadProperties.recentSlotsFilled same)
    (congrArg HeadProperties.participationCount same), ?_⟩
  have aslot := congrArg HeadProperties.currentAslot same
  rw [← before]
  exact aslot

theorem applyBlock_aslot {b : Block} {t : Database} (run : net.applyBlock b s = .ok ((), t)) :
    t.head.currentAslot = s.head.currentAslot + s.missedBefore b.timestamp + 1 := by
  obtain ⟨-, -, -, advanced⟩ := applyBlock_advances _ _ run
  exact congrArg HeadProperties.currentAslot advanced

theorem Network.Timeline.registers (timeline : net.Timeline line s) :
    s.head.Registers (pushedBits line) ∧ (pushedBits line).length = s.head.currentAslot := by
  induction timeline with
  | genesis start =>
    obtain ⟨registers, aslot⟩ := net.initGenesis_head _ _ start
    exact ⟨registers, aslot.symm⟩
  | @block line s t b _ run ih =>
    obtain ⟨registers, length⟩ := ih
    obtain ⟨-, -, -, advanced⟩ := applyBlock_advances _ _ run
    have next : ({ t.head with currentWitness := s.head.currentWitness }).Registers
        (pushedBits (⟨s, b, t⟩ :: line)) := advanced ▸ registers.advance
    refine ⟨⟨next.filled, next.counted⟩, ?_⟩
    rw [applyBlock_aslot run, ← length]
    simp only [pushedBits, Applied.missed, length_append, length_replicate, length_cons]
    omega

theorem Network.Timeline.slots (timeline : net.Timeline line s) :
    ∀ e ∈ line, e.before.head.currentAslot < e.slot ∧ e.slot ≤ s.head.currentAslot := by
  induction timeline with
  | genesis => exact forall_mem_nil _
  | @block line s t b _ run ih =>
    have aslot := applyBlock_aslot run
    refine forall_mem_cons.mpr ⟨⟨?_, Nat.le_refl _⟩, fun e member => ?_⟩
    · show s.head.currentAslot < t.head.currentAslot
      omega
    · obtain ⟨behind, inside⟩ := ih e member
      exact ⟨behind, by omega⟩

/-- Of the newest bits, those of the blocks that come soon enough after the block before. -/
theorem Network.Timeline.count_pushedBits (timeline : net.Timeline line s) (k : Nat) :
    ((pushedBits line).take k).count true =
      line.countP fun e => s.head.currentAslot ≤ e.before.head.currentAslot + k := by
  induction timeline generalizing k with
  | genesis => simp [pushedBits]
  | @block line s t b before run ih =>
    rw [pushedBits, countP_cons, applyBlock_aslot run, Applied.missed]
    generalize s.missedBefore b.timestamp = missed
    rcases Nat.lt_or_ge missed k with reached | short
    · obtain ⟨j, rfl⟩ := Nat.exists_eq_add_of_lt reached
      have bits : (replicate missed false ++ true :: pushedBits line).take (missed + j + 1) =
          replicate missed false ++ true :: (pushedBits line).take j := by
        rw [take_append]
        simp [Nat.add_assoc]
      have others : line.countP (fun e =>
        s.head.currentAslot + missed + 1 ≤ e.before.head.currentAslot + (missed + j + 1)) =
          line.countP fun e => s.head.currentAslot ≤ e.before.head.currentAslot + j := by
        refine countP_congr fun e _ => ?_
        simp only [decide_eq_true_eq]
        omega
      rw [bits, others, ← ih]
      have own : s.head.currentAslot + missed + 1 ≤ s.head.currentAslot + (missed + j + 1) := by omega
      simp [count_replicate, own]
    · -- the missed slots fill the window
      have bits : (replicate missed false ++ true :: pushedBits line).take k = replicate k false := by
        rw [take_append]
        simp [short]
      have others : line.countP (fun e => s.head.currentAslot + missed + 1 ≤ e.before.head.currentAslot + k) = 0 := by
        refine countP_eq_zero.mpr fun e member => ?_
        have behind := before.slots e member
        simp only [decide_eq_true_eq]
        omega
      rw [bits, others]
      have own : ¬ s.head.currentAslot + missed + 1 ≤ s.head.currentAslot + k := by omega
      simp [count_replicate, own]

/-- The blocks in the last 128 slots up to the one of the head block. -/
def blocksInWindow (line : List Applied) (s : Database) : List Applied :=
  line.filter fun e => s.head.currentAslot < e.slot + 128

theorem countP_eq_iff {α : Type} {p q : α → Bool} {l : List α} (implies : ∀ a ∈ l, p a = true → q a = true) :
    l.countP p = l.countP q ↔ ∀ a ∈ l, q a = true → p a = true := by
  induction l with
  | nil => simp
  | cons a l ih =>
    obtain ⟨first, others⟩ := forall_mem_cons.mp implies
    have le := countP_mono_left others
    have rest := ih others
    rw [countP_cons, countP_cons, forall_mem_cons, ← rest]
    cases isP : p a with
    | true => simp [first isP]
    | false =>
      cases isQ : q a with
      | true => simp; omega
      | false => simp

theorem Network.Timeline.participation_iff (timeline : net.Timeline line s) :
    s.head.participationCount = (blocksInWindow line s).length ↔ 128 ≤ s.head.currentAslot ∧
        ∀ e ∈ blocksInWindow line s, s.head.currentAslot ≤ e.before.head.currentAslot + 128 := by
  obtain ⟨registers, length⟩ := timeline.registers
  have count : s.head.participationCount =
      (line.countP fun e => s.head.currentAslot ≤ e.before.head.currentAslot + 128) + (128 - s.head.currentAslot) := by
    rw [registers.counted, registers.filled.setBits_eq, timeline.count_pushedBits, length]
  have window : (blocksInWindow line s).length = line.countP fun e => s.head.currentAslot < e.slot + 128 :=
    countP_eq_length_filter.symm
  have implies : ∀ e ∈ line, decide (s.head.currentAslot ≤ e.before.head.currentAslot + 128) = true →
      decide (s.head.currentAslot < e.slot + 128) = true := by
    intro e member
    have slots := timeline.slots e member
    simp only [decide_eq_true_eq]
    omega
  rw [count, window]
  rcases Nat.lt_or_ge s.head.currentAslot 128 with early | full
  · -- the ones of the genesis are still there
    have all : (line.countP fun e => s.head.currentAslot ≤ e.before.head.currentAslot + 128) = line.length := by
      refine countP_eq_length.mpr fun e _ => ?_
      simp only [decide_eq_true_eq]
      omega
    have le := @countP_le_length _ (fun e : Applied => decide (s.head.currentAslot < e.slot + 128)) line
    exact ⟨fun same => by omega, fun ready => absurd ready.1 (by omega)⟩
  · rw [Nat.sub_eq_zero_of_le full, Nat.add_zero, countP_eq_iff implies]
    simp [blocksInWindow, full]

theorem participation_exact_iff {blocks : List Block} (chain : net.Chain blocks s) :
    (∃ line, net.Timeline line s ∧ line.map (·.block) = blocks.reverse) ∧ ∀ line, net.Timeline line s →
      s.head.participationCount = setBits s.head.recentSlotsFilled ∧
      (s.head.participationCount = (blocksInWindow line s).length ↔ 128 ≤ s.head.currentAslot ∧
          ∀ e ∈ blocksInWindow line s, s.head.currentAslot ≤ e.before.head.currentAslot + 128) :=
  ⟨chain.timeline, fun _ timeline => ⟨timeline.registers.1.counted, timeline.participation_iff⟩⟩

/-- The first block, after 128 missed slots. -/
def lateBlock : Block := { bareGenesis.nextBlock with timestamp := Evaluator.genesisTime + 129 * blockInterval }

def afterLate : Database := stateAfter (Network.bare.applyBlock lateBlock) bareGenesis

theorem lateBlock_applied : Network.bare.applyBlock lateBlock bareGenesis = .ok ((), afterLate) :=
  stateAfter_eq (by decide +kernel)

theorem participation_exact_iff_lateBlock : ∃ line, Network.bare.Timeline line afterLate ∧
    line.map (·.block) = [lateBlock] ∧ afterLate.head.participationCount = setBits afterLate.head.recentSlotsFilled ∧
      (afterLate.head.participationCount = (blocksInWindow line afterLate).length ↔
        128 ≤ afterLate.head.currentAslot ∧
          ∀ e ∈ blocksInWindow line afterLate, afterLate.head.currentAslot ≤ e.before.head.currentAslot + 128) := by
  obtain ⟨⟨line, timeline, blocks⟩, exactly⟩ :=
    participation_exact_iff (.block (.genesis bareGenesis_eq) lateBlock_applied)
  exact ⟨line, timeline, blocks, exactly line timeline⟩

/-- The bit of the block has left the register by the time its missed slots are in. -/
theorem participation_misses_head : Network.bare.Timeline [⟨bareGenesis, lateBlock, afterLate⟩] afterLate ∧
    afterLate.head.participationCount = 0 ∧
    (blocksInWindow [⟨bareGenesis, lateBlock, afterLate⟩] afterLate).length = 1 :=
  ⟨.block (.genesis bareGenesis_eq) lateBlock_applied, by decide +kernel, by decide +kernel⟩

end Chains

end Golos
