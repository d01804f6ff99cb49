import Golos.Lib.Ring
import Golos.Lib.Undo
import Golos.Chain.Idle

/-! # Reference blocks

A transaction names a block by the low half of its number and a word of its id.  `create_block_summary` keeps the ids of
blocks in a ring of 65536 entries, and `_validate_transaction` compares with the entry.  `Numbered` says what a chain
and its state have in common, the ring among it.

* `reference_on_chain` — what is applied refers to one of the last 65536 blocks of the very chain it is applied to.
-/

namespace Golos

open Stateful List

/-! ## The ring in the state -/

abbrev keepsSummary : Footprint
  | .blockSummary => false
  | _ => true

def BlockStep.summarizes : BlockStep → Bool
  | .createBlockSummary _ => true
  | _ => false

instance : Finer (Within operationCells) (Within keepsSummary) := ⟨fun _ _ => Within.widen⟩

deriving instance Touches keepsSummary for applyTransaction

theorem run_keepsSummary {net : Network} {step : BlockStep} (other : step.summarizes = false) :
    Touches keepsSummary (step.run net) := by
  cases step <;> first | exact Bool.noConfusion other | (unfold BlockStep.run; infer_instance)

section Steps

variable {net : Network} {R : Database → Database → Prop} [Std.Refl R] [IsTrans Database R] {steps : List BlockStep}

theorem preserves_forM_steps (each : ∀ step ∈ steps, Preserves R (step.run net)) :
    Preserves R (steps.forM fun step => step.run net) := by
  refine ⟨fun s => ensures_forM (refl_of R s) fun step member t same => ?_⟩
  intro _ u run
  exact trans_of R same ((each step member).after run)

end Steps

variable {net : Network} {s t : Database} {b : Block} {blocks : List Block}

theorem validateBlockHeader_follows : Ensures s (validateBlockHeader b) fun _ t => t = s ∧
    s.head.headBlockId = b.previous := by
  simp only [validateBlockHeader, getWitness, ensures_steps]
  exact fun follows _ _ _ _ _ _ => ⟨trivial, follows⟩

/-- A block builds on the head. -/
theorem applyBlock_follows : Ensures s (net.applyBlock b) fun _ _ => s.head.headBlockId = b.previous := by
  have unchanged : Ensures s (validateBlock b) fun _ t => t = s := by
    simp [validateBlock]
  rw [Network.applyBlock, blockSteps, headerSteps, forM_eq_forM, cons_append, forM_cons, ensures_bind]
  refine unchanged.mono ?_
  rintro _ _ rfl
  rw [cons_append, forM_cons, ensures_bind]
  refine validateBlockHeader_follows.mono ?_
  rintro _ _ ⟨rfl, follows⟩ _ _ _
  exact follows

/-- A block writes its id over the entry of its number. -/
theorem applyBlock_summary :
    Ensures s (net.applyBlock b) fun _ t => t.blockSummary = Ring.write (2 ^ 16) b.num b.id s.blockSummary := by
  let before : List BlockStep := headerSteps b ++ (b.transactions.map .applyTransaction ++
    [.updateGlobalDynamicData b, .updateSigningWitness b, .updateLastIrreversibleBlock])
  have split : blockSteps b = before ++ .createBlockSummary b :: processingSteps b := by
    simp [blockSteps, adoptionSteps, before]
  have othersBefore : ∀ step ∈ before, step.summarizes = false := by
    simp [before, headerSteps, or_imp, forall_and, BlockStep.summarizes]
  have othersAfter : ∀ step ∈ processingSteps b, step.summarizes = false := by
    simp [processingSteps, BlockStep.summarizes]
  rw [Network.applyBlock, split, forM_eq_forM, forM_append, ensures_bind]
  intro _ t applied
  have same : Within keepsSummary s t :=
    (preserves_forM_steps fun step member => run_keepsSummary (othersBefore step member)).after applied
  rw [forM_cons, ensures_bind]
  intro _ u written _ v processed
  have still : Within keepsSummary u v :=
    (preserves_forM_steps fun step member => run_keepsSummary (othersAfter step member)).after processed
  have wrote : u.blockSummary = Ring.write (2 ^ 16) b.num b.id t.blockSummary := by
    cases written
    rfl
  exact (still .blockSummary rfl).trans (wrote.trans (congrArg _ (same .blockSummary rfl)))

/-! ## Chains -/

/-- What a state says about the blocks of its chain. -/
structure Numbered (blocks : List Block) (s : Database) : Prop where
  number : s.head.headBlockNumber = blocks.length
  id : s.head.headBlockId.num = blocks.length
  each : ∀ i b, blocks[i]? = some b → b.num = i + 1
  ring : Ring.Shows (2 ^ 16) BlockId.zero (blocks.map Block.id) s.blockSummary

theorem Network.initGenesis_headBlock : Ensures s net.initGenesis fun _ t =>
    t.head.headBlockNumber = s.head.headBlockNumber ∧ t.head.headBlockId = s.head.headBlockId := by
  simp only [Network.initGenesis, modifyHead, modifySupply, modifyRates, modifyHardforks, modifySchedule, ensures_steps]
  intro _ t miners _ u null _ v temp _ w initMiner _ x witness _ y imported
  have four : Within keepsHead s w := trans_of _ (trans_of _ (trans_of _ (frame_of_run miners)
    (frame_of_run null)) (frame_of_run temp)) (frame_of_run initMiner)
  have created : Within keepsHead s x := trans_of _ four (frame_of_run witness)
  have frame : Within keepsHead _ y := frame_of_run imported
  have same := frame .head rfl
  have start : x.head = s.head := created .head rfl
  have number := congrArg HeadProperties.headBlockNumber same
  have id := congrArg HeadProperties.headBlockId same
  rw [← start]
  exact ⟨number, id⟩

theorem Numbered.genesis (start : net.initGenesis {} = .ok ((), s)) : Numbered [] s := by
  obtain ⟨number, id⟩ := Network.initGenesis_headBlock _ _ start
  have frame : Within keepsSummary {} s := frame_of_run start
  have blank : s.blockSummary = fun _ => .zero := frame .blockSummary rfl
  refine ⟨number, ?_, fun i b found => ?_, Ring.shows_nil fun r _ => ?_⟩
  · rw [id]
    rfl
  · simp at found
  · rw [blank]

theorem Numbered.block (numbered : Numbered blocks s) (run : net.applyBlock b s = .ok ((), t)) :
    Numbered (blocks ++ [b]) t := by
  obtain ⟨_, _, _, advanced⟩ := applyBlock_advances _ _ run
  have follows := applyBlock_follows _ _ run
  have next : b.num = blocks.length + 1 := by
    rw [Block.num, ← follows, numbered.id]
  have headId : t.head.headBlockId = b.id := congrArg HeadProperties.headBlockId advanced
  have headNumber : t.head.headBlockNumber = b.num := congrArg HeadProperties.headBlockNumber advanced
  refine ⟨?_, ?_, fun i c found => ?_, ?_⟩
  · rw [headNumber, next, length_append, length_singleton]
  · rw [headId, Block.id, next, length_append, length_singleton]
  · rcases Nat.lt_trichotomy i blocks.length with older | rfl | beyond
    · rw [getElem?_append_left older] at found
      exact numbered.each i c found
    · rw [getElem?_concat_length] at found
      rw [← Option.some.inj found, next]
    · rw [getElem?_eq_none (by simp; omega)] at found
      cases found
  · rw [applyBlock_summary _ _ run, map_append, map_singleton, next]
    have written := numbered.ring.write (a := b.id)
    rw [length_map] at written
    exact written

theorem Network.Chain.numbered (chain : net.Chain blocks s) : Numbered blocks s := by
  induction chain with
  | genesis start => exact .genesis start
  | block _ run ih => exact ih.block run

/-! ## What is applied on a head -/

/-- The states in which a transaction is applied while `s` is the state of the head block: the transactions of the next
block come after its header and after each other, those that are pending after each other. -/
inductive Network.OnHead (net : Network) (s : Database) : Database → Prop
  | head : OnHead net s s
  | header {b : Block} {p : Database} : ((headerSteps b).forM fun step => step.run net) s = .ok ((), p) → OnHead net s p
  | transaction {producing : Bool} {trx : Transaction} {p q : Database} :
      OnHead net s p → applyTransaction net.stack producing trx p = .ok ((), q) → OnHead net s q

theorem Network.OnHead.same {p : Database} (above : net.OnHead s p) :
    p.blockSummary = s.blockSummary ∧ p.head.headBlockNumber = s.head.headBlockNumber := by
  induction above with
  | head => exact ⟨rfl, rfl⟩
  | @header b p run =>
    have summaries : ∀ step ∈ headerSteps b, step.summarizes = false := by simp [headerSteps, BlockStep.summarizes]
    have heads : ∀ step ∈ headerSteps b, step.adopts = false := by simp [headerSteps, BlockStep.adopts]
    have same : SameHead s p := (forM_sameHead heads).after run
    exact ⟨(preserves_forM_steps fun step member => run_keepsSummary (summaries step member)).after run .blockSummary rfl,
      same.sameSlots.number⟩
  | @transaction producing trx p q _ run ih =>
    have summary : Within keepsSummary p q := frame_of_run run
    have head : SameHead p q := frame_of_run run
    exact ⟨(summary .blockSummary rfl).trans ih.1, head.sameSlots.number.trans ih.2⟩

theorem applyTransaction_reference {stack : Nat} {producing : Bool} {trx : Transaction} :
    Ensures s (applyTransaction stack producing trx) fun _ _ => 0 < s.head.headBlockNumber →
      trx.refBlockPrefix = (s.blockSummary (trx.refBlockNum % 2 ^ 16)).secondWord := by
  simp only [applyTransaction, admitTransaction, validateTransaction, validateExpiration, ensures_steps]
  intro _ _ _ _ _ _
  rw [ensures_when]
  refine ⟨fun started => ?_, fun notStarted => ?_⟩
  · simp only [ensures_steps]
    exact fun same _ _ _ _ _ _ _ _ _ _ _ _ _ => same
  · exact fun _ _ _ _ _ _ _ _ _ started => absurd started notStarted

/-! ## References -/

/-- A block that `trx` may refer to on a head with number `n`. -/
structure Transaction.RefersTo (trx : Transaction) (n : Nat) (b : Block) : Prop where
  known : b.num ≤ n
  recent : n < b.num + 2 ^ 16
  number : b.num % 2 ^ 16 = trx.refBlockNum % 2 ^ 16
  word : b.id.secondWord = trx.refBlockPrefix

theorem Numbered.num_le (numbered : Numbered blocks s) (member : b ∈ blocks) : 1 ≤ b.num ∧ b.num ≤ blocks.length := by
  obtain ⟨i, found⟩ := mem_iff_getElem?.mp member
  have inside : i < blocks.length := (List.getElem?_eq_some_iff.mp found).1
  rw [numbered.each i b found]
  omega

/-- What one of the latest blocks has to say about a reference to its number. -/
theorem Numbered.entry_of_recent (numbered : Numbered blocks s) (member : b ∈ blocks)
    (recent : blocks.length < b.num + 2 ^ 16) :
    s.blockSummary (b.num % 2 ^ 16) = b.id := by
  obtain ⟨i, found⟩ := mem_iff_getElem?.mp member
  have number := numbered.each i b found
  rw [number] at recent ⊢
  refine numbered.ring.latest i b.id ?_ (by rw [length_map]; omega)
  rw [getElem?_map, found]
  rfl

/-- `find_block_id_for_num`.  `elsewhere` is what the block log or else the fork database has: the state of the chain
does not determine it, and nothing below depends on it. -/
def Database.findBlockIdForNum (s : Database) (elsewhere : Nat → BlockId) (number : Nat) : BlockId :=
  if number = 0 then .zero
  else if (s.blockSummary (number % 2 ^ 16)).num = number then s.blockSummary (number % 2 ^ 16)
  else elsewhere number

theorem Network.Chain.summary (chain : net.Chain blocks s) (r : Nat) :
    s.blockSummary r = .zero ∨ ∃ b ∈ blocks, s.blockSummary r = b.id := by
  induction chain with
  | genesis start =>
    have frame : Within keepsSummary {} _ := frame_of_run start
    exact .inl (congrFun (frame .blockSummary rfl) r)
  | @block blocks b _ _ _ run ih =>
    rw [applyBlock_summary _ _ run, Ring.write]
    split
    · exact .inr ⟨b, by simp, rfl⟩
    · exact ih.imp_right fun ⟨b', member, same⟩ => ⟨b', mem_append_left _ member, same⟩

/-- The ids of the last 65536 blocks of a chain are found in the summaries, whatever the block log and the fork database
have, and no id of another chain is. -/
theorem findBlockIdForNum_on_chain (chain : net.Chain blocks s) (elsewhere : Nat → BlockId) :
    (∀ b ∈ blocks, blocks.length < b.num + 2 ^ 16 → s.findBlockIdForNum elsewhere b.num = b.id) ∧
      ∀ number, 0 < number → s.findBlockIdForNum elsewhere number = elsewhere number ∨
        ∃ b ∈ blocks, b.num = number ∧ s.findBlockIdForNum elsewhere number = b.id := by
  have numbered := chain.numbered
  refine ⟨fun b member recent => ?_, fun number positive => ?_⟩
  · have entry := numbered.entry_of_recent member recent
    rw [Database.findBlockIdForNum, if_neg (Nat.ne_of_gt (numbered.num_le member).1), entry]
    exact if_pos rfl
  · rw [Database.findBlockIdForNum, if_neg positive.ne']
    split
    next hit =>
      obtain zero | ⟨b, member, same⟩ := chain.summary (number % 2 ^ 16)
      · rw [zero] at hit
        exact absurd hit positive.ne
      · rw [same] at hit ⊢
        exact .inr ⟨b, member, hit, rfl⟩
    · exact .inl rfl

theorem findBlockIdForNum_inUse : ∃ blocks, Network.bare.Chain blocks (usedFor 68).state ∧ blocks.length = 68 ∧
    ∀ b ∈ blocks, (usedFor 68).state.findBlockIdForNum (fun _ => .zero) b.num = b.id := by
  obtain ⟨blocks, chain, length⟩ := (usedFor_told 68).1
  replace length : blocks.length = 68 := length
  refine ⟨blocks, chain, length, fun b member => ?_⟩
  exact (findBlockIdForNum_on_chain chain _).1 b member (by omega)

/-- The entry a reference is compared with. -/
theorem Numbered.entry (numbered : Numbered blocks s) (full : 65535 ≤ blocks.length) (r : Nat) :
    (∃ b ∈ blocks, blocks.length < b.num + 2 ^ 16 ∧ b.num % 2 ^ 16 = r % 2 ^ 16 ∧ s.blockSummary (r % 2 ^ 16) = b.id) ∨
      blocks.length = 65535 ∧ r % 2 ^ 16 = 0 ∧ s.blockSummary (r % 2 ^ 16) = .zero := by
  have small : r % 2 ^ 16 < 2 ^ 16 := Nat.mod_lt _ (by decide)
  rcases numbered.ring.entry small (by rw [length_map]; omega) with ⟨i, number, recent, found⟩ | ⟨short, zero, blank⟩
  · rw [length_map] at recent
    rw [getElem?_map, Option.map_eq_some_iff] at found
    obtain ⟨b, located, same⟩ := found
    have isNumber := numbered.each i b located
    exact .inl ⟨b, mem_of_getElem? located, by omega, by rw [isNumber, number], same.symm⟩
  · rw [length_map] at short
    exact .inr ⟨by omega, zero, blank⟩

/-- The states of the head block, over any blocks applied, undone and made final. -/
def Network.Sessions (net : Network) : Undo Database → Prop :=
  Undo.Runs (fun s => net.initGenesis {} = .ok ((), s)) fun s s' => ∃ b, net.applyBlock b s = .ok ((), s')

theorem Network.Sessions.chain {u : Undo Database} (sessions : net.Sessions u) :
    ∃ blocks, net.Chain blocks u.current := by
  refine (Undo.Runs.invariant (P := fun s => ∃ blocks, net.Chain blocks s)
    (fun s start => ⟨[], .genesis start⟩) ?_ sessions).1
  rintro s s' ⟨blocks, chain⟩ ⟨b, run⟩
  exact ⟨blocks ++ [b], chain.block run⟩

/-- On a head whose number is at least 65535 a transaction is applied only if it refers to one of the last 65536 blocks
of the chain of that head, and to no other block in its place.  The one exception is the number 0 on head 65535: no
block has had the number yet, and the word has to be 0. -/
theorem reference_on_chain {u : Undo Database} (sessions : net.Sessions u) :
    (∃ blocks, net.Chain blocks u.current) ∧ ∀ blocks, net.Chain blocks u.current →
      65535 ≤ u.current.head.headBlockNumber → ∀ p, net.OnHead u.current p →
      ∀ producing trx q, applyTransaction net.stack producing trx p = .ok ((), q) →
        ((∃ b ∈ blocks, trx.RefersTo u.current.head.headBlockNumber b) ∨
          u.current.head.headBlockNumber = 65535 ∧ trx.refBlockNum % 2 ^ 16 = 0 ∧ trx.refBlockPrefix = 0) ∧
        ∀ b ∈ blocks, u.current.head.headBlockNumber < b.num + 2 ^ 16 →
          b.num % 2 ^ 16 = trx.refBlockNum % 2 ^ 16 → trx.RefersTo u.current.head.headBlockNumber b := by
  refine ⟨sessions.chain, fun blocks chain high p above producing trx q run => ?_⟩
  have numbered := chain.numbered
  obtain ⟨summary, number⟩ := above.same
  have word := applyTransaction_reference _ _ run (by omega)
  rw [summary] at word
  rw [numbered.number] at high ⊢
  constructor
  · rcases numbered.entry high trx.refBlockNum with ⟨b, member, recent, isNumber, entry⟩ | ⟨short, zero, blank⟩
    · rw [entry] at word
      exact .inl ⟨b, member, (numbered.num_le member).2, recent, isNumber, word.symm⟩
    · rw [blank] at word
      exact .inr ⟨short, zero, word⟩
  · intro b member recent isNumber
    rw [← isNumber, numbered.entry_of_recent member recent] at word
    exact ⟨(numbered.num_le member).2, recent, isNumber, word.symm⟩

theorem Network.Chain.sessions (chain : net.Chain blocks s) : ∃ saved, net.Sessions ⟨s, saved⟩ := by
  induction chain with
  | genesis start => exact ⟨[], .start start⟩
  | @block blocks b s t _ run ih =>
    obtain ⟨saved, sessions⟩ := ih
    exact ⟨s :: saved, sessions.step ⟨b, run⟩⟩

theorem reference_on_chain_idle : ∃ blocks s trx t, Network.bare.Chain blocks s ∧ s.head.headBlockNumber = 65536 ∧
    applyTransaction Network.bare.stack false trx s = .ok ((), t) ∧ ∃ b ∈ blocks, trx.RefersTo 65536 b := by
  obtain ⟨blocks, s, chain, steady⟩ := steady_chain (by decide) (Nat.le_refl _)
  obtain ⟨t, applied⟩ := steady.idle.applyTransaction 7 _ rfl
  obtain ⟨saved, sessions⟩ := chain.sessions
  have number := steady.ticked.number
  obtain ⟨refers, -⟩ := (reference_on_chain sessions).2 blocks chain (by rw [number]; decide) s .head false _ t applied
  refine ⟨blocks, s, _, t, chain, number, applied, ?_⟩
  rcases refers with refers | ⟨short, -⟩
  · rw [number] at refers
    exact refers
  · rw [number] at short
    exact absurd short (by decide)

/-- On head 65535 a transaction is applied that refers to no block of its chain. -/
theorem reference_to_no_block : ∃ blocks s t, Network.bare.Chain blocks s ∧ s.head.headBlockNumber = 65535 ∧
    applyTransaction Network.bare.stack false (s.customTransaction 0 0) s = .ok ((), t) ∧
    ¬∃ b ∈ blocks, (s.customTransaction 0 0).RefersTo 65535 b := by
  obtain ⟨blocks, s, chain, steady⟩ := steady_chain (n := 65535) (by decide) (by decide)
  have numbered := chain.numbered
  have length : blocks.length = 65535 := numbered.number.symm.trans steady.ticked.number
  -- the numbers of the chain are too small for a multiple of 65536
  have absent : ∀ b ∈ blocks, b.num % 2 ^ 16 ≠ 0 := by
    intro b member
    obtain ⟨positive, le⟩ := numbered.num_le member
    omega
  have blank : s.blockSummary (0 % 2 ^ 16) = .zero := by
    rcases numbered.entry length.ge 0 with ⟨b, member, -, zero, -⟩ | ⟨-, -, blank⟩
    · exact absurd zero (absent b member)
    · exact blank
  obtain ⟨t, applied⟩ := steady.idle.applyTransaction 0 0 (by rw [blank]; rfl)
  refine ⟨blocks, s, t, chain, steady.ticked.number, applied, ?_⟩
  rintro ⟨b, member, refers⟩
  exact absent b member refers.number

end Golos
