import Golos.Chain.References

/-! # Transactions are applied once

`_apply_transaction` refuses a transaction whose id is on record and puts it on record.  `clear_expired_transactions`
forgets a transaction by the time of the new head, while its expiration is checked against the time of the head before
the block.

* `transactions_applied_once` — no two transactions of a chain have the same id.
-/

namespace Golos

open Stateful List

variable {net : Network} {s t : Database} {b : Block} {blocks : List Block} {trx : Transaction}

/-! ## The record -/

abbrev keepsTransactions : Footprint
  | .transactions => false
  | _ => true

instance : Finer (Within operationCells) (Within keepsTransactions) := ⟨fun _ _ => Within.widen⟩

def BlockStep.records : BlockStep → Bool
  | .applyTransaction _ | .clearExpiredTransactions => true
  | _ => false

theorem run_keepsTransactions {step : BlockStep} (other : step.records = false) :
    Touches keepsTransactions (step.run net) := by
  cases step <;> first | exact Bool.noConfusion other | (unfold BlockStep.run; infer_instance)

/-- The transaction is on record, or it has expired before the head. -/
def Database.Remembers (s : Database) (trx : Transaction) : Prop :=
  s.transactions.find? trx.id = some trx.expiration ∨ trx.expiration < s.head.time

/-- What is remembered stays so. -/
def Recalls (s t : Database) : Prop := SameHead s t ∧ ∀ trx, s.Remembers trx → t.Remembers trx

instance : Std.Refl Recalls := ⟨fun s => ⟨refl_of SameHead s, fun _ => id⟩⟩

instance : IsTrans Database Recalls where
  trans _ _ _ first second := ⟨trans_of SameHead first.1 second.1, fun trx known => second.2 trx (first.2 trx known)⟩

theorem recalls_of_same (same : t.transactions = s.transactions) (head : SameHead s t) : Recalls s t := by
  refine ⟨head, fun trx known => ?_⟩
  rw [Database.Remembers, same, head.sameSlots.time]
  exact known

/-- Only what has expired is forgotten. -/
instance : Preserves Recalls clearExpiredTransactions := by
  refine ⟨fun s => ?_⟩
  simp only [clearExpiredTransactions, updateTransactions, ensures_steps]
  refine ⟨rfl, fun trx known => known.elim (fun stored => ?_) .inr⟩
  by_cases expired : trx.expiration < s.head.time
  · exact .inr expired
  · exact .inl (Store.find?_filter.mpr ⟨stored, decide_eq_true (Nat.le_of_not_lt expired)⟩)

theorem run_recalls {step : BlockStep} (head : step.adopts = false) (other : ∀ trx, step ≠ .applyTransaction trx) :
    Preserves Recalls (step.run net) := by
  cases records : step.records with
  | false =>
    refine ⟨fun s _ t run => ?_⟩
    have within : Within keepsTransactions s t := (run_keepsTransactions records).after run
    exact recalls_of_same (within .transactions rfl) ((run_sameHead head).after run)
  | true =>
    cases step with
    | clearExpiredTransactions =>
      unfold BlockStep.run
      infer_instance
    | applyTransaction trx => exact absurd rfl (other trx)
    | _ => cases records

/-! ## The transactions of a block -/

theorem validateExpiration_ensures {producing : Bool} : Ensures s (validateExpiration producing trx) fun _ t =>
    t = s ∧ (0 < s.head.headBlockNumber → s.head.time ≤ trx.expiration) := by
  simp only [validateExpiration, ensures_steps]
  rw [ensures_when]
  refine ⟨fun started => ?_, fun notStarted => ⟨rfl, fun started => absurd started notStarted⟩⟩
  simp only [ensures_steps]
  exact fun _ _ _ inTime => ⟨trivial, fun _ => inTime⟩

/-- What it takes to apply a transaction, and that it is on record then. -/
theorem applyTransaction_admits {stack : Nat} {producing : Bool} :
    Ensures s (applyTransaction stack producing trx) fun _ t => s.transactions.find? trx.id = none ∧
      (0 < s.head.headBlockNumber → s.head.time ≤ trx.expiration) ∧
      t.transactions = s.transactions.insert trx.id trx.expiration := by
  have reads (name : AccountName) : Preserves (@Eq Database) (do let _ ← getAccount name; pure ()) := by
    unfold getAccount
    infer_instance
  simp only [applyTransaction, admitTransaction, validateTransaction, ensures_steps]
  intro fresh _ _ _ _ _
  refine validateExpiration_ensures.mono ?_
  rintro _ _ ⟨rfl, inTime⟩
  refine ensures_read fun _ => ?_
  simp only [create, updateTransactions, ensures_steps]
  intro _
  exact ensures_frame (Within keepsTransactions) fun _ t within => ⟨fresh, inTime, within .transactions rfl⟩

/-- Some transactions have been applied one after the other. -/
structure Admitted (transactions : List Transaction) (s t : Database) : Prop where
  kept : ∀ id expiration, s.transactions.find? id = some expiration → t.transactions.find? id = some expiration
  known : ∀ trx ∈ transactions, t.transactions.find? trx.id = some trx.expiration
  fresh : ∀ trx ∈ transactions, s.transactions.find? trx.id = none
  inTime : 0 < s.head.headBlockNumber → ∀ trx ∈ transactions, s.head.time ≤ trx.expiration
  nodup : (transactions.map (·.id)).Nodup

theorem Admitted.cons {u : Database} {rest : List Transaction} (fresh : s.transactions.find? trx.id = none)
    (inTime : 0 < s.head.headBlockNumber → s.head.time ≤ trx.expiration) (head : SameHead s t)
    (inserted : t.transactions = s.transactions.insert trx.id trx.expiration) (admitted : Admitted rest t u) :
    Admitted (trx :: rest) s u := by
  have found (id : Nat) : t.transactions.find? id = if id = trx.id then some trx.expiration
      else s.transactions.find? id := by
    rw [inserted, Store.find?_insert fresh]
  have others (x : Transaction) (member : x ∈ rest) : x.id ≠ trx.id ∧ s.transactions.find? x.id = none := by
    have absent := admitted.fresh x member
    rw [found] at absent
    split at absent
    · cases absent
    next different => exact ⟨different, absent⟩
  have before := head.sameSlots
  refine ⟨fun id expiration known => admitted.kept id expiration ?_, ?_, ?_, fun started => ?_, ?_⟩
  · rw [found, if_neg, known]
    rintro rfl
    rw [fresh] at known
    cases known
  · refine forall_mem_cons.mpr ⟨admitted.kept _ _ ?_, admitted.known⟩
    rw [found, if_pos rfl]
  · exact forall_mem_cons.mpr ⟨fresh, fun x member => (others x member).2⟩
  · rw [← before.number] at started
    rw [forall_mem_cons, ← before.time]
    exact ⟨before.time ▸ inTime (before.number ▸ started), admitted.inTime started⟩
  · rw [map_cons, nodup_cons, mem_map]
    exact ⟨fun ⟨x, member, same⟩ => (others x member).1 same, admitted.nodup⟩

theorem forM_admitted {transactions : List Transaction} :
    Ensures s ((transactions.map BlockStep.applyTransaction).forM fun step => step.run net) fun _ t =>
      Admitted transactions s t := by
  induction transactions generalizing s with
  | nil => exact ensures_pure.mpr ⟨fun _ _ => id, by simp, by simp, by simp, by simp⟩
  | cons trx rest ih =>
    rw [map_cons, forM_eq_forM, forM_cons, ensures_bind]
    intro _ t run
    obtain ⟨fresh, inTime, inserted⟩ := applyTransaction_admits _ _ run
    have head : SameHead s t := (run_sameHead rfl).after run
    exact ih.mono fun _ u admitted => admitted.cons fresh inTime head inserted

/-- The transactions of a block come after its header; the record is not touched again before the block is the head. -/
theorem applyBlock_admits : Ensures s (net.applyBlock b) fun _ t =>
    ∃ q u, Admitted b.transactions s q ∧ u.transactions = q.transactions ∧ Recalls u t := by
  let after : List BlockStep := [.updateSigningWitness b, .updateLastIrreversibleBlock, .createBlockSummary b] ++
    processingSteps b
  have split : blockSteps b = headerSteps b ++
      (b.transactions.map .applyTransaction ++ .updateGlobalDynamicData b :: after) := by
    simp [blockSteps, adoptionSteps, after]
  have header : ∀ step ∈ headerSteps b, step.records = false ∧ step.adopts = false := by
    simp [headerSteps, BlockStep.records, BlockStep.adopts]
  have others : ∀ step ∈ after, step.adopts = false ∧ ∀ trx, step ≠ .applyTransaction trx := by
    simp [after, processingSteps, BlockStep.adopts]
  rw [Network.applyBlock, split, forM_eq_forM, forM_append, ensures_bind]
  intro _ p checked
  -- the expiration is checked against the head before, which the header leaves
  have record : Within keepsTransactions s p :=
    (preserves_forM_steps fun step member => run_keepsTransactions (header step member).1).after checked
  replace record : p.transactions = s.transactions := record .transactions rfl
  have head : SameHead s p := (forM_sameHead fun step member => (header step member).2).after checked
  rw [forM_append, ensures_bind]
  refine forM_admitted.mono fun _ q admitted => ?_
  rw [forM_cons, ensures_bind]
  intro _ u adopted _ t processed
  refine ⟨q, u, ⟨?_, admitted.known, ?_, ?_, admitted.nodup⟩,
    (run_keepsTransactions rfl).after adopted .transactions rfl, ?_⟩
  · rw [← record]
    exact admitted.kept
  · rw [← record]
    exact admitted.fresh
  · rw [← head.sameSlots.number, ← head.sameSlots.time]
    exact admitted.inTime
  · exact (preserves_forM_steps fun step member => run_recalls (others step member).1 (others step member).2).after
      processed

/-! ## Chains -/

/-- A chain remembers its transactions. -/
theorem Network.Chain.remembers (chain : net.Chain blocks s) :
    ∀ trx ∈ blocks.flatMap (·.transactions), s.Remembers trx := by
  induction chain with
  | genesis => simp
  | @block blocks b s t _ run ih =>
    obtain ⟨q, u, admitted, record, head, recalls⟩ := applyBlock_admits _ _ run
    obtain ⟨later, _, _, advanced⟩ := applyBlock_advances _ _ run
    have time : t.head.time = b.timestamp := congrArg HeadProperties.time advanced
    intro trx member
    rw [flatMap_append, mem_append, flatMap_singleton] at member
    refine recalls trx ?_
    obtain old | new := member
    · obtain stored | expired := ih trx old
      · exact .inl (record ▸ admitted.kept _ _ stored)
      · exact .inr (by rw [← head.sameSlots.time, time]; exact expired.trans later)
    · exact .inl (record ▸ admitted.known trx new)

/-- No two transactions of a chain have the same id, if the id of a transaction tells its expiration. -/
theorem transactions_applied_once (chain : net.Chain blocks s)
    (digests : ∀ x ∈ blocks.flatMap (·.transactions), ∀ y ∈ blocks.flatMap (·.transactions),
      x.id = y.id → x.expiration = y.expiration) :
    ((blocks.flatMap (·.transactions)).map (·.id)).Nodup := by
  induction chain with
  | genesis => exact nodup_nil
  | @block blocks b s t chain run ih =>
    obtain ⟨q, _, admitted, -⟩ := applyBlock_admits _ _ run
    simp only [flatMap_append, flatMap_singleton, mem_append] at digests
    rw [flatMap_append, flatMap_singleton, map_append, nodup_append]
    refine ⟨ih fun x first y second => digests x (.inl first) y (.inl second), admitted.nodup, ?_⟩
    simp only [mem_map]
    rintro _ ⟨x, old, rfl⟩ _ ⟨y, new, rfl⟩ same
    obtain stored | expired := chain.remembers x old
    · rw [same, admitted.fresh y new] at stored
      cases stored
    · -- there is a block before, so that the expiration is checked
      have started : 0 < s.head.headBlockNumber := by
        rw [chain.numbered.number, length_pos_iff]
        rintro rfl
        cases old
      have inTime := admitted.inTime started y new
      rw [digests x (.inl old) y (.inr new) same] at expired
      exact absurd expired (Nat.not_lt_of_le inTime)

/-- The next block with one transaction, which refers to the head. -/
def Database.blockWith (s : Database) (id : Nat) : Block :=
  let trx := s.customTransaction s.head.headBlockNumber s.head.headBlockId.secondWord
  { s.nextBlock with transactions := [{ trx with id }] }

def afterOne : Database := stateAfter (Network.bare.applyBlock (bareGenesis.blockWith 1)) bareGenesis

def afterTwo : Database := stateAfter (Network.bare.applyBlock (afterOne.blockWith 2)) afterOne

/-- Two blocks with a transaction each.  The first transaction would not be applied again. -/
theorem transactions_applied_once_two : ∃ blocks, Network.bare.Chain blocks afterTwo ∧
    (blocks.flatMap (·.transactions)).map (·.id) = [1, 2] ∧ ((blocks.flatMap (·.transactions)).map (·.id)).Nodup ∧
    (applyTransaction Network.bare.stack false (afterTwo.customTransaction 2 1) afterTwo).isOk = true ∧
    (bareGenesis.blockWith 1).transactions.all (fun trx =>
      (applyTransaction Network.bare.stack false trx afterTwo).isOk) = false := by
  have chain : Network.bare.Chain [bareGenesis.blockWith 1, afterOne.blockWith 2] afterTwo :=
    .block (.block (.genesis bareGenesis_eq) (stateAfter_eq (by decide +kernel))) (stateAfter_eq (by decide +kernel))
  refine ⟨_, chain, by decide +kernel, transactions_applied_once chain ?_, by decide +kernel, by decide +kernel⟩
  decide +kernel

end Golos
