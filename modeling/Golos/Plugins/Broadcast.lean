import Mathlib.Data.List.Basic
import Mathlib.Logic.Function.Basic

/-! # Answers to broadcasts

`broadcast_transaction_synchronous` and `broadcast_transaction_with_callback` leave a callback under the id of the
transaction before the chain is asked to accept it; `on_applied_block` calls and removes the callbacks.

* `answered_once` — as long as no call replaces the callback of another, an accepted call has one result.
-/

namespace Golos.Broadcast

open List

/-- Where `accept_transaction` is for a call; when it throws, the connection goes back to the caller. -/
inductive Status
  | running | accepted | failed
deriving DecidableEq

structure Block (Id : Type) where
  blockNum : Nat
  timestamp : Nat
  transactions : List Id
deriving DecidableEq

/-- `broadcast_transaction_synchronous_t` -/
structure Result (Id : Type) where
  id : Id
  blockNum : Nat
  trxNum : Int
  expired : Bool

/-- The two tables of the plugin, the ids and the statuses of the calls so far, the results sent to them, and the blocks
applied, each with the number of calls before it. -/
structure State (Id : Type) where
  callbacks : Id → Option Nat := fun _ => none
  callbackExpirations : List (Nat × Id) := []
  calls : List Id := []
  status : Nat → Status := fun _ => .running
  results : List (Nat × Result Id) := []
  applied : List (Nat × Block Id) := []

variable {Id : Type} [DecidableEq Id] {s : State Id} {expiration : Id → Nat}

namespace State

/-- What both API methods do before `accept_transaction`.  The map is in the order of the expirations. -/
def register (expiration : Id → Nat) (s : State Id) (id : Id) : State Id :=
  { s with
    callbacks := Function.update s.callbacks id (some s.calls.length)
    callbackExpirations := s.callbackExpirations.filter (·.1 ≤ expiration id) ++
      (expiration id, id) :: s.callbackExpirations.filter (expiration id < ·.1)
    calls := s.calls ++ [id] }

/-- `accept_transaction` returns or throws. -/
def finish (s : State Id) (call : Nat) (ok : Bool) : State Id :=
  if call < s.calls.length ∧ s.status call = .running then
    { s with status := Function.update s.status call (if ok then .accepted else .failed) }
  else s

/-- The callback is called and erased; it sends nothing if its message has no connection. -/
def send (s : State Id) (r : Result Id) : State Id :=
  match s.callbacks r.id with
  | none => s
  | some call =>
    { s with
      callbacks := Function.update s.callbacks r.id none
      results := if s.status call = .failed then s.results else s.results ++ [(call, r)] }

/-- What the two loops of `on_applied_block` send. -/
def outcomes (s : State Id) (b : Block Id) : List (Result Id) :=
  b.transactions.zipIdx.map (fun t => ⟨t.1, b.blockNum, t.2, false⟩) ++
    (s.callbackExpirations.filter (·.1 < b.timestamp)).map fun e => ⟨e.2, b.blockNum, -1, true⟩

def onAppliedBlock (s : State Id) (b : Block Id) : State Id :=
  { (s.outcomes b).foldl send s with
    callbackExpirations := s.callbackExpirations.filter (b.timestamp ≤ ·.1)
    applied := s.applied ++ [(s.calls.length, b)] }

/-- A block with the transaction was applied. -/
def Included (s : State Id) (id : Id) : Prop := ∃ p ∈ s.applied, id ∈ p.2.transactions

/-- After the call, a block with its transaction or one later than the expiration was applied. -/
def Due (expiration : Id → Nat) (s : State Id) (call : Nat) (id : Id) : Prop :=
  ∃ p ∈ s.applied, call < p.1 ∧ (id ∈ p.2.transactions ∨ expiration id < p.2.timestamp)

/-- No call that did not fail has a callback under the id. -/
def Free (s : State Id) (id : Id) : Prop := ∀ call, s.callbacks id = some call → s.status call = .failed

end State

/-- Every interleaving of calls and blocks; `may` restricts the calls. -/
inductive Run (expiration : Id → Nat) (may : State Id → Id → Prop) : State Id → Prop
  | start : Run expiration may {}
  | register {s : State Id} (before : Run expiration may s) (id : Id) (free : may s id) :
      Run expiration may (s.register expiration id)
  | finish {s : State Id} (before : Run expiration may s) (call : Nat) (ok : Bool) :
    Run expiration may (s.finish call ok)
  | block {s : State Id} (before : Run expiration may s) (b : Block Id) : Run expiration may (s.onAppliedBlock b)

/-- A call that did not fail waits in both tables for a block that settles it, or has its one result. -/
structure Orderly (expiration : Id → Nat) (included : Id → Prop) (s : State Id) : Prop where
  waiting : ∀ {id call}, s.callbacks id = some call →
    s.calls[call]? = some id ∧ (expiration id, id) ∈ s.callbackExpirations ∧ ¬s.Due expiration call id
  once : ∀ {id call}, s.calls[call]? = some id → s.status call ≠ .failed →
    s.results.countP (·.1 = call) = if s.callbacks id = some call then 0 else 1
  honest : ∀ a ∈ s.results, s.calls[a.1]? = some a.2.id ∧ (a.2.expired = false → included a.2.id)
  past : ∀ p ∈ s.applied, p.1 ≤ s.calls.length

variable {included : Id → Prop}

theorem Orderly.register (orderly : Orderly expiration included s) {id : Id} (free : s.Free id) :
    Orderly expiration included (s.register expiration id) := by
  have kept {i c} (called : s.calls[c]? = some i) : c < s.calls.length ∧ (s.calls ++ [id])[c]? = some i := by
    obtain ⟨small, -⟩ := List.getElem?_eq_some_iff.mp called
    exact ⟨small, (getElem?_append_left small).trans called⟩
  refine ⟨fun {i c} waits => ?_, fun {i c} called good => ?_, fun a member => ?_, fun p member => ?_⟩
  · simp only [State.register, Function.update_apply] at waits ⊢
    split at waits
    · cases waits
      refine ⟨by simp [*], by simp [*], ?_⟩
      rintro ⟨p, member, after, -⟩
      exact absurd (orderly.past p member) (by omega)
    · obtain ⟨called, listed, early⟩ := orderly.waiting waits
      refine ⟨(kept called).2, ?_, early⟩
      simp only [mem_append, mem_cons, mem_filter, listed, true_and, decide_eq_true_eq]
      omega
  · simp only [State.register, Function.update_apply] at called good ⊢
    rcases Nat.lt_or_ge c s.calls.length with old | new
    · rw [getElem?_append_left old] at called
      rw [orderly.once called good]
      by_cases same : i = id
      · -- the callback of an earlier call under the same id was called, or that call failed
        subst same
        rw [if_pos rfl, if_neg fun waits => good (free c waits), if_neg (by simp; omega)]
      · rw [if_neg same]
    · rw [getElem?_append_right new, getElem?_singleton] at called
      split at called
      · cases called
        rw [if_pos rfl, if_pos (by congr; omega), countP_eq_zero]
        intro a member its
        have small := (kept (orderly.honest a member).1).1
        rw [of_decide_eq_true its] at small
        omega
      · cases called
  · exact (orderly.honest a member).imp (fun called => (kept called).2) fun h => h
  · have past := orderly.past p member
    simp only [State.register, length_append]
    omega

omit [DecidableEq Id] in
theorem Orderly.finish (orderly : Orderly expiration included s) (call : Nat) (ok : Bool) :
    Orderly expiration included (s.finish call ok) := by
  unfold State.finish
  split
  next running =>
    refine ⟨orderly.waiting, fun {i c} called good => orderly.once called fun failed => ?_, orderly.honest,
      orderly.past⟩
    -- a call that failed is not running any more
    simp only [Function.update_apply] at good
    split at good
    · simp [‹c = call›, running.2] at failed
    · exact good failed
  · exact orderly

theorem Orderly.send (orderly : Orderly expiration included s) {r : Result Id}
    (honest : r.expired = false → included r.id) : Orderly expiration included (s.send r) := by
  unfold State.send
  cases there : s.callbacks r.id with
  | none => exact orderly
  | some call =>
    have its := (orderly.waiting there).1
    refine ⟨fun {id c} waits => ?_, fun {id c} called good => ?_, fun a member => ?_, orderly.past⟩
    · simp only [Function.update_apply] at waits
      split at waits
      · cases waits
      · exact orderly.waiting waits
    · have before := orderly.once called good
      by_cases same : c = call
      · subst same
        obtain rfl := Option.some.inj (its.symm.trans called)
        rw [if_pos there] at before
        simp [good, before]
      · have count : (if s.status call = .failed then s.results else s.results ++ [(call, r)]).countP (·.1 = c) =
            s.results.countP (·.1 = c) := by
          split <;> simp [Ne.symm same]
        by_cases other : id = r.id
        · subst other
          simpa [count, there, Ne.symm same] using before
        · simpa [count, other] using before
    · simp only at member
      split at member
      · exact orderly.honest a member
      · rcases mem_append.mp member with member | member
        · exact orderly.honest a member
        · rw [mem_singleton.mp member]
          exact ⟨its, honest⟩

theorem foldl_send_callbacks (l : List (Result Id)) (id : Id) :
    (l.foldl State.send s).callbacks id = if id ∈ l.map (·.id) then none else s.callbacks id := by
  induction l generalizing s with
  | nil => rfl
  | cons r l ih =>
    have sent : (s.send r).callbacks id = if id = r.id then none else s.callbacks id := by
      unfold State.send
      by_cases same : id = r.id
      · subst same
        split <;> simp [*]
      · split <;> simp [same]
    rw [foldl_cons, ih, sent]
    by_cases same : id = r.id <;> simp [same]

theorem Orderly.onAppliedBlock (orderly : Orderly expiration s.Included s) (b : Block Id) :
    Orderly expiration (s.onAppliedBlock b).Included (s.onAppliedBlock b) := by
  have block : (s.calls.length, b) ∈ (s.onAppliedBlock b).applied := mem_concat_self
  obtain ⟨sent, calls⟩ : Orderly expiration (s.onAppliedBlock b).Included ((s.outcomes b).foldl State.send s) ∧
      ((s.outcomes b).foldl State.send s).calls = s.calls := by
    refine foldlRecOn (motive := fun t : State Id => Orderly expiration _ t ∧ t.calls = s.calls) _ _
      ⟨⟨orderly.waiting, orderly.once, fun a member => ?_, orderly.past⟩, rfl⟩ fun t before r member => ?_
    · refine (orderly.honest a member).imp_right fun honest inside => ?_
      obtain ⟨p, earlier, contains⟩ := honest inside
      exact ⟨p, mem_append_left _ earlier, contains⟩
    · refine ⟨before.1.send fun inside => ?_, by rw [← before.2, State.send]; split <;> rfl⟩
      rcases mem_append.mp member with member | member
      · obtain ⟨t, position, rfl⟩ := mem_map.mp member
        exact ⟨_, block, fst_mem_of_mem_zipIdx position⟩
      · obtain ⟨e, -, rfl⟩ := mem_map.mp member
        cases inside
  have waits {id c} (after : (s.onAppliedBlock b).callbacks id = some c) :
      s.callbacks id = some c ∧ id ∉ b.transactions ∧ ¬expiration id < b.timestamp := by
    rw [State.onAppliedBlock, foldl_send_callbacks] at after
    split at after
    · cases after
    next silent =>
      rw [State.outcomes, map_append, map_map, map_map, mem_append, not_or] at silent
      refine ⟨after, fun inside => silent.1 ?_, fun late => silent.2 ?_⟩
      · rwa [← zipIdx_map_fst 0 b.transactions] at inside
      · exact mem_map.mpr ⟨_, mem_filter.mpr ⟨(orderly.waiting after).2.1, decide_eq_true late⟩, rfl⟩
  refine ⟨fun {id c} after => ?_, sent.once, sent.honest, fun p member => ?_⟩
  · obtain ⟨before, outside, late⟩ := waits after
    obtain ⟨called, listed, early⟩ := orderly.waiting before
    refine ⟨calls ▸ called, mem_filter.mpr ⟨listed, by simpa using late⟩, ?_⟩
    rintro ⟨p, member, after, due⟩
    rcases mem_append.mp member with member | member
    · exact early ⟨p, member, after, due⟩
    · rw [mem_singleton.mp member] at due
      exact due.elim outside late
  · rcases mem_append.mp member with member | member
    · exact calls ▸ orderly.past p member
    · rw [mem_singleton.mp member]
      exact Nat.le_of_eq (congrArg length calls.symm)

/-- As long as no call replaces the callback of a call that did not fail, every accepted call whose transaction was
included or has expired since has exactly one result, and a result of inclusion is only sent for included ones. -/
theorem answered_once (run : Run expiration State.Free s) :
    (∀ call id, s.calls[call]? = some id → s.status call = .accepted → s.Due expiration call id →
      s.results.countP (·.1 = call) = 1) ∧ ∀ a ∈ s.results, a.2.expired = false → s.Included a.2.id := by
  have orderly : Orderly expiration s.Included s := by
    induction run with
    | start => exact ⟨by simp, by simp, by simp, by simp⟩
    | register _ _ free ih => exact ih.register free
    | @finish s _ call ok ih =>
      have applied : (s.finish call ok).Included = s.Included := by
        unfold State.finish
        split <;> rfl
      exact applied ▸ ih.finish call ok
    | block _ b ih => exact ih.onAppliedBlock b
  refine ⟨fun call id called accepted due => ?_, fun a member => (orderly.honest a member).2⟩
  rw [orderly.once called (by simp [accepted]), if_neg fun waits => (orderly.waiting waits).2.2 due]

/-- Two clients broadcast the transactions 7 and 8.  A block has the first one, which a third client then broadcasts
again and is refused; the second one expires. -/
theorem answered_once_twice : ∃ s : State Nat, Run (fun _ => 9) State.Free s ∧ s.calls = [7, 8, 7] ∧
    s.results.countP (·.1 = 0) = 1 ∧ s.results.countP (·.1 = 1) = 1 := by
  have one : Run (fun _ => 9) State.Free (State.register (fun _ => 9) {} 7) :=
    Run.start.register 7 fun _ waits => by cases waits
  have two := (one.finish 0 true).register 8 fun _ waits => by cases waits
  have three := ((two.finish 1 true).block ⟨1, 3, [7]⟩).register 7 fun _ waits => by cases waits
  have run := (three.finish 2 false).block ⟨2, 12, []⟩
  exact ⟨_, run, rfl, (answered_once run).1 0 7 rfl rfl ⟨(2, ⟨1, 3, [7]⟩), by decide⟩,
    (answered_once run).1 1 8 rfl rfl ⟨(3, ⟨2, 12, []⟩), by decide⟩⟩

/-- A second client broadcasts it, which is refused as a duplicate; then no result is sent to the first one. -/
theorem callback_replaced : ∃ s : State Nat, Run (fun _ => 9) (fun _ _ => True) s ∧ s.calls[0]? = some 7 ∧
    s.status 0 = .accepted ∧ s.Due (fun _ => 9) 0 7 ∧ s.results.countP (·.1 = 0) = 0 :=
  ⟨_, ((((Run.start.register 7 trivial).finish 0 true).register 7 trivial).finish 1 false).block ⟨1, 3, [7]⟩, rfl, rfl,
    ⟨(2, ⟨1, 3, [7]⟩), by decide⟩, rfl⟩

end Golos.Broadcast
