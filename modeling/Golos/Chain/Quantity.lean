import Golos.Lib.Conservation
import Golos.Chain.Balance

/-! # Quantities of the database

A quantity of the state that adds something up over the objects of a store moves by
what is created, changed and removed there.  `IsHolder` says that a store is one of
those a quantity adds up over; the lemmas say by how much the operations on its
objects, or on accounts, move the quantity.
-/

namespace Golos

open Stateful

variable {name : AccountName} {K V : Type} {a : Asset}

/-! ## Reading moves nothing -/

section Reads

variable {α β M : Type} [AddCommGroup M] {q : Database → M} {s : Database} {e : β → M}

@[simp] theorem moves_getAccount_bind {k : Account → Eval β} :
    Moves q s (getAccount name >>= k) e ↔ ∀ a, s.accounts.find? name = some a → Moves q s (k a) e := by
  simp [getAccount]

@[simp] theorem moves_getWitness_bind {k : Witness → Eval β} :
    Moves q s (getWitness name >>= k) e ↔ ∀ w, s.witnesses.find? name = some w → Moves q s (k w) e := by
  simp [getWitness]

@[simp] theorem moves_getComment_bind {key : CommentKey} {k : Comment → Eval β} : Moves q s (getComment key >>= k) e ↔
      ∀ c, s.comments.find? key = some c → Moves q s (k c) e := by
  simp [getComment]

@[simp] theorem moves_fetch_bind [DecidableEq K] {table : Database → Store K V}
    {type : String} {key : K} {k : V → Eval β} : Moves q s (fetch table type key >>= k) e ↔
      ∀ v, (table s).find? key = some v → Moves q s (k v) e := by
  simp [fetch]

@[simp] theorem moves_amountIn_bind {symbol : AssetSymbol} {k : Int → Eval β} :
    Moves q s (amountIn symbol a >>= k) e ↔ (a.symbol = symbol → Moves q s (k a.amount) e) := by
  simp [amountIn]

@[simp] theorem moves_times_bind {p : Price} {k : Asset → Eval β} :
    Moves q s (times a p >>= k) e ↔ ∀ r, a.mulPrice p = .ok r → Moves q s (k r) e := by
  simp [times]

end Reads

/-! ## Objects that count -/

/-- The store `table`, written by `update`, is a part of the quantity `q`: an object counts by
what `g` says, and nothing else changes with the store. -/
structure IsHolder {K V M : Type} [AddCommGroup M] (q : Database → M) (table : Database → Store K V)
    (update : (Store K V → Store K V) → Eval Unit) (g : K → V → M) : Prop where
  write : ∀ (f : Store K V → Store K V) (s : Database), Ensures s (update f) fun _ t =>
    table t = f (table s) ∧ q t - (table t).total g = q s - (table s).total g

section Objects

variable {M : Type} [DecidableEq K] [AddCommGroup M] {q : Database → M} {table : Database → Store K V}
  {update : (Store K V → Store K V) → Eval Unit} {g : K → V → M} {s : Database} {type : String} {k : K}

omit [DecidableEq K] in
theorem IsHolder.moves_update (holder : IsHolder q table update g) {f : Store K V → Store K V} {d : M}
    (change : (f (table s)).total g = (table s).total g + d) : Moves q s (update f) fun _ => d := by
  refine (holder.write f s).mono fun _ t ⟨written, rest⟩ => ?_
  rw [written, change] at rest
  rw [← sub_left_inj, rest]
  abel

theorem IsHolder.moves_create (holder : IsHolder q table update g) {v : V} :
    Moves q s (create table update type k v) fun _ => g k v := by
  rw [create, moves_get_bind, moves_check_bind]
  exact fun fresh => holder.moves_update (Store.total_insert fresh)

theorem IsHolder.moves_erase (holder : IsHolder q table update g) {v : V} (found : (table s).find? k = some v) :
    Moves q s (update fun t => t.erase k) fun _ => -g k v := by
  refine holder.moves_update ?_
  rw [← Store.total_erase found]
  abel

theorem IsHolder.moves_modify (holder : IsHolder q table update g) {v : V} {f : V → V}
    (found : (table s).find? k = some v) : Moves q s (update fun t => t.modify k f) fun _ => g k (f v) - g k v := by
  refine holder.moves_update ?_
  rw [← add_left_inj (g k v), Store.total_modify found]
  abel

theorem IsHolder.moves_remove (holder : IsHolder q table update g) {v : V} (found : (table s).find? k = some v) :
    Moves q s (remove table update type k) fun _ => -g k v := by
  rw [remove, moves_fetch_bind]
  exact fun _ _ => holder.moves_erase found

theorem IsHolder.moves_change (holder : IsHolder q table update g) {v : V} {f : V → V}
    (found : (table s).find? k = some v) : Moves q s (change table update type k f) fun _ => g k (f v) - g k v := by
  rw [change, moves_fetch_bind]
  exact fun _ _ => holder.moves_modify found

/-- The object a change leaves behind. -/
theorem IsHolder.find?_change (holder : IsHolder q table update g) {v : V} {f : V → V}
    (found : (table s).find? k = some v) :
    Ensures s (change table update type k f) fun _ t => (table t).find? k = some (f v) := by
  simp only [change, fetch, ensures_steps]
  refine fun _ _ => (holder.write _ s).mono fun _ t written => ?_
  rw [written.1, Store.find?_modify, if_pos rfl, found, Option.map_some]

theorem IsHolder.table_remove (holder : IsHolder q table update g) :
    Ensures s (remove table update type k) fun _ t => table t = (table s).erase k := by
  simp only [remove, fetch, ensures_steps]
  exact fun _ _ => (holder.write _ s).mono fun _ t written => written.1

/-- A loop over some objects of a store, in which every pass conserves and removes its own. -/
theorem conserves_sweep {body : K → V → Eval Unit} {l : List (K × V)} (lists : (table s).Lists l)
    (conserves : ∀ s k v, (table s).find? k = some v → Conserves q s (body k v))
    (removes : ∀ s k v, Ensures s (body k v) fun _ t => table t = (table s).erase k) :
    Conserves q s (l.forM fun e => body e.1 e.2) := by
  induction l generalizing s with
  | nil => exact moves_pure.mpr rfl
  | cons e l ih =>
    refine (conserves s e.1 e.2 (lists.found e List.mem_cons_self)).bind fun _ t run => ?_
    have rest : (table t).Lists l := by
      rw [removes s e.1 e.2 _ _ run]
      exact lists.tail
    exact ih rest

/-- A loop that removes the objects it goes over leaves the others. -/
theorem sweep_erases (table : Database → Store K V) {body : K → V → Eval Unit} {l : List (K × V)}
    (removes : ∀ s k v, Ensures s (body k v) fun _ t => table t = (table s).erase k) :
    Ensures s (l.forM fun e => body e.1 e.2) fun _ t =>
      ∀ k, (table t).find? k = if k ∈ l.map Prod.fst then none else (table s).find? k := by
  induction l generalizing s with
  | nil => exact ensures_pure.mpr fun k => by simp
  | cons e l ih =>
    rw [List.forM_eq_forM, List.forM_cons, ensures_bind]
    refine (removes s e.1 e.2).mono fun _ t erased => ih.mono fun _ u after k => ?_
    rw [after k, erased, Store.find?_erase]
    by_cases first : k = e.1
    · simp [first]
    · have same : k ∈ (e :: l).map Prod.fst ↔ k ∈ l.map Prod.fst := by
        simp only [List.map_cons, List.mem_cons, first, false_or]
      simp only [first, same, if_false]

end Objects

/-! ## Accounts -/

section Accounts

variable {M : Type} [AddCommGroup M] {q : Database → M} {g : AccountName → Account → M} {s : Database}
  {name : AccountName}

theorem IsHolder.moves_updateAccount (holder : IsHolder q (·.accounts) updateAccounts g) {f : Account → Account} {d : M}
    (change : ∀ a, s.accounts.find? name = some a → g name (f a) = g name a + d) :
    Moves q s (updateAccount name f) fun _ => d := by
  rw [updateAccount, moves_getAccount_bind]
  intro a found
  refine (holder.moves_modify found).congr fun _ _ _ => ?_
  rw [change a found]
  abel

/-- A new account brings what it counts. -/
theorem IsHolder.moves_createAccount (holder : IsHolder q (·.accounts) updateAccounts g) {account : Account} :
    Moves q s (createAccount name account) fun _ => g name account := by
  rw [createAccount, moves_get_bind, moves_check_bind]
  exact fun fresh => holder.moves_update (Store.total_insert fresh)

end Accounts

end Golos
