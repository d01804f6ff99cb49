import Mathlib.Data.List.Basic
import Mathlib.Tactic.Common

/-! # Hash trees

A binary tree over digests, and the digest it stands for.  If the hash of a pair determines the pair
and no leaf is the hash of a pair, the digest determines the tree, whatever its shape.  A tree over a
list is built in rounds that pair up neighbours; a last one without a neighbour is carried over.
-/

inductive HashTree (D : Type) where
  | leaf (digest : D)
  | node (left right : HashTree D)
  deriving DecidableEq

namespace HashTree

variable {D : Type} {pair : D → D → D} {t u : HashTree D} {trees : List (HashTree D)}

def leaves : HashTree D → List D
  | leaf digest => [digest]
  | node left right => left.leaves ++ right.leaves

def hash (pair : D → D → D) : HashTree D → D
  | leaf digest => digest
  | node left right => pair (left.hash pair) (right.hash pair)

/-- No leaf is taken for a node. -/
def Plain (pair : D → D → D) (t : HashTree D) : Prop := ∀ digest ∈ t.leaves, ∀ a b, digest ≠ pair a b

theorem eq_of_hash_eq (injective : ∀ a b c d, pair a b = pair c d → a = c ∧ b = d) (plain : t.Plain pair)
    (plain' : u.Plain pair) (same : t.hash pair = u.hash pair) : t = u := by
  induction t generalizing u with
  | leaf digest =>
    cases u with
    | leaf => exact congrArg leaf same
    | node => exact absurd same (plain digest (List.mem_singleton_self _) _ _)
  | node left right left_ih right_ih =>
    cases u with
    | leaf digest => exact absurd same.symm (plain' digest (List.mem_singleton_self _) _ _)
    | node left' right' =>
      obtain ⟨sameLeft, sameRight⟩ := injective _ _ _ _ same
      simp only [Plain, leaves, List.forall_mem_append] at plain plain'
      rw [left_ih plain.1 plain'.1 sameLeft, right_ih plain.2 plain'.2 sameRight]

/-- One round. -/
def pairUp : List (HashTree D) → List (HashTree D)
  | [] => []
  | [last] => [last]
  | left :: right :: rest => node left right :: pairUp rest

theorem leaves_pairUp (trees : List (HashTree D)) : (pairUp trees).flatMap leaves = trees.flatMap leaves := by
  fun_induction pairUp trees with
  | case1 => rfl
  | case2 last => rfl
  | case3 left right rest ih => simp [leaves, ih]

theorem length_pairUp (trees : List (HashTree D)) : (pairUp trees).length = trees.length / 2 + trees.length % 2 := by
  fun_induction pairUp trees with
  | case1 => simp
  | case2 last => simp
  | case3 left right rest ih =>
    simp only [List.length_cons, ih]
    omega

/-- What the `k`-th tree of the next round is made of. -/
theorem getElem?_pairUp (trees : List (HashTree D)) (k : Nat) : (pairUp trees)[k]? = match trees[2 * k + 1]? with
    | some right => trees[2 * k]?.map (node · right)
    | none => trees[2 * k]? := by
  fun_induction pairUp trees generalizing k with
  | case1 => rfl
  | case2 last => cases k <;> simp
  | case3 left right rest ih =>
    cases k with
    | zero => rfl
    | succ k => simpa only [Nat.mul_add_one, Nat.add_right_comm _ 2 1, List.getElem?_cons_succ] using ih k

end HashTree
