import Mathlib.Data.List.Nodup
import Mathlib.Logic.Relation

/-! # Forests

Every element of a carrier has at most one parent, and stands one step above it.  The ancestors of an
element are found by walking up; as many steps as its height reach the root, and no ancestor is met twice.
-/

namespace Forest

open Relation

variable {K : Type} {parent parent' : K → Option K} {inside : K → Prop} {height : K → Nat} {k p a : K}

/-- What a walk of some steps meets, the nearest first. -/
def ancestors (parent : K → Option K) : (steps : Nat) → K → List K
  | 0, _ => []
  | steps + 1, k => (parent k).elim [] fun p => p :: ancestors parent steps p

/-- Roots have no height, and every other element stands one above its parent. -/
structure Heights (parent : K → Option K) (inside : K → Prop) (height : K → Nat) : Prop where
  root : ∀ k, inside k → parent k = none → height k = 0
  step : ∀ k p, inside k → parent k = some p → inside p ∧ height k = height p + 1

/-- All ancestors of an element. -/
def above (parent : K → Option K) (height : K → Nat) (k : K) : List K := ancestors parent (height k) k

theorem above_of_root (isRoot : parent k = none) : above parent height k = [] := by
  unfold above
  cases height k with
  | zero => rfl
  | succ steps => rw [ancestors, isRoot, Option.elim_none]

namespace Heights

variable (heights : Heights parent inside height)

include heights

theorem above_eq (member : inside k) (isParent : parent k = some p) :
    above parent height k = p :: above parent height p := by
  rw [above, (heights.step k p member isParent).2, ancestors, isParent, Option.elim_some]
  rfl

/-- The rule for facts about an element and all that is above it. -/
theorem induction {motive : (k : K) → inside k → Prop} (root : ∀ k member, parent k = none → motive k member)
    (step : ∀ k p member memberP, parent k = some p → height k = height p + 1 → motive p memberP → motive k member)
    (member : inside k) : motive k member := by
  generalize tall : height k = n
  induction n generalizing k with
  | zero =>
    cases isParent : parent k with
    | none => exact root k member isParent
    | some p =>
      have below := (heights.step k p member isParent).2
      omega
  | succ n ih =>
    cases isParent : parent k with
    | none => exact root k member isParent
    | some p =>
      obtain ⟨memberP, below⟩ := heights.step k p member isParent
      exact step k p member memberP isParent below (ih memberP (by omega))

theorem mem_above (member : inside k) (isAbove : a ∈ above parent height k) : inside a ∧ height a < height k := by
  induction k, member using heights.induction with
  | root k _ isRoot =>
    rw [above_of_root isRoot] at isAbove
    cases isAbove
  | step k p member memberP isParent below ih =>
    rw [heights.above_eq member isParent] at isAbove
    rcases List.mem_cons.mp isAbove with rfl | further
    · exact ⟨memberP, by omega⟩
    · obtain ⟨memberA, below'⟩ := ih further
      exact ⟨memberA, by omega⟩

theorem not_mem_above (member : inside k) : k ∉ above parent height k :=
  fun isAbove => Nat.lt_irrefl _ (heights.mem_above member isAbove).2

/-- The walk meets what the parent relation leads to. -/
theorem mem_above_iff (member : inside k) :
    a ∈ above parent height k ↔ TransGen (fun child p => parent child = some p) k a := by
  constructor
  · intro isAbove
    induction k, member using heights.induction with
    | root k _ isRoot =>
      rw [above_of_root isRoot] at isAbove
      cases isAbove
    | step k p member _ isParent _ ih =>
      rw [heights.above_eq member isParent] at isAbove
      rcases List.mem_cons.mp isAbove with rfl | further
      · exact .single isParent
      · exact .head isParent (ih further)
  · intro leads
    induction leads using TransGen.head_induction_on with
    | single isParent =>
      rw [heights.above_eq member isParent]
      exact List.mem_cons_self
    | head isParent _ ih =>
      rw [heights.above_eq member isParent]
      exact List.mem_cons_of_mem _ (ih (heights.step _ _ member isParent).1)

/-- The walk depends on the parents and the heights of the carrier only. -/
theorem above_congr {height' : K → Nat} (sameParent : ∀ k, inside k → parent' k = parent k)
    (sameHeight : ∀ k, inside k → height' k = height k) (member : inside k) :
    above parent' height' k = above parent height k := by
  have same : ∀ steps k, inside k → ancestors parent' steps k = ancestors parent steps k := by
    intro steps
    induction steps with
    | zero => exact fun _ _ => rfl
    | succ steps ih =>
      intro k member
      rw [ancestors, ancestors, sameParent k member]
      cases isParent : parent k with
      | none => rfl
      | some p => rw [Option.elim_some, Option.elim_some, ih p (heights.step k p member isParent).1]
  rw [above, above, sameHeight k member, same _ _ member]

end Heights

end Forest
