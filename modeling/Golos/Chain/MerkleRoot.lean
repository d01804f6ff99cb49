import Golos.Chain.Block
import Golos.Lib.HashTree

/-! # The Merkle root of a block

`calculate_merkle_root` folds the digests of the transactions in one array, round after round.  Each
round is a round of `HashTree.pairUp`, so the value left is the hash of a tree over the digests.

The hash functions belong to a library of their own; what is assumed of them is
`Hashing.Collisionless`.
-/

namespace Golos

open List

/-- The hash functions `calculate_merkle_root` uses, and the values of `digest_type()` and
`checksum_type()`. -/
structure Hashing (Digest Checksum : Type) where
  merkleDigest : Transaction → Digest
  pair : Digest → Digest → Digest
  checksum : Digest → Checksum
  noDigest : Digest
  noChecksum : Checksum

structure Hashing.Collisionless {Digest Checksum : Type} (h : Hashing Digest Checksum) : Prop where
  pairs : ∀ a b c d, h.pair a b = h.pair c d → a = c ∧ b = d
  checksums : ∀ a b, h.checksum a = h.checksum b → a = b
  apart : ∀ trx a b, h.merkleDigest trx ≠ h.pair a b
  nonzero : ∀ a, h.checksum a ≠ h.noChecksum

section Model

variable {Digest Checksum : Type}

/-- `for (i = 0; i < i_max; i += 2) ids[k++] = hash(ids[i], ids[i + 1])`, in place. -/
def hashPairs (pair : Digest → Digest → Digest) (ids : Nat → Digest) (pairs : Nat) : Nat → Digest :=
  (range pairs).foldl (fun ids k => Function.update ids k (pair (ids (2 * k)) (ids (2 * k + 1)))) ids

/-- One round over the first `n` digests of the array. -/
def merkleRound (pair : Digest → Digest → Digest) (ids : Nat → Digest) (n : Nat) : Nat → Digest :=
  let ids := hashPairs pair ids (n / 2)
  if n % 2 = 1 then Function.update ids (n / 2) (ids (n - 1)) else ids

/-- The rounds until one digest is left. -/
def merkleRounds (pair : Digest → Digest → Digest) (ids : Nat → Digest) (n : Nat) : Digest :=
  if 1 < n then merkleRounds pair (merkleRound pair ids n) (n / 2 + n % 2) else ids 0
termination_by n

/-- `calculate_merkle_root`.  The counter of the loop that fills the array has 32 bits, so the loop
does not end for more transactions than it can count. -/
def Hashing.calculateMerkleRoot (h : Hashing Digest Checksum) (b : Block) : Option Checksum :=
  if b.transactions.length = 0 then some h.noChecksum
  else if 2 ^ 32 ≤ b.transactions.length then none
  else
    let ids : Nat → Digest := fun i => (b.transactions[i]?.map h.merkleDigest).getD h.noDigest
    some (h.checksum (merkleRounds h.pair ids b.transactions.length))

end Model

section Rounds

variable {Digest : Type} {pair : Digest → Digest → Digest} {ids : Nat → Digest} {trees : List (HashTree Digest)}

/-- Writing in place does no harm: a digest is read before its entry is written. -/
theorem hashPairs_eq (pairs j : Nat) :
    hashPairs pair ids pairs j = if j < pairs then pair (ids (2 * j)) (ids (2 * j + 1)) else ids j := by
  induction pairs generalizing j with
  | zero => rfl
  | succ k ih =>
    have step : hashPairs pair ids (k + 1) =
        Function.update (hashPairs pair ids k) k
          (pair (hashPairs pair ids k (2 * k)) (hashPairs pair ids k (2 * k + 1))) := by
      rw [hashPairs, range_succ, foldl_append]
      rfl
    rw [step, Function.update_apply]
    by_cases last : j = k
    · subst last
      rw [if_pos rfl, ih, ih, if_neg (by omega), if_neg (by omega), if_pos (by omega)]
    · rw [if_neg last, ih]
      by_cases earlier : j < k
      · rw [if_pos earlier, if_pos (by omega)]
      · rw [if_neg earlier, if_neg (by omega)]

/-- The array holds the hashes of the trees. -/
def Holds (pair : Digest → Digest → Digest) (ids : Nat → Digest) (trees : List (HashTree Digest)) : Prop :=
  ∀ i t, trees[i]? = some t → ids i = t.hash pair

theorem Holds.round (holds : Holds pair ids trees) :
    Holds pair (merkleRound pair ids trees.length) (HashTree.pairUp trees) := by
  intro k t found
  rw [HashTree.getElem?_pairUp] at found
  cases next : trees[2 * k + 1]? with
  | some right =>
    simp only [next, Option.map_eq_some_iff] at found
    obtain ⟨left, isLeft, rfl⟩ := found
    have inside : 2 * k + 1 < trees.length := (List.getElem?_eq_some_iff.mp next).1
    have paired : hashPairs pair ids (trees.length / 2) k = pair (left.hash pair) (right.hash pair) := by
      rw [hashPairs_eq, if_pos (by omega), holds _ _ isLeft, holds _ _ next]
    unfold merkleRound
    split
    · rw [Function.update_apply, if_neg (by omega), paired]
      rfl
    · exact paired
  | none =>
    simp only [next] at found
    have inside : 2 * k < trees.length := (List.getElem?_eq_some_iff.mp found).1
    have last : trees.length ≤ 2 * k + 1 := getElem?_eq_none_iff.mp next
    have odd : trees.length % 2 = 1 := by omega
    have carried : trees.length - 1 = 2 * k := by omega
    rw [merkleRound, if_pos odd, Function.update_apply, if_pos (by omega), hashPairs_eq, if_neg (by omega), carried]
    exact holds _ _ found

/-- The rounds end with the hash of one tree over all the leaves. -/
theorem Holds.rounds (holds : Holds pair ids trees) (positive : 0 < trees.length) :
    ∃ t : HashTree Digest, t.leaves = trees.flatMap HashTree.leaves ∧
      merkleRounds pair ids trees.length = t.hash pair := by
  induction length : trees.length using Nat.strong_induction_on generalizing ids trees with
  | _ n ih =>
    subst length
    rw [merkleRounds]
    split
    next several =>
      have shorter := HashTree.length_pairUp trees
      obtain ⟨t, leaves, root⟩ := ih _ (by omega) holds.round (by omega) shorter
      exact ⟨t, leaves.trans (HashTree.leaves_pairUp trees), root⟩
    · obtain ⟨t, rfl⟩ := length_eq_one_iff.mp (by omega : trees.length = 1)
      exact ⟨t, by simp, holds 0 t rfl⟩

end Rounds

section Root

variable {Digest Checksum : Type} {h : Hashing Digest Checksum} {b : Block} {root : Checksum}

/-- The root of a block with transactions is the checksum of a tree over their digests. -/
theorem Hashing.root_eq (given : h.calculateMerkleRoot b = some root) (present : b.transactions ≠ []) :
    ∃ t : HashTree Digest, t.leaves = b.transactions.map h.merkleDigest ∧ root = h.checksum (t.hash h.pair) := by
  have positive := length_pos_iff.mpr present
  rw [calculateMerkleRoot, if_neg (by omega)] at given
  split at given
  · cases given
  cases given
  have holds : Holds h.pair (fun i => (b.transactions[i]?.map h.merkleDigest).getD h.noDigest)
      (b.transactions.map fun trx => .leaf (h.merkleDigest trx)) := by
    intro i t found
    rw [getElem?_map, Option.map_eq_some_iff] at found
    obtain ⟨trx, found, rfl⟩ := found
    simp only [found]
    rfl
  obtain ⟨t, leaves, hashed⟩ := holds.rounds (by rwa [length_map])
  rw [length_map] at hashed
  refine ⟨t, ?_, by rw [hashed]⟩
  rw [leaves, flatMap_map, map_eq_flatMap]
  rfl

/-- The root of a block determines the digests of its transactions. -/
theorem merkle_root_commits (collisionless : h.Collisionless) {b' : Block} (first : h.calculateMerkleRoot b = some root)
    (second : h.calculateMerkleRoot b' = some root) :
    b.transactions.map h.merkleDigest = b'.transactions.map h.merkleDigest := by
  have empty {b : Block} (isRoot : h.calculateMerkleRoot b = some root) (none : b.transactions = []) :
      root = h.noChecksum := by
    rw [Hashing.calculateMerkleRoot, if_pos (by rw [none]; rfl)] at isRoot
    exact (Option.some.inj isRoot).symm
  have plain {b : Block} {t : HashTree Digest} (leaves : t.leaves = b.transactions.map h.merkleDigest) :
      t.Plain h.pair := by
    intro digest member
    rw [leaves] at member
    obtain ⟨trx, _, rfl⟩ := mem_map.mp member
    exact collisionless.apart trx
  by_cases none : b.transactions = []
  · by_cases none' : b'.transactions = []
    · rw [none, none']
    · obtain ⟨t, _, isRoot⟩ := Hashing.root_eq second none'
      exact absurd (isRoot.symm.trans (empty first none)) (collisionless.nonzero _)
  · obtain ⟨t, leaves, isRoot⟩ := Hashing.root_eq first none
    by_cases none' : b'.transactions = []
    · exact absurd (isRoot.symm.trans (empty second none')) (collisionless.nonzero _)
    · obtain ⟨t', leaves', isRoot'⟩ := Hashing.root_eq second none'
      have hashes := collisionless.checksums _ _ (isRoot.symm.trans isRoot')
      rw [← leaves, ← leaves', HashTree.eq_of_hash_eq collisionless.pairs (plain leaves) (plain leaves') hashes]

end Root

/-- Hashes as terms. -/
def termHashing : Hashing (HashTree Nat) (Option (HashTree Nat)) where
  merkleDigest trx := .leaf trx.id
  pair := .node
  checksum := some
  noDigest := .leaf 0
  noChecksum := none

theorem termHashing_collisionless : termHashing.Collisionless where
  pairs _ _ _ _ same := HashTree.node.inj same
  checksums _ _ same := Option.some.inj same
  apart _ _ _ same := by cases same
  nonzero _ same := by cases same

def numberedBlock (ids : List Nat) : Block where
  previous := .zero
  timestamp := 0
  witness := .initMiner
  transactionMerkleRoot := 0
  extensions := []
  transactions := ids.map fun id => ⟨id, 0, 0, 0, [], []⟩
  digest := 0
  merkleRoot := 0
  signee := 0
  size := 0

/-- Three transactions and the first two of them have different roots. -/
theorem merkle_root_commits_terms :
    termHashing.calculateMerkleRoot (numberedBlock [1, 2, 3]) =
      some (some (.node (.node (.leaf 1) (.leaf 2)) (.leaf 3))) ∧
    termHashing.calculateMerkleRoot (numberedBlock [1, 2]) ≠
      some (some (.node (.node (.leaf 1) (.leaf 2)) (.leaf 3))) := by
  have first : termHashing.calculateMerkleRoot (numberedBlock [1, 2, 3]) =
      some (some (.node (.node (.leaf 1) (.leaf 2)) (.leaf 3))) := by
    simp [Hashing.calculateMerkleRoot, numberedBlock, merkleRounds, merkleRound, hashPairs, range_succ, termHashing]
  refine ⟨first, fun second => ?_⟩
  exact absurd (merkle_root_commits termHashing_collisionless first second) (by decide)

end Golos
