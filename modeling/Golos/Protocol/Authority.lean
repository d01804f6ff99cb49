import Mathlib.Data.List.Dedup
import Mathlib.Data.List.Sort
import Golos.Protocol.Types

/-! # Authorities and signature checking

`authority`, `sign_state` and `verify_authority`.  The keys a transaction was signed
with are the ones recovered from its signatures; the recovery itself is outside the
model.
-/

namespace Golos

open Stateful

abbrev PublicKey := Nat

/-- `authority`: weighted accounts and keys under a threshold. -/
structure Authority where
  weightThreshold : Nat
  accountAuths : List (AccountName × Nat)
  keyAuths : List (PublicKey × Nat)
  deriving DecidableEq

namespace Authority

/-- `authority(1, key, 1)` -/
def ofKey (key : PublicKey) : Authority := ⟨1, [], [(key, 1)]⟩

/-- `is_impossible` -/
def isImpossible (a : Authority) : Bool :=
  (a.accountAuths.map Prod.snd).sum + (a.keyAuths.map Prod.snd).sum < a.weightThreshold

/-- `num_auths` -/
def numAuths (a : Authority) : Nat := a.accountAuths.length + a.keyAuths.length

/-- `validate` -/
def validate (a : Authority) : Except Error Unit :=
  validThat (∀ item ∈ a.accountAuths, item.1.isValid) (.invalidValue "Account name $account is invalid")

end Authority

/-! ## Required authorities -/

/-- What `operation_get_required_authorities` collects over a list of operations. -/
structure RequiredAuthorities where
  active : List AccountName := []
  owner : List AccountName := []
  posting : List AccountName := []
  other : List Authority := []

def RequiredAuthorities.append (a b : RequiredAuthorities) : RequiredAuthorities where
  active := a.active ++ b.active
  owner := a.owner ++ b.owner
  posting := a.posting ++ b.posting
  other := a.other ++ b.other

/-- The order of a `flat_set<account_name_type>`, without repetitions. -/
def nameSet (names : List AccountName) : List AccountName :=
  names.dedup.insertionSort fun a b => a.packed ≤ b.packed

theorem mem_nameSet {names : List AccountName} {a : AccountName} : a ∈ nameSet names ↔ a ∈ names := by
  simp [nameSet, List.mem_insertionSort]

/-! ## `sign_state` -/

/-- The exceptions `verify_authority` ends with; callers look at what they carry. -/
inductive AuthorityError where
  | combinedPostingAndActive
  | missingObject
  | missingPosting (accounts : List AccountName) (usedSignatures : List PublicKey)
  | missingOther (auths : List Authority)
  | missingActive (accounts : List AccountName) (usedSignatures : List PublicKey)
  | missingOwner (accounts : List AccountName) (usedSignatures : List PublicKey)
  | irrelevantSig (unusedSignatures : List PublicKey)
  | irrelevantApproval (unusedApprovals : List AccountName)

/-- Signatures and approvals, each with whether a check has used it. -/
structure SignState where
  availableKeys : List PublicKey
  providedSignatures : List (PublicKey × Bool)
  approvedBy : List (AccountName × Bool)

abbrev SignM := StateT SignState (Except AuthorityError)

/-- `map[k] = true`, which also inserts. -/
def setUsed {K : Type} [DecidableEq K] (k : K) (m : List (K × Bool)) : List (K × Bool) :=
  if k ∈ m.map Prod.fst then m.map fun e => if e.1 = k then (k, true) else e else m ++ [(k, true)]

namespace SignState

def unusedSignatures (s : SignState) : List PublicKey :=
  (s.providedSignatures.filter fun e => !e.2).map Prod.fst

def usedSignatures (s : SignState) : List PublicKey :=
  (s.providedSignatures.filter fun e => e.2).map Prod.fst

def unusedApprovals (s : SignState) : List AccountName :=
  (s.approvedBy.filter fun e => !e.2).map Prod.fst

/-- The constructor and the approvals entered after it: the account `temp` has
always approved. -/
def start (sigs keys : List PublicKey) (approvals : List AccountName) : SignState where
  availableKeys := keys
  providedSignatures := sigs.map fun k => (k, false)
  approvedBy := (.temp, decide (.temp ∉ approvals)) ::
    (approvals.dedup.filter (· ≠ .temp)).map fun a => (a, false)

end SignState

/-- `signed_by` -/
def signedBy (k : PublicKey) : SignM Bool := do
  let s ← get
  if k ∈ s.providedSignatures.map Prod.fst ∨ k ∈ s.availableKeys then do
    modify fun s => { s with providedSignatures := setUsed k s.providedSignatures }
    pure true
  else pure false

/-- The loop over the keys of an authority: `none` once the threshold is reached,
else the weight so far. -/
def weighKeys (threshold : Nat) : List (PublicKey × Nat) → Nat → SignM (Option Nat)
  | [], total => pure (some total)
  | (k, w) :: rest, total => do
    let signed ← signedBy k
    if signed then
      if threshold ≤ total + w then pure none else weighKeys threshold rest (total + w)
    else weighKeys threshold rest total

/-- The loop over the accounts of an authority; `check` is the recursive call. -/
def weighAccounts (threshold : Nat) (check : AccountName → SignM Bool) :
    List (AccountName × Nat) → Nat → SignM (Option Nat)
  | [], total => pure (some total)
  | (a, w) :: rest, total => do
    let s ← get
    if a ∈ s.approvedBy.map Prod.fst then
      if threshold ≤ total + w then pure none else weighAccounts threshold check rest (total + w)
    else do
      let approved ← check a
      if approved then do
        modify fun s => { s with approvedBy := setUsed a s.approvedBy }
        if threshold ≤ total + w then pure none else weighAccounts threshold check rest (total + w)
      else weighAccounts threshold check rest total

/-- The two loops of `satisfiesauthority` one after the other. -/
def weigh (auth : Authority) (check : AccountName → SignM Bool) : SignM Bool := do
  let keys ← weighKeys auth.weightThreshold auth.keyAuths 0
  keys.elim (pure true) fun total => do
    let accounts ← weighAccounts auth.weightThreshold check auth.accountAuths total
    pure (accounts.elim true fun total => auth.weightThreshold ≤ total)

/-- `satisfiesauthority(auth, depth)`; `levels` is `max_recursion - depth`. -/
def checkAuthority (getActive : AccountName → SignM Authority) : (levels : Nat) → Authority → SignM Bool
  | 0, auth => weigh auth fun _ => pure false
  | levels + 1, auth => weigh auth fun a => do
    let active ← getActive a
    checkAuthority getActive levels active

/-- `satisfiesauthority(id)` -/
def checkAccount (getActive : AccountName → SignM Authority) (levels : Nat) (id : AccountName) :
    SignM Bool := do
  let s ← get
  if id ∈ s.approvedBy.map Prod.fst then do
    modify fun s => { s with approvedBy := setUsed id s.approvedBy }
    pure true
  else do
    let active ← getActive id
    checkAuthority getActive levels active

/-! ## `verify_authority` -/

/-- The authorities of an account, as the three `authority_getter`s return them. -/
structure AuthorityGetter where
  active : AccountName → SignM Authority
  owner : AccountName → SignM Authority
  posting : AccountName → SignM Authority

/-- The authorities of all accounts, where they have any. -/
structure AuthorityGraph where
  active : AccountName → Option Authority
  owner : AccountName → Option Authority
  posting : AccountName → Option Authority

/-- The getters that look accounts up and throw for those that are not there. -/
def AuthorityGraph.getter (graph : AuthorityGraph) : AuthorityGetter where
  active name := require (graph.active name) .missingObject
  owner name := require (graph.owner name) .missingObject
  posting name := require (graph.posting name) .missingObject

/-- The members of `l` that fail `check`, checked from left to right. -/
def missing {K : Type} (check : K → SignM Bool) : List K → SignM (List K)
  | [] => pure []
  | k :: rest => do
    let ok ← check k
    let more ← missing check rest
    pure (if ok then more else k :: more)

/-- `a || b`, with `b` not run when `a` holds. -/
def orElse (a b : SignM Bool) : SignM Bool := do
  let done ← a
  if done then pure true else b

/-- `assert_unused_approvals` -/
def assertUnusedApprovals : SignM Unit := do
  let s ← get
  check (s.unusedSignatures = []) (.irrelevantSig s.unusedSignatures)
  check (s.unusedApprovals = []) (.irrelevantApproval s.unusedApprovals)

/-- How `verify_authority` is called: `max_recursion_depth`, and the order in which the accounts
of a set are gone through. -/
structure SearchOrder where
  maxRecursionDepth : Nat
  arrange : List AccountName → List AccountName

/-- The branch of `verify_authority` for operations that need posting authorities. -/
def verifyPosting (order : SearchOrder) (getter : AuthorityGetter) (required : RequiredAuthorities) :
    SignM Unit := do
  let satisfies := checkAuthority getter.posting order.maxRecursionDepth
  check (required.active = [] ∧ required.owner = [] ∧ required.other = []) .combinedPostingAndActive
  let accounts ← missing
    (fun id => orElse (checkAccount getter.posting order.maxRecursionDepth id) <| orElse
      (do let auth ← getter.active id; satisfies auth)
      (do let auth ← getter.owner id; satisfies auth))
    (order.arrange required.posting)
  let s ← get
  check (accounts = []) (.missingPosting accounts s.usedSignatures)
  assertUnusedApprovals

/-- The branch of `verify_authority` for everything else. -/
def verifyActiveAndOwner (order : SearchOrder) (getter : AuthorityGetter) (required : RequiredAuthorities)
    (ownerApprovals : List AccountName) : SignM Unit := do
  let satisfies := checkAuthority getter.active order.maxRecursionDepth
  let auths ← missing satisfies required.other
  check (auths = []) (.missingOther auths)
  let accounts ← missing
    (fun id => orElse (checkAccount getter.active order.maxRecursionDepth id)
      (do let auth ← getter.owner id; satisfies auth))
    (order.arrange required.active)
  let s ← get
  check (accounts = []) (.missingActive accounts s.usedSignatures)
  let accounts ← missing
    (fun id => do
      let ok ← orElse (pure (decide (id ∈ ownerApprovals)))
        (do let auth ← getter.owner id; satisfies auth)
      if ok then do
        modify fun s => { s with approvedBy := setUsed id s.approvedBy }
        pure true
      else pure false)
    (order.arrange required.owner)
  let s ← get
  check (accounts = []) (.missingOwner accounts s.usedSignatures)
  assertUnusedApprovals

/-- `verify_authority` -/
def verifyAuthorityIn (order : SearchOrder) (getter : AuthorityGetter) (required : RequiredAuthorities)
    (sigs : List PublicKey) (activeApprovals ownerApprovals postingApprovals : List AccountName) :
    Except AuthorityError Unit :=
  if required.posting ≠ [] then
    (verifyPosting order getter required (.start sigs [] postingApprovals)).map Prod.fst
  else
    (verifyActiveAndOwner order getter required ownerApprovals
      (.start sigs [] (activeApprovals ++ ownerApprovals))).map Prod.fst

/-- `STEEMIT_MAX_SIG_CHECK_DEPTH` -/
def maxSigCheckDepth : Nat := 2

/-- `verify_authority` as the chain calls it, with its accounts in `flat_set`s. -/
def verifyAuthority : AuthorityGetter → RequiredAuthorities → List PublicKey → List AccountName →
    List AccountName → List AccountName → Except AuthorityError Unit :=
  verifyAuthorityIn ⟨maxSigCheckDepth, nameSet⟩

end Golos
