import Golos.Chain.Invariant

/-! # Accounts by key

The plugin keeps an index from keys to the accounts that have them in an authority.  Before an operation it puts the
keys of the account into a cache, and after it the index is brought up to date by comparing the cache with the keys of
now.

* `references_exact` — the index of the accounts that operations created is exact, unless hardfork 16 gives some of them
  another key;
* `reachable_followed` — the histories it is about are what the chain does.
-/

namespace Golos.AccountByKey

open Stateful Store List Evaluator

abbrev Authorities := Store AccountName AccountAuthority

/-- The index `by_key`, and `cached_keys`. -/
structure Plugin where
  keyLookup : Finset (PublicKey × AccountName) := ∅
  cachedKeys : List PublicKey := []

/-- The keys in the three authorities of an account. -/
def keysOf (a : AccountAuthority) : List PublicKey :=
  ((a.owner.keyAuths ++ a.active.keyAuths ++ a.posting.keyAuths).map Prod.fst).dedup

namespace Plugin

variable (p : Plugin) (authorities : Authorities)

def clearCache : Plugin := { p with cachedKeys := [] }

def cacheAuths (a : AccountAuthority) : Plugin := { p with cachedKeys := p.cachedKeys ∪ keysOf a }

/-- A key in the cache is taken out of it, any other is put into the index. -/
def lookUp (name : AccountName) (p : Plugin) (key : PublicKey) : Plugin :=
  if key ∈ p.cachedKeys then { p with cachedKeys := p.cachedKeys.filter (· ≠ key) }
  else { p with keyLookup := insert (key, name) p.keyLookup }

/-- `update_key_lookup`: the keys that are left in the cache are removed. -/
def updateKeyLookup (name : AccountName) (a : AccountAuthority) : Plugin :=
  let p := (keysOf a).foldl (lookUp name) p
  { keyLookup := p.cachedKeys.foldl (fun lookup key => lookup.erase (key, name)) p.keyLookup, cachedKeys := [] }

/-- What the visitors do for an account, if there is one. -/
def cacheAccount (name : AccountName) : Plugin := (authorities.find? name).elim p p.cacheAuths

def updateAccount (name : AccountName) : Plugin := (authorities.find? name).elim p (p.updateKeyLookup name)

/-- `pre_operation_visitor` -/
def preOperation : Operation → Plugin
  | .accountCreate _ | .accountCreateWithDelegation _ | .pow _ | .pow2 _ => p.clearCache
  | .accountUpdate o => p.clearCache.cacheAccount authorities o.account
  | .recoverAccount o => p.clearCache.cacheAccount authorities o.accountToRecover
  | _ => p

/-- `post_operation_visitor` -/
def postOperation : Operation → Plugin
  | .accountCreate o => p.updateAccount authorities o.newAccountName
  | .accountCreateWithDelegation o => p.updateAccount authorities o.newAccountName
  | .accountUpdate o => p.updateAccount authorities o.account
  | .recoverAccount o => p.updateAccount authorities o.accountToRecover
  | .pow o => p.updateAccount authorities o.workerAccount
  | .pow2 o => p.updateAccount authorities o.workerAccount
  | _ => p

/-- The visitor of `hardfork_operation`; an account is there if its authority is.  An entry there is already ends the
loop, by an exception that is caught. -/
def postHardfork (net : Network) (hardfork : Nat) : Plugin :=
  if hardfork = 16 then { p with keyLookup := addCompromised net.compromisedAccounts p.keyLookup } else p
where
  addCompromised : List AccountName → Finset (PublicKey × AccountName) → Finset (PublicKey × AccountName)
    | [], lookup => lookup
    | name :: rest, lookup =>
      if authorities.find? name = none then addCompromised rest lookup
      else if (net.compromisedKey, name) ∈ lookup then lookup
      else addCompromised rest (insert (net.compromisedKey, name) lookup)

/-- `get_key_references` -/
def getKeyReferences (keys : List PublicKey) : List (Finset AccountName) :=
  keys.map fun key => (p.keyLookup.filter (·.1 = key)).image Prod.snd

end Plugin

/-! ## Histories -/

/-- The account whose keys an operation may change, and whether the plugin caches them before. -/
def subject : Operation → Option (AccountName × Bool)
  | .accountCreate o => some (o.newAccountName, false)
  | .accountCreateWithDelegation o => some (o.newAccountName, false)
  | .accountUpdate o => some (o.account, true)
  | .recoverAccount o => some (o.accountToRecover, true)
  | .pow o => some (o.workerAccount, false)
  | .pow2 o => some (o.workerAccount, false)
  | _ => none

/-- Only some authorities may change or be new, and if `fixed` only be new. -/
structure Alters (names : List AccountName) (fixed : Bool) (before after : Authorities) : Prop where
  others : ∀ other, other ∉ names → after.find? other = before.find? other
  keeps : ∀ name auth, before.find? name = some auth →
    after.find? name ≠ none ∧ (fixed = true → after.find? name = some auth)

/-- What an operation may do to the authorities. -/
def Changes (op : Operation) (before after : Authorities) : Prop :=
  match subject op with
  | none => after = before
  | some (name, caches) => Alters [name] (!caches) before after

/-- The accounts to which a hardfork gives new authorities. -/
def targets (net : Network) (hardfork : Nat) (a : Authorities) : List AccountName :=
  if hardfork = 12 then [.miners, .null, .temp]
  else if hardfork = 16 then net.compromisedAccounts.filter fun name => (a.find? name).isSome
  else []

/-- The histories in which every hardfork meets the condition. -/
inductive History (net : Network) (genesis : Authorities) (allowed : Nat → Authorities → Prop) :
    Authorities → Plugin → Prop
  | genesis : History net genesis allowed genesis {}
  | operation {a a' : Authorities} {p : Plugin} (op : Operation) : History net genesis allowed a p → Changes op a a' →
    History net genesis allowed a' ((p.preOperation a op).postOperation a' op)
  /-- What fails is undone, but for the cache. -/
  | failed {a : Authorities} {p : Plugin} (cachedKeys : List PublicKey) : History net genesis allowed a p →
    History net genesis allowed a { p with cachedKeys }
  | hardfork {a a' : Authorities} {p : Plugin} (hardfork : Nat) : History net genesis allowed a p → allowed hardfork a →
    Alters (targets net hardfork a) false a a' → History net genesis allowed a' (p.postHardfork a' net hardfork)

/-- The accounts to which a hardfork gives new authorities are those of the genesis. -/
def Unaffected (net : Network) (genesis : Authorities) (hardfork : Nat) (a : Authorities) : Prop :=
  ∀ name ∈ targets net hardfork a, genesis.find? name ≠ none

/-! ## The index -/

section Index

variable {net : Network} {p : Plugin} {name other : AccountName} {auth : AccountAuthority} {key : PublicKey}
  {keys : List PublicKey} {a a' : Authorities} {op : Operation}

theorem alters_insert {fixed : Bool} (fresh : a.find? name = none) : Alters [name] fixed a (a.insert name auth) := by
  refine ⟨fun other different => ?_, fun name' old found => ?_⟩
  · exact (find?_insert fresh).trans (if_neg (by simpa using different))
  · have other : name' ≠ name := fun same => by cases (same ▸ fresh).symm.trans found
    rw [find?_insert fresh, if_neg other, found]
    exact ⟨nofun, fun _ => rfl⟩

theorem alters_modify {f : AccountAuthority → AccountAuthority} {names : List AccountName} (listed : name ∈ names) :
    Alters names false a (a.modify name f) := by
  refine ⟨fun other different => ?_, fun name' auth found => ⟨?_, nofun⟩⟩
  · refine find?_modify.trans (if_neg ?_)
    rintro rfl
    exact different listed
  · rw [find?_modify, found]
    split <;> simp

theorem lookUp_iff (distinct : keys.Nodup) : ((key, other) ∈ (keys.foldl (Plugin.lookUp name) p).keyLookup ↔
      (key, other) ∈ p.keyLookup ∨ other = name ∧ key ∈ keys ∧ key ∉ p.cachedKeys) ∧
    (key ∈ (keys.foldl (Plugin.lookUp name) p).cachedKeys ↔ key ∈ p.cachedKeys ∧ key ∉ keys) := by
  induction keys generalizing p with
  | nil => simp
  | cons first keys ih =>
    obtain ⟨fresh, distinct⟩ := nodup_cons.mp distinct
    obtain ⟨lookup, cache⟩ := @ih (Plugin.lookUp name p first) distinct
    rw [foldl_cons, lookup, cache, Plugin.lookUp]
    split
    next cached =>
      by_cases same : key = first
      · simp [same, cached, fresh]
      · simp [same]
    next new =>
      by_cases same : key = first
      · simp [same, new, fresh, or_comm]
      · simp [same]

theorem erase_iff {lookup : Finset (PublicKey × AccountName)} :
    (key, other) ∈ keys.foldl (fun lookup key => lookup.erase (key, name)) lookup ↔
      (key, other) ∈ lookup ∧ ¬(other = name ∧ key ∈ keys) := by
  induction keys generalizing lookup with
  | nil => simp
  | cons first keys ih =>
    rw [foldl_cons, ih, Finset.mem_erase, mem_cons, ne_eq, Prod.mk.injEq]
    tauto

/-- What `update_key_lookup` leaves in the index. -/
theorem updateKeyLookup_iff : (key, other) ∈ (p.updateKeyLookup name auth).keyLookup ↔
    ((key, other) ∈ p.keyLookup ∨ other = name ∧ key ∈ keysOf auth ∧ key ∉ p.cachedKeys) ∧
      ¬(other = name ∧ key ∈ p.cachedKeys ∧ key ∉ keysOf auth) := by
  obtain ⟨lookup, cache⟩ := @lookUp_iff p name other key (keysOf auth) (nodup_dedup _)
  rw [Plugin.updateKeyLookup, erase_iff, lookup, cache]

/-- What the two visitors do together. -/
theorem visited {caches : Bool} (isSubject : subject op = some (name, caches)) :
    (p.preOperation a op).postOperation a' op = Plugin.updateAccount
      { p with cachedKeys := if caches then (a.find? name).elim [] keysOf else [] } a' name := by
  have cache (name : AccountName) : p.clearCache.cacheAccount a name =
      { p with cachedKeys := (a.find? name).elim [] keysOf } := by
    unfold Plugin.cacheAccount
    cases a.find? name <;> simp [Plugin.clearCache, Plugin.cacheAuths]
  cases op <;> cases isSubject <;> first | rfl | exact congrArg (Plugin.updateAccount · a' _) (cache _)

theorem not_visited (noSubject : subject op = none) : (p.preOperation a op).postOperation a' op = p := by
  cases op <;> first | rfl | cases noSubject

/-- The keys an account has. -/
def Has (a : Authorities) (name : AccountName) (key : PublicKey) : Prop :=
  ∃ auth, a.find? name = some auth ∧ key ∈ keysOf auth

/-- The index is right about an account. -/
def Right (a : Authorities) (p : Plugin) (name : AccountName) : Prop :=
  ∀ key, (key, name) ∈ p.keyLookup ↔ Has a name key

theorem Right.operation (right : Right a p other) (changes : Changes op a a') :
    Right a' ((p.preOperation a op).postOperation a' op) other := by
  intro key
  unfold Changes at changes
  split at changes
  next noSubject =>
    rw [not_visited noSubject, changes]
    exact right key
  next name caches isSubject =>
    rw [visited isSubject, Plugin.updateAccount]
    by_cases same : other = name
    · subst same
      have old := right key
      unfold Has at old ⊢
      cases now : a'.find? other with
      | none =>
        have absent : a.find? other = none := Option.eq_none_iff_forall_ne_some.mpr fun auth found =>
          (changes.keeps other auth found).1 now
        simpa [absent] using old
      | some auth =>
        rw [Option.elim_some, updateKeyLookup_iff, old]
        cases before : a.find? other with
        | none => simp
        | some auth' =>
          cases caches with
          | true => simp; tauto
          | false =>
            cases now.symm.trans ((changes.keeps other auth' before).2 rfl)
            simp
    · have elsewhere : Has a' other key ↔ Has a other key := by
        rw [Has, changes.others other (by simpa using same), Has]
      rw [elsewhere, ← right key]
      cases a'.find? name with
      | none => rfl
      | some auth => simp [updateKeyLookup_iff, same]

theorem addCompromised_iff {names : List AccountName} {lookup : Finset (PublicKey × AccountName)}
    (notListed : ∀ name ∈ names, a.find? name ≠ none → name ≠ other) :
    (key, other) ∈ Plugin.postHardfork.addCompromised a net names lookup ↔ (key, other) ∈ lookup := by
  induction names generalizing lookup with
  | nil => rfl
  | cons first names ih =>
    obtain ⟨notFirst, notListed⟩ := forall_mem_cons.mp notListed
    unfold Plugin.postHardfork.addCompromised
    split
    · exact ih notListed
    next there =>
      split
      · rfl
      · simp [ih notListed, (notFirst there).symm]

theorem Right.hardfork {hardfork : Nat} (right : Right a p other) (notTarget : other ∉ targets net hardfork a)
    (alters : Alters (targets net hardfork a) false a a') : Right a' (p.postHardfork a' net hardfork) other := by
  have same := alters.others other notTarget
  intro key
  rw [Has, same]
  refine Iff.trans ?_ (right key)
  unfold Plugin.postHardfork
  split
  next sixteen =>
    subst sixteen
    refine addCompromised_iff fun name listed there => ?_
    rintro rfl
    refine notTarget (mem_filter.mpr ⟨listed, ?_⟩)
    rwa [← same, Option.isSome_iff_ne_none]
  · rfl

end Index

/-- In every history whose hardforks meet the condition, `get_key_references` lists an account that is not of the
genesis exactly under the keys it has. -/
theorem references_exact {net : Network} {genesis a : Authorities} {p : Plugin}
    (history : History net genesis (Unaffected net genesis) a p) (keys : List PublicKey) :
    Forall₂ (fun key names => ∀ name, genesis.find? name = none → (name ∈ names ↔ Has a name key)) keys
      (p.getKeyReferences keys) := by
  have right (name : AccountName) (new : genesis.find? name = none) : Right a p name := by
    induction history with
    | genesis => exact fun key => by simp [Has, new]
    | operation op _ changes ih => exact ih.operation changes
    | failed cachedKeys _ ih => exact ih
    | hardfork hardfork _ unaffected alters ih => exact ih.hardfork (fun target => unaffected name target new) alters
  rw [Plugin.getKeyReferences, forall₂_map_right_iff, forall₂_same]
  intro key _ name new
  rw [← right name new key]
  simp

/-! ## An account created -/

/-- The authorities of the genesis. -/
def systemAuthorities : Authorities := empty.insert .initMiner ⟨.ofKey 1, .ofKey 1, .ofKey 1, 0⟩

def withAccount : Authorities := systemAuthorities.insert ⟨5⟩ ⟨.ofKey 7, .ofKey 7, .ofKey 8, 0⟩

def creation : Operation := .accountCreate
  { fee := .steem 0, creator := .initMiner, newAccountName := ⟨5⟩, owner := .ofKey 7, active := .ofKey 7,
    posting := .ofKey 8, memoKey := 0 }

/-- The network in which the account was compromised. -/
def compromised : Network := { Network.bare with
  compromisedAccounts := [⟨5⟩]
  compromisedKey := 9
  null_not_compromised := by decide }

theorem creation_history {allowed : Nat → Authorities → Prop} :
    History compromised systemAuthorities allowed withAccount
    ((({} : Plugin).preOperation systemAuthorities creation).postOperation withAccount creation) := by
  refine .operation creation .genesis (alters_insert (by decide))

theorem references_exact_created : Has withAccount ⟨5⟩ 7 ∧ Forall₂ (fun key names => ∀ name,
    systemAuthorities.find? name = none → (name ∈ names ↔ Has withAccount name key)) [7]
      (((({} : Plugin).preOperation systemAuthorities creation).postOperation withAccount creation).getKeyReferences
        [7]) :=
  ⟨⟨_, rfl, by decide⟩, references_exact creation_history [7]⟩

/-- After hardfork 16 the account is still listed under the keys it had. -/
theorem references_not_exact : ∃ a p, History compromised systemAuthorities (fun _ _ => True) a p ∧
    systemAuthorities.find? ⟨5⟩ = none ∧ p.getKeyReferences [7] = [{⟨5⟩}] ∧
      a.find? ⟨5⟩ = some ⟨.ofKey 9, .ofKey 9, .ofKey 9, 1⟩ := by
  refine ⟨withAccount.modify ⟨5⟩ fun _ => ⟨.ofKey 9, .ofKey 9, .ofKey 9, 1⟩, _,
    .hardfork 16 creation_history trivial (alters_modify (by decide)), by decide, by decide, rfl⟩

/-! ## The chain -/

section Chain

set_option synthInstance.maxSize 1000000

variable {net : Network} {s : Database} {op : Operation} {names : List AccountName} {name : AccountName} {fixed : Bool}
  {genesis : Authorities} {p : Plugin}

/-- What a part of the code does to the authorities. -/
def AltersAt (names : List AccountName) (fixed : Bool) (s t : Database) : Prop :=
  Alters names fixed s.authorities t.authorities

instance : Std.Refl (AltersAt names fixed) :=
  ⟨fun s => ⟨fun _ _ => rfl, fun _ auth found => ⟨by rw [found]; exact nofun, fun _ => found⟩⟩⟩

instance : IsTrans Database (AltersAt names fixed) := by
  refine ⟨fun s t u first second => ⟨fun other different => ?_, fun name auth found => ?_⟩⟩
  · rw [second.others other different, first.others other different]
  · obtain ⟨there, same⟩ := first.keeps name auth found
    obtain ⟨auth', found'⟩ := Option.ne_none_iff_exists'.mp there
    obtain ⟨there', same'⟩ := second.keeps name auth' found'
    refine ⟨there', fun fixes => ?_⟩
    rw [same' fixes, ← found', same fixes]

abbrev keepsAuthorities : Footprint
  | .authorities => false
  | _ => true

instance : Finer (Within keepsAuthorities) (AltersAt names fixed) :=
  ⟨fun s t within => by
    have same : t.authorities = s.authorities := within .authorities rfl
    rw [AltersAt, same]
    exact refl_of (AltersAt names fixed) s⟩

instance {owner active posting} : Preserves (AltersAt [name] fixed) (createAuthority name owner active posting) := by
  refine ⟨fun s => ?_⟩
  simp only [createAuthority, create, updateAuthorities, ensures_steps]
  exact alters_insert

instance : Fact (name ∈ name :: names) := ⟨mem_cons_self⟩

instance {other} [listed : Fact (name ∈ names)] : Fact (name ∈ other :: names) := ⟨mem_cons_of_mem _ listed.out⟩

instance {f} [listed : Fact (name ∈ names)] : Preserves (AltersAt names false) (changeAuthority name f) := by
  refine ⟨fun s => ?_⟩
  simp only [changeAuthority, change, fetch, updateAuthorities, bind_assoc, ensures_steps]
  exact fun _ _ => alters_modify listed.out

instance {owner} [Fact (name ∈ names)] : Preserves (AltersAt names false) (updateOwnerAuthority name owner) := by
  unfold updateOwnerAuthority; infer_instance

instance {key recoveryAccount} : Preserves (AltersAt [name] fixed) (createMinedAccount name key recoveryAccount) := by
  unfold createMinedAccount; infer_instance

/-- The evaluators change no other authorities than the plugin looks up. -/
theorem evaluate_changes {producing nesting apply} (other : op.isProposal = false) :
    Ensures s (evaluate producing nesting apply op) fun _ t => Changes op s.authorities t.authorities := by
  have unchanged {m : Eval Unit} [frame : Touches keepsAuthorities m] :
    Ensures s m fun _ t => t.authorities = s.authorities :=
    (frame.related s).mono fun _ t within => within .authorities rfl
  have altered {names fixed} {m : Eval Unit} [frame : Preserves (AltersAt names fixed) m] :
    Ensures s m fun _ t => Alters names fixed s.authorities t.authorities := frame.related s
  cases op
  case proposalCreate | proposalUpdate | proposalDelete => cases other
  case accountCreate | accountCreateWithDelegation | accountUpdate | recoverAccount | pow | pow2 =>
    simp only [evaluate, accountCreate, accountCreateWithDelegation, accountUpdate,
      recoverAccount, pow, pow2, Changes, subject, Bool.not_true, Bool.not_false]
    exact altered
  all_goals
    unfold evaluate
    exact unchanged

theorem rewrite_alters (hardfork : Nat) :
    Ensures s (net.rewrite hardfork) fun _ t => AltersAt (targets net hardfork s.authorities) false s t := by
  unfold Network.rewrite
  split
  case h_8 =>
    have frame : Preserves (AltersAt [.miners, .null, .temp] false) applyHardfork12 := by
      unfold applyHardfork12; infer_instance
    exact frame.related s
  case h_9 =>
    rw [applyHardfork16, ensures_bind]
    refine ensures_frame (AltersAt (targets net 16 s.authorities) false) fun _ t first => ?_
    rw [ensures_bind, ensures_get]
    refine ensures_forM first fun name listed u before => ensures_when.mpr ⟨fun _ => ?_, fun _ => before⟩
    by_cases known : (s.authorities.find? name).isSome
    · have target : Fact (name ∈ targets net 16 s.authorities) := ⟨mem_filter.mpr ⟨listed, known⟩⟩
      rw [ensures_bind]
      refine ensures_since _ before fun _ v before => ensures_since _ before fun _ _ before => before
    · have unknown : name ∉ targets net 16 s.authorities := fun target => known (mem_filter.mp target).2
      have absent : u.authorities.find? name = none := by
        rw [before.others name unknown]
        simpa using known
      simp [updateOwnerAuthority, getAuthority, changeAuthority, change, fetch, absent, ensures_when]
  all_goals exact Preserves.related s

/-- The invariant of the chain: the authorities have a history that the index follows. -/
def Followed (net : Network) (s : Database) : Prop :=
  ∃ genesis p, net.initGenesis {} = .ok ((), genesis) ∧
    History net genesis.authorities (fun _ _ => True) s.authorities p

theorem followed_hardforks {byVotes : Bool} {fuel : Nat} (followed : Followed net s) :
    Ensures s (net.applyDueHardforks byVotes fuel) fun _ t => Followed net t := by
  induction fuel generalizing s with
  | zero => exact ensures_pure.mpr followed
  | succ fuel ih =>
    simp only [Network.applyDueHardforks, ensures_steps, ensures_when]
    refine ⟨fun _ _ => ?_, fun _ => followed⟩
    rw [Network.applyHardfork, ensures_bind]
    refine (rewrite_alters _).mono fun _ t alters => ?_
    simp only [modifyHardforks, ensures_steps]
    intro _ _
    obtain ⟨genesis, p, start, history⟩ := followed
    exact ih ⟨genesis, _, start, .hardfork _ history trivial alters⟩

theorem Followed.unchanged {t : Database} (followed : Followed net s) (same : t.authorities = s.authorities) :
    Followed net t := by
  rw [Followed, same]
  exact followed

theorem followed_keepsInvariant : net.KeepsInvariant (fun _ _ => True) (Followed net) where
  genesis := fun _ s start => ⟨s, {}, start, .genesis⟩
  operations := {
    records := fun s t within followed => followed.unchanged (within .authorities rfl)
    evaluator := fun _ _ _ op s other _ followed => (evaluate_changes other).mono fun _ t changes => by
      obtain ⟨genesis, p, start, history⟩ := followed
      exact ⟨genesis, _, start, .operation op history changes⟩ }
  step s step other _ followed := by
    have unchanged {m : Eval Unit} [frame : Touches keepsAuthorities m] : Ensures s m fun _ t => Followed net t :=
      (frame.related s).mono fun _ t within => followed.unchanged (within .authorities rfl)
    cases step
    case applyTransaction | clearExpiredProposals => cases other
    case processHardforks => exact followed_hardforks followed
    all_goals
      unfold BlockStep.run
      exact unchanged

/-- In every state the chain reaches, the authorities have a history. -/
theorem reachable_followed (reachable : net.Reachable s) : Followed net s := by
  obtain ⟨blocks, rest, reached⟩ := reachable
  exact (followed_keepsInvariant.reaches reached).1

end Chain

end Golos.AccountByKey
