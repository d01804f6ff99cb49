import Golos.Protocol.Authority

/-! # What `verify_authority` decides

An authority is supported when keys that signed and accounts that count together reach
its threshold.  An account counts when it has approved or when its own authority is
supported in turn; the number of such steps is the depth of the derivation.  The search
of `check_authority` finds every derivation within its depth and nothing else: the
accounts it remembers as approved all have one, so what it remembers from one account
can only help the next.
-/

namespace Golos

open Stateful List

variable {depth : Nat} {K : Type} {counts derived : K → Prop} {weight threshold total : Nat} {auth : Authority}
  {signed : PublicKey → Prop} {outcome : Option Nat} {sure : AccountName → Prop} {l : List K}
  {own : AccountName → Authority → Prop}

/-! ## Derivations -/

/-- The weights of some entries of a list that all count. -/
def AddsUp {K : Type} (counts : K → Prop) (entries : List (K × Nat)) (weight : Nat) : Prop :=
  ∃ used : List (K × Nat), used.Sublist entries ∧ (∀ e ∈ used, counts e.1) ∧ (used.map Prod.snd).sum = weight

/-- The keys that signed and the accounts that count reach the threshold. -/
def Authority.Reached (auth : Authority) (signed : PublicKey → Prop) (counts : AccountName → Prop) : Prop :=
  ∃ byKeys byAccounts, AddsUp signed auth.keyAuths byKeys ∧ AddsUp counts auth.accountAuths byAccounts ∧
    auth.weightThreshold ≤ byKeys + byAccounts

/-- What a check can build on: the keys that signed, and the accounts that have approved. -/
structure Evidence where
  keys : List PublicKey
  approvals : List AccountName

namespace Evidence

variable (e : Evidence) (own : AccountName → Authority → Prop)

/-- The account `temp` has always approved. -/
def Approved (name : AccountName) : Prop := name = .temp ∨ name ∈ e.approvals

/-- The authority is supported by a derivation of at most the given depth; `own` says by
which authorities an account in it can count. -/
def Supports : (depth : Nat) → Authority → Prop
  | 0, auth => auth.Reached (· ∈ e.keys) e.Approved
  | depth + 1, auth => auth.Reached (· ∈ e.keys) fun name =>
      e.Approved name ∨ ∃ nested, own name nested ∧ Supports depth nested

/-- The account has approved, or an authority of its own is supported at some depth. -/
def Derives (name : AccountName) : Prop :=
  e.Approved name ∨ ∃ auth depth, own name auth ∧ e.Supports own depth auth

end Evidence

theorem AddsUp.mono {counts' : K → Prop} {entries : List (K × Nat)}
    (h : AddsUp counts entries weight) (weaken : ∀ k, counts k → counts' k) : AddsUp counts' entries weight := by
  obtain ⟨used, sub, all, sum⟩ := h
  exact ⟨used, sub, fun e member => weaken _ (all e member), sum⟩

theorem Authority.Reached.mono {counts counts' : AccountName → Prop}
    (h : auth.Reached signed counts) (weaken : ∀ a, counts a → counts' a) : auth.Reached signed counts' := by
  obtain ⟨byKeys, byAccounts, keys, accounts, enough⟩ := h
  exact ⟨byKeys, byAccounts, keys, accounts.mono weaken, enough⟩

section Supports

variable {e : Evidence} {own : AccountName → Authority → Prop}

variable {auth : Authority}

theorem Evidence.Supports.succ (h : e.Supports own depth auth) : e.Supports own (depth + 1) auth := by
  induction depth generalizing auth with
  | zero => exact Authority.Reached.mono h fun _ approved => .inl approved
  | succ depth ih =>
    refine Authority.Reached.mono h fun _ counted => counted.imp_right ?_
    exact fun ⟨nested, has, supports⟩ => ⟨nested, has, ih supports⟩

theorem Evidence.Supports.mono {depth depth' : Nat} (h : e.Supports own depth auth)
    (le : depth ≤ depth') : e.Supports own depth' auth :=
  Nat.le_induction h (fun _ _ h => h.succ) depth' le

/-- Finitely many derivations have a common depth. -/
theorem Evidence.exists_depth {names : List AccountName} (h : ∀ a ∈ names, e.Derives own a) :
    ∃ depth, ∀ a ∈ names, e.Approved a ∨ ∃ auth, own a auth ∧ e.Supports own depth auth := by
  induction names with
  | nil => exact ⟨0, by simp⟩
  | cons a names ih =>
    obtain ⟨depth, others⟩ := ih fun b member => h b (mem_cons_of_mem _ member)
    rcases h a mem_cons_self with approved | ⟨auth, depth', has, supports⟩
    · exact ⟨depth, forall_mem_cons.mpr ⟨.inl approved, others⟩⟩
    · refine ⟨max depth depth', forall_mem_cons.mpr
        ⟨.inr ⟨auth, has, supports.mono (le_max_right ..)⟩, fun b member => ?_⟩⟩
      exact (others b member).imp_right fun ⟨auth, has, supports⟩ => ⟨auth, has, supports.mono (le_max_left ..)⟩

/-- What is reached with accounts that all have derivations has a derivation. -/
theorem Evidence.supports_of_reached (h : auth.Reached (· ∈ e.keys) (e.Derives own)) :
    ∃ depth, e.Supports own depth auth := by
  obtain ⟨byKeys, byAccounts, keys, ⟨used, sub, derived, sum⟩, enough⟩ := h
  have allDerived : ∀ a ∈ used.map Prod.fst, e.Derives own a := by simpa using derived
  obtain ⟨depth, common⟩ := e.exists_depth allDerived
  refine ⟨depth + 1, byKeys, byAccounts, keys, ⟨used, sub, ?_, sum⟩, enough⟩
  exact fun entry member => common _ (mem_map_of_mem member)

end Supports

/-! ## Weighing a list of entries -/

/-- The outcome of a loop that adds the weights of entries to `total` and stops at the
threshold (`none`): only entries that `counts` holds of are counted, and all that `sure`
holds of. -/
structure Weighed {K : Type} (counts sure : K → Prop) (threshold : Nat) (entries : List (K × Nat)) (total : Nat)
    (outcome : Option Nat) : Prop where
  stopped : outcome = none → ∃ weight, AddsUp counts entries weight ∧ threshold ≤ total + weight
  through : ∀ sum, outcome = some sum → ∃ weight, AddsUp counts entries weight ∧ sum = total + weight ∧
    ∀ weight', AddsUp sure entries weight' → weight' ≤ weight

section Weighed

variable {K : Type} {counts sure : K → Prop} {threshold total : Nat} {k : K} {w : Nat} {rest : List (K × Nat)}

variable {weight : Nat}

theorem AddsUp.skip (h : AddsUp counts rest weight) : AddsUp counts ((k, w) :: rest) weight := by
  obtain ⟨used, sub, all, sum⟩ := h
  exact ⟨used, sub.cons _, all, sum⟩

theorem AddsUp.count (counted : counts k) (h : AddsUp counts rest weight) :
    AddsUp counts ((k, w) :: rest) (w + weight) := by
  obtain ⟨used, sub, all, sum⟩ := h
  exact ⟨(k, w) :: used, sub.cons_cons _, forall_mem_cons.mpr ⟨counted, all⟩, by simp [sum]⟩

theorem AddsUp.zero {entries : List (K × Nat)} : AddsUp counts entries 0 :=
  ⟨[], nil_sublist _, by simp, rfl⟩

/-- What is reached with an entry in front is reached with it or without it. -/
theorem AddsUp.cases (h : AddsUp counts ((k, w) :: rest) weight) :
    AddsUp counts rest weight ∨ counts k ∧ ∃ weight', AddsUp counts rest weight' ∧ weight = w + weight' := by
  obtain ⟨used, sub, all, sum⟩ := h
  cases sub with
  | cons _ sub => exact .inl ⟨used, sub, all, sum⟩
  | cons_cons _ sub =>
    rw [forall_mem_cons] at all
    exact .inr ⟨all.1, _, ⟨_, sub, all.2, rfl⟩, by simpa using sum.symm⟩

theorem weighed_nil : Weighed counts sure threshold [] total (some total) where
  stopped h := by cases h
  through sum h := by
    cases h
    refine ⟨0, .zero, rfl, fun weight' ⟨used, sub, _, sum⟩ => ?_⟩
    rw [sublist_nil.mp sub] at sum
    exact sum.symm.le

theorem weighed_reached (counted : counts k) (enough : threshold ≤ total + w) :
    Weighed counts sure threshold ((k, w) :: rest) total none where
  stopped _ := ⟨w + 0, .count counted .zero, by simpa using enough⟩
  through sum h := by cases h

theorem Weighed.count (counted : counts k) (h : Weighed counts sure threshold rest (total + w) outcome) :
    Weighed counts sure threshold ((k, w) :: rest) total outcome where
  stopped none := by
    obtain ⟨weight, reachable, enough⟩ := h.stopped none
    exact ⟨w + weight, reachable.count counted, by omega⟩
  through sum some := by
    obtain ⟨weight, reachable, equal, most⟩ := h.through sum some
    refine ⟨w + weight, reachable.count counted, by omega, fun weight' reachable' => ?_⟩
    rcases reachable'.cases with without | ⟨_, weight'', rest, rfl⟩
    · have := most weight' without; omega
    · have := most weight'' rest; omega

theorem Weighed.skip (notSure : ¬sure k) (h : Weighed counts sure threshold rest total outcome) :
    Weighed counts sure threshold ((k, w) :: rest) total outcome where
  stopped none := by
    obtain ⟨weight, reachable, enough⟩ := h.stopped none
    exact ⟨weight, reachable.skip, enough⟩
  through sum some := by
    obtain ⟨weight, reachable, equal, most⟩ := h.through sum some
    refine ⟨weight, reachable.skip, equal, fun weight' reachable' => ?_⟩
    rcases reachable'.cases with without | ⟨isSure, _⟩
    · exact most weight' without
    · exact absurd isSure notSure

end Weighed

/-! ## The search -/

/-- The state of a search: it knows the evidence, and every account it has down as approved
has a derivation. -/
structure SignState.Fits (e : Evidence) (own : AccountName → Authority → Prop) (s : SignState) : Prop where
  noKeys : s.availableKeys = []
  signed : ∀ k, k ∈ s.providedSignatures.map Prod.fst ↔ k ∈ e.keys
  remembers : ∀ a, e.Approved a → a ∈ s.approvedBy.map Prod.fst
  derived : ∀ a ∈ s.approvedBy.map Prod.fst, e.Derives own a

theorem mem_setUsed [DecidableEq K] {k j : K} {m : List (K × Bool)} :
    j ∈ (setUsed k m).map Prod.fst ↔ j = k ∨ j ∈ m.map Prod.fst := by
  unfold setUsed
  split
  next present =>
    have same : (m.map fun entry => if entry.1 = k then (k, true) else entry).map Prod.fst = m.map Prod.fst := by
      rw [map_map]
      refine map_congr_left fun entry _ => ?_
      by_cases h : entry.1 = k <;> simp [h]
    rw [same]
    exact ⟨.inr, fun h => h.elim (fun equal => equal ▸ present) id⟩
  · simp [or_comm]

section Search

variable {e : Evidence} {own : AccountName → Authority → Prop} {s : SignState}

/-- The search can throw only because an account has no authorities. -/
def OnlyMissingObject (error : AuthorityError) : Prop := error = .missingObject

theorem SignState.Fits.approve (fits : s.Fits e own) {a : AccountName} (derived : e.Derives own a) :
    SignState.Fits e own { s with approvedBy := setUsed a s.approvedBy } where
  noKeys := fits.noKeys
  signed := fits.signed
  remembers b approved := mem_setUsed.mpr (.inr (fits.remembers b approved))
  derived b member := (mem_setUsed.mp member).elim (fun same => same ▸ derived) (fits.derived b)

theorem signedBy_endsIn {k : PublicKey} (fits : s.Fits e own) :
    EndsIn s (signedBy k) (fun ok t => t.Fits e own ∧ (ok = true ↔ k ∈ e.keys)) OnlyMissingObject := by
  refine endsIn_get_bind (endsIn_ite (fun present => ?_) fun absent => endsIn_pure ?_)
  · rw [fits.noKeys] at present
    have signed := (fits.signed k).mp (present.resolve_right (not_mem_nil))
    refine endsIn_modify_bind (endsIn_pure ⟨⟨fits.noKeys, fun j => ?_, fits.remembers, fits.derived⟩, by simp [signed]⟩)
    rw [mem_setUsed, fits.signed]
    exact ⟨fun h => h.elim (fun same => same ▸ signed) id, .inr⟩
  · refine ⟨fits, ?_⟩
    simp only [Bool.false_eq_true, false_iff]
    exact fun signed => absent (.inl ((fits.signed k).mpr signed))

theorem weighKeys_endsIn {keys : List (PublicKey × Nat)} (fits : s.Fits e own) :
    EndsIn s (weighKeys threshold keys total)
      (fun outcome t => t.Fits e own ∧ Weighed (· ∈ e.keys) (· ∈ e.keys) threshold keys total outcome)
      OnlyMissingObject := by
  induction keys generalizing s total with
  | nil => exact endsIn_pure ⟨fits, weighed_nil⟩
  | cons entry rest ih =>
    refine (signedBy_endsIn fits).bind fun ok t ⟨fits, signed⟩ => endsIn_ite (fun yes => ?_) fun no => ?_
    · refine endsIn_ite (fun enough => endsIn_pure ⟨fits, weighed_reached (signed.mp yes) enough⟩) fun _ => ?_
      exact (ih fits).mono fun _ _ after => ⟨after.1, after.2.count (signed.mp yes)⟩
    · exact (ih fits).mono fun _ _ after => ⟨after.1, after.2.skip fun is => no (signed.mpr is)⟩

/-- What a check has to do: what it accepts is derived, and what is sure it accepts. -/
def DecidesAt (e : Evidence) (own : AccountName → Authority → Prop) (check : SignM Bool) (derived sure : Prop) :
    Prop :=
  ∀ s, s.Fits e own → EndsIn s check
    (fun ok t => t.Fits e own ∧ (ok = true → derived) ∧ (sure → ok = true)) OnlyMissingObject

def Decides (e : Evidence) (own : AccountName → Authority → Prop) {K : Type} (check : K → SignM Bool)
    (derived sure : K → Prop) : Prop :=
  ∀ k, DecidesAt e own (check k) (derived k) (sure k)

theorem weighAccounts_endsIn {check : AccountName → SignM Bool}
    {accounts : List (AccountName × Nat)} (decides : Decides e own check (e.Derives own) sure) (fits : s.Fits e own) :
    EndsIn s (weighAccounts threshold check accounts total) (fun outcome t => t.Fits e own ∧
        Weighed (e.Derives own) (fun a => e.Approved a ∨ sure a) threshold accounts total outcome)
      OnlyMissingObject := by
  induction accounts generalizing s total with
  | nil => exact endsIn_pure ⟨fits, weighed_nil⟩
  | cons entry rest ih =>
    obtain ⟨a, w⟩ := entry
    -- an account that counts, remembered or just found
    have counted {t : SignState} (fits : t.Fits e own) (derived : e.Derives own a) :
        EndsIn t (if threshold ≤ total + w then pure none else weighAccounts threshold check rest (total + w))
          (fun outcome t => t.Fits e own ∧
            Weighed (e.Derives own) (fun a => e.Approved a ∨ sure a) threshold ((a, w) :: rest) total outcome)
          OnlyMissingObject := by
      refine endsIn_ite (fun enough => endsIn_pure ⟨fits, weighed_reached derived enough⟩) fun _ => ?_
      exact (ih fits).mono fun _ _ after => ⟨after.1, after.2.count derived⟩
    refine endsIn_get_bind (endsIn_ite (fun known => counted fits (fits.derived a known)) fun unknown => ?_)
    refine (decides a s fits).bind fun ok t ⟨fits', sound, complete⟩ => endsIn_ite (fun yes => ?_) fun no => ?_
    · exact endsIn_modify_bind (counted (fits'.approve (sound yes)) (sound yes))
    · refine (ih fits').mono fun _ _ after => ⟨after.1, after.2.skip ?_⟩
      rintro (approved | isSure)
      · exact unknown (fits.remembers a approved)
      · exact no (complete isSure)

theorem weigh_endsIn {check : AccountName → SignM Bool}
    (decides : Decides e own check (e.Derives own) sure) (fits : s.Fits e own) : EndsIn s (weigh auth check)
      (fun ok t => t.Fits e own ∧ (ok = true → ∃ depth, e.Supports own depth auth) ∧
        (auth.Reached (· ∈ e.keys) (fun a => e.Approved a ∨ sure a) → ok = true)) OnlyMissingObject := by
  refine (weighKeys_endsIn fits).bind fun keys t ⟨fits, byKeys⟩ => ?_
  cases keys with
  | none =>
    obtain ⟨weight, reached, enough⟩ := byKeys.stopped rfl
    refine endsIn_pure ⟨fits, fun _ => e.supports_of_reached ?_, fun _ => rfl⟩
    exact ⟨weight, 0, reached, .zero, by omega⟩
  | some total =>
    obtain ⟨keyWeight, keysReached, equal, mostKeys⟩ := byKeys.through total rfl
    refine (weighAccounts_endsIn decides fits).bind fun accounts t ⟨fits, byAccounts⟩ => ?_
    cases accounts with
    | none =>
      obtain ⟨weight, reached, enough⟩ := byAccounts.stopped rfl
      refine endsIn_pure ⟨fits, fun _ => e.supports_of_reached ?_, fun _ => rfl⟩
      exact ⟨keyWeight, weight, keysReached, reached, by omega⟩
    | some sum =>
      obtain ⟨weight, reached, equal', most⟩ := byAccounts.through sum rfl
      refine endsIn_pure ⟨fits, fun ok => e.supports_of_reached ?_, fun supported => ?_⟩
      · have enough : auth.weightThreshold ≤ sum := of_decide_eq_true ok
        exact ⟨keyWeight, weight, keysReached, reached, by omega⟩
      · obtain ⟨keyWeight', accountWeight', keys', accounts', enough⟩ := supported
        have := mostKeys _ keys'
        have := most _ accounts'
        exact decide_eq_true (by omega)

theorem lookup_endsIn {found? : Option Authority} (fits : s.Fits e own) :
    EndsIn s (require found? .missingObject) (fun auth t => found? = some auth ∧ t.Fits e own) OnlyMissingObject :=
  endsIn_require (fun _ found => ⟨found, fits⟩) fun _ => rfl

variable {get : AccountName → Option Authority} (has : ∀ a auth, get a = some auth → own a auth)

include has

/-- `check_authority` finds every derivation within its depth, and nothing without one. -/
theorem checkAuthority_decides (levels : Nat) :
    Decides e own (checkAuthority (fun a => require (get a) .missingObject) levels)
      (fun auth => ∃ depth, e.Supports own depth auth)
      (fun auth => e.Supports (fun a auth => get a = some auth) levels auth) := by
  induction levels with
  | zero =>
    intro auth s fits
    have decides : Decides e own (fun _ => pure false) (e.Derives own) fun _ => False :=
      fun a s fits => endsIn_pure ⟨fits, Bool.noConfusion, False.elim⟩
    refine (weigh_endsIn decides fits).mono fun ok t after => ⟨after.1, after.2.1, fun supported => after.2.2 ?_⟩
    exact Authority.Reached.mono supported fun _ => .inl
  | succ levels ih =>
    intro auth s fits
    refine weigh_endsIn (fun a s fits => ?_) fits
    refine (lookup_endsIn fits).bind fun nested t ⟨found, fits⟩ => ?_
    refine (ih nested t fits).mono fun ok u after => ⟨after.1, fun yes => ?_, ?_⟩
    · obtain ⟨depth, supports⟩ := after.2.1 yes
      exact .inr ⟨nested, depth, has a nested found, supports⟩
    · rintro ⟨nested', found', supports⟩
      cases found.symm.trans found'
      exact after.2.2 supports

/-- The check of an authority that is looked up first. -/
theorem lookup_decides (levels : Nat) (other : AccountName → Option Authority) : Decides e own (fun a => do
        let auth ← require (other a) .missingObject
        checkAuthority (fun a => require (get a) .missingObject) levels auth)
      (fun a => ∃ auth, other a = some auth ∧ ∃ depth, e.Supports own depth auth)
      (fun a => ∃ auth, other a = some auth ∧ e.Supports (fun a auth => get a = some auth) levels auth) := by
  intro a s fits
  refine (lookup_endsIn fits).bind fun auth t ⟨found, fits'⟩ => ?_
  refine (checkAuthority_decides has levels auth t fits').mono fun ok u after =>
    ⟨after.1, fun yes => ⟨auth, found, after.2.1 yes⟩, ?_⟩
  rintro ⟨auth', found', supports⟩
  cases found.symm.trans found'
  exact after.2.2 supports

theorem checkAccount_decides (levels : Nat) :
    Decides e own (checkAccount (fun a => require (get a) .missingObject) levels) (e.Derives own)
      (fun a => e.Approved a ∨ ∃ auth, get a = some auth ∧
        e.Supports (fun a auth => get a = some auth) levels auth) := by
  intro a s fits
  refine endsIn_get_bind (endsIn_ite (fun known => ?_) fun unknown => ?_)
  · have derived := fits.derived a known
    exact endsIn_modify_bind (endsIn_pure ⟨fits.approve derived, fun _ => derived, fun _ => rfl⟩)
  · refine (lookup_decides has levels get a s fits).mono fun ok u after => ⟨after.1, fun yes => ?_, ?_⟩
    · obtain ⟨auth, found, depth, supports⟩ := after.2.1 yes
      exact .inr ⟨auth, depth, has a auth found, supports⟩
    · rintro (approved | isSure)
      · exact absurd (fits.remembers a approved) unknown
      · exact after.2.2 isSure

omit has

theorem DecidesAt.orElse {first second : SignM Bool} {derived derived' sure sure' : Prop}
    (one : DecidesAt e own first derived sure) (two : DecidesAt e own second derived' sure') :
    DecidesAt e own (Golos.orElse first second) (derived ∨ derived') (sure ∨ sure') := by
  intro s fits
  refine (one s fits).bind fun ok t ⟨fits, sound, complete⟩ => endsIn_ite (fun yes => ?_) fun no => ?_
  · exact endsIn_pure ⟨fits, fun _ => .inl (sound yes), fun _ => rfl⟩
  · refine (two t fits).mono fun ok' u after => ⟨after.1, fun yes => .inr (after.2.1 yes), ?_⟩
    rintro (isSure | isSure)
    · exact absurd (complete isSure) no
    · exact after.2.2 isSure

theorem decidesAt_decide (p : Prop) [Decidable p] : DecidesAt e own (pure (decide p)) p p :=
  fun _ fits => endsIn_pure ⟨fits, of_decide_eq_true, fun h => decide_eq_true h⟩

/-- The loop over what is required: it reports nothing when every check is sure to succeed,
in whatever order. -/
theorem missing_endsIn {check : K → SignM Bool} {sure : K → Prop}
    (decides : ∀ k ∈ l, DecidesAt e own (check k) (derived k) (sure k)) (fits : s.Fits e own) :
    EndsIn s (missing check l)
      (fun r t => t.Fits e own ∧ (r = [] → ∀ k ∈ l, derived k) ∧ ((∀ k ∈ l, sure k) → r = [])) OnlyMissingObject := by
  induction l generalizing s with
  | nil => exact endsIn_pure ⟨fits, by simp, fun _ => rfl⟩
  | cons k rest ih =>
    rw [forall_mem_cons] at decides
    refine (decides.1 s fits).bind fun ok t ⟨fits, sound, complete⟩ => ?_
    refine (ih decides.2 fits).bind fun more u ⟨fits, restSound, restComplete⟩ => endsIn_pure ⟨fits, ?_, ?_⟩
    · split
      next yes =>
        exact fun none => forall_mem_cons.mpr ⟨sound yes, restSound none⟩
      · exact fun none => by cases none
    · intro allSure
      rw [forall_mem_cons] at allSure
      rw [if_pos (complete allSure.1)]
      exact restComplete allSure.2

end Search

/-! ## `verify_authority` -/

/-- The exceptions that report an authority as missing. -/
def AuthorityError.reportsMissing : AuthorityError → Bool
  | .missingPosting _ _ | .missingOther _ | .missingActive _ _ | .missingOwner _ _ => true
  | _ => false

/-- Everything that is required has a derivation.  `supported` says what a derivation of an
authority is, and `counts` by which authorities an account counts where an active or owner
authority is required. -/
structure AuthorityGraph.Grants (graph : AuthorityGraph) (required : RequiredAuthorities) (sigs : List PublicKey)
    (activeApprovals ownerApprovals postingApprovals : List AccountName) (counts : AccountName → Authority → Prop)
    (supported : Evidence → (AccountName → Authority → Prop) → Authority → Prop) : Prop where
  posting : ∀ id ∈ required.posting, (⟨sigs, postingApprovals⟩ : Evidence).Approved id ∨
    ∃ auth, (graph.posting id = some auth ∨ graph.active id = some auth ∨ graph.owner id = some auth) ∧
      supported ⟨sigs, postingApprovals⟩ (fun a auth => graph.posting a = some auth) auth
  active : ∀ id ∈ required.active, (⟨sigs, activeApprovals ++ ownerApprovals⟩ : Evidence).Approved id ∨
    ∃ auth, (graph.active id = some auth ∨ graph.owner id = some auth) ∧
      supported ⟨sigs, activeApprovals ++ ownerApprovals⟩ counts auth
  owner : ∀ id ∈ required.owner, id ∈ ownerApprovals ∨
    ∃ auth, graph.owner id = some auth ∧ supported ⟨sigs, activeApprovals ++ ownerApprovals⟩ counts auth
  other : ∀ auth ∈ required.other, supported ⟨sigs, activeApprovals ++ ownerApprovals⟩ counts auth

/-- An account counts by its active authority; once its owner authority was required and found,
it counts by that as well. -/
def AuthorityGraph.countsFor (graph : AuthorityGraph) (required : RequiredAuthorities) (name : AccountName)
    (auth : Authority) : Prop :=
  graph.active name = some auth ∨ name ∈ required.owner ∧ graph.owner name = some auth

theorem start_fits {sigs : List PublicKey} {approvals : List AccountName} :
    (SignState.start sigs [] approvals).Fits ⟨sigs, approvals⟩ own := by
  have members : ∀ a, a ∈ (SignState.start sigs [] approvals).approvedBy.map Prod.fst ↔
      (⟨sigs, approvals⟩ : Evidence).Approved a := by
    intro a
    by_cases temp : a = .temp <;> simp [SignState.start, Evidence.Approved, temp]
  refine ⟨rfl, fun k => ?_, fun a => (members a).mpr, fun a member => .inl ((members a).mp member)⟩
  simp [SignState.start]

section Verify

variable {order : SearchOrder} (arranged : ∀ l a, a ∈ order.arrange l ↔ a ∈ l) {graph : AuthorityGraph}
  {required : RequiredAuthorities} {sigs : List PublicKey}
  {activeApprovals ownerApprovals postingApprovals : List AccountName}

variable {within : Prop} {s : SignState} {e : Evidence}

/-- After the search only superfluous signatures and approvals are reported. -/
theorem assertUnusedApprovals_endsIn {found within : Prop} (h : found) :
    EndsIn s assertUnusedApprovals (fun _ _ => found) fun error => within → error.reportsMissing = false := by
  refine endsIn_get_bind (endsIn_check_bind (fun _ => ?_) fun _ _ => rfl)
  exact endsIn_check (fun _ => h) fun _ _ => rfl

/-- Where everything `within` reach is sure to be found, a loop finds nothing missing. -/
theorem search_endsIn {check : K → SignM Bool} {sure : K → Prop}
    (decides : ∀ k ∈ l, DecidesAt e own (check k) (derived k) (sure k)) (fits : s.Fits e own)
    (complete : within → ∀ k ∈ l, sure k) : EndsIn s (missing check l)
      (fun failed t => t.Fits e own ∧ (failed = [] → ∀ k ∈ l, derived k) ∧ (within → failed = []))
      fun error => within → error.reportsMissing = false := by
  have search := missing_endsIn decides fits
  refine EndsIn.mono_error (search.mono fun failed t after => ?_) fun error thrown _ => by rw [thrown]; rfl
  exact ⟨after.1, after.2.1, fun holds => after.2.2 (complete holds)⟩

include arranged

theorem verifyPosting_endsIn (grants : within → graph.Grants required sigs activeApprovals
      ownerApprovals postingApprovals (fun a auth => graph.active a = some auth)
      fun e own auth => e.Supports own order.maxRecursionDepth auth) :
    EndsIn (.start sigs [] postingApprovals) (verifyPosting order graph.getter required)
      (fun _ _ => graph.Grants required sigs activeApprovals ownerApprovals postingApprovals
        (graph.countsFor required) fun e own auth => ∃ depth, e.Supports own depth auth)
      fun error => within → error.reportsMissing = false := by
  have has : ∀ a auth, graph.posting a = some auth → graph.posting a = some auth := fun _ _ h => h
  refine endsIn_check_bind (fun only => ?_) fun _ _ => rfl
  obtain ⟨noActive, noOwner, noOther⟩ := only
  have finds := fun id (_ : id ∈ order.arrange required.posting) =>
    (checkAccount_decides has order.maxRecursionDepth (e := ⟨sigs, postingApprovals⟩) id).orElse
      ((lookup_decides has order.maxRecursionDepth graph.active id).orElse
        (lookup_decides has order.maxRecursionDepth graph.owner id))
  refine (search_endsIn finds start_fits fun holds id member => ?_).bind fun failed t ⟨fits, sound, found⟩ =>
    endsIn_get_bind ?_
  · rcases (grants holds).posting id ((arranged _ id).mp member) with approved | ⟨auth, found | found | found, supports⟩
    · exact .inl (.inl approved)
    · exact .inl (.inr ⟨auth, found, supports⟩)
    · exact .inr (.inl ⟨auth, found, supports⟩)
    · exact .inr (.inr ⟨auth, found, supports⟩)
  refine endsIn_check_bind (fun nothing => ?_) fun some holds => absurd (found holds) some
  refine assertUnusedApprovals_endsIn ⟨fun id member => ?_, by simp [noActive], by simp [noOwner], by simp [noOther]⟩
  rcases sound nothing id ((arranged _ id).mpr member) with
    (approved | ⟨auth, depth, found, supports⟩) | ⟨auth, found, supports⟩ | ⟨auth, found, supports⟩
  · exact .inl approved
  · exact .inr ⟨auth, .inl found, depth, supports⟩
  · exact .inr ⟨auth, .inr (.inl found), supports⟩
  · exact .inr ⟨auth, .inr (.inr found), supports⟩

omit arranged

/-- The owner loop: an account found there counts from then on by its owner authority. -/
theorem ownerCheck_decides (approvals : ∀ a ∈ ownerApprovals, e.Approved a) {levels : Nat}
    {id : AccountName} (member : id ∈ required.owner) : DecidesAt e (graph.countsFor required) (do
        let ok ← orElse (pure (decide (id ∈ ownerApprovals)))
          (do let auth ← graph.getter.owner id; checkAuthority graph.getter.active levels auth) if ok then do
          modify fun s => { s with approvedBy := setUsed id s.approvedBy }
          pure true
        else pure false)
      (id ∈ ownerApprovals ∨ ∃ auth, graph.owner id = some auth ∧
        ∃ depth, e.Supports (graph.countsFor required) depth auth)
      (id ∈ ownerApprovals ∨ ∃ auth, graph.owner id = some auth ∧
        e.Supports (fun a auth => graph.active a = some auth) levels auth) := by
  intro s fits
  have has : ∀ a auth, graph.active a = some auth → graph.countsFor required a auth := fun _ _ => .inl
  have either := (decidesAt_decide (e := e) (id ∈ ownerApprovals)).orElse (lookup_decides has levels graph.owner id)
  refine (either s fits).bind fun ok t ⟨fits, sound, complete⟩ => endsIn_ite (fun yes => ?_) fun no => ?_
  · have derived : e.Derives (graph.countsFor required) id := by
      rcases sound yes with approved | ⟨auth, found, depth, supports⟩
      · exact .inl (approvals id approved)
      · exact .inr ⟨auth, depth, .inr ⟨member, found⟩, supports⟩
    exact endsIn_modify_bind (endsIn_pure ⟨fits.approve derived, fun _ => sound yes, fun _ => rfl⟩)
  · exact endsIn_pure ⟨fits, fun absurdity => absurd absurdity Bool.false_ne_true,
      fun sure => absurd (complete sure) no⟩

include arranged

theorem verifyActiveAndOwner_endsIn (noPosting : required.posting = [])
    (grants : within → graph.Grants required sigs activeApprovals
      ownerApprovals postingApprovals (fun a auth => graph.active a = some auth)
      fun e own auth => e.Supports own order.maxRecursionDepth auth) :
    EndsIn (.start sigs [] (activeApprovals ++ ownerApprovals))
      (verifyActiveAndOwner order graph.getter required ownerApprovals)
      (fun _ _ => graph.Grants required sigs activeApprovals ownerApprovals postingApprovals
        (graph.countsFor required) fun e own auth => ∃ depth, e.Supports own depth auth)
      fun error => within → error.reportsMissing = false := by
  have has : ∀ a auth, graph.active a = some auth → graph.countsFor required a auth := fun _ _ => .inl
  refine (search_endsIn (fun auth _ => checkAuthority_decides has order.maxRecursionDepth auth) start_fits
    fun holds auth member => (grants holds).other auth member).bind fun auths s ⟨fits, otherSound, otherFound⟩ => ?_
  refine endsIn_check_bind (fun noOther => ?_) fun some holds => absurd (otherFound holds) some
  refine (search_endsIn (fun id _ => (checkAccount_decides has order.maxRecursionDepth id).orElse
    (lookup_decides has order.maxRecursionDepth graph.owner id)) fits
    fun holds id member => ?_).bind fun accounts s ⟨fits, activeSound, activeFound⟩ => endsIn_get_bind ?_
  · rcases (grants holds).active id ((arranged _ id).mp member) with approved | ⟨auth, found | found, supports⟩
    · exact .inl (.inl approved)
    · exact .inl (.inr ⟨auth, found, supports⟩)
    · exact .inr ⟨auth, found, supports⟩
  refine endsIn_check_bind (fun noActive => ?_) fun some holds => absurd (activeFound holds) some
  refine (search_endsIn (fun id member => ownerCheck_decides (fun a own => .inr (mem_append_right _ own))
    ((arranged _ id).mp member)) fits fun holds id member => ?_).bind
    fun owners s ⟨fits, ownerSound, ownerFound⟩ => endsIn_get_bind ?_
  · exact (grants holds).owner id ((arranged _ id).mp member)
  refine endsIn_check_bind (fun noOwner => ?_) fun some holds => absurd (ownerFound holds) some
  refine assertUnusedApprovals_endsIn ⟨by simp [noPosting], fun id member => ?_, fun id member => ?_,
    otherSound noOther⟩
  · rcases activeSound noActive id ((arranged _ id).mpr member) with
      (approved | ⟨auth, depth, found | ⟨_, found⟩, supports⟩) | ⟨auth, found, supports⟩
    · exact .inl approved
    · exact .inr ⟨auth, .inl found, depth, supports⟩
    · exact .inr ⟨auth, .inr found, depth, supports⟩
    · exact .inr ⟨auth, .inr found, supports⟩
  · exact ownerSound noOwner id ((arranged _ id).mpr member)

/-- `verify_authority` accepts only what has a derivation, and reports nothing as missing that has
one within its depth, whatever the order in which the accounts are checked.  The derivations it
accepts may use the owner authorities that were required themselves; those it is sure to find use
active authorities only. -/
theorem verifyAuthorityIn_decides :
    (verifyAuthorityIn order graph.getter required sigs activeApprovals ownerApprovals postingApprovals = .ok () →
      graph.Grants required sigs activeApprovals ownerApprovals postingApprovals (graph.countsFor required)
        fun e own auth => ∃ depth, e.Supports own depth auth) ∧
    (∀ error, verifyAuthorityIn order graph.getter required sigs activeApprovals ownerApprovals postingApprovals =
        .error error → graph.Grants required sigs activeApprovals ownerApprovals postingApprovals
        (fun a auth => graph.active a = some auth) (fun e own auth => e.Supports own order.maxRecursionDepth auth) →
      error.reportsMissing = false) := by
  unfold verifyAuthorityIn
  split
  · exact (verifyPosting_endsIn arranged id).result
  next noPosting =>
    exact (verifyActiveAndOwner_endsIn arranged (not_not.mp noPosting) id).result

end Verify

/-! ## Two required owner authorities

One owner's authority is the other account.  The other account's owner key has signed, its
active key has not. -/

/-- The owner authority of `leader` is key 1 and that of `follower` is the account `leader`; every
other authority is key 2. -/
def followedOwner (leader follower : AccountName) : AuthorityGraph where
  active _ := some (.ofKey 2)
  posting _ := some (.ofKey 2)
  owner name := some (if name = leader then .ofKey 1 else if name = follower then ⟨1, [(leader, 1)], []⟩ else .ofKey 2)

theorem AddsUp.eq_zero {entries : List (K × Nat)}
    (h : AddsUp counts entries weight) (none : ∀ entry ∈ entries, ¬counts entry.1) : weight = 0 := by
  obtain ⟨used, sub, all, rfl⟩ := h
  have nothing : used = [] := eq_nil_iff_forall_not_mem.mpr fun entry member =>
    none entry (sub.subset member) (all entry member)
  simp [nothing]

theorem Authority.Reached.threshold_eq_zero
    {counts : AccountName → Prop} (h : auth.Reached signed counts) (noKey : ∀ entry ∈ auth.keyAuths, ¬signed entry.1)
    (noAccount : ∀ entry ∈ auth.accountAuths, ¬counts entry.1) : auth.weightThreshold = 0 := by
  obtain ⟨byKeys, byAccounts, keys, accounts, enough⟩ := h
  have := keys.eq_zero noKey
  have := accounts.eq_zero noAccount
  omega

theorem not_supports_ofKey_two : ¬(⟨[1], []⟩ : Evidence).Supports own depth (.ofKey 2) := by
  intro supports
  have : (Authority.ofKey 2).weightThreshold = 0 := by
    cases depth <;> exact supports.threshold_eq_zero (by simp [Authority.ofKey]) (by simp [Authority.ofKey])
  cases this

/-- Through active authorities, what follows an account whose active key has not signed is never
supported. -/
theorem not_supports_follower {leader : AccountName} (notTemp : leader ≠ .temp) :
    ¬(⟨[1], []⟩ : Evidence).Supports (fun _ auth => some (Authority.ofKey 2) = some auth)
      depth ⟨1, [(leader, 1)], []⟩ := by
  intro supports
  have : (⟨1, [(leader, 1)], []⟩ : Authority).weightThreshold = 0 := by
    cases depth with
    | zero => exact supports.threshold_eq_zero (by simp) (by simp [Evidence.Approved, notTemp])
    | succ depth =>
      refine supports.threshold_eq_zero (by simp) fun entry member counts => ?_
      cases mem_singleton.mp member
      rcases counts with approved | ⟨nested, own, nestedSupports⟩
      · simp [Evidence.Approved, notTemp] at approved
      · cases own
        exact not_supports_ofKey_two nestedSupports
  cases this

theorem supports_ofKey_one : (⟨[1], []⟩ : Evidence).Supports own depth (.ofKey 1) := by
  have byKey : ∀ counts, (Authority.ofKey 1).Reached (· ∈ [1]) counts := fun counts =>
    ⟨1, 0, AddsUp.count (mem_singleton.mpr rfl) .zero, .zero, by decide⟩
  cases depth <;> exact byKey _

/-- With the name that follows last, it is accepted for the owner authority of the other, though
active authorities do not reach it.  With the name that follows first, it is reported as missing,
though the other's owner authority reaches it. -/
theorem verifyAuthority_owner_order :
    verifyAuthority (followedOwner .alice .bob).getter { owner := [.alice, .bob] } [1] [] [] [] = .ok () ∧
    (∀ depth, ¬(followedOwner .alice .bob).Grants { owner := [.alice, .bob] } [1] [] [] []
      (fun a auth => (followedOwner .alice .bob).active a = some auth) fun e own auth => e.Supports own depth auth) ∧
    verifyAuthority (followedOwner .bob .alice).getter { owner := [.alice, .bob] } [1] [] [] [] =
      .error (.missingOwner [.alice] [1]) ∧ (followedOwner .bob .alice).Grants { owner := [.alice, .bob] } [1] [] [] []
      ((followedOwner .bob .alice).countsFor { owner := [.alice, .bob] })
      fun e own auth => e.Supports own maxSigCheckDepth auth := by
  refine ⟨rfl, fun depth grants => ?_, rfl, ⟨by simp, by simp, fun id member => ?_, by simp⟩⟩
  · rcases grants.owner .bob (by simp) with approved | ⟨auth, found, supports⟩
    · simp at approved
    · cases found
      exact not_supports_follower (by decide) supports
  · have leader : (followedOwner .bob .alice).owner .bob = some (.ofKey 1) := rfl
    rcases mem_pair.mp member with rfl | rfl
    · refine .inr ⟨_, rfl, 0, 1, .zero, AddsUp.count (.inr ⟨.ofKey 1, .inr ⟨by simp, leader⟩, ?_⟩) .zero, by decide⟩
      exact supports_ofKey_one
    · exact .inr ⟨_, leader, supports_ofKey_one⟩

theorem verifyAuthorityIn_decides_alice :
    verifyAuthority (followedOwner .alice .bob).getter { owner := [.alice] } [1] [] [] [] = .ok () ∧
    (followedOwner .alice .bob).Grants { owner := [.alice] } [1] [] [] []
      ((followedOwner .alice .bob).countsFor { owner := [.alice] }) fun e own auth =>
        ∃ depth, e.Supports own depth auth := by
  have accepted : verifyAuthority (followedOwner .alice .bob).getter { owner := [.alice] } [1] [] [] [] = .ok () := rfl
  exact ⟨accepted, (verifyAuthorityIn_decides fun _ _ => mem_nameSet).1 accepted⟩

end Golos
