import Golos.Chain.Clock

/-! # Account recovery

An account whose owner key was stolen is given a new owner authority by two operations:
its recovery partner requests it, and the owner confirms it with an owner authority that
was current not long ago.  The partner is changed by a request too, which takes effect a
month later.  The objects of the state carry none of this: a request does not say who made
it, and the history of owner authorities is pruned.  So what stands behind them is
shown over the history of the run.
-/

namespace Golos

open Stateful Evaluator Store List
open Database hiding pow

set_option synthInstance.maxSize 1000000

variable {o : RecoverAccountOperation} {step : BlockStep} {past : List (Database × Deed)} {s t : Database}
  {account name : AccountName} {net : Network} {owner : Authority} {rest : List BlockStep} {m' : Moment}

/-! ## Deeds on record -/

section Record

variable {deed : Deed}

/-- The newest deed of the past that `touches` holds of, and the state it was done in. -/
def Latest (touches : Deed → Prop) (past : List (Database × Deed)) (s : Database) (deed : Deed) : Prop :=
  touches deed ∧ ∃ later earlier, past = later ++ (s, deed) :: earlier ∧ ∀ e ∈ later, ¬touches e.2

variable {V : Type} {touches : AccountName → Deed → Prop} {Made : Database → Deed → AccountName → V → Prop}
  {table : Database → Store AccountName V}

theorem Latest.next {touches : Deed → Prop} {s' : Database} {deed deed' : Deed}
    (latest : Latest touches past s deed) (other : ¬touches deed') : Latest touches ((s', deed') :: past) s deed := by
  obtain ⟨touched, later, earlier, rfl, untouched⟩ := latest
  refine ⟨touched, (s', deed') :: later, earlier, rfl, fun e member => ?_⟩
  obtain rfl | member := mem_cons.mp member
  · exact other
  · exact untouched e member

theorem latest_here {touches : Deed → Prop} (touched : touches deed) : Latest touches ((s, deed) :: past) s deed :=
  ⟨touched, [], past, rfl, forall_mem_nil _⟩

/-- Every object of the table was made by the newest deed that touches its account. -/
def OnRecord (touches : AccountName → Deed → Prop) (Made : Database → Deed → AccountName → V → Prop)
    (table : Database → Store AccountName V) (m : Moment) : Prop :=
  ∀ account v, (table m.state).find? account = some v →
    ∃ s deed, Latest (touches account) m.past s deed ∧ Made s deed account v

/-- Every object there is after a deed was there before or was made by the deed. -/
def KeepsRecord (touches : AccountName → Deed → Prop) (Made : Database → Deed → AccountName → V → Prop)
    (table : Database → Store AccountName V) (s : Database) (deed : Deed) (t : Database) : Prop :=
  ∀ account v, (table t).find? account = some v →
    ((table s).find? account = some v ∧ ¬touches account deed) ∨ (touches account deed ∧ Made s deed account v)

theorem OnRecord.next {m : Moment} (recorded : OnRecord touches Made table m)
    (keeps : KeepsRecord touches Made table m.state deed t) : OnRecord touches Made table (m.next deed t) := by
  intro account v found
  obtain ⟨before, other⟩ | ⟨touched, made⟩ := keeps account v found
  · obtain ⟨s, deed', latest, made⟩ := recorded account v before
    exact ⟨s, deed', latest.next other, made⟩
  · exact ⟨m.state, deed, latest_here touched, made⟩

theorem keepsRecord_of_same (same : table t = table s)
    (other : ∀ account, ¬touches account deed) : KeepsRecord touches Made table s deed t := by
  intro account v found
  rw [same] at found
  exact .inl ⟨found, other account⟩

end Record

/-! ## Requests to recover -/

/-- Who may request the recovery of an account: its recovery partner, or the top witness if it
has none. -/
def Database.IsPartner (s : Database) (account partner : AccountName) : Prop :=
  ∃ a, s.accounts.find? account = some a ∧
    if a.info.recoveryAccount ≠ .blank then a.info.recoveryAccount = partner else topWitness s = some partner

/-- To request, replace, cancel or use. -/
def Deed.touchesRequest (account : AccountName) : Deed → Prop
  | .evaluated (.requestAccountRecovery o) => o.accountToRecover = account
  | .evaluated (.recoverAccount o) => o.accountToRecover = account
  | _ => False

/-- The partner requested it, and did not cancel a request by this. -/
def Requested (s : Database) (deed : Deed) (account : AccountName) (r : AccountRecoveryRequest) : Prop :=
  ∃ o, deed = .evaluated (.requestAccountRecovery o) ∧ o.accountToRecover = account ∧
    o.newOwnerAuthority.weightThreshold ≠ 0 ∧ s.IsPartner account o.recoveryAccount ∧
    r = ⟨o.newOwnerAuthority, s.head.time + accountRecoveryRequestExpirationPeriod⟩

theorem checkAccountAuths_same {auth : Authority} : Ensures s (checkAccountAuths auth) fun _ t => t = s := by
  refine ensures_forM rfl fun item _ t same => ?_
  simp only [getAccount, ensures_steps]
  exact fun _ _ => same

/-- A request is made, replaced or cancelled, by the partner of the account. -/
theorem requestAccountRecovery_ensures {o : RequestAccountRecoveryOperation} :
    Ensures s (requestAccountRecovery o) fun _ t => s.IsPartner o.accountToRecover o.recoveryAccount ∧
      ∀ account r, t.recoveryRequests.find? account = some r →
        account = o.accountToRecover ∧ o.newOwnerAuthority.weightThreshold ≠ 0 ∧
            r = ⟨o.newOwnerAuthority, s.head.time + accountRecoveryRequestExpirationPeriod⟩ ∨
          account ≠ o.accountToRecover ∧ s.recoveryRequests.find? account = some r := by
  simp only [requestAccountRecovery, getAccount, ensures_steps]
  intro a found
  refine Ensures.mono (P := fun _ t => t = s ∧ s.IsPartner o.accountToRecover o.recoveryAccount)
    (ensures_ite.mpr ⟨fun has => ensures_check.mpr fun same => ⟨rfl, a, found, ?_⟩,
      fun absent => ensures_check.mpr fun top => ⟨rfl, a, found, ?_⟩⟩) ?_
  · rwa [if_pos has]
  · rwa [if_neg absent]
  rintro _ _ ⟨rfl, partner⟩
  rename_i s
  have unchecked : Ensures s (when (s.hasHardfork 15) (checkAccountAuths o.newOwnerAuthority)) fun _ t => t = s :=
    ensures_when.mpr ⟨fun _ => checkAccountAuths_same, fun _ => rfl⟩
  refine ensures_ite.mpr ⟨fun _ => ?_, fun _ => ensures_ite.mpr ⟨fun _ => ?_, fun notCancelled => ?_⟩⟩
  · simp only [ensures_steps]
    refine fun _ notOpen => unchecked.mono ?_
    rintro _ t rfl
    simp only [create, updateRecoveryRequests, ensures_steps]
    refine fun fresh => ⟨partner, fun account r found => ?_⟩
    exact ((find?_insert_eq_some fresh).mp found).imp_left (And.imp_right fun made => ⟨notOpen, made⟩)
  · simp only [remove, fetch, updateRecoveryRequests, ensures_steps]
    exact fun _ _ => ⟨partner, fun account r found => .inr (find?_erase_eq_some.mp found)⟩
  · simp only [ensures_steps]
    refine fun _ => unchecked.mono ?_
    rintro _ t rfl
    simp only [change, fetch, updateRecoveryRequests, ensures_steps]
    refine fun _ _ => ⟨partner, fun account r found => (find?_modify_eq_some.mp found).imp_left ?_⟩
    rintro ⟨same, _, _, made⟩
    exact ⟨same, notCancelled, made.symm⟩

/-! ## Owner authorities -/

def Database.ownerOf (s : Database) (account : AccountName) : Option Authority :=
  (s.authorities.find? account).map (·.owner)

/-- Accounts keep their owner authority or get `owner`, and what they had is put into the history. -/
structure Rekeys (owner : Authority) (s t : Database) : Prop where
  sameTime : t.head.time = s.head.time
  owners : ∀ account, t.ownerOf account = s.ownerOf account ∨
    (s.ownerOf account).isSome ∧ t.ownerOf account = some owner
  history : ∃ new, t.ownerHistory = s.ownerHistory ++ new ∧ ∀ h ∈ new, h.lastValidTime = s.head.time ∧
    (s.ownerOf h.account = some h.previousOwnerAuthority ∨ t.ownerOf h.account = some h.previousOwnerAuthority)

section Rekeys

variable {u : Database}

theorem Rekeys.refl (s : Database) : Rekeys owner s s := ⟨rfl, fun _ => .inl rfl, [], by simp, by simp⟩

theorem Rekeys.trans (first : Rekeys owner s t) (second : Rekeys owner t u) : Rekeys owner s u where
  sameTime := second.sameTime.trans first.sameTime
  owners := by
    intro account
    obtain same | ⟨has, becomes⟩ := second.owners account
    · rw [same]
      exact first.owners account
    · refine .inr ⟨?_, becomes⟩
      obtain same | ⟨had, _⟩ := first.owners account
      · rwa [← same]
      · exact had
  history := by
    obtain ⟨new₁, history₁, had₁⟩ := first.history
    obtain ⟨new₂, history₂, had₂⟩ := second.history
    refine ⟨new₁ ++ new₂, by rw [history₂, history₁, append_assoc], fun h member => ?_⟩
    obtain member | member := mem_append.mp member
    · obtain ⟨time, had | has⟩ := had₁ h member
      · exact ⟨time, .inl had⟩
      · -- what `t` has is `owner` or what `s` had, and `u` keeps it or has `owner`
        refine ⟨time, ?_⟩
        obtain same | ⟨_, becomes⟩ := first.owners h.account
        · rw [same] at has
          exact .inl has
        · rw [becomes] at has
          obtain same | ⟨_, again⟩ := second.owners h.account
          · exact .inr (by rw [same, becomes, has])
          · exact .inr (by rw [again, has])
    · obtain ⟨time, had | has⟩ := had₂ h member
      · refine ⟨time.trans first.sameTime, ?_⟩
        obtain same | ⟨_, becomes⟩ := first.owners h.account
        · exact .inl (by rw [← same, had])
        · rw [becomes] at had
          obtain same | ⟨_, again⟩ := second.owners h.account
          · exact .inr (by rw [same, becomes, had])
          · exact .inr (by rw [again, had])
      · exact ⟨time.trans first.sameTime, .inr has⟩

instance : Std.Refl (Rekeys owner) := ⟨Rekeys.refl⟩

instance : IsTrans Database (Rekeys owner) := ⟨fun _ _ _ => Rekeys.trans⟩

theorem ownerOf_modify {f : AccountAuthority → AccountAuthority} :
    ({ s with authorities := s.authorities.modify name f }).ownerOf account =
      if account = name then (s.authorities.find? account).map fun a => (f a).owner else s.ownerOf account := by
  simp only [ownerOf, find?_modify]
  split
  · rw [Option.map_map]
    rfl
  · rfl

theorem ownerOf_rekeyed {auth : AccountAuthority} {time : Time} (found : s.authorities.find? name = some auth)
    (account : AccountName) : ({ s with authorities := s.authorities.modify name fun a =>
        { a with owner, lastOwnerUpdate := time } }).ownerOf account =
      if account = name then some owner else s.ownerOf account := by
  rw [ownerOf_modify]
  split
  next same =>
    rw [same, found]
    rfl
  · rfl

/-- What keeps owner authorities, their history and the time. -/
abbrev keepsOwners : Footprint
  | .authorities | .ownerHistory | .head => false
  | _ => true

instance : Finer (Within keepsOwners) (Rekeys owner) :=
  ⟨fun s t within => by
    have head : t.head = s.head := within .head rfl
    have authorities : t.authorities = s.authorities := within .authorities rfl
    have history : t.ownerHistory = s.ownerHistory := within .ownerHistory rfl
    refine ⟨by rw [head], fun account => .inl ?_, [], by rw [history, append_nil], by simp⟩
    rw [ownerOf, authorities]
    rfl⟩

instance {active posting : AccountAuthority → Authority}
    {lastOwnerUpdate : AccountAuthority → Time} : Preserves (Rekeys owner)
      (changeAuthority name fun a => ⟨a.owner, active a, posting a, lastOwnerUpdate a⟩) := by
  refine ⟨fun s => ?_⟩
  simp only [changeAuthority, change, fetch, updateAuthorities, ensures_steps]
  refine fun _ _ => ⟨rfl, fun account => .inl ?_, [], by simp, by simp⟩
  rw [ownerOf_modify]
  split <;> rfl

instance : Preserves (Rekeys owner) (updateOwnerAuthority name owner) := by
  refine ⟨fun s => ?_⟩
  simp only [updateOwnerAuthority, getAuthority, changeAuthority, change, fetch, updateAuthorities,
    updateOwnerHistory, ensures_steps, ensures_when]
  have rekeyed {auth : AccountAuthority} (found : s.authorities.find? name = some auth) (account : AccountName)
      (u : Database) (is : u.ownerOf account = if account = name then some owner else s.ownerOf account) :
      u.ownerOf account = s.ownerOf account ∨ (s.ownerOf account).isSome ∧ u.ownerOf account = some owner := by
    split at is
    next same => exact .inr ⟨by simp [ownerOf, same, found], is⟩
    · exact .inl is
  refine ⟨fun _ auth found _ _ => ⟨rfl, fun account => rekeyed found account _ (ownerOf_rekeyed found account), _, rfl,
    ?_⟩,
    fun _ _ found => ⟨rfl, fun account => rekeyed found account _ (ownerOf_rekeyed found account), [], by simp,
      by simp⟩⟩
  simp [ownerOf, found]

instance : Preserves (Rekeys o.newOwnerAuthority) (recoverAccount o) := by
  unfold recoverAccount; infer_instance

theorem accountUpdate_rekeys {producing : Bool} {o : AccountUpdateOperation} :
    ∃ owner, Preserves (Rekeys owner) (accountUpdate producing o) := by
  unfold accountUpdate
  cases o.owner with
  | none =>
    refine ⟨⟨0, [], []⟩, ?_⟩
    simp only [Option.elim_none]
    infer_instance
  | some auth =>
    refine ⟨auth, ?_⟩
    simp only [Option.elim_some]
    infer_instance

deriving instance Preserves (Rekeys owner) for applyHardfork12

instance {compromised : List AccountName} {key : PublicKey} :
    Preserves (Rekeys (.ofKey key)) (applyHardfork16 compromised key) := by
  unfold applyHardfork16; infer_instance

instance {hardfork : Nat} : Preserves (Rekeys (.ofKey net.compromisedKey)) (net.rewrite hardfork) := by
  unfold Network.rewrite
  split <;> infer_instance

end Rekeys

/-! ## Recovery partners -/

/-- Accounts stay, and keep their recovery partner. -/
def KeepsPartners (s t : Database) : Prop :=
  ∀ account a, s.accounts.find? account = some a →
    ∃ a', t.accounts.find? account = some a' ∧ a'.info.recoveryAccount = a.info.recoveryAccount

instance : Std.Refl KeepsPartners := ⟨fun _ _ a found => ⟨a, found, rfl⟩⟩

instance : IsTrans Database KeepsPartners :=
  ⟨fun _ _ _ first second account a found => by
    obtain ⟨b, found, same⟩ := first account a found
    obtain ⟨c, found, again⟩ := second account b found
    exact ⟨c, found, again.trans same⟩⟩

abbrev keepsInfo : Footprint
  | .info => false
  | _ => true

theorem Within.keepsPartners {s t : Database} (within : Within keepsInfo s t) : KeepsPartners s t := by
  intro account a found
  have same : t.accounts.view (·.info) = s.accounts.view (·.info) := within .info rfl
  have info := find?_eq_of_view same account
  rw [found, Option.map_some] at info
  obtain ⟨a', found', same⟩ := Option.map_eq_some_iff.mp info
  exact ⟨a', found', by rw [same]⟩

instance : Finer (Within keepsInfo) KeepsPartners := ⟨fun _ _ => Within.keepsPartners⟩

instance {account : Account} : Preserves KeepsPartners (createAccount name account) := by
  refine ⟨fun s => ?_⟩
  simp only [createAccount, updateAccounts, ensures_steps]
  intro fresh account a found
  refine ⟨a, ?_, rfl⟩
  rw [find?_insert fresh, if_neg, found]
  rintro rfl
  rw [fresh] at found
  cases found

theorem keepsPartners_modifyAccountInfo {f : AccountInfo → AccountInfo}
    (kept : ∀ i, (f i).recoveryAccount = i.recoveryAccount) : Preserves KeepsPartners (modifyAccountInfo name f) := by
  refine ⟨fun s => ?_⟩
  simp only [modifyAccountInfo, updateAccount, updateAccounts, getAccount, ensures_steps]
  intro _ _ account a found
  rw [find?_modify, found]
  split
  · exact ⟨_, rfl, kept a.info⟩
  · exact ⟨a, rfl, rfl⟩

instance {memoKey : AccountInfo → PublicKey}
    {created lastOwnerProved lastActiveProved lastAccountUpdate lastAccountRecovery referralEndDate : AccountInfo →
      Time}
    {mined ownerChallenged activeChallenged : AccountInfo → Bool} {savingsWithdrawRequests : AccountInfo → Nat}
    {referrerAccount : AccountInfo → AccountName} {referrerInterestRate : AccountInfo → Nat}
    {referralBreakFee : AccountInfo → Int} : Preserves KeepsPartners (modifyAccountInfo name fun i =>
      ⟨memoKey i, created i, mined i, ownerChallenged i, activeChallenged i, lastOwnerProved i, lastActiveProved i,
        lastAccountUpdate i, lastAccountRecovery i, i.recoveryAccount, savingsWithdrawRequests i, referrerAccount i,
        referrerInterestRate i, referralEndDate i, referralBreakFee i⟩) :=
  keepsPartners_modifyAccountInfo fun _ => rfl

deriving instance Preserves KeepsPartners for applyReferralOptions

theorem evaluate_keepsPartners {producing nesting apply} {op : Operation} (other : op.isProposal = false) :
    Preserves KeepsPartners (evaluate producing nesting apply op) := by
  cases op <;> simp only [evaluate, accountCreate, accountCreateWithDelegation, accountUpdate,
    accountMetadata, breakFreeReferral, challengeAuthority, proveAuthority, recoverAccount, transfer,
      transferFromSavings,
    cancelTransferFromSavings, createMinedAccount, pow, pow2, createPost, comment]
  case proposalCreate | proposalUpdate | proposalDelete => cases other
  all_goals infer_instance

theorem run_keepsPartners (noOperations : step.appliesOperations = false)
    (other : step ≠ .accountRecoveryProcessing) : Preserves KeepsPartners (step.run net) := by
  cases step <;> simp only [BlockStep.run, completeSavingsWithdraw, processSavingsWithdraws]
  case applyTransaction | clearExpiredProposals => cases noOperations
  case accountRecoveryProcessing => exact absurd rfl other
  all_goals infer_instance

/-- To request, replace or cancel. -/
def Deed.touchesChange (account : AccountName) : Deed → Prop
  | .evaluated (.changeRecoveryAccount o) => o.accountToRecover = account
  | _ => False

/-- A request to change to the partner the account has cancels the one there is. -/
def Database.Cancels (s : Database) (o : ChangeRecoveryAccountOperation) : Prop :=
  s.changeRecoveryRequests.find? o.accountToRecover ≠ none ∧
    ∃ a, s.accounts.find? o.accountToRecover = some a ∧ a.info.recoveryAccount = o.newRecoveryAccount

def ChangeRequested (s : Database) (deed : Deed) (account : AccountName) (r : ChangeRecoveryAccountRequest) : Prop :=
  ∃ o, deed = .evaluated (.changeRecoveryAccount o) ∧ o.accountToRecover = account ∧ ¬s.Cancels o ∧
    r = ⟨o.newRecoveryAccount, s.head.time + ownerAuthRecoveryPeriod⟩

theorem changeRecoveryAccount_ensures {o : ChangeRecoveryAccountOperation} :
    Ensures s (changeRecoveryAccount o) fun _ t => ∀ account r, t.changeRecoveryRequests.find? account = some r →
      account = o.accountToRecover ∧ ¬s.Cancels o ∧
          r = ⟨o.newRecoveryAccount, s.head.time + ownerAuthRecoveryPeriod⟩ ∨
        account ≠ o.accountToRecover ∧ s.changeRecoveryRequests.find? account = some r := by
  simp only [changeRecoveryAccount, getAccount, ensures_steps]
  intro _ _ a there
  refine ensures_ite.mpr ⟨fun absent => ?_, fun _ => ensures_ite.mpr ⟨fun different => ?_, fun _ => ?_⟩⟩
  · simp only [create, updateChangeRecoveryRequests, ensures_steps]
    intro fresh account r found
    refine ((find?_insert_eq_some fresh).mp found).imp_left (And.imp_right fun made => ⟨?_, made⟩)
    exact fun cancels => cancels.1 absent
  · simp only [change, fetch, updateChangeRecoveryRequests, ensures_steps]
    refine fun _ _ account r found => (find?_modify_eq_some.mp found).imp_left ?_
    rintro ⟨same, _, _, made⟩
    refine ⟨same, ?_, made.symm⟩
    rintro ⟨_, a', there', already⟩
    cases there.symm.trans there'
    exact different already
  · simp only [remove, fetch, updateChangeRecoveryRequests, ensures_steps]
    exact fun _ _ account r found => .inr (find?_erase_eq_some.mp found)

/-! ## The processing at the end of a block -/

/-- What `account_recovery_processing` leaves of requests and authorities. -/
structure Pruned (s t : Database) : Prop where
  head : t.head = s.head
  authorities : t.authorities = s.authorities
  requests : ∀ account r, t.recoveryRequests.find? account = some r →
    s.recoveryRequests.find? account = some r ∧ s.head.time < r.expires
  history : t.ownerHistory = s.ownerHistory.dropWhile fun h => h.lastValidTime + ownerAuthRecoveryPeriod < s.head.time
  changes : ∀ account r, t.changeRecoveryRequests.find? account = some r →
    s.changeRecoveryRequests.find? account = some r
  partners : ∀ account a, s.accounts.find? account = some a →
    ∃ a', t.accounts.find? account = some a' ∧ (a'.info.recoveryAccount = a.info.recoveryAccount ∨
      ∃ r, s.changeRecoveryRequests.find? account = some r ∧ r.effectiveOn ≤ s.head.time ∧
        a'.info.recoveryAccount = r.recoveryAccount)

/-- One pass of the loop over the changes that are due. -/
theorem Pruned.next {e : AccountName × ChangeRecoveryAccountRequest} (pruned : Pruned s t)
    (requested : s.changeRecoveryRequests.find? e.1 = some e.2) (due : e.2.effectiveOn ≤ s.head.time) : Ensures t (do
      modifyAccountInfo e.1 fun i => { i with recoveryAccount := e.2.recoveryAccount }
      remove (·.changeRecoveryRequests) updateChangeRecoveryRequests "change_recovery_account_request" e.1)
      fun _ u => Pruned s u := by
  simp only [modifyAccountInfo, updateAccount, updateAccounts, getAccount, remove, fetch,
    updateChangeRecoveryRequests, ensures_steps]
  intro _ _ _ _
  refine ⟨pruned.head, pruned.authorities, pruned.requests, pruned.history, fun account r found => ?_,
    fun account a found => ?_⟩
  · exact pruned.changes account r (find?_erase_eq_some.mp found).2
  · obtain ⟨a', found', same⟩ := pruned.partners account a found
    rw [find?_modify, found']
    split
    next this =>
      subst this
      exact ⟨_, rfl, .inr ⟨e.2, requested, due, rfl⟩⟩
    · exact ⟨a', rfl, same⟩

theorem accountRecoveryProcessing_pruned : Ensures s accountRecoveryProcessing fun _ t => Pruned s t := by
  simp only [accountRecoveryProcessing]
  refine ensures_forM ⟨rfl, rfl, fun account r found => ?_, rfl, fun _ _ found => found,
    fun _ a found => ⟨a, found, .inl rfl⟩⟩ fun e member t pruned => ?_
  · obtain ⟨found, late⟩ := find?_filter.mp found
    exact ⟨found, of_decide_eq_true late⟩
  · have listed := (mem_insertionSort _).mp member
    obtain ⟨found, due⟩ := mem_filter.mp listed
    exact pruned.next (find?_eq_some.mpr found) (of_decide_eq_true due)

/-! ## What a deed does -/

abbrev keepsRequests : Footprint
  | .recoveryRequests => false
  | _ => true

abbrev keepsOwnerHistory : Footprint
  | .ownerHistory => false
  | _ => true

abbrev keepsChangeRequests : Footprint
  | .changeRecoveryRequests => false
  | _ => true

/-- What it takes to recover an account, and what becomes of it. -/
structure RecoverAccountOperation.Recovers (o : RecoverAccountOperation) (s t : Database) : Prop where
  request : ∃ r, s.recoveryRequests.find? o.accountToRecover = some r ∧ r.newOwnerAuthority = o.newOwnerAuthority
  recent : ∃ h ∈ s.ownerHistory, h.account = o.accountToRecover ∧ h.previousOwnerAuthority = o.recentOwnerAuthority
  used : t.recoveryRequests = s.recoveryRequests.erase o.accountToRecover
  owners : ∀ account, t.ownerOf account =
    if account = o.accountToRecover then some o.newOwnerAuthority else s.ownerOf account

/-- What the end of a recovery leaves alone. -/
abbrev keepsKeys : Footprint
  | .recoveryRequests | .authorities => false
  | _ => true

theorem updateOwnerAuthority_ensures :
    Ensures s (updateOwnerAuthority name owner) fun _ t => t.recoveryRequests = s.recoveryRequests ∧
      ∀ account, t.ownerOf account = if account = name then some owner else s.ownerOf account := by
  simp only [updateOwnerAuthority, getAuthority, changeAuthority, change, fetch, updateAuthorities,
    updateOwnerHistory, ensures_steps, ensures_when]
  exact ⟨fun _ _ found _ _ => ⟨trivial, ownerOf_rekeyed found⟩, fun _ _ found => ⟨trivial, ownerOf_rekeyed found⟩⟩

theorem recoverAccount_ensures : Ensures s (recoverAccount o) fun _ t => o.Recovers s t := by
  simp only [recoverAccount, getAccount, ensures_steps]
  intro a _
  have limited : Ensures s (when (s.hasHardfork 12) (check (a.info.lastAccountRecovery + ownerUpdateLimit < s.head.time)
      (Error.bandwidth "Owner authority can only be updated once an hour."))) fun _ t => t = s := by
    simp [ensures_when]
  refine limited.mono ?_
  rintro _ _ rfl request found
  simp only [remove, fetch, updateRecoveryRequests, ensures_steps]
  intro same recent _ _
  refine updateOwnerAuthority_ensures.mono fun _ t updated _ u noted _ v reset => ?_
  obtain ⟨used, owners⟩ := updated
  have kept : Within keepsKeys t v :=
    trans_of (Within keepsKeys) (frame_of_run noted) (frame_of_run reset)
  have requests : v.recoveryRequests = t.recoveryRequests := kept .recoveryRequests rfl
  have authorities : v.authorities = t.authorities := kept .authorities rfl
  refine ⟨⟨request, found, same⟩, recent, requests.trans used, fun account => ?_⟩
  rw [ownerOf, authorities]
  exact owners account

section Deeds

variable {deed : Deed}

/-- After the transit nothing is pruned any more. -/
theorem Does.pruned (done : Does net s (.stepped .accountRecoveryProcessing) t) :
    s.isTransitEnabled = true ∧ t = s ∨ Pruned s t := by
  cases done with
  | stepped _ run =>
    have either : Ensures s (unlessTransit accountRecoveryProcessing) fun _ t =>
        s.isTransitEnabled = true ∧ t = s ∨ Pruned s t := by
      rw [unlessTransit, ensures_bind, ensures_get]
      refine ensures_when.mpr ⟨fun _ => accountRecoveryProcessing_pruned.mono fun _ t => .inr, fun transit => ?_⟩
      exact .inl ⟨by simpa using transit, rfl⟩
    exact either _ _ run

/-- Both kinds of requests are made by their operations, and by nothing else. -/
theorem Does.requestsOnRecord (done : Does net s deed t) :
    KeepsRecord Deed.touchesRequest Requested (·.recoveryRequests) s deed t ∧
      KeepsRecord Deed.touchesChange ChangeRequested (·.changeRecoveryRequests) s deed t := by
  have requests {m : Eval Unit} [frame : Touches keepsRequests m] (run : m s = .ok ((), t))
      (other : ∀ account, ¬deed.touchesRequest account) :
      KeepsRecord Deed.touchesRequest Requested (·.recoveryRequests) s deed t :=
    keepsRecord_of_same (frame.after run .recoveryRequests rfl) other
  have changes {m : Eval Unit} [frame : Touches keepsChangeRequests m] (run : m s = .ok ((), t))
      (other : ∀ account, ¬deed.touchesChange account) :
      KeepsRecord Deed.touchesChange ChangeRequested (·.changeRecoveryRequests) s deed t :=
    keepsRecord_of_same (frame.after run .changeRecoveryRequests rfl) other
  cases done using Does.byKind with
  | record kind frame =>
    refine ⟨keepsRecord_of_same (frame .recoveryRequests rfl) fun _ touched => ?_,
      keepsRecord_of_same (frame .changeRecoveryRequests rfl) fun _ touched => ?_⟩
    all_goals cases deed <;> first | cases touched | cases kind
  | @evaluated _ _ _ _ _ op notProposal valid run =>
    cases op <;> unfold evaluate at run
    case requestAccountRecovery o =>
      obtain ⟨partner, made⟩ := requestAccountRecovery_ensures _ _ run
      refine ⟨fun account r found => ?_, changes run fun _ => id⟩
      obtain ⟨rfl, notOpen, isRequest⟩ | ⟨different, before⟩ := made account r found
      · exact .inr ⟨rfl, o, rfl, rfl, notOpen, partner, isRequest⟩
      · exact .inl ⟨before, Ne.symm different⟩
    case recoverAccount o =>
      refine ⟨fun account r found => ?_, changes run fun _ => id⟩
      change t.recoveryRequests.find? account = some r at found
      rw [(recoverAccount_ensures _ _ run).used, find?_erase_eq_some] at found
      exact .inl ⟨found.2, Ne.symm found.1⟩
    case changeRecoveryAccount o =>
      refine ⟨requests run fun _ => id, fun account r found => ?_⟩
      obtain ⟨rfl, notCancelled, isRequest⟩ | ⟨different, before⟩ :=
        changeRecoveryAccount_ensures _ _ run account r found
      · exact .inr ⟨rfl, o, rfl, rfl, notCancelled, isRequest⟩
      · exact .inl ⟨before, Ne.symm different⟩
    case proposalCreate | proposalUpdate | proposalDelete => cases notProposal
    all_goals exact ⟨requests run fun _ => id, changes run fun _ => id⟩
  | @stepped _ _ step noOperations run =>
    cases step <;> unfold BlockStep.run at run
    case accountRecoveryProcessing =>
      obtain ⟨_, rfl⟩ | pruned := (@Does.stepped net _ _ _ noOperations run).pruned
      · exact ⟨keepsRecord_of_same rfl fun _ => id, keepsRecord_of_same rfl fun _ => id⟩
      · exact ⟨fun account r found => .inl ⟨(pruned.requests account r found).1, id⟩,
          fun account r found => .inl ⟨pruned.changes account r found, id⟩⟩
    case applyTransaction | clearExpiredProposals => cases noOperations
    all_goals exact ⟨requests run fun _ => id, changes run fun _ => id⟩

/-- Partners change when a change that was requested is due, and only then. -/
theorem Does.partners (done : Does net s deed t) {a a' : Account}
    (found : s.accounts.find? account = some a) (found' : t.accounts.find? account = some a')
    (changed : a'.info.recoveryAccount ≠ a.info.recoveryAccount) :
    ∃ r, s.changeRecoveryRequests.find? account = some r ∧ r.effectiveOn ≤ s.head.time ∧
      a'.info.recoveryAccount = r.recoveryAccount := by
  have unchanged (keeps : KeepsPartners s t) : False := by
    obtain ⟨a'', found'', same⟩ := keeps account a found
    cases found'.symm.trans found''
    exact changed same
  cases done using Does.byKind with
  | record _ frame => exact (unchanged (Within.keepsPartners frame.widen)).elim
  | evaluated notProposal _ run => exact (unchanged ((evaluate_keepsPartners notProposal).after run)).elim
  | stepped noOperations run =>
    rename_i step
    by_cases prunes : step = .accountRecoveryProcessing
    · subst prunes
      obtain ⟨_, rfl⟩ | pruned := Does.pruned (.stepped noOperations run)
      · exact (unchanged (refl_of KeepsPartners t)).elim
      · obtain ⟨a'', found'', either⟩ := pruned.partners account a found
        cases found'.symm.trans found''
        exact either.resolve_left changed
    · exact (unchanged ((run_keepsPartners noOperations prunes).after run)).elim

/-- The history of owner authorities grows by what accounts have before or after. -/
def HistoryGrows (s t : Database) : Prop :=
  ∃ new, t.ownerHistory = s.ownerHistory ++ new ∧ ∀ h ∈ new, h.lastValidTime = s.head.time ∧
    (s.ownerOf h.account = some h.previousOwnerAuthority ∨
      t.head.time = s.head.time ∧ t.ownerOf h.account = some h.previousOwnerAuthority)

theorem Rekeys.historyGrows (rekeys : Rekeys owner s t) : HistoryGrows s t := by
  obtain ⟨new, grown, had⟩ := rekeys.history
  refine ⟨new, grown, fun h member => ?_⟩
  exact (had h member).imp_right (Or.imp_right fun after => ⟨rekeys.sameTime, after⟩)

theorem Does.ownerHistory (done : Does net s deed t) (other : deed ≠ .stepped .accountRecoveryProcessing) :
    HistoryGrows s t := by
  have unchanged (within : Within keepsOwnerHistory s t) : HistoryGrows s t := by
    have same : t.ownerHistory = s.ownerHistory := within .ownerHistory rfl
    exact ⟨[], by rw [same, append_nil], forall_mem_nil _⟩
  have untouched {m : Eval Unit} [frame : Touches keepsOwnerHistory m] (run : m s = .ok ((), t)) : HistoryGrows s t :=
    unchanged (frame.after run)
  cases done using Does.byKind with
  | record _ frame => exact unchanged frame.widen
  | @evaluated _ _ producing _ _ op notProposal valid run =>
    cases op
    case accountUpdate o =>
      obtain ⟨owner, rekeys⟩ := @accountUpdate_rekeys producing o
      exact (rekeys.after run).historyGrows
    case recoverAccount o =>
      have rekeys : Preserves (Rekeys o.newOwnerAuthority) (recoverAccount o) := inferInstance
      exact (rekeys.after run).historyGrows
    case proposalCreate | proposalUpdate | proposalDelete => cases notProposal
    all_goals
      unfold evaluate at run
      exact untouched run
  | @stepped _ _ step noOperations run =>
    cases step
    case processHardforks =>
      have rekeys : Preserves (Rekeys (.ofKey net.compromisedKey)) net.processHardforks := inferInstance
      exact (rekeys.after run).historyGrows
    case accountRecoveryProcessing => exact absurd rfl other
    case applyTransaction | clearExpiredProposals => cases noOperations
    all_goals
      unfold BlockStep.run at run
      exact untouched run

end Deeds

/-! ## What the run knows about owner authorities -/

/-- The account had this owner authority at a time of the history. -/
def Moment.Had (m : Moment) (account : AccountName) (owner : Authority) (time : Time) : Prop :=
  ∃ s, (s = m.state ∨ ∃ deed, (s, deed) ∈ m.past) ∧ s.ownerOf account = some owner ∧ s.head.time = time

/-- What the history of owner authorities says is true, and in the order of the time. -/
structure Tracked (m : Moment) : Prop where
  had : ∀ h ∈ m.state.ownerHistory, m.Had h.account h.previousOwnerAuthority h.lastValidTime
  sorted : m.state.ownerHistory.Pairwise fun a b => a.lastValidTime ≤ b.lastValidTime
  past : ∀ h ∈ m.state.ownerHistory, h.lastValidTime ≤ m.state.head.time

section Tracked

variable {m : Moment} {deed : Deed}

theorem Moment.Had.next {time : Time} (had : m.Had account owner time) : (m.next deed t).Had account owner time := by
  obtain ⟨s, rfl | ⟨deed', member⟩, owned, time⟩ := had
  · exact ⟨m.state, .inr ⟨deed, mem_cons_self ..⟩, owned, time⟩
  · exact ⟨s, .inr ⟨deed', mem_cons_of_mem _ member⟩, owned, time⟩

theorem Tracked.of_sublist (tracked : Tracked m) (forward : m.state.head.time ≤ t.head.time)
    (sub : t.ownerHistory.Sublist m.state.ownerHistory) : Tracked (m.next deed t) where
  had h member := (tracked.had h (sub.subset member)).next
  sorted := tracked.sorted.sublist sub
  past h member := (tracked.past h (sub.subset member)).trans forward

theorem Tracked.next (tracked : Tracked m) (done : Does net m.state deed t)
    (forward : m.state.head.time ≤ t.head.time) : Tracked (m.next deed t) := by
  by_cases prunes : deed = .stepped .accountRecoveryProcessing
  · subst prunes
    obtain ⟨_, rfl⟩ | pruned := done.pruned
    · exact tracked.of_sublist forward (Sublist.refl _)
    · refine tracked.of_sublist forward ?_
      rw [pruned.history]
      exact dropWhile_sublist _
  · obtain ⟨new, grown, added⟩ := done.ownerHistory prunes
    have now : ∀ h ∈ new, h.lastValidTime = m.state.head.time := fun h member => (added h member).1
    refine ⟨fun h member => ?_, ?_, fun h member => ?_⟩
    · change h ∈ t.ownerHistory at member
      rw [grown] at member
      obtain old | isNew := mem_append.mp member
      · exact (tracked.had h old).next
      · obtain ⟨time, before | ⟨same, after⟩⟩ := added h isNew
        · exact ⟨m.state, .inr ⟨deed, mem_cons_self ..⟩, before, time.symm⟩
        · exact ⟨t, .inl rfl, after, same.trans time.symm⟩
    · change t.ownerHistory.Pairwise _
      rw [grown, pairwise_append]
      refine ⟨tracked.sorted, pairwise_of_forall_mem_list fun a first b second => ?_, fun a old b isNew => ?_⟩
      · rw [now a first, now b second]
      · rw [now b isNew]
        exact tracked.past a old
    · change h ∈ t.ownerHistory at member
      rw [grown] at member
      obtain old | isNew := mem_append.mp member
      · exact (tracked.past h old).trans forward
      · exact (now h isNew).trans_le forward

end Tracked

/-- What stands behind the objects of the state. -/
structure Known (m : Moment) : Prop where
  requests : OnRecord Deed.touchesRequest Requested (·.recoveryRequests) m
  changes : OnRecord Deed.touchesChange ChangeRequested (·.changeRecoveryRequests) m
  tracked : Tracked m
  proposals : m.state.ProposalsValid

section Known

variable {allowed : Database → BlockStep → Prop} {m : Moment} {deed : Deed}

theorem Known.next (known : Known m) (done : Does net m.state deed t) (forward : m.state.head.time ≤ t.head.time) :
    Known (m.next deed t) where
  requests := known.requests.next done.requestsOnRecord.1
  changes := known.changes.next done.requestsOnRecord.2
  tracked := known.tracked.next done forward
  proposals := done.proposalsValid known.proposals

theorem Does.time_le (done : Does net m.state deed t) (notStep : deed.isStep = false) :
    m.state.head.time ≤ t.head.time := by
  refine (done.sameTime ?_).ge
  rintro b rfl
  cases notStep

/-- There is nothing to recover in the genesis. -/
abbrev keepsRecords : Footprint
  | .recoveryRequests | .changeRecoveryRequests | .ownerHistory | .proposals => false
  | _ => true

theorem Network.initGenesis_known (start : net.initGenesis {} = .ok ((), s)) : Known ⟨[], s⟩ := by
  have within : Within keepsRecords {} s := frame_of_run start
  have requests : s.recoveryRequests = .empty := within .recoveryRequests rfl
  have changes : s.changeRecoveryRequests = .empty := within .changeRecoveryRequests rfl
  have history : s.ownerHistory = [] := within .ownerHistory rfl
  have proposals : s.proposals = .empty := within .proposals rfl
  refine ⟨fun account r found => ?_, fun account r found => ?_, by constructor <;> simp [history],
    fun key p found => ?_⟩
  · change s.recoveryRequests.find? account = some r at found
    rw [requests] at found
    cases found
  · change s.changeRecoveryRequests.find? account = some r at found
    rw [changes] at found
    cases found
  · rw [proposals] at found
    cases found

theorem Network.Chronicle.known (chronicle : net.Chronicle allowed rest m) : Known m := by
  have rule := @Network.Chronicle.invariantAt net allowed fun _ m => Known m
  exact rule (fun _ => net.initGenesis_known) (fun _ _ => id)
    (fun _ _ _ _ notStep known done => known.next done (done.time_le notStep))
    (fun _ _ _ _ chronicle _ known done => known.next done (chronicle.time_le done)) (fun _ _ _ _ _ => id) chronicle

end Known

/-! ## What transactions find -/

/-- What is out of date has been removed. -/
structure Fresh (s : Database) : Prop where
  requests : ∀ account r, s.recoveryRequests.find? account = some r → s.head.time < r.expires
  history : ∀ h ∈ s.ownerHistory, s.head.time ≤ h.lastValidTime + ownerAuthRecoveryPeriod

section Fresh

variable {allowed : Database → BlockStep → Prop} {m : Moment} {deed : Deed}

theorem Fresh.next (fresh : Fresh s) (done : Does net s deed t) (sameTime : t.head.time = s.head.time) : Fresh t where
  requests account r found := by
    rw [sameTime]
    obtain ⟨before, _⟩ | ⟨_, o, _, _, _, _, rfl⟩ := done.requestsOnRecord.1 account r found
    · exact fresh.requests account r before
    · simp [accountRecoveryRequestExpirationPeriod]
  history h member := by
    rw [sameTime]
    by_cases prunes : deed = .stepped .accountRecoveryProcessing
    · subst prunes
      obtain ⟨_, rfl⟩ | pruned := done.pruned
      · exact fresh.history h member
      · rw [pruned.history] at member
        exact fresh.history h ((dropWhile_sublist _).subset member)
    · obtain ⟨new, grown, added⟩ := done.ownerHistory prunes
      rw [grown] at member
      obtain old | isNew := mem_append.mp member
      · exact fresh.history h old
      · rw [(added h isNew).1]
        exact Nat.le_add_right _ _

/-- The loop stops at the first entry that is recent enough, and so are all behind it. -/
theorem recent_of_mem_dropWhile {now : Time} {history : List OwnerAuthorityHistory}
    (sorted : history.Pairwise fun a b => a.lastValidTime ≤ b.lastValidTime) {h : OwnerAuthorityHistory}
    (member : h ∈ history.dropWhile fun h => h.lastValidTime + ownerAuthRecoveryPeriod < now) :
    now ≤ h.lastValidTime + ownerAuthRecoveryPeriod := by
  induction history with
  | nil => cases member
  | cons first rest ih =>
    rw [pairwise_cons] at sorted
    rw [dropWhile_cons] at member
    split at member
    · exact ih sorted.2 member
    next recent =>
      have recent : now ≤ first.lastValidTime + ownerAuthRecoveryPeriod := by simpa using recent
      obtain rfl | behind := mem_cons.mp member
      · exact recent
      · exact recent.trans (Nat.add_le_add_right (sorted.1 h behind) _)

theorem Pruned.fresh (pruned : Pruned s t)
    (sorted : s.ownerHistory.Pairwise fun a b => a.lastValidTime ≤ b.lastValidTime) : Fresh t where
  requests account r found := by
    rw [pruned.head]
    exact (pruned.requests account r found).2
  history h member := by
    rw [pruned.head]
    rw [pruned.history] at member
    exact recent_of_mem_dropWhile sorted member

theorem Network.initGenesis_fresh (start : net.initGenesis {} = .ok ((), s)) : Fresh s := by
  have within : Within keepsRecords {} s := frame_of_run start
  have requests : s.recoveryRequests = .empty := within .recoveryRequests rfl
  have history : s.ownerHistory = [] := within .ownerHistory rfl
  refine ⟨fun account r found => ?_, by simp [history]⟩
  rw [requests] at found
  cases found

/-- Between the processing for recovery and the end of the transactions of the next block, nothing is
out of date. -/
theorem Network.Chronicle.fresh (chronicle : net.Chronicle allowed rest m) :
    Awaits .accountRecoveryProcessing rest ∨ m.state.isTransitEnabled = true ∨ Fresh m.state := by
  have rule := @Network.Chronicle.invariantAt net allowed
    fun rest m => Awaits .accountRecoveryProcessing rest ∨ m.state.isTransitEnabled = true ∨ Fresh m.state
  refine rule (fun s start => .inr (.inr (net.initGenesis_fresh start))) (fun b m before => ?_)
    (fun rest m deed t notStep before done => ?_) (fun step rest m t chronicle _ before done => ?_)
    (fun step rest m applies _ before => ?_) chronicle
  · obtain ⟨waiting, _⟩ | past := before
    · cases waiting
    · exact .inr past
  · refine before.imp_right (Or.imp done.transit_kept fun fresh => fresh.next done (done.sameTime ?_))
    rintro b rfl
    cases notStep
  · by_cases prunes : step = .accountRecoveryProcessing
    · subst prunes
      obtain ⟨transit, rfl⟩ | pruned := done.pruned
      · exact .inr (.inl transit)
      · exact .inr (.inr (pruned.fresh chronicle.known.tracked.sorted))
    · by_cases adopts : ∃ b, step = .updateGlobalDynamicData b
      · obtain ⟨b', rfl⟩ := adopts
        exact .inl (chronicle.awaits (by simp [blockSteps, processingSteps]) (by decide))
      · have sameTime := done.sameTime fun b same => adopts ⟨b, by cases same; rfl⟩
        exact before.imp (fun awaits => awaits.tail prunes)
          (Or.imp done.transit_kept fun fresh => fresh.next done sameTime)
  · refine before.imp_left fun awaits => awaits.tail ?_
    rintro rfl
    cases applies

theorem Network.Chronicle.fresh_of_transaction {trx : Transaction}
    (chronicle : net.Chronicle allowed (.applyTransaction trx :: rest) m) : Fresh m.state := by
  obtain ⟨_, adopted⟩ | transit | fresh := chronicle.fresh
  · -- the block is taken as the head after its transactions
    obtain ⟨b, position⟩ := chronicle.suffix
    have adopts : .updateGlobalDynamicData b ∈ rest :=
      mem_of_later position (by simp [blockSteps, adoptionSteps]) (by simp [BlockStep.stage])
    exact absurd (mem_cons_of_mem _ adopts) (adopted b)
  · rw [chronicle.noTransit] at transit
    cases transit
  · exact fresh

end Fresh

/-! ## Recoveries and changes of the partner -/

/-- The partner made a request for exactly this authority, nothing was done about it since, and it is
live.  And the account had the recent authority not long ago. -/
structure Moment.MayRecover (m : Moment) (o : RecoverAccountOperation) : Prop where
  requested : ∃ s request,
    Latest (Deed.touchesRequest o.accountToRecover) m.past s (.evaluated (.requestAccountRecovery request)) ∧
      request.accountToRecover = o.accountToRecover ∧ request.newOwnerAuthority = o.newOwnerAuthority ∧
      o.newOwnerAuthority.weightThreshold ≠ 0 ∧ s.IsPartner o.accountToRecover request.recoveryAccount ∧
      m.state.head.time < s.head.time + accountRecoveryRequestExpirationPeriod
  recent : ∃ time, m.Had o.accountToRecover o.recentOwnerAuthority time ∧ time ≤ m.state.head.time ∧
    m.state.head.time ≤ time + ownerAuthRecoveryPeriod

/-- A change to this partner was requested long ago, and was neither cancelled nor replaced since. -/
def Moment.MayChangePartner (m : Moment) (account partner : AccountName) : Prop :=
  ∃ s o, Latest (Deed.touchesChange account) m.past s (.evaluated (.changeRecoveryAccount o)) ∧
    o.accountToRecover = account ∧ o.newRecoveryAccount = partner ∧ ¬s.Cancels o ∧
    s.head.time + ownerAuthRecoveryPeriod ≤ m.state.head.time

/-- What a deed may do about owner authorities and partners. -/
structure Transition.KeepsRecoveryRules (tr : Transition) : Prop where
  recovers : ∀ o, tr.deed = .evaluated (.recoverAccount o) → tr.before.MayRecover o ∧
    ∀ account, tr.after.ownerOf account =
      if account = o.accountToRecover then some o.newOwnerAuthority else tr.before.state.ownerOf account
  partners : ∀ account a a', tr.before.state.accounts.find? account = some a →
    tr.after.accounts.find? account = some a' → a'.info.recoveryAccount ≠ a.info.recoveryAccount →
    tr.before.MayChangePartner account a'.info.recoveryAccount

section Rules

variable {allowed : Database → BlockStep → Prop} {m : Moment} {deed : Deed}

theorem mayRecover_of_recovers (known : Known m) (fresh : Fresh m.state)
    (recovers : o.Recovers m.state t) : m.MayRecover o := by
  obtain ⟨r, found, exactly⟩ := recovers.request
  obtain ⟨h, member, same, recent⟩ := recovers.recent
  refine ⟨?_, h.lastValidTime, ?_, known.tracked.past h member, fresh.history h member⟩
  · obtain ⟨s, _, latest, request, rfl, same, notOpen, partner, rfl⟩ := known.requests _ _ found
    exact ⟨s, request, latest, same, exactly, by rwa [← exactly], partner, fresh.requests _ _ found⟩
  · rw [← same, ← recent]
    exact known.tracked.had h member

theorem keepsRecoveryRules_of_does (known : Known m) (done : Does net m.state deed t)
    (fresh : ∀ o, deed = .evaluated (.recoverAccount o) → Fresh m.state) :
      Transition.KeepsRecoveryRules ⟨m, deed, t⟩ where
  recovers := by
    rintro o rfl
    cases done with
    | evaluated _ _ run =>
      have recovers := recoverAccount_ensures _ _ run
      exact ⟨mayRecover_of_recovers known (fresh o rfl) recovers, recovers.owners⟩
  partners account a a' found found' changed := by
    obtain ⟨r, requested, due, same⟩ := done.partners found found' changed
    obtain ⟨s, _, latest, o, rfl, this, notCancelled, rfl⟩ := known.changes _ _ requested
    exact ⟨s, o, latest, this, same.symm, notCancelled, due⟩

/-- Everything so far kept the rules. -/
def Moment.RulesKept (m : Moment) : Prop := ∀ tr ∈ m.transitions, tr.KeepsRecoveryRules

theorem Moment.RulesKept.next (kept : m.RulesKept) (new : Transition.KeepsRecoveryRules ⟨m, deed, t⟩) :
    (m.next deed t).RulesKept := by
  rw [Moment.RulesKept, Moment.transitions_next, forall_mem_cons]
  exact ⟨new, kept⟩

/-- In a transaction, nothing is out of date. -/
theorem rulesKept_of_operations {task : Task} (performs : Performs net task m m') (known : Known m)
    (fresh : Fresh m.state) (kept : m.RulesKept) : m'.RulesKept := by
  have rule := @Performs.invariant net fun m => Known m ∧ Fresh m.state ∧ m.RulesKept
  refine (rule (fun m deed t notStep before done => ?_) performs ⟨known, fresh, kept⟩).2.2
  obtain ⟨known, fresh, kept⟩ := before
  have sameTime : t.head.time = m.state.head.time := done.sameTime (by rintro b rfl; cases notStep)
  exact ⟨known.next done sameTime.ge, fresh.next done sameTime,
    kept.next (keepsRecoveryRules_of_does known done fun _ _ => fresh)⟩

/-- A proposal recovers nothing: this needs other authorities than those of accounts. -/
theorem rulesKept_of_execution {key : ProposalKey} {p : Proposal}
    (performs : Performs net (.execution key p) m m') (known : Known m) (kept : m.RulesKept) : m'.RulesKept := by
  have rule := @Performs.invariantFor net (fun op => op.required.other = []) fun m => Known m ∧ m.RulesKept
  refine (rule (fun m deed t notStep fits before done => ?_)
    (fun m key p inv found op member => (inv.1.proposals key p found op member).authorities) performs trivial
    ⟨known, kept⟩).2
  obtain ⟨known, kept⟩ := before
  refine ⟨known.next done (done.time_le notStep), ?_⟩
  refine kept.next (keepsRecoveryRules_of_does known done ?_)
  rintro o rfl
  cases fits

theorem Network.Chronicle.rulesKept (chronicle : net.Chronicle allowed rest m) : m.RulesKept := by
  induction chronicle with
  | genesis => exact forall_mem_nil _
  | block _ _ ih => exact ih
  | step chronicle _ done ih =>
    exact ih.next (keepsRecoveryRules_of_does chronicle.known done nofun)
  | transaction chronicle _ admitted performs ih =>
    have sameTime := admitted.sameTime nofun
    have fresh := chronicle.fresh_of_transaction
    exact rulesKept_of_operations performs (chronicle.known.next admitted sameTime.ge) (fresh.next admitted sameTime)
      (ih.next (keepsRecoveryRules_of_does chronicle.known admitted nofun))
  | expire chronicle _ _ performs ih =>
    exact rulesKept_of_execution performs chronicle.known ih
  | drop chronicle _ _ done ih =>
    exact ih.next (keepsRecoveryRules_of_does chronicle.known done nofun)
  | cleared _ _ ih => exact ih

/-- Every state of every chain has a history, and in every history accounts are recovered only as
their partner requested and with an authority they had in the last 30 days, and partners change only as
was requested 30 days before and not taken back. -/
theorem recovery_rules_kept {s : Database} (reachable : net.Reachable s) :
    (∃ past rest, net.Chronicle (fun _ _ => True) rest ⟨past, s⟩) ∧
      ∀ past rest, net.Chronicle (fun _ _ => True) rest ⟨past, s⟩ → Moment.RulesKept ⟨past, s⟩ := by
  exact ⟨reachable.chronicled, fun _ _ chronicle => chronicle.rulesKept⟩

/-- Bob was recovered after he lost his account, and Bob became the partner of Alice. -/
theorem recovery_rules_kept_inUse : (∃ tr ∈ (usedFor 68).transitions, ∃ o, tr.deed = .evaluated (.recoverAccount o) ∧
      o.accountToRecover = .bob ∧ tr.before.MayRecover o) ∧
    ∃ tr ∈ (usedFor 68).transitions, tr.before.MayChangePartner .alice .bob := by
  have kept := (recovery_rules_kept (usedFor_reachable 68)).2 _ _ (usedFor_chronicle 68)
  constructor
  · obtain ⟨tr, member, recovers⟩ := any_eq_true.mp usedFor_quiet.recovered
    split at recovers
    next o isDeed => exact ⟨tr, member, o, isDeed, of_decide_eq_true recovers, ((kept tr member).recovers o isDeed).1⟩
    next => cases recovers
  · obtain ⟨tr, member, changes⟩ := any_eq_true.mp usedFor_quiet.partner
    obtain ⟨before, after⟩ := of_decide_eq_true changes
    obtain ⟨a, found, isA⟩ := Option.map_eq_some_iff.mp before
    obtain ⟨a', found', isA'⟩ := Option.map_eq_some_iff.mp after
    have changed : a'.info.recoveryAccount ≠ a.info.recoveryAccount := by
      rw [isA, isA']
      decide
    exact ⟨tr, member, isA' ▸ (kept tr member).partners .alice a a' found found' changed⟩

end Rules

end Golos
