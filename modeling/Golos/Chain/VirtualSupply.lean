import Golos.Chain.Bandwidth
import Mathlib.Algebra.BigOperators.Group.Finset.Basic

/-! # The virtual supply

`virtual_supply` is what all tokens are worth in GOLOS.  A block computes it from the supplies before
its last steps.  One of these, the refund of escrows nobody ratified, touches balances of SBD and so may
pay interest on them; each payment adds its own rounded value.
-/

namespace Golos

open Stateful Database

set_option synthInstance.maxSize 1000000

variable {amount : Int} {names : Finset AccountName} {f : Balances → Balances}

/-! ## Values at the median -/

/-- The interest paid when a balance of SBD is touched. -/
def Balances.interest (b : Balances) (now : Time) (pays : Bool) (rate : Nat) : Int :=
  let seconds := (b.sbdSeconds + toUint128 b.sbdBalance * (now - b.sbdSecondsLastUpdate)) % 2 ^ 128
  if b.sbdSecondsLastUpdate ≠ now ∧ pays ∧ 0 < seconds ∧
      sbdInterestCompoundInterval < now - b.sbdLastInterestPayment then
    (seconds * rate % 2 ^ 128 / (secondsPerYear * 10000) % 2 ^ 64 : Nat)
  else 0

namespace Database

/-- What SBD are worth in GOLOS. -/
def sbdValue (s : Database) (amount : Int) : Except Error Int := do
  let value ← (Asset.sbd amount).mulPrice s.feed.currentMedianHistory
  validThat (value.symbol = steemSymbol) (.assertion "symbol == o.symbol")
  pure value.amount

/-- What `validate_invariants` demands of the virtual supply. -/
def VirtualSupplyExact (s : Database) : Prop :=
  s.sbdValue s.supply.currentSbdSupply = .ok (s.rates.virtualSupply - s.supply.currentSupply)

instance (s : Database) : Decidable s.VirtualSupplyExact :=
  decidable_of_iff ((s.sbdValue s.supply.currentSbdSupply).toOption =
    some (s.rates.virtualSupply - s.supply.currentSupply)) (by
      unfold VirtualSupplyExact
      cases s.sbdValue s.supply.currentSbdSupply <;> simp [Except.toOption])

/-- The same value, zero where there is none. -/
def worth (s : Database) (amount : Int) : Int :=
  match s.sbdValue amount with
  | .ok value => value
  | .error _ => 0

def balancesOf (s : Database) (name : AccountName) : Option Balances := (s.accounts.find? name).map (·.balances)

/-- From hardfork 19 on, the flag stops the interest on main balances. -/
def paysInterest (s : Database) : Bool := !s.hasHardfork 19 || !s.rates.isForcedMinPrice

/-- The interest an account is paid when its balance of SBD is touched. -/
def interestDue (s : Database) (name : AccountName) : Int :=
  (s.balancesOf name).elim 0 fun b => b.interest s.head.time s.paysInterest s.rates.sbdInterestRate

end Database

/-- The balance of SBD of each of these accounts is touched, and nothing else happens that touches the
supplies. -/
structure Charged (names : Finset AccountName) (s t : Database) : Prop where
  head : t.head = s.head
  feed : t.feed = s.feed
  hardforks : t.hardforks = s.hardforks
  supply : t.supply = { s.supply with
    currentSbdSupply := s.supply.currentSbdSupply + ∑ name ∈ names, s.interestDue name }
  rates : t.rates = { s.rates with
    virtualSupply := s.rates.virtualSupply + ∑ name ∈ names, s.worth (s.interestDue name) }
  due : ∀ name, t.interestDue name = if name ∈ names then 0 else s.interestDue name

abbrev balancesOnly : Footprint
  | .balances => true
  | _ => false

abbrev issueCells : Footprint
  | .supply | .rates => true
  | _ => false

section Values

variable {s t u : Database} {name : AccountName}

theorem Balances.interest_touched {b : Balances} {now : Time} {pays : Bool} {rate : Nat}
    (touched : b.sbdSecondsLastUpdate = now) : b.interest now pays rate = 0 :=
  if_neg fun due => due.1 touched

theorem Database.sbdValue_of_feed (feed : t.feed = s.feed) : t.sbdValue amount = s.sbdValue amount := by
  rw [sbdValue, feed]
  rfl

theorem Database.worth_of_feed (feed : t.feed = s.feed) : t.worth amount = s.worth amount := by
  rw [worth, sbdValue_of_feed feed]
  rfl

theorem mulDiv_zero {numerator r : Asset} {denominator : Int} (done : mulDiv 0 numerator denominator = .ok r) :
    r.amount = 0 := by
  rw [(mulDiv_eq_ok done).2.2]
  simp [toUint128]

theorem Database.worth_zero : s.worth 0 = 0 := by
  unfold worth
  cases value : s.sbdValue 0 with
  | error => rfl
  | ok v =>
    simp only [sbdValue, except_bind_eq_ok] at value
    obtain ⟨asset, priced, _, _, same⟩ := value
    cases same
    unfold Asset.mulPrice at priced
    split at priced
    · exact mulDiv_zero priced
    · split at priced
      · exact mulDiv_zero priced
      · cases priced

theorem Charged.refl : Charged ∅ s s :=
  ⟨rfl, rfl, rfl, by simp, by simp, by simp⟩

theorem Charged.trans {more : Finset AccountName} (first : Charged names s t) (second : Charged more t u) :
    Charged (names ∪ more) s u := by
  have value (name : AccountName) : t.worth (t.interestDue name) =
      if name ∈ names then 0 else s.worth (s.interestDue name) := by
    rw [worth_of_feed first.feed, first.due]
    split
    · exact worth_zero
    · rfl
  have split (f : AccountName → Int) :
      ∑ name ∈ names, f name + ∑ name ∈ more, (if name ∈ names then 0 else f name) = ∑ name ∈ names ∪ more, f name := by
    rw [← Finset.union_sdiff_self_eq_union, Finset.sum_union Finset.disjoint_sdiff, Finset.sdiff_eq_filter,
      Finset.sum_filter]
    refine congrArg _ (Finset.sum_congr rfl fun name _ => ?_)
    split <;> simp_all
  refine ⟨second.head.trans first.head, second.feed.trans first.feed, second.hardforks.trans first.hardforks, ?_,
    ?_, ?_⟩
  · rw [second.supply, first.supply]
    simp only [first.due]
    rw [add_assoc, split]
  · rw [second.rates, first.rates]
    simp only [value]
    rw [add_assoc, split]
  · intro name
    rw [second.due, first.due]
    split <;> split <;> simp_all

/-- The balances of one account are changed by `f`. -/
structure BalancesSet (name : AccountName) (f : Balances → Balances) (s t : Database) : Prop where
  others : Within balancesOnly s t
  balances : ∀ x, t.balancesOf x = if x = name then (s.balancesOf x).map f else s.balancesOf x

theorem modifyBalances_sets : Ensures s (modifyBalances name f) fun _ t => BalancesSet name f s t := by
  refine Ensures.mono (Ensures.framed (Within balancesOnly) (find?_updateAccount)) fun _ t updated => ?_
  refine ⟨updated.1, fun x => ?_⟩
  rw [balancesOf, updated.2 x]
  split
  · rw [Option.map_map, balancesOf, Option.map_map]
    rfl
  · rfl

theorem BalancesSet.trans {g : Balances → Balances} (first : BalancesSet name f s t)
    (second : BalancesSet name g t u) : BalancesSet name (g ∘ f) s u := by
  refine ⟨trans_of (Within balancesOnly) first.others second.others, fun x => ?_⟩
  rw [second.balances, first.balances]
  split
  · rw [Option.map_map]
  · rfl

theorem Within.balancesOf (within : Within issueCells s t) (x : AccountName) : t.balancesOf x = s.balancesOf x :=
  Store.find?_eq_of_view (within .balances rfl) x

theorem issueInterest_ensures {interest : Int} : Ensures s (issueInterest interest) fun _ t => Within issueCells s t ∧
      t.supply = { s.supply with currentSbdSupply := s.supply.currentSbdSupply + interest } ∧
      t.rates = { s.rates with virtualSupply := s.rates.virtualSupply + s.worth interest } := by
  refine Ensures.framed (Within issueCells) ?_
  simp only [issueInterest, times, addVirtualSupply, amountIn, modifySupply, modifyRates, ensures_steps]
  intro asset priced symbol
  have value : s.sbdValue interest = .ok asset.amount := by
    simp only [sbdValue, except_bind_eq_ok, validThat_eq_ok]
    exact ⟨asset, priced, (), symbol, rfl⟩
  have worth : s.worth interest = asset.amount := by
    rw [worth, value]
  exact ⟨trivial, by rw [worth]⟩

/-- What touches one account charges it, if it pays the interest that is due. -/
theorem charged_one (head : t.head = s.head) (feed : t.feed = s.feed) (hardforks : t.hardforks = s.hardforks)
    (supply : t.supply = { s.supply with currentSbdSupply := s.supply.currentSbdSupply + s.interestDue name })
    (rates : t.rates = { s.rates with virtualSupply := s.rates.virtualSupply + s.worth (s.interestDue name) })
    (others : ∀ x, x ≠ name → t.balancesOf x = s.balancesOf x)
    (touched : ∀ b, t.balancesOf name = some b → b.sbdSecondsLastUpdate = s.head.time) : Charged {name} s t := by
  refine ⟨head, feed, hardforks, by rw [supply, Finset.sum_singleton], by rw [rates, Finset.sum_singleton], fun x => ?_⟩
  have pays : t.paysInterest = s.paysInterest := by
    rw [paysInterest, hasHardfork, hardforks, rates]
    rfl
  simp only [Finset.mem_singleton]
  split
  next same =>
    subst same
    rw [interestDue]
    cases known : t.balancesOf x with
    | none => rfl
    | some b => exact Balances.interest_touched ((touched b known).trans (congrArg _ head.symm))
  next other =>
    rw [interestDue, others x other, head, pays, rates]
    rfl

theorem BalancesSet.charged (sets : BalancesSet name f s t) (nothing : s.interestDue name = 0)
    (touched : ∀ b, s.balancesOf name = some b → (f b).sbdSecondsLastUpdate = s.head.time) : Charged {name} s t := by
  refine charged_one (sets.others .head rfl) (sets.others .feed rfl) (sets.others .hardforks rfl)
    ((sets.others .supply rfl).trans ?_) ((sets.others .rates rfl).trans ?_) (fun x other => ?_) fun b known => ?_
  · rw [nothing, add_zero]
    rfl
  · rw [nothing, worth_zero, add_zero]
    rfl
  · rw [sets.balances, if_neg other]
  · rw [sets.balances, if_pos rfl] at known
    obtain ⟨b', known', rfl⟩ := Option.map_eq_some_iff.mp known
    exact touched b' known'

theorem adjustSbdBalance_charges {delta : Int} :
    Ensures s (adjustSbdBalance name delta) fun _ t => Charged {name} s t := by
  simp only [adjustSbdBalance, getAccount, ensures_steps]
  intro a found
  have known : s.balancesOf name = some a.balances := congrArg (Option.map _) found
  have due : s.interestDue name = a.balances.interest s.head.time s.paysInterest s.rates.sbdInterestRate := by
    rw [interestDue, known]
    rfl
  refine ensures_when.mpr ⟨fun touched => ?_, fun untouched => ?_⟩
  · rw [ensures_bind]
    refine Ensures.mono modifyBalances_sets fun _ t₁ counted => ?_
    refine ensures_when.mpr ⟨fun pays => ?_, fun no => ?_⟩
    · simp only [ensures_steps]
      intro interest share
      refine Ensures.mono modifyBalances_sets fun _ t₂ paid => ?_
      refine Ensures.mono issueInterest_ensures fun _ t₃ issued => ?_
      refine Ensures.mono modifyBalances_sets fun _ t₄ changed => ?_
      obtain ⟨within, supply, rates⟩ := issued
      have before := counted.trans paid
      have amount : interest = s.interestDue name := by
        rw [due, Balances.interest, if_pos ⟨touched, pays⟩]
        exact (toShare_eq_ok.mp share).2.symm
      have sameFeed : t₂.feed = s.feed := before.others .feed rfl
      have sameSupply : t₂.supply = s.supply := before.others .supply rfl
      have sameRates : t₂.rates = s.rates := before.others .rates rfl
      rw [sameSupply, amount] at supply
      rw [sameRates, worth_of_feed sameFeed, amount] at rates
      refine charged_one ?_ ?_ ?_ ((changed.others .supply rfl).trans supply) ((changed.others .rates rfl).trans rates)
        (fun x other => ?_) fun b known' => ?_
      · exact (changed.others .head rfl).trans ((within .head rfl).trans (before.others .head rfl))
      · exact (changed.others .feed rfl).trans ((within .feed rfl).trans sameFeed)
      · exact (changed.others .hardforks rfl).trans ((within .hardforks rfl).trans (before.others .hardforks rfl))
      · rw [changed.balances, if_neg other, within.balancesOf, before.balances, if_neg other]
      · rw [changed.balances, if_pos rfl, within.balancesOf, before.balances, if_pos rfl, known] at known'
        cases known'
        rfl
    · refine Ensures.mono modifyBalances_sets fun _ t₂ changed => ?_
      have sets := counted.trans changed
      have nothing : s.interestDue name = 0 := due.trans (if_neg fun both => no both.2)
      exact sets.charged nothing fun b known' => by
        cases known.symm.trans known'
        rfl
  · refine Ensures.mono modifyBalances_sets fun _ t changed => ?_
    have nothing : s.interestDue name = 0 := due.trans (if_neg fun both => untouched both.1)
    exact changed.charged nothing fun b known' => by
      cases known.symm.trans known'
      exact not_not.mp untouched

end Values

/-! ## Refunds -/

/-- Whether a refund of the escrow touches a balance of SBD. -/
def Escrow.holdsSbd (e : Escrow) : Bool :=
  e.steemBalance.symbol = sbdSymbol ∨ e.sbdBalance.symbol = sbdSymbol ∨ e.pendingFee.symbol = sbdSymbol

namespace Database

/-- The escrows that `expire_escrow_ratification` goes over. -/
def expiringEscrows (s : Database) : List ((AccountName × Nat) × Escrow) :=
  (s.escrows.entries.filter fun e => !e.2.isApproved ∧ e.2.ratificationDeadline ≤ s.head.time).insertionSort
    fun a b => a.2.ratificationDeadline ≤ b.2.ratificationDeadline

end Database

/-- The accounts whose balances of SBD the refunds touch. -/
def refunded (escrows : List ((AccountName × Nat) × Escrow)) : Finset AccountName :=
  ((escrows.filter fun e => e.2.holdsSbd).map fun e => e.1.1).toFinset

abbrev untouchedCells : Footprint
  | .head | .feed | .hardforks | .supply | .rates | .balances => false
  | _ => true

section Refunds

variable {s t : Database} {name : AccountName}

/-- Nothing happens that interest depends on. -/
theorem charged_empty (head : t.head = s.head) (feed : t.feed = s.feed) (hardforks : t.hardforks = s.hardforks)
    (supply : t.supply = s.supply) (rates : t.rates = s.rates)
    (interest : ∀ x now pays rate, (t.balancesOf x).elim 0 (fun b => b.interest now pays rate) =
      (s.balancesOf x).elim 0 fun b => b.interest now pays rate) : Charged ∅ s t := by
  refine ⟨head, feed, hardforks, supply.trans (by simp), rates.trans (by simp), fun x => ?_⟩
  have pays : t.paysInterest = s.paysInterest := by
    rw [paysInterest, hasHardfork, hardforks, rates]
    rfl
  rw [interestDue, interest, head, pays, rates]
  rfl

theorem charged_none (within : Within untouchedCells s t) : Charged ∅ s t := by
  have balances (x : AccountName) : t.balancesOf x = s.balancesOf x := Store.find?_eq_of_view (within .balances rfl) x
  refine charged_empty (within .head rfl) (within .feed rfl) (within .hardforks rfl) (within .supply rfl)
    (within .rates rfl) fun x now pays rate => ?_
  rw [balances]

/-- An amount in GOLOS is credited without interest. -/
theorem credit_charges :
    Ensures s (modifyBalances name fun b => { b with balance := b.balance + amount }) fun _ t => Charged ∅ s t := by
  refine Ensures.mono modifyBalances_sets fun _ t sets => ?_
  refine charged_empty (sets.others .head rfl) (sets.others .feed rfl) (sets.others .hardforks rfl)
    (sets.others .supply rfl) (sets.others .rates rfl) fun x now pays rate => ?_
  rw [sets.balances]
  split
  · cases s.balancesOf x <;> rfl
  · rfl

theorem adjustBalance_charges {delta : Asset} : Ensures s (adjustBalance name delta)
    fun _ t => Charged (if delta.symbol = sbdSymbol then {name} else ∅) s t := by
  unfold adjustBalance
  by_cases steem : delta.symbol = steemSymbol
  · have other : delta.symbol ≠ sbdSymbol := by
      rw [steem]
      decide
    rw [if_pos steem, if_neg other]
    simp only [getAccount, ensures_steps]
    exact fun _ _ => credit_charges
  · rw [if_neg steem]
    by_cases sbd : delta.symbol = sbdSymbol
    · rw [if_pos sbd, if_pos sbd]
      exact adjustSbdBalance_charges
    · rw [if_neg sbd]
      intro _ _ run
      cases run

theorem expireEscrow_charges {key : AccountName × Nat} {e : Escrow} : Ensures s (expireEscrow key e)
    fun _ t => Charged (if e.holdsSbd then {key.1} else ∅) s t := by
  simp only [expireEscrow, getAccount, ensures_steps]
  intro _ _
  refine Ensures.mono adjustBalance_charges fun _ t₁ first => ?_
  refine Ensures.mono adjustBalance_charges fun _ t₂ second => ?_
  refine Ensures.mono adjustBalance_charges fun _ t₃ third => ?_
  refine ensures_frame (Within untouchedCells) fun _ t₄ removed => ?_
  have all := ((first.trans second).trans third).trans (charged_none removed)
  convert all using 1
  unfold Escrow.holdsSbd
  by_cases h₁ : e.steemBalance.symbol = sbdSymbol <;> by_cases h₂ : e.sbdBalance.symbol = sbdSymbol <;>
    by_cases h₃ : e.pendingFee.symbol = sbdSymbol <;> simp [h₁, h₂, h₃]

theorem expireEscrows_charges {escrows : List ((AccountName × Nat) × Escrow)} :
    Ensures s (escrows.forM fun e => expireEscrow e.1 e.2) fun _ t => Charged (refunded escrows) s t := by
  induction escrows generalizing s with
  | nil => exact ensures_pure.mpr .refl
  | cons e rest ih =>
    rw [List.forM_eq_forM, List.forM_cons, ensures_bind]
    refine Ensures.mono expireEscrow_charges fun _ t first => ?_
    refine Ensures.mono ih fun _ u others => ?_
    convert first.trans others using 1
    unfold refunded
    cases holds : e.2.holdsSbd <;> simp [holds]

theorem expireEscrowRatification_charges : Ensures s expireEscrowRatification fun _ t =>
    Charged (refunded s.expiringEscrows) s t := by
  rw [expireEscrowRatification, ensures_bind, ensures_get]
  exact expireEscrows_charges

end Refunds

/-! ## The end of a block -/

/-- The supplies, and what they are worth, stay as they are. -/
structure SameSupplies (s t : Database) : Prop where
  currentSupply : t.supply.currentSupply = s.supply.currentSupply
  currentSbdSupply : t.supply.currentSbdSupply = s.supply.currentSbdSupply
  virtualSupply : t.rates.virtualSupply = s.rates.virtualSupply
  median : t.feed.currentMedianHistory = s.feed.currentMedianHistory

instance : Std.Refl SameSupplies := ⟨fun _ => ⟨rfl, rfl, rfl, rfl⟩⟩

instance : IsTrans Database SameSupplies :=
  ⟨fun _ _ _ first second => ⟨second.currentSupply.trans first.currentSupply,
    second.currentSbdSupply.trans first.currentSbdSupply, second.virtualSupply.trans first.virtualSupply,
    second.median.trans first.median⟩⟩

abbrev ratesOnly : Footprint
  | .rates => true
  | _ => false

abbrev outsideSupplies : Footprint
  | .supply | .rates | .feed => false
  | _ => true

section Blocks

variable {net : Network} {s t u : Database}

instance : Finer (Within outsideSupplies) SameSupplies := by
  refine ⟨fun s t within => ?_⟩
  have supply : t.supply = s.supply := within .supply rfl
  have rates : t.rates = s.rates := within .rates rfl
  have feed : t.feed = s.feed := within .feed rfl
  exact ⟨by rw [supply], by rw [supply], by rw [rates], by rw [feed]⟩

instance {magnitude : Int} : Preserves SameSupplies (performVestingShareSplit magnitude) := by
  have split : Preserves SameSupplies
      (modifySupply fun p => { p with totalVestingShares := p.totalVestingShares * magnitude }) :=
    preserves_modify fun _ => ⟨rfl, rfl, rfl, rfl⟩
  unfold performVestingShareSplit; infer_instance

instance {compromised : List AccountName} {key : PublicKey} :
    Preserves SameSupplies (applyHardfork16 compromised key) := by
  have shortened : Preserves SameSupplies
      (modifyFeed fun f => { f with priceHistory := f.priceHistory.drop (f.priceHistory.length - 12 * 7) }) :=
    preserves_modify fun _ => ⟨rfl, rfl, rfl, rfl⟩
  unfold applyHardfork16; infer_instance

instance {hardfork : Nat} : Preserves SameSupplies (net.rewrite hardfork) := by
  unfold Network.rewrite
  split <;> infer_instance

theorem SameSupplies.exact_iff (same : SameSupplies s t) : t.VirtualSupplyExact ↔ s.VirtualSupplyExact := by
  rw [VirtualSupplyExact, sbdValue, same.median, same.currentSbdSupply, same.virtualSupply,
    same.currentSupply]
  rfl

theorem updateVirtualSupply_exact (priced : s.feed.currentMedianHistory.isNull = false) :
    Ensures s updateVirtualSupply fun _ t => t.VirtualSupplyExact := by
  rw [updateVirtualSupply, ensures_bind, ensures_get]
  simp only [priced, times, amountIn, modifyRates, ensures_steps, Bool.false_eq_true, if_false]
  intro asset valued symbol
  have value : s.sbdValue s.supply.currentSbdSupply = .ok asset.amount := by
    simp only [sbdValue, except_bind_eq_ok, validThat_eq_ok]
    exact ⟨asset, valued, (), symbol, rfl⟩
  have computed : ({ s with rates := { s.rates with
      virtualSupply := s.supply.currentSupply + asset.amount } } : Database).VirtualSupplyExact := by
    rw [VirtualSupplyExact, add_sub_cancel_left]
    exact value
  refine ensures_when.mpr ⟨fun _ => ensures_modify.mpr ?_, fun _ => computed⟩
  exact computed

/-- What a block does until its escrows expire. -/
def stepsToEscrows (b : Block) : List BlockStep :=
  headerSteps b ++ (b.transactions.map .applyTransaction ++ (adoptionSteps b ++ (processingSteps b).take 16))

theorem blockSteps_escrows (b : Block) : blockSteps b = stepsToEscrows b ++
    [.expireEscrowRatification, .processDeclineVotingRights, .processHardforks, .processTransitToCyberway b] := by
  simp [blockSteps, stepsToEscrows, processingSteps]

theorem transit_before {step : BlockStep} (noOperations : step.appliesOperations = false)
    (run : step.run net s = .ok ((), t)) (outside : t.isTransitEnabled = false) : s.isTransitEnabled = false := by
  refine eq_false_of_ne_true fun enabled => ?_
  rw [(Does.stepped noOperations run).transit_kept enabled] at outside
  cases outside

theorem run_unlessTransit {m : Eval Unit} (outside : s.isTransitEnabled = false)
    (run : unlessTransit m s = .ok ((), t)) : m s = .ok ((), t) := by
  obtain ⟨_, _, read, rest⟩ := bind_eq_ok.mp run
  obtain ⟨rfl, rfl⟩ := get_eq_ok.mp read
  rwa [when, if_pos (by rw [outside]; rfl)] at rest

/-- Where the escrows expire, the virtual supply is exact. -/
theorem stepsToEscrows_exact {b : Block} (run : (stepsToEscrows b).forM (fun step => step.run net) s = .ok ((), u))
    (outside : u.isTransitEnabled = false) (priced : u.feed.currentMedianHistory.isNull = false) :
    u.VirtualSupplyExact := by
  have split : stepsToEscrows b = (headerSteps b ++ (b.transactions.map .applyTransaction ++
      (adoptionSteps b ++ (processingSteps b).take 14))) ++ [.updateVirtualSupply, .accountRecoveryProcessing] := by
    simp [stepsToEscrows, processingSteps]
  rw [split, List.forM_eq_forM, List.forM_append] at run
  simp only [List.forM_cons, bind_eq_ok] at run
  obtain ⟨_, v, _, _, w, updated, _, u, recovered, _, rfl⟩ := run
  have same : SameSupplies w u := by
    have frame : Preserves SameSupplies (BlockStep.accountRecoveryProcessing.run net) := by
      unfold BlockStep.run; infer_instance
    exact frame.after recovered
  have outside' := transit_before rfl updated (transit_before rfl recovered outside)
  have feed : w.feed = v.feed := by
    have frame : Touches ratesOnly (BlockStep.updateVirtualSupply.run net) := by
      unfold BlockStep.run; infer_instance
    exact frame.after updated .feed rfl
  have priced' : v.feed.currentMedianHistory.isNull = false := by
    rw [← feed, ← same.median]
    exact priced
  exact same.exact_iff.mpr (updateVirtualSupply_exact priced' _ _ (run_unlessTransit outside' updated))

theorem Charged.exact_iff (charged : Charged names u t) (exactly : u.VirtualSupplyExact) :
    t.VirtualSupplyExact ↔ u.sbdValue (u.supply.currentSbdSupply + ∑ name ∈ names, u.interestDue name) =
      .ok (u.worth u.supply.currentSbdSupply + ∑ name ∈ names, u.worth (u.interestDue name)) := by
  have worth : u.worth u.supply.currentSbdSupply = u.rates.virtualSupply - u.supply.currentSupply := by
    rw [worth, exactly]
  rw [VirtualSupplyExact, sbdValue_of_feed charged.feed, charged.supply, charged.rates, worth,
    sub_add_eq_add_sub]

/-- The virtual supply is exact at the end of a block exactly if the rounded values of the interest that is
paid while escrows expire add up; so it is if none is due. -/
theorem virtual_supply_exact_iff {b : Block} (applied : net.applyBlock b s = .ok ((), t)) :
    ∃ u, (stepsToEscrows b).forM (fun step => step.run net) s = .ok ((), u) ∧
      (t.isTransitEnabled = false → t.feed.currentMedianHistory.isNull = false → (t.VirtualSupplyExact ↔
          u.sbdValue (u.supply.currentSbdSupply + ∑ name ∈ refunded u.expiringEscrows, u.interestDue name) =
            .ok (u.worth u.supply.currentSbdSupply +
              ∑ name ∈ refunded u.expiringEscrows, u.worth (u.interestDue name))) ∧
        ((∀ name ∈ refunded u.expiringEscrows, u.interestDue name = 0) → t.VirtualSupplyExact)) := by
  rw [Network.applyBlock, blockSteps_escrows, List.forM_eq_forM, List.forM_append, bind_eq_ok] at applied
  obtain ⟨_, u, before, after⟩ := applied
  refine ⟨u, before, fun outside priced => ?_⟩
  simp only [List.forM_cons, bind_eq_ok] at after
  obtain ⟨_, v, expired, _, w, declined, _, x, upgraded, _, t, moved, _, rfl⟩ := after
  have outside' := transit_before rfl expired
    (transit_before rfl declined (transit_before rfl upgraded (transit_before rfl moved outside)))
  have charged := expireEscrowRatification_charges _ _ (run_unlessTransit outside' expired)
  have same : SameSupplies v t := by
    have decline : Preserves SameSupplies (BlockStep.processDeclineVotingRights.run net) := by
      unfold BlockStep.run; infer_instance
    have upgrade : Preserves SameSupplies (BlockStep.processHardforks.run net) := by
      unfold BlockStep.run; infer_instance
    have move : Preserves SameSupplies ((BlockStep.processTransitToCyberway b).run net) := by
      unfold BlockStep.run; infer_instance
    exact trans_of SameSupplies (decline.after declined)
      (trans_of SameSupplies (upgrade.after upgraded) (move.after moved))
  have priced' : u.feed.currentMedianHistory.isNull = false := by
    rw [← charged.feed, ← same.median]
    exact priced
  have isExact := stepsToEscrows_exact before outside' priced'
  have exactly := same.exact_iff.trans (charged.exact_iff isExact)
  refine ⟨exactly, fun absent => exactly.mpr ?_⟩
  have worth : u.worth u.supply.currentSbdSupply = u.rates.virtualSupply - u.supply.currentSupply := by
    rw [worth, isExact]
  rw [Finset.sum_eq_zero absent, Finset.sum_eq_zero fun name member => by rw [absent name member, worth_zero],
    add_zero, add_zero, worth]
  exact isExact

end Blocks

/-- An escrow nobody ratified is about to expire, and interest on the SBD of its sender is due.  Three SBD are
worth one GOLOS. -/
def beforeRefund : Database :=
  { bareAfter 1 with
    feed := { currentMedianHistory := ⟨.sbd 3, .steem 1⟩ }
    supply := { (bareAfter 1).supply with currentSbdSupply := 10 }
    rates := { (bareAfter 1).rates with
      virtualSupply := (bareAfter 1).supply.currentSupply + 3, sbdInterestRate := 10000 }
    accounts := (bareAfter 1).accounts.modify .initMiner fun a => { a with balances := { a.balances with
      sbdBalance := 5, sbdSeconds := 2 * secondsPerYear, sbdSecondsLastUpdate := (bareAfter 1).head.time } }
    escrows := Store.empty.insert (.initMiner, 1)
      { toAccount := .miners, agent := .null, ratificationDeadline := (bareAfter 1).head.time,
        escrowExpiration := (bareAfter 1).head.time, sbdBalance := .sbd 5, steemBalance := .steem 0,
        pendingFee := .sbd 0 } }

/-- The next block, in which it expires. -/
def afterRefund : Database := stateAfter (Network.bare.applyBlock beforeRefund.nextBlock) beforeRefund

theorem virtual_supply_exact_refund : ∃ u, (stepsToEscrows beforeRefund.nextBlock).forM
      (fun step => step.run Network.bare) beforeRefund = .ok ((), u) ∧
    ¬∀ name ∈ refunded u.expiringEscrows, u.interestDue name = 0 := by
  have applied : Network.bare.applyBlock beforeRefund.nextBlock beforeRefund = .ok ((), afterRefund) :=
    stateAfter_eq (by decide +kernel)
  obtain ⟨u, run, rule⟩ := virtual_supply_exact_iff applied
  have inexact : ¬afterRefund.VirtualSupplyExact := by decide +kernel
  exact ⟨u, run, fun none => inexact ((rule (by decide +kernel) (by decide +kernel)).2 none)⟩

/-- The interest of two SBD is worth nothing by itself, but with the ten SBD there were it makes one GOLOS. -/
theorem refund_breaks_virtual_supply :
    beforeRefund.VirtualSupplyExact ∧ (Network.bare.applyBlock beforeRefund.nextBlock beforeRefund).isOk = true ∧
      afterRefund.isTransitEnabled = false ∧ afterRefund.feed.currentMedianHistory.isNull = false ∧
      afterRefund.supply.currentSbdSupply = 12 ∧ ¬afterRefund.VirtualSupplyExact := by
  refine ⟨by decide +kernel, by decide +kernel, by decide +kernel, by decide +kernel, by decide +kernel, ?_⟩
  decide +kernel

end Golos
