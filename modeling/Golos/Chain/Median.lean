import Golos.Chain.Block
import Golos.Lib.Selection
import Mathlib.Data.Prod.Lex

/-! # The medians of the chain properties

`update_median_witness_props` goes over the properties one after the other.  For each it lets
`nth_element` rearrange the scheduled witnesses and copies from the one in the middle.  A
property is compared by itself, a window with the number of its items by what one item uses
up and then by the number, and the limits of the curation percent one after the other.

What `nth_element` may do is left open by the standard.  So the medians are a
relation here, `ComputesMedianProps`; `medianProps` is one of the results.
-/

namespace Golos

open Stateful Selection List

variable {param : ChainProperties → Int} {copy : ChainProperties → ChainProperties → ChainProperties}
  {window items : ChainProperties → Nat}

/-! ## The computation -/

/-- A call of `nth_element` and what is copied from the middle. -/
structure MedianCalc where
  key : ChainProperties → Int ×ₗ Int
  copy : ChainProperties → ChainProperties → ChainProperties

/-- `calc_median` -/
def calcMedian (param : ChainProperties → Int) (copy : ChainProperties → ChainProperties → ChainProperties) :
    MedianCalc :=
  ⟨fun p => toLex (param p, 0), copy⟩

/-- What one item uses up, and the number of items. -/
def batteryKey (window items : ChainProperties → Nat) (p : ChainProperties) : Int ×ₗ Int :=
  toLex ((window p / items p : Nat), (items p : Int))

/-- `calc_median_battery` -/
def calcMedianBattery (window items : ChainProperties → Nat)
    (copy : ChainProperties → ChainProperties → ChainProperties) : MedianCalc :=
  ⟨batteryKey window items, copy⟩

/-- `calc_median_min_max` -/
def calcMedianMinMax (min max : ChainProperties → Nat)
    (copy : ChainProperties → ChainProperties → ChainProperties) : MedianCalc :=
  ⟨fun p => toLex ((min p : Int), (max p : Int)), copy⟩

/-- The calls of `update_median_witness_props`, in their order. -/
def medianCalcs : List MedianCalc :=
  [ calcMedian (·.accountCreationFee) fun p m => { m with accountCreationFee := p.accountCreationFee },
    calcMedian (·.maximumBlockSize) fun p m => { m with maximumBlockSize := p.maximumBlockSize },
    calcMedian (·.sbdInterestRate) fun p m => { m with sbdInterestRate := p.sbdInterestRate },
    calcMedian (·.createAccountMinGolosFee) fun p m =>
      { m with createAccountMinGolosFee := p.createAccountMinGolosFee },
    calcMedian (·.createAccountMinDelegation) fun p m =>
      { m with createAccountMinDelegation := p.createAccountMinDelegation },
    calcMedian (·.createAccountDelegationTime) fun p m =>
      { m with createAccountDelegationTime := p.createAccountDelegationTime },
    calcMedian (·.minDelegation) fun p m => { m with minDelegation := p.minDelegation },
    calcMedian (·.auctionWindowSize) fun p m => { m with auctionWindowSize := p.auctionWindowSize },
    calcMedian (·.maxReferralInterestRate) fun p m =>
      { m with maxReferralInterestRate := p.maxReferralInterestRate },
    calcMedian (·.maxReferralTermSec) fun p m => { m with maxReferralTermSec := p.maxReferralTermSec },
    calcMedian (·.minReferralBreakFee) fun p m => { m with minReferralBreakFee := p.minReferralBreakFee },
    calcMedian (·.maxReferralBreakFee) fun p m => { m with maxReferralBreakFee := p.maxReferralBreakFee },
    calcMedianBattery (·.postsWindow) (·.postsPerWindow) fun p m =>
      { m with postsWindow := p.postsWindow, postsPerWindow := p.postsPerWindow },
    calcMedianBattery (·.commentsWindow) (·.commentsPerWindow) fun p m =>
      { m with commentsWindow := p.commentsWindow, commentsPerWindow := p.commentsPerWindow },
    calcMedianBattery (·.votesWindow) (·.votesPerWindow) fun p m =>
      { m with votesWindow := p.votesWindow, votesPerWindow := p.votesPerWindow },
    calcMedian (·.maxDelegatedVestingInterestRate) fun p m =>
      { m with maxDelegatedVestingInterestRate := p.maxDelegatedVestingInterestRate },
    calcMedian (·.customOpsBandwidthMultiplier) fun p m =>
      { m with customOpsBandwidthMultiplier := p.customOpsBandwidthMultiplier },
    calcMedianMinMax (·.minCurationPercent) (·.maxCurationPercent) fun p m =>
      { m with minCurationPercent := p.minCurationPercent, maxCurationPercent := p.maxCurationPercent },
    calcMedian (·.curationRewardCurve.toNat) fun p m => { m with curationRewardCurve := p.curationRewardCurve },
    calcMedian (fun p => if p.allowDistributeAuctionReward then 1 else 0) fun p m =>
      { m with allowDistributeAuctionReward := p.allowDistributeAuctionReward },
    calcMedian (fun p => if p.allowReturnAuctionRewardToFund then 1 else 0) fun p m =>
      { m with allowReturnAuctionRewardToFund := p.allowReturnAuctionRewardToFund } ]

/-- The calls one after the other.  Every one rearranges what the one before has left. -/
inductive MedianRun : List MedianCalc → List ChainProperties → ChainProperties → ChainProperties → Prop where
  | done {active : List ChainProperties} {props : ChainProperties} : MedianRun [] active props props
  | pick {c : MedianCalc} {calcs : List MedianCalc} {active active' : List ChainProperties}
    {p props result : ChainProperties} : NthElement c.key (active.length / 2) active active' →
      active'[active.length / 2]? = some p → MedianRun calcs active' (c.copy p props) result →
      MedianRun (c :: calcs) active props result

/-- What `update_median_witness_props` may make of the properties of the scheduled witnesses. -/
def ComputesMedianProps (active : List ChainProperties) (props : ChainProperties) : Prop :=
  MedianRun medianCalcs active {} props

/-! ## What is picked -/

section Picks

variable {calcs : List MedianCalc} {active active' : List ChainProperties} {props result : ChainProperties}

/-- The calls do not depend on each other: each picks from the same witnesses. -/
theorem medianRun_iff : MedianRun calcs active props result ↔
    ∃ picks, Forall₂ (fun c p => IsNth c.key (active.length / 2) active p) calcs picks ∧
      result = (calcs.zip picks).foldl (fun m e => e.1.copy e.2 m) props := by
  induction calcs generalizing active props with
  | nil =>
    refine ⟨fun run => ?_, fun picked => ?_⟩
    · cases run
      exact ⟨[], .nil, rfl⟩
    · obtain ⟨picks, picked, rfl⟩ := picked
      cases picked
      exact .done
  | cons c calcs ih =>
    refine ⟨fun run => ?_, fun picked => ?_⟩
    · cases run with
      | @pick _ _ _ active' p _ _ nth found rest =>
        obtain ⟨picks, others, rfl⟩ := ih.mp rest
        refine ⟨p :: picks, .cons (nth.isNth found) ?_, rfl⟩
        rw [nth.perm.length_eq] at others
        exact others.imp fun _ _ isNth => isNth.perm nth.perm
    · obtain ⟨picks, picked, rfl⟩ := picked
      cases picked with
      | @cons _ p _ picks isNth others =>
        obtain ⟨active', nth, found⟩ := isNth.nthElement
        refine .pick nth found (ih.mpr ⟨picks, ?_, rfl⟩)
        rw [nth.perm.length_eq]
        exact others.imp fun _ _ isNth => isNth.perm nth.perm.symm

end Picks

/-! ## Valid medians -/

/-- What `chain_properties_19::validate` asks. -/
structure ChainProperties.Valid (p : ChainProperties) : Prop where
  accountCreationFee : 1 ≤ p.accountCreationFee
  maximumBlockSize : minBlockSizeLimit ≤ p.maximumBlockSize
  sbdInterestRate : p.sbdInterestRate ≤ 10000
  createAccountMinGolosFee : 0 < p.createAccountMinGolosFee
  createAccountMinDelegation : 0 < p.createAccountMinDelegation
  minDelegation : 0 < p.minDelegation
  createAccountDelegationTime : 2592000 / 2 < p.createAccountDelegationTime
  maxReferralInterestRate : p.maxReferralInterestRate ≤ 10000
  maxReferralTermSec : p.maxReferralTermSec ≤ 31104000
  minReferralBreakFee : 0 ≤ p.minReferralBreakFee
  referralBreakFees : p.minReferralBreakFee ≤ p.maxReferralBreakFee
  maxReferralBreakFee : p.maxReferralBreakFee ≤ 100000
  postsWindow : 1 ≤ p.postsWindow ∧ p.postsWindow ≤ 32767
  postsPerWindow : 1 ≤ p.postsPerWindow ∧ p.postsPerWindow ≤ p.postsWindow
  commentsWindow : 1 ≤ p.commentsWindow ∧ p.commentsWindow ≤ 32767
  commentsPerWindow : 1 ≤ p.commentsPerWindow ∧ p.commentsPerWindow ≤ p.commentsWindow
  votesWindow : 1 ≤ p.votesWindow ∧ p.votesWindow ≤ 32767
  votesPerWindow : 1 ≤ p.votesPerWindow ∧ p.votesPerWindow ≤ p.votesWindow
  maxDelegatedVestingInterestRate : p.maxDelegatedVestingInterestRate ≤ 8000
  customOpsBandwidthMultiplier : 1 ≤ p.customOpsBandwidthMultiplier
  minCurationPercent : 2500 ≤ p.minCurationPercent ∧ p.minCurationPercent ≤ p.maxCurationPercent
  maxCurationPercent : p.minCurationPercent ≤ p.maxCurationPercent ∧ p.maxCurationPercent ≤ 10000
  curationRewardCurve : p.curationRewardCurve ≠ .detect
  auctionReward : p.allowReturnAuctionRewardToFund = true ∨ p.allowDistributeAuctionReward = true

theorem ChainProperties.validate_eq_ok {p : ChainProperties} : p.validate = .ok () ↔ p.Valid := by
  simp only [ChainProperties.validate, ChainProperties18.validate, ChainProperties17.validate, except_bind_eq_ok,
    validThat_eq_ok, exists_const]
  refine ⟨fun checks => ?_, fun valid => ?_⟩
  · obtain ⟨⟨⟨h₁, h₂, h₃⟩, h₄, h₅, h₆, h₇⟩, h₈, h₉, h₁₀, h₁₁, h₁₂, h₁₃, h₁₄, h₁₅, h₁₆, h₁₇, h₁₈, h₁₉, h₂₀, h₂₁, h₂₂,
      h₂₃,
      h₂₄⟩ := checks
    exact ⟨h₁, h₂, h₃, h₄, h₅, h₆, h₇, h₈, h₉, h₁₀, h₁₁, h₁₂, h₁₃, h₁₄, h₁₅, h₁₆, h₁₇, h₁₈, h₁₉, h₂₀, h₂₁, h₂₂, h₂₃,
      h₂₄⟩
  · cases valid
    tauto

section Valid

variable {active : List ChainProperties} {k : Nat} {p q : ChainProperties}

theorem isNth_of_calcMedian (isNth : IsNth (calcMedian param copy).key k active p) : IsNth param k active p :=
  isNth.congr fun _ _ => by simp [calcMedian, Prod.Lex.toLex_lt_toLex]

theorem isNth_of_flag {flag : ChainProperties → Bool}
    (isNth : IsNth (calcMedian (fun p => if flag p then 1 else 0) copy).key k active p) : IsNth flag k active p :=
  (isNth_of_calcMedian isNth).congr fun a b => by cases flag a <;> cases flag b <;> decide

/-- Medians of valid properties are valid: most properties come from one witness, the two fees are
picked in the same order, and one auction option is on for at least half of the witnesses. -/
theorem ChainProperties.Valid.median {props : ChainProperties} (computed : ComputesMedianProps active props)
    (valid : ∀ p ∈ active, p.Valid) : props.Valid := by
  obtain ⟨picks, picked, rfl⟩ := medianRun_iff.mp computed
  rw [medianCalcs] at picked
  obtain _ | ⟨isCreationFee, picked⟩ := picked
  obtain _ | ⟨isBlockSize, picked⟩ := picked
  obtain _ | ⟨isInterest, picked⟩ := picked
  obtain _ | ⟨isGolosFee, picked⟩ := picked
  obtain _ | ⟨isDelegation, picked⟩ := picked
  obtain _ | ⟨isDelegationTime, picked⟩ := picked
  obtain _ | ⟨isMinDelegation, picked⟩ := picked
  obtain _ | ⟨isAuction, picked⟩ := picked
  obtain _ | ⟨isReferralRate, picked⟩ := picked
  obtain _ | ⟨isReferralTerm, picked⟩ := picked
  obtain _ | ⟨isMinBreakFee, picked⟩ := picked
  obtain _ | ⟨isMaxBreakFee, picked⟩ := picked
  obtain _ | ⟨isPosts, picked⟩ := picked
  obtain _ | ⟨isComments, picked⟩ := picked
  obtain _ | ⟨isVotes, picked⟩ := picked
  obtain _ | ⟨isDelegatedRate, picked⟩ := picked
  obtain _ | ⟨isMultiplier, picked⟩ := picked
  obtain _ | ⟨isCuration, picked⟩ := picked
  obtain _ | ⟨isCurve, picked⟩ := picked
  obtain _ | ⟨isDistributes, picked⟩ := picked
  obtain _ | ⟨isReturns, picked⟩ := picked
  cases picked
  have breakFees := (isNth_of_calcMedian isMinBreakFee).key_le (isNth_of_calcMedian isMaxBreakFee)
    fun p member => (valid p member).referralBreakFees
  have auctionReward := (isNth_of_flag isReturns).or_of_forall (isNth_of_flag isDistributes)
    fun p member => (valid p member).auctionReward
  exact {
    accountCreationFee := (valid _ isCreationFee.mem).accountCreationFee
    maximumBlockSize := (valid _ isBlockSize.mem).maximumBlockSize
    sbdInterestRate := (valid _ isInterest.mem).sbdInterestRate
    createAccountMinGolosFee := (valid _ isGolosFee.mem).createAccountMinGolosFee
    createAccountMinDelegation := (valid _ isDelegation.mem).createAccountMinDelegation
    minDelegation := (valid _ isMinDelegation.mem).minDelegation
    createAccountDelegationTime := (valid _ isDelegationTime.mem).createAccountDelegationTime
    maxReferralInterestRate := (valid _ isReferralRate.mem).maxReferralInterestRate
    maxReferralTermSec := (valid _ isReferralTerm.mem).maxReferralTermSec
    minReferralBreakFee := (valid _ isMinBreakFee.mem).minReferralBreakFee
    referralBreakFees := breakFees
    maxReferralBreakFee := (valid _ isMaxBreakFee.mem).maxReferralBreakFee
    postsWindow := (valid _ isPosts.mem).postsWindow
    postsPerWindow := (valid _ isPosts.mem).postsPerWindow
    commentsWindow := (valid _ isComments.mem).commentsWindow
    commentsPerWindow := (valid _ isComments.mem).commentsPerWindow
    votesWindow := (valid _ isVotes.mem).votesWindow
    votesPerWindow := (valid _ isVotes.mem).votesPerWindow
    maxDelegatedVestingInterestRate := (valid _ isDelegatedRate.mem).maxDelegatedVestingInterestRate
    customOpsBandwidthMultiplier := (valid _ isMultiplier.mem).customOpsBandwidthMultiplier
    minCurationPercent := (valid _ isCuration.mem).minCurationPercent
    maxCurationPercent := (valid _ isCuration.mem).maxCurationPercent
    curationRewardCurve := (valid _ isCurve.mem).curationRewardCurve
    auctionReward := auctionReward }

end Valid

/-! ## The medians of the model -/

section Stable

variable {l : List ChainProperties} {active : List Witness}

/-- What a sort leaves in the middle is one of the medians. -/
theorem medianBy_isNth (nonempty : l ≠ []) (le : ChainProperties → ChainProperties → Bool)
    (key : ChainProperties → Int ×ₗ Int) (order : ∀ a b, le a b = true ↔ key a ≤ key b) :
    ∃ p, medianBy le l = some p ∧ IsNth key (l.length / 2) l p := by
  have total : Std.Total fun a b => le a b = true := ⟨fun a b => by
    rw [order, order]
    exact le_total _ _⟩
  have trans : IsTrans ChainProperties fun a b => le a b = true := ⟨fun a b c => by
    rw [order, order, order]
    exact le_trans⟩
  have perm : (l.insertionSort fun a b => le a b = true).Perm l := perm_insertionSort _ l
  have sorted : (l.insertionSort fun a b => le a b = true).Pairwise fun a b => key a ≤ key b :=
    (pairwise_insertionSort _ l).imp fun related => (order _ _).mp related
  have inside : l.length / 2 < (l.insertionSort fun a b => le a b = true).length := by
    rw [perm.length_eq]
    exact Nat.div_lt_self (length_pos_iff.mpr nonempty) (by decide)
  have found := getElem?_eq_getElem inside
  exact ⟨_, found, (nthElement_of_sorted perm sorted).isNth found⟩

theorem medianOf_isNth (nonempty : active ≠ []) {α : Type} (le : α → α → Bool) (rank : α → Int)
    (order : ∀ a b, le a b = true ↔ rank a ≤ rank b) (param : ChainProperties → α) (default : α) :
    ∃ p, medianOf le active param default = param p ∧
      IsNth (fun p => toLex (rank (param p), (0 : Int))) ((active.map (·.info.props)).length / 2)
        (active.map (·.info.props)) p := by
  obtain ⟨p, found, isNth⟩ := medianBy_isNth (l := active.map (·.info.props)) (by simpa using nonempty)
    (fun a b => le (param a) (param b)) (fun p => toLex (rank (param p), 0)) fun a b => by
      rw [order, Prod.Lex.toLex_le_toLex, le_iff_lt_or_eq]
      simp
  exact ⟨p, by simp [medianOf, found], isNth⟩

theorem lexMedian_isNth (nonempty : active ≠ []) (first second : ChainProperties → Nat) :
    ∃ p, medianBy (fun a b => first a < first b || (first a == first b && second a ≤ second b))
        (active.map (·.info.props)) = some p ∧
      IsNth (fun p => toLex ((first p : Int), (second p : Int))) ((active.map (·.info.props)).length / 2)
        (active.map (·.info.props)) p :=
  medianBy_isNth (by simpa using nonempty) _ _ fun a b => by
    simp only [Prod.Lex.toLex_le_toLex, Bool.or_eq_true, Bool.and_eq_true, beq_iff_eq, decide_eq_true_eq, Nat.cast_lt,
      Nat.cast_inj, Nat.cast_le]

theorem medianBattery_isNth (nonempty : active ≠ []) (window items : ChainProperties → Nat) :
    ∃ p, medianBattery active window items = (window p, items p) ∧
      IsNth (batteryKey window items) ((active.map (·.info.props)).length / 2) (active.map (·.info.props)) p := by
  obtain ⟨p, found, isNth⟩ := lexMedian_isNth nonempty (fun p => window p / items p) items
  exact ⟨p, by simp only [medianBattery, found, Option.elim_some], isNth⟩

theorem medianMinMax_isNth (nonempty : active ≠ []) (min max : ChainProperties → Nat) :
    ∃ p, medianMinMax active min max = (min p, max p) ∧
      IsNth (fun p => toLex ((min p : Int), (max p : Int))) ((active.map (·.info.props)).length / 2)
        (active.map (·.info.props)) p := by
  obtain ⟨p, found, isNth⟩ := lexMedian_isNth nonempty min max
  exact ⟨p, by simp only [medianMinMax, found, Option.elim_some], isNth⟩

/-- The medians the model takes are among those `update_median_witness_props` may compute. -/
theorem medianProps_computes (nonempty : active ≠ []) :
    ComputesMedianProps (active.map (·.info.props)) (medianProps active) := by
  have nat := medianOf_isNth nonempty (fun a b : Nat => a ≤ b) (fun a => (a : Int)) fun a b => by simp
  have int := medianOf_isNth nonempty (fun a b : Int => a ≤ b) id fun a b => by simp
  have flag := medianOf_isNth nonempty (fun a b : Bool => a ≤ b) (fun a => if a then 1 else 0) fun a b => by
    cases a <;> cases b <;> decide
  have curve := medianOf_isNth nonempty (fun a b : CurationCurve => a.toNat ≤ b.toNat) (fun a => (a.toNat : Int))
    fun a b => by simp
  obtain ⟨creationFee, creationFeeEq, isCreationFee⟩ := int (·.accountCreationFee) 0
  obtain ⟨blockSize, blockSizeEq, isBlockSize⟩ := nat (·.maximumBlockSize) 0
  obtain ⟨interest, interestEq, isInterest⟩ := nat (·.sbdInterestRate) 0
  obtain ⟨golosFee, golosFeeEq, isGolosFee⟩ := int (·.createAccountMinGolosFee) 0
  obtain ⟨delegation, delegationEq, isDelegation⟩ := int (·.createAccountMinDelegation) 0
  obtain ⟨delegationTime, delegationTimeEq, isDelegationTime⟩ := nat (·.createAccountDelegationTime) 0
  obtain ⟨minDelegation, minDelegationEq, isMinDelegation⟩ := int (·.minDelegation) 0
  obtain ⟨auction, auctionEq, isAuction⟩ := nat (·.auctionWindowSize) 0
  obtain ⟨referralRate, referralRateEq, isReferralRate⟩ := nat (·.maxReferralInterestRate) 0
  obtain ⟨referralTerm, referralTermEq, isReferralTerm⟩ := nat (·.maxReferralTermSec) 0
  obtain ⟨minBreakFee, minBreakFeeEq, isMinBreakFee⟩ := int (·.minReferralBreakFee) 0
  obtain ⟨maxBreakFee, maxBreakFeeEq, isMaxBreakFee⟩ := int (·.maxReferralBreakFee) 0
  obtain ⟨posts, postsEq, isPosts⟩ := medianBattery_isNth nonempty (·.postsWindow) (·.postsPerWindow)
  obtain ⟨comments, commentsEq, isComments⟩ := medianBattery_isNth nonempty (·.commentsWindow) (·.commentsPerWindow)
  obtain ⟨votes, votesEq, isVotes⟩ := medianBattery_isNth nonempty (·.votesWindow) (·.votesPerWindow)
  obtain ⟨delegatedRate, delegatedRateEq, isDelegatedRate⟩ := nat (·.maxDelegatedVestingInterestRate) 0
  obtain ⟨multiplier, multiplierEq, isMultiplier⟩ := nat (·.customOpsBandwidthMultiplier) 0
  obtain ⟨curation, curationEq, isCuration⟩ := medianMinMax_isNth nonempty (·.minCurationPercent) (·.maxCurationPercent)
  obtain ⟨curveOf, curveOfEq, isCurveOf⟩ := curve (·.curationRewardCurve) .detect
  obtain ⟨distributes, distributesEq, isDistributes⟩ := flag (·.allowDistributeAuctionReward) false
  obtain ⟨returns, returnsEq, isReturns⟩ := flag (·.allowReturnAuctionRewardToFund) false
  refine medianRun_iff.mpr ⟨[creationFee, blockSize, interest, golosFee, delegation, delegationTime, minDelegation,
    auction,
    referralRate, referralTerm, minBreakFee, maxBreakFee, posts, comments, votes, delegatedRate, multiplier, curation,
    curveOf, distributes, returns], ?_, ?_⟩
  · exact .cons isCreationFee <| .cons isBlockSize <| .cons isInterest <| .cons isGolosFee <| .cons isDelegation <|
      .cons isDelegationTime <| .cons isMinDelegation <| .cons isAuction <| .cons isReferralRate <|
      .cons isReferralTerm <| .cons isMinBreakFee <| .cons isMaxBreakFee <| .cons isPosts <| .cons isComments <|
      .cons isVotes <| .cons isDelegatedRate <| .cons isMultiplier <| .cons isCuration <| .cons isCurveOf <|
      .cons isDistributes <| .cons isReturns .nil
  · simp only [medianProps, creationFeeEq, blockSizeEq, interestEq, golosFeeEq, delegationEq, delegationTimeEq,
      minDelegationEq, auctionEq, referralRateEq, referralTermEq, minBreakFeeEq, maxBreakFeeEq, postsEq, commentsEq,
      votesEq, delegatedRateEq, multiplierEq, curationEq, curveOfEq, distributesEq, returnsEq]
    rfl

end Stable

/-- Whatever `nth_element` does, the medians of valid properties are valid. -/
theorem medianProps_valid {active : List Witness} (nonempty : active ≠ [])
    (valid : ∀ w ∈ active, w.info.props.validate = .ok ()) :
    ComputesMedianProps (active.map (·.info.props)) (medianProps active) ∧
      ∀ props, ComputesMedianProps (active.map (·.info.props)) props → props.validate = .ok () := by
  refine ⟨medianProps_computes nonempty, fun props computed => ?_⟩
  refine ChainProperties.validate_eq_ok.mpr (.median computed fun p member => ?_)
  obtain ⟨w, scheduled, rfl⟩ := mem_map.mp member
  exact ChainProperties.validate_eq_ok.mp (valid w scheduled)

/-- Three witnesses, whose windows, auctions and rates differ. -/
def threeVotes : List Witness :=
  [{},
   { info := { props := { allowReturnAuctionRewardToFund := false, votesWindow := 40, votesPerWindow := 7 } } },
   { info := { props := { votesWindow := 30, votesPerWindow := 4, postsWindow := 8, postsPerWindow := 3 } } }]

theorem medianProps_valid_threeVotes : (medianProps threeVotes).validate = .ok () ∧
    (medianProps threeVotes).votesWindow = 40 := by
  have valid : ∀ w ∈ threeVotes, w.info.props.validate = .ok () := by
    simp only [threeVotes, forall_mem_cons, not_mem_nil, false_imp_iff, implies_true, and_true]
    exact ⟨rfl, rfl, rfl⟩
  have few : threeVotes ≠ [] := by simp [threeVotes]
  exact ⟨(medianProps_valid few valid).2 _ (medianProps_valid few valid).1, by decide⟩

/-! ## When the medians are determined

The order of a window and its items does not look at the whole window: `3 / 2 = 2 / 2`.  Which
one is taken, when such windows meet in the middle, is up to `nth_element`.
-/

/-- What is copied does not depend on which of the medians is taken. -/
def MedianCalc.Decided (c : MedianCalc) (active : List ChainProperties) : Prop :=
  ∀ p q, IsNth c.key (active.length / 2) active p → IsNth c.key (active.length / 2) active q →
    ∀ m, c.copy p m = c.copy q m

/-- The medians of a window and its items have the same window. -/
def BatteryDecided (window items : ChainProperties → Nat) (active : List ChainProperties) : Prop :=
  ∀ p q, IsNth (batteryKey window items) (active.length / 2) active p →
    IsNth (batteryKey window items) (active.length / 2) active q → window p = window q

section Determined

variable {calcs : List MedianCalc} {active active' : List ChainProperties} {props result result' : ChainProperties}

theorem MedianRun.decided (decided : ∀ c ∈ calcs, c.Decided active) (perm : active'.Perm active)
    (run : MedianRun calcs active props result) (run' : MedianRun calcs active' props result') : result = result' := by
  obtain ⟨picks, picked, rfl⟩ := medianRun_iff.mp run
  obtain ⟨picks', picked', rfl⟩ := medianRun_iff.mp run'
  rw [perm.length_eq] at picked'
  clear run run'
  induction picked generalizing picks' props with
  | nil => rfl
  | @cons c p calcs picks isNth picked ih =>
    cases picked' with
    | @cons _ q _ picks' isNth' picked' =>
      simp only [zip_cons_cons, foldl_cons]
      rw [decided c mem_cons_self p q isNth (isNth'.perm perm)]
      exact ih (fun c member => decided c (mem_cons_of_mem _ member)) picks' picked'

theorem calcMedian_decided
    (copied : ∀ p q m, param p = param q → copy p m = copy q m) : (calcMedian param copy).Decided active :=
  fun p q isNth isNth' m => copied p q m ((isNth_of_calcMedian isNth).key_eq (isNth_of_calcMedian isNth'))

theorem calcMedianMinMax_decided {min max : ChainProperties → Nat}
    (copied : ∀ p q m, min p = min q → max p = max q → copy p m = copy q m) :
    (calcMedianMinMax min max copy).Decided active := by
  intro p q isNth isNth' m
  have same := isNth.key_eq isNth'
  simp only [calcMedianMinMax, toLex_inj, Prod.mk.injEq, Nat.cast_inj] at same
  exact copied p q m same.1 same.2

theorem calcMedianBattery_decided (decided : BatteryDecided window items active)
    (copied : ∀ p q m, window p = window q → items p = items q → copy p m = copy q m) :
    (calcMedianBattery window items copy).Decided active := by
  intro p q isNth isNth' m
  have same := isNth.key_eq isNth'
  simp only [calcMedianBattery, batteryKey, toLex_inj, Prod.mk.injEq, Nat.cast_inj] at same
  exact copied p q m (decided p q isNth isNth') same.2

theorem CurationCurve.toNat_injective : Function.Injective CurationCurve.toNat := by
  intro a b same
  cases a <;> cases b <;> first | rfl | exact absurd same (by decide)

theorem medianCalcs_decided (posts : BatteryDecided (·.postsWindow) (·.postsPerWindow) active)
    (comments : BatteryDecided (·.commentsWindow) (·.commentsPerWindow) active)
    (votes : BatteryDecided (·.votesWindow) (·.votesPerWindow) active) : ∀ c ∈ medianCalcs, c.Decided active := by
  have flag {f : ChainProperties → Bool} {p q : ChainProperties}
      (same : (if f p then 1 else 0 : Int) = if f q then 1 else 0) : f p = f q := by
    cases h : f p <;> cases h' : f q <;> simp_all
  simp only [medianCalcs, forall_mem_cons, not_mem_nil, false_imp_iff, implies_true, and_true]
  refine ⟨calcMedian_decided ?_, calcMedian_decided ?_, calcMedian_decided ?_, calcMedian_decided ?_,
    calcMedian_decided ?_, calcMedian_decided ?_, calcMedian_decided ?_, calcMedian_decided ?_, calcMedian_decided ?_,
    calcMedian_decided ?_, calcMedian_decided ?_, calcMedian_decided ?_, calcMedianBattery_decided posts ?_,
    calcMedianBattery_decided comments ?_, calcMedianBattery_decided votes ?_, calcMedian_decided ?_,
    calcMedian_decided ?_, calcMedianMinMax_decided ?_, calcMedian_decided ?_, calcMedian_decided ?_,
    calcMedian_decided ?_⟩
  all_goals
    intro p q m
    first
    | (intro same same'; rw [same, same'])
    | (intro same; rw [Nat.cast_inj.mp same])
    | (intro same; rw [CurationCurve.toNat_injective (Nat.cast_inj.mp same)])
    | (intro same; rw [flag same])
    | (intro same; rw [same])

end Determined

/-- The properties that come of a choice for every call. -/
def chosenProps (choice : MedianCalc → ChainProperties) : ChainProperties :=
  medianCalcs.foldl (fun m c => c.copy (choice c) m) {}

section Chosen

variable {active : List ChainProperties} {choice : MedianCalc → ChainProperties} {c : MedianCalc} {p : ChainProperties}

theorem computesMedianProps_chosen (isNth : ∀ c ∈ medianCalcs, IsNth c.key (active.length / 2) active (choice c)) :
    ComputesMedianProps active (chosenProps choice) := by
  refine medianRun_iff.mpr ⟨medianCalcs.map choice, ?_, ?_⟩
  · rw [forall₂_map_right_iff, forall₂_same]
    exact isNth
  · rw [chosenProps, zip_map_right, foldl_map, zip_eq_zipWith, zipWith_self, foldl_map]
    rfl

theorem exists_computesMedianProps (isNth : IsNth c.key (active.length / 2) active p) :
    ∃ choice : MedianCalc → ChainProperties, choice c = p ∧ ComputesMedianProps active (chosenProps choice) := by
  classical
  have inside : active.length / 2 < active.length :=
    Nat.div_lt_self (length_pos_of_mem isNth.mem) (by decide)
  have present (c : MedianCalc) : ∃ q, IsNth c.key (active.length / 2) active q := exists_isNth inside
  choose other others using present
  refine ⟨Function.update other c p, Function.update_self .., computesMedianProps_chosen fun c' _ => ?_⟩
  by_cases same : c' = c
  · rw [same, Function.update_self]
    exact isNth
  · rw [Function.update_of_ne same]
    exact others c'

theorem batteryDecided_of_determined
    (determined : ∀ props props', ComputesMedianProps active props → ComputesMedianProps active props' → props = props')
    (copy : ChainProperties → ChainProperties → ChainProperties)
    (chosen : ∀ choice, window (chosenProps choice) = window (choice (calcMedianBattery window items copy))) :
    BatteryDecided window items active := by
  intro p q isNth isNth'
  obtain ⟨choice, rfl, computed⟩ := exists_computesMedianProps (c := calcMedianBattery window items copy) isNth
  obtain ⟨choice', rfl, computed'⟩ := exists_computesMedianProps (c := calcMedianBattery window items copy) isNth'
  rw [← chosen, ← chosen, determined _ _ computed computed']

end Chosen

/-- The medians are determined by the scheduled witnesses exactly if the windows in the middle are. -/
theorem medianProps_determined_iff (active : List ChainProperties) :
    (∀ active' props props', active'.Perm active → ComputesMedianProps active props →
        ComputesMedianProps active' props' → props = props') ↔
      BatteryDecided (·.postsWindow) (·.postsPerWindow) active ∧
      BatteryDecided (·.commentsWindow) (·.commentsPerWindow) active ∧
      BatteryDecided (·.votesWindow) (·.votesPerWindow) active := by
  constructor
  · intro agree
    have determined := fun props props' => agree active props props' (.refl active)
    refine ⟨batteryDecided_of_determined determined
        (fun p m => { m with postsWindow := p.postsWindow, postsPerWindow := p.postsPerWindow }) fun choice => ?_,
      batteryDecided_of_determined determined
        (fun p m => { m with commentsWindow := p.commentsWindow, commentsPerWindow := p.commentsPerWindow })
        fun choice => ?_,
      batteryDecided_of_determined determined
        (fun p m => { m with votesWindow := p.votesWindow, votesPerWindow := p.votesPerWindow }) fun choice => ?_⟩
    all_goals
      simp only [chosenProps, medianCalcs, foldl_cons, foldl_nil, calcMedian, calcMedianMinMax,
        calcMedianBattery]
  · intro decided active' props props' perm computed computed'
    obtain ⟨posts, comments, votes⟩ := decided
    exact MedianRun.decided (medianCalcs_decided posts comments votes) perm computed computed'

/-- Two witnesses who allow two posts in three or in two seconds: either window can be the median. -/
theorem medianProps_not_determined :
    let p : ChainProperties := { postsWindow := 3, postsPerWindow := 2 }
    let q : ChainProperties := { postsWindow := 2, postsPerWindow := 2 }
    p.validate = .ok () ∧ q.validate = .ok () ∧ ∃ props props', ComputesMedianProps [p, q] props ∧
      ComputesMedianProps [p, q] props' ∧ props.postsWindow = 3 ∧ props'.postsWindow = 2 := by
  intro p q
  have same : ∀ c ∈ medianCalcs, c.key p = c.key q := by decide
  have computes {r : ChainProperties} (member : r ∈ [p, q]) : ComputesMedianProps [p, q] (chosenProps fun _ => r) := by
    refine computesMedianProps_chosen fun c listed => isNth_of_key_eq member (by decide) fun b other => ?_
    simp only [mem_cons, not_mem_nil, or_false] at member other
    obtain rfl | rfl := member <;> obtain rfl | rfl := other <;> simp [same c listed]
  exact ⟨rfl, rfl, _, _, computes (r := p) (by simp), computes (r := q) (by simp), rfl, rfl⟩

end Golos
