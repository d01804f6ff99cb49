import Golos.Chain.Clock
import Golos.Chain.Invariant
import Golos.Chain.Supply.Processing

/-! # The life of an escrow

An escrow is opened by its sender, approved or rejected by the receiver and the agent,
disputed, released in parts, or given back when it was not approved in time.  The rules
say when each of this is allowed, which payments it makes and what it leaves of the
escrow.  What follows from the rules alone for a whole life is proved first; then that
the evaluators and the block processing keep to the rules, so that the escrows of every
chain have such lives.
-/

namespace Golos

open Stateful Evaluator List Escrow

variable {left : Option Escrow} {e : Escrow} {event : EscrowEvent} {who name : AccountName}
  {escrows : Store EscrowKey Escrow} {amount : Asset} {t : Database} {f : Escrow → Escrow} {act : EscrowAct}
  {op : Operation} {step : BlockStep}

/-! ## Rules -/

abbrev EscrowKey := AccountName × Nat

/-- A call of `adjust_balance`. -/
abbrev Payment := AccountName × Asset

/-- What can happen to an open escrow. -/
inductive EscrowAct where
  | approve (o : EscrowApproveOperation)
  | dispute (o : EscrowDisputeOperation)
  | release (o : EscrowReleaseOperation)
  | expire

namespace Escrow

/-- The parties, as the rules need them: the agent is a third party. -/
structure Fresh (sender : AccountName) (e : Escrow) : Prop where
  thirdParty : e.agent ≠ sender ∧ e.agent ≠ e.toAccount
  notApproved : e.toApproved = false ∧ e.agentApproved = false
  notDisputed : e.disputed = false

/-- The escrow with one more approval. -/
def approvedBy (e : Escrow) (who : AccountName) : Escrow :=
  { e with
    toApproved := e.toApproved || who = e.toAccount
    agentApproved := e.agentApproved || who = e.agent }

/-- The fee is paid with the second approval. -/
def feePaid (e : Escrow) : Escrow :=
  if e.isApproved then { e with pendingFee := ⟨0, e.pendingFee.symbol⟩ } else e

def released (e : Escrow) (o : EscrowReleaseOperation) : Escrow :=
  { e with
    steemBalance := ⟨e.steemBalance.amount - o.steemAmount.amount, e.steemBalance.symbol⟩
    sbdBalance := ⟨e.sbdBalance.amount - o.sbdAmount.amount, e.sbdBalance.symbol⟩ }

def isEmpty (e : Escrow) : Bool := e.steemBalance.amount = 0 && e.sbdBalance.amount = 0

theorem isEmpty_iff : e.isEmpty = true ↔ e.steemBalance.amount = 0 ∧ e.sbdBalance.amount = 0 := by
  simp [isEmpty]

def refund (sender : AccountName) (e : Escrow) : List Payment :=
  [(sender, e.steemBalance), (sender, e.sbdBalance), (sender, e.pendingFee)]

/-- Who may do what at which time. -/
def Permits (sender : AccountName) (now : Time) (e : Escrow) : EscrowAct → Prop
  | .approve o =>
    now ≤ e.ratificationDeadline ∧
      (o.who = e.toAccount ∧ e.toApproved = false ∨ o.who = e.agent ∧ e.agentApproved = false)
  | .dispute o =>
    now < e.escrowExpiration ∧ e.isApproved ∧ e.disputed = false ∧ (o.who = sender ∨ o.who = e.toAccount)
  | .release o =>
    e.isApproved ∧ (o.receiver = sender ∨ o.receiver = e.toAccount) ∧
      o.steemAmount.symbol = e.steemBalance.symbol ∧ o.steemAmount.amount ≤ e.steemBalance.amount ∧
      o.sbdAmount.symbol = e.sbdBalance.symbol ∧ o.sbdAmount.amount ≤ e.sbdBalance.amount ∧
      if e.disputed then o.who = e.agent
      else (o.who = sender ∨ o.who = e.toAccount) ∧
        (now < e.escrowExpiration →
          o.who = sender ∧ o.receiver = e.toAccount ∨ o.who = e.toAccount ∧ o.receiver = sender)
  | .expire => e.isApproved = false ∧ e.ratificationDeadline ≤ now

/-- The payments that are made. -/
def payments (sender : AccountName) (e : Escrow) : EscrowAct → List Payment
  | .approve o =>
    if o.approve then if (e.approvedBy o.who).isApproved then [(e.agent, e.pendingFee)] else []
    else e.refund sender
  | .dispute _ => []
  | .release o => [(o.receiver, o.steemAmount), (o.receiver, o.sbdAmount)]
  | .expire => e.refund sender

/-- What is left of the escrow. -/
def result (e : Escrow) : EscrowAct → Option Escrow
  | .approve o => if o.approve then some (e.approvedBy o.who).feePaid else none
  | .dispute _ => some { e with disputed := true }
  | .release o => if (e.released o).isEmpty then none else some (e.released o)
  | .expire => none

end Escrow

/-! ## Lives -/

structure EscrowEvent where
  time : Time
  before : Escrow
  act : EscrowAct

/-- An escrow from its opening on: its terms, what happened to it, newest first, and what is left
of it. -/
inductive EscrowLife (sender : AccountName) (terms : Escrow) : List EscrowEvent → Option Escrow → Prop where
  | opened : EscrowLife sender terms [] (some terms)
  | next {past : List EscrowEvent} {e : Escrow} {now : Time} {act : EscrowAct} :
    EscrowLife sender terms past (some e) → e.Permits sender now act →
      EscrowLife sender terms (⟨now, e, act⟩ :: past) (e.result act)

def EscrowEvent.payments (sender : AccountName) (event : EscrowEvent) : List Payment :=
  event.before.payments sender event.act

/-- All payments made since the opening. -/
def paidOut (sender : AccountName) (events : List EscrowEvent) : List Payment :=
  events.flatMap fun event => event.payments sender

def paymentsLedger (payments : List Payment) : Ledger := (payments.map fun p => p.2.ledger).sum

/-- The account has approved. -/
def ApprovedIn (events : List EscrowEvent) (who : AccountName) : Prop :=
  ∃ event ∈ events, ∃ o, event.act = .approve o ∧ o.who = who ∧ o.approve = true

/-- Rejected, or not approved in time. -/
def EscrowEvent.GivesBack (event : EscrowEvent) : Prop :=
  event.act = .expire ∨ ∃ o, event.act = .approve o ∧ o.approve = false

/-- What holds for an escrow at every moment of its life. -/
structure EscrowLife.Faithful (sender : AccountName) (terms : Escrow) (events : List EscrowEvent)
    (left : Option Escrow) : Prop where
  /-- What was taken from the sender was paid out or is still held. -/
  accounted : paymentsLedger (paidOut sender events) + left.elim 0 ledger = terms.ledger
  /-- Without the approval of both, nothing is paid out but everything to the sender. -/
  notApproved : ¬(ApprovedIn events terms.toAccount ∧ ApprovedIn events terms.agent) →
    paidOut sender events = if left.isSome then [] else terms.refund sender
  /-- With the approval of both, the agent is paid the fee, once. -/
  approved : ApprovedIn events terms.toAccount → ApprovedIn events terms.agent →
    ((paidOut sender events).filter fun p => p.1 = terms.agent) = [(terms.agent, terms.pendingFee)]
  /-- All other payments go to the sender or to the receiver. -/
  parties : ∀ p ∈ paidOut sender events, p.1 = sender ∨ p.1 = terms.toAccount ∨ p = (terms.agent, terms.pendingFee)
  /-- Once both have approved, the escrow is not given back. -/
  binding : ∀ later event earlier, events = later ++ event :: earlier → event.GivesBack →
    ¬(ApprovedIn earlier terms.toAccount ∧ ApprovedIn earlier terms.agent)
  /-- Who releases what to whom. -/
  releases : ∀ event ∈ events, ∀ o, event.act = .release o →
    (o.receiver = sender ∨ o.receiver = terms.toAccount) ∧
      if event.before.disputed then o.who = terms.agent
      else event.time < terms.escrowExpiration →
        o.who = sender ∧ o.receiver = terms.toAccount ∨ o.who = terms.toAccount ∧ o.receiver = sender

section Lives

variable {sender : AccountName} {terms e : Escrow} {events : List EscrowEvent} {now : Time} {act : EscrowAct}

theorem paidOut_cons : paidOut sender (event :: events) = event.payments sender ++ paidOut sender events := rfl

theorem paymentsLedger_append {first second : List Payment} :
    paymentsLedger (first ++ second) = paymentsLedger first + paymentsLedger second := by
  simp [paymentsLedger]

/-- Only an approval adds to the approvals. -/
theorem approvedIn_cons : ApprovedIn (event :: events) who ↔
      (∃ o, event.act = .approve o ∧ o.who = who ∧ o.approve = true) ∨ ApprovedIn events who := by
  simp [ApprovedIn]

/-- What is known of an open escrow. -/
structure EscrowLife.Standing (sender : AccountName) (terms : Escrow) (events : List EscrowEvent) (e : Escrow) :
    Prop where
  toAccount : e.toAccount = terms.toAccount
  agent : e.agent = terms.agent
  expiration : e.escrowExpiration = terms.escrowExpiration
  toApproved : e.toApproved = true ↔ ApprovedIn events terms.toAccount
  agentApproved : e.agentApproved = true ↔ ApprovedIn events terms.agent
  untouched : e.isApproved = false →
    e.refund sender = terms.refund sender ∧ e.pendingFee = terms.pendingFee ∧ paidOut sender events = []
  feePaid : e.isApproved = true → e.pendingFee.amount = 0

theorem Escrow.isApproved_feePaid : e.feePaid.isApproved = e.isApproved := by
  unfold feePaid
  split <;> rfl

/-- An escrow that a party still has to approve is not approved. -/
theorem Escrow.Permits.notApproved {o : EscrowApproveOperation} (permitted : e.Permits sender now (.approve o)) :
    e.isApproved = false := by
  unfold isApproved
  obtain ⟨_, ⟨_, missing⟩ | ⟨_, missing⟩⟩ := permitted
  · rw [missing, Bool.false_and]
  · rw [missing, Bool.and_false]

namespace EscrowLife

theorem standing_opened (fresh : terms.Fresh sender) : Standing sender terms [] terms where
  toAccount := rfl
  agent := rfl
  expiration := rfl
  toApproved := by simp [fresh.notApproved.1, ApprovedIn]
  agentApproved := by simp [fresh.notApproved.2, ApprovedIn]
  untouched := fun _ => ⟨rfl, rfl, rfl⟩
  feePaid := fun approved => by simp [isApproved, fresh.notApproved.1] at approved

theorem standing_approve (standing : Standing sender terms events e) {o : EscrowApproveOperation}
    (permitted : e.Permits sender now (.approve o)) (given : o.approve = true) :
    Standing sender terms (⟨now, e, .approve o⟩ :: events) (e.approvedBy o.who).feePaid := by
  obtain ⟨refund, fee, nothing⟩ := standing.untouched permitted.notApproved
  have paid : paidOut sender (⟨now, e, .approve o⟩ :: events) =
      if (e.approvedBy o.who).isApproved then [(e.agent, e.pendingFee)] else [] := by
    rw [paidOut_cons, nothing, append_nil]
    simp [EscrowEvent.payments, payments, given]
  have added {who : AccountName} : ApprovedIn (⟨now, e, .approve o⟩ :: events) who ↔
      o.who = who ∨ ApprovedIn events who := by
    simp [approvedIn_cons, given]
  have flags : (e.approvedBy o.who).feePaid.toApproved = (e.toApproved || o.who = e.toAccount) ∧
      (e.approvedBy o.who).feePaid.agentApproved = (e.agentApproved || o.who = e.agent) := by
    unfold feePaid
    split <;> exact ⟨rfl, rfl⟩
  refine ⟨?_, ?_, ?_, ?_, ?_, fun isOpen => ?_, fun approved => ?_⟩
  · rw [← standing.toAccount]; unfold feePaid; split <;> rfl
  · rw [← standing.agent]; unfold feePaid; split <;> rfl
  · rw [← standing.expiration]; unfold feePaid; split <;> rfl
  · rw [flags.1, added, ← standing.toApproved, ← standing.toAccount]
    simp [or_comm]
  · rw [flags.2, added, ← standing.agentApproved, ← standing.agent]
    simp [or_comm]
  · rw [isApproved_feePaid] at isOpen
    rw [paid, isOpen, feePaid, isOpen]
    exact ⟨refund, fee, rfl⟩
  · rw [isApproved_feePaid] at approved
    rw [feePaid, if_pos approved]

/-- What happens to an approved escrow leaves its approvals and the rest of its terms alone. -/
theorem standing_kept {disputed : Bool} {steemBalance sbdBalance : Asset} (standing : Standing sender terms events e)
    (approved : e.isApproved = true) (other : ∀ o, act ≠ .approve o) :
    Standing sender terms (⟨now, e, act⟩ :: events) { e with disputed, steemBalance, sbdBalance } := by
  have same {who : AccountName} : ApprovedIn (⟨now, e, act⟩ :: events) who ↔ ApprovedIn events who := by
    simp [approvedIn_cons, other]
  refine ⟨standing.toAccount, standing.agent, standing.expiration, ?_, ?_, fun isOpen => ?_, standing.feePaid⟩
  · exact standing.toApproved.trans same.symm
  · exact standing.agentApproved.trans same.symm
  · cases approved.symm.trans isOpen

/-- Every open escrow has its standing. -/
theorem standing (fresh : terms.Fresh sender)
    (life : EscrowLife sender terms events left) : ∀ e, left = some e → Standing sender terms events e := by
  induction life with
  | opened =>
    rintro _ ⟨⟩
    exact standing_opened fresh
  | @next past e now act life permitted ih =>
    intro after same
    have before := ih e rfl
    cases act with
    | approve o =>
      rw [result] at same
      split at same
      · cases same
        exact standing_approve before permitted ‹_›
      · cases same
    | dispute o =>
      cases same
      exact standing_kept before permitted.2.1 nofun
    | release o =>
      rw [result] at same
      split at same
      · cases same
      · cases same
        exact standing_kept before permitted.1 nofun
    | expire => cases same

/-- A single act pays out what the escrow loses. -/
theorem ledger_result (standing : Standing sender terms events e) (permitted : e.Permits sender now act) :
    paymentsLedger (e.payments sender act) + (e.result act).elim 0 ledger = e.ledger := by
  have refund : paymentsLedger (e.refund sender) = e.ledger := by
    simp only [paymentsLedger, refund, ledger, map_cons, sum_cons]
    abel
  cases act with
  | approve o =>
    rw [payments, result]
    split
    · have kept : (e.approvedBy o.who).ledger = e.ledger := rfl
      rw [← kept, Option.elim_some, feePaid]
      split
      · simp only [paymentsLedger, ledger, Asset.ledger_zero, map_cons, map_nil, sum_cons,
          sum_nil, approvedBy]
        abel
      · simp [paymentsLedger]
    · rw [refund, Option.elim_none, add_zero]
  | dispute o =>
    have same : ({ e with disputed := true } : Escrow).ledger = e.ledger := rfl
    simp [payments, result, paymentsLedger, same]
  | release o =>
    obtain ⟨approved, _, steem, _, sbd, _, _⟩ := permitted
    have parts : paymentsLedger (e.payments sender (.release o)) + (e.released o).ledger = e.ledger := by
      simp only [paymentsLedger, payments, ledger, released, Asset.ledger_sub, Asset.ledger_congr steem,
        Asset.ledger_congr sbd, map_cons, map_nil, sum_cons, sum_nil]
      abel
    rw [← parts, result]
    congr 1
    split
    · -- an escrow is closed when both balances are empty; the fee was paid with the approval
      rename_i empty
      have fee : (e.released o).pendingFee.amount = 0 := standing.feePaid approved
      rw [Escrow.isEmpty_iff] at empty
      rw [Option.elim_none, ledger, Asset.ledger_eq_zero empty.1, Asset.ledger_eq_zero empty.2,
        Asset.ledger_eq_zero fee, add_zero, add_zero]
    · rfl
  | expire => rw [payments, result, refund, Option.elim_none, add_zero]

/-- Approvals by both are what the flags of an open escrow say. -/
theorem Standing.isApproved_iff (standing : Standing sender terms events e) :
    e.isApproved = true ↔ ApprovedIn events terms.toAccount ∧ ApprovedIn events terms.agent := by
  rw [isApproved, Bool.and_eq_true, standing.toApproved, standing.agentApproved]

/-- An escrow is given back only while an approval is missing. -/
theorem not_approved_of_givesBack (permitted : e.Permits sender now act)
    (givesBack : EscrowEvent.GivesBack ⟨now, e, act⟩) : e.isApproved = false := by
  obtain expired | ⟨o, same, _⟩ := givesBack
  · cases expired
    exact permitted.1
  · cases same
    exact permitted.notApproved

/-- The payments of a single act, by what it does to the approvals: an act gives the escrow back,
leaves it unapproved, completes the approval, or is one on an approved escrow. -/
theorem payments_cases (standing : Standing sender terms events e) (permitted : e.Permits sender now act) :
    (EscrowEvent.GivesBack ⟨now, e, act⟩ ∧ e.payments sender act = terms.refund sender ∧ e.result act = none) ∨
    (e.isApproved = false ∧ (∃ after, e.result act = some after ∧ after.isApproved = false) ∧
      e.payments sender act = []) ∨
    (e.isApproved = false ∧ (∃ after, e.result act = some after ∧ after.isApproved = true) ∧
      e.payments sender act = [(terms.agent, terms.pendingFee)]) ∨
    (e.isApproved = true ∧ ¬EscrowEvent.GivesBack ⟨now, e, act⟩ ∧ (∀ o, act ≠ .approve o) ∧
      ∀ p ∈ e.payments sender act, p.1 = sender ∨ p.1 = terms.toAccount) := by
  cases act with
  | approve o =>
    obtain ⟨refund, fee, _⟩ := standing.untouched permitted.notApproved
    cases given : o.approve with
    | false =>
      refine .inl ⟨.inr ⟨o, rfl, given⟩, ?_, ?_⟩
      · simp [payments, given, refund]
      · simp [result, given]
    | true =>
      have result : e.result (.approve o) = some (e.approvedBy o.who).feePaid := by simp [result, given]
      cases both : (e.approvedBy o.who).isApproved with
      | false =>
        refine .inr (.inl ⟨permitted.notApproved, ⟨_, result, ?_⟩, ?_⟩)
        · rw [isApproved_feePaid, both]
        · simp [payments, given, both]
      | true =>
        refine .inr (.inr (.inl ⟨permitted.notApproved, ⟨_, result, ?_⟩, ?_⟩))
        · rw [isApproved_feePaid, both]
        · simp [payments, given, both, fee, standing.agent]
  | dispute o =>
    refine .inr (.inr (.inr ⟨permitted.2.1, ?_, fun o => nofun, ?_⟩))
    · simp [EscrowEvent.GivesBack]
    · simp [payments]
  | release o =>
    refine .inr (.inr (.inr ⟨permitted.1, ?_, fun o => nofun, fun p member => ?_⟩))
    · simp [EscrowEvent.GivesBack]
    · have receiver : p.1 = o.receiver := by
        simp only [payments, mem_cons, not_mem_nil, or_false] at member
        obtain rfl | rfl := member <;> rfl
      rw [receiver, ← standing.toAccount]
      exact permitted.2.1
  | expire =>
    obtain ⟨refund, _, _⟩ := standing.untouched permitted.1
    exact .inl ⟨.inl rfl, refund, rfl⟩

/-- Acts that give the escrow back, and acts on an approved escrow, approve nothing. -/
theorem approvedIn_cons_of_not_approve (other : ∀ o, act = .approve o → o.approve = false) :
    ApprovedIn (⟨now, e, act⟩ :: events) who ↔ ApprovedIn events who := by
  rw [approvedIn_cons]
  refine or_iff_right ?_
  rintro ⟨o, same, _, given⟩
  rw [other o same] at given
  cases given

theorem faithful_opened : Faithful sender terms [] (some terms) where
  accounted := by simp [paidOut, paymentsLedger]
  notApproved := fun _ => rfl
  approved := fun ⟨_, member, _⟩ => absurd member (by simp)
  parties := fun _ member => absurd member (by simp [paidOut])
  binding := fun later event earlier same => by simp at same
  releases := fun _ member => absurd member (by simp)

section Next

variable (fresh : terms.Fresh sender) (life : EscrowLife sender terms events (some e))
  (permitted : e.Permits sender now act) (faithful : Faithful sender terms events (some e))

include fresh life permitted

theorem notApproved_next (missing : ¬(ApprovedIn (⟨now, e, act⟩ :: events) terms.toAccount ∧
      ApprovedIn (⟨now, e, act⟩ :: events) terms.agent)) :
    paidOut sender (⟨now, e, act⟩ :: events) = if (e.result act).isSome then [] else terms.refund sender := by
  have before := life.standing fresh e rfl
  have after := (life.next permitted).standing fresh
  rw [paidOut_cons, EscrowEvent.payments]
  obtain ⟨givesBack, payments, closed⟩ | ⟨pending, ⟨_, result, _⟩, payments⟩ | ⟨_, ⟨_, result, both⟩, _⟩ |
    ⟨approved, _, _, _⟩ := payments_cases before permitted
  · obtain ⟨_, _, nothing⟩ := before.untouched (not_approved_of_givesBack permitted givesBack)
    simp [payments, closed, nothing]
  · obtain ⟨_, _, nothing⟩ := before.untouched pending
    simp [payments, result, nothing]
  · exact absurd ((after _ result).isApproved_iff.mp both) missing
  · obtain ⟨byTo, byAgent⟩ := before.isApproved_iff.mp approved
    exact absurd ⟨approvedIn_cons.mpr (.inr byTo), approvedIn_cons.mpr (.inr byAgent)⟩ missing

include faithful

theorem approved_next (byTo : ApprovedIn (⟨now, e, act⟩ :: events) terms.toAccount)
    (byAgent : ApprovedIn (⟨now, e, act⟩ :: events) terms.agent) :
    ((paidOut sender (⟨now, e, act⟩ :: events)).filter fun p => p.1 = terms.agent) =
      [(terms.agent, terms.pendingFee)] := by
  have before := life.standing fresh e rfl
  have after := (life.next permitted).standing fresh
  rw [paidOut_cons, EscrowEvent.payments]
  obtain ⟨givesBack, _, closed⟩ | ⟨_, ⟨_, result, pending⟩, _⟩ | ⟨pending, _, payments⟩ |
    ⟨_, _, other, payments⟩ := payments_cases before permitted
  · have rejects : ∀ o, act = .approve o → o.approve = false := by
      rintro o rfl
      obtain expired | ⟨_, same, rejected⟩ := givesBack
      · cases expired
      · cases same
        exact rejected
    rw [approvedIn_cons_of_not_approve rejects] at byTo byAgent
    have approved := before.isApproved_iff.mpr ⟨byTo, byAgent⟩
    rw [not_approved_of_givesBack permitted givesBack] at approved
    cases approved
  · have approved := (after _ result).isApproved_iff.mpr ⟨byTo, byAgent⟩
    rw [pending] at approved
    cases approved
  · obtain ⟨_, _, nothing⟩ := before.untouched pending
    simp [payments, nothing]
  · have absent : ∀ o, act = .approve o → o.approve = false := fun o same => absurd same (other o)
    rw [approvedIn_cons_of_not_approve absent] at byTo byAgent
    rw [filter_append, faithful.approved byTo byAgent]
    have nothing : ((e.payments sender act).filter fun p => p.1 = terms.agent) = [] := by
      rw [filter_eq_nil_iff]
      intro p member toAgent
      obtain toSender | toReceiver := payments p member
      · exact fresh.thirdParty.1 ((of_decide_eq_true toAgent).symm.trans toSender)
      · exact fresh.thirdParty.2 ((of_decide_eq_true toAgent).symm.trans toReceiver)
    rw [nothing, nil_append]

theorem parties_next : ∀ p ∈ paidOut sender (⟨now, e, act⟩ :: events),
    p.1 = sender ∨ p.1 = terms.toAccount ∨ p = (terms.agent, terms.pendingFee) := by
  intro p member
  rw [paidOut_cons, EscrowEvent.payments, mem_append] at member
  cases member with
  | inr earlier => exact faithful.parties p earlier
  | inl recent =>
    obtain ⟨_, payments, _⟩ | ⟨_, _, payments⟩ | ⟨_, _, payments⟩ | ⟨_, _, _, payments⟩ :=
      payments_cases (life.standing fresh e rfl) permitted
    · rw [payments, refund] at recent
      simp only [mem_cons, not_mem_nil, or_false] at recent
      obtain rfl | rfl | rfl := recent <;> exact .inl rfl
    · simp [payments] at recent
    · rw [payments, mem_singleton] at recent
      exact .inr (.inr recent)
    · exact (payments p recent).imp_right .inl

/-- What happens next keeps faith. -/
theorem faithful_next : Faithful sender terms (⟨now, e, act⟩ :: events) (e.result act) where
  accounted := by
    have standing := life.standing fresh e rfl
    rw [paidOut_cons, paymentsLedger_append, EscrowEvent.payments, ← faithful.accounted, Option.elim_some,
      ← ledger_result standing permitted]
    abel
  notApproved := notApproved_next fresh life permitted
  approved := approved_next fresh life permitted faithful
  parties := parties_next fresh life permitted faithful
  binding := by
    intro later event earlier same givesBack approved
    cases later with
    | nil =>
      cases same
      have both := (life.standing fresh e rfl).isApproved_iff.mpr approved
      rw [not_approved_of_givesBack permitted givesBack] at both
      cases both
    | cons newest later =>
      cases same
      exact faithful.binding later event earlier rfl givesBack approved
  releases := by
    intro event member o same
    cases member with
    | tail _ earlier => exact faithful.releases event earlier o same
    | head =>
      cases same
      have standing := life.standing fresh e rfl
      obtain ⟨_, receiver, _, _, _, _, releaser⟩ := permitted
      rw [standing.toAccount, standing.agent, standing.expiration] at releaser
      refine ⟨standing.toAccount ▸ receiver, ?_⟩
      split
      · rwa [if_pos ‹_›] at releaser
      · rw [if_neg ‹_›] at releaser
        exact releaser.2

end Next

/-- An escrow keeps faith all its life. -/
theorem faithful (fresh : terms.Fresh sender) (life : EscrowLife sender terms events left) :
    Faithful sender terms events left := by
  induction life with
  | opened => exact faithful_opened
  | next life permitted ih => exact faithful_next fresh life permitted ih

end EscrowLife

end Lives

/-! ## Payments of the evaluators -/

/-- Between the two states the payments were made and nothing else changed but escrows.
`adjust_balance` does not look at escrows, so it does not matter which there were meanwhile. -/
def Pays (payments : List Payment) (s t : Database) : Prop :=
  ∃ escrows u, (payments.forM fun p => adjustBalance p.1 p.2) { s with escrows } = .ok ((), u) ∧
    t = { u with escrows := t.escrows }

/-- What a party asks of an escrow is validated first; what has to be given back is
selected by the loop of `expire_escrow_ratification`. -/
def EscrowAct.Asked (key : EscrowKey) (now : Time) (e : Escrow) : EscrowAct → Prop
  | .approve o => o.validate = .ok () ∧ (o.fromAccount, o.escrowId) = key
  | .dispute o => o.validate = .ok () ∧ (o.fromAccount, o.escrowId) = key
  | .release o => o.validate = .ok () ∧ (o.fromAccount, o.escrowId) = key
  | .expire => e.isApproved = false ∧ e.ratificationDeadline ≤ now

/-- The code that runs for an act. -/
def EscrowAct.run (key : EscrowKey) (e : Escrow) : EscrowAct → Eval Unit
  | .approve o => escrowApprove o
  | .dispute o => escrowDispute o
  | .release o => escrowRelease o
  | .expire => expireEscrow key e

/-- The escrow under a key becomes `left`, all others stay. -/
def Database.EscrowBecomes (s : Database) (key : EscrowKey) (left : Option Escrow) (t : Database) : Prop :=
  ∀ other, t.escrows.find? other = if other = key then left else s.escrows.find? other

/-- The code keeps to the rules. -/
structure EscrowAct.Obeys (key : EscrowKey) (e : Escrow) (act : EscrowAct) (s t : Database) : Prop where
  permitted : e.Permits key.1 s.head.time act
  pays : Pays (e.payments key.1 act) s t
  result : s.EscrowBecomes key (e.result act) t

section Evaluators

variable {s : Database} {key : EscrowKey} {e : Escrow} {sender : AccountName} {escrowId : Nat}

variable {o : EscrowApproveOperation} {t u : Database}

theorem pays_nil : Pays [] s { s with escrows } :=
  ⟨s.escrows, s, rfl, rfl⟩

theorem pays_of_run {payments : List Payment} {before after : Store EscrowKey Escrow} {u : Database}
    (run : (payments.forM fun p => adjustBalance p.1 p.2) { s with escrows := before } = .ok ((), u)) :
    Pays payments s { u with escrows := after } :=
  ⟨before, u, run, rfl⟩

theorem forM_cons_eq_ok {p : Payment} {rest : List Payment} (first : adjustBalance p.1 p.2 s = .ok ((), t))
    (others : (rest.forM fun p => adjustBalance p.1 p.2) t = .ok ((), u)) :
    ((p :: rest).forM fun p => adjustBalance p.1 p.2) s = .ok ((), u) :=
  bind_eq_ok.mpr ⟨(), t, first, others⟩

theorem escrows_of_adjustBalance (run : adjustBalance name amount s = .ok ((), t)) : t.escrows = s.escrows :=
  read_of_run keepsEscrows .escrows run rfl

theorem becomes_erase : s.EscrowBecomes key none { s with escrows := s.escrows.erase key } := by
  intro other
  exact Store.find?_erase

theorem becomes_modify (found : s.escrows.find? key = some e) :
    s.EscrowBecomes key (some (f e)) { s with escrows := s.escrows.modify key f } := by
  intro other
  rw [Store.find?_modify]
  split
  next same =>
    rw [same, found, Option.map_some]
  · rfl

theorem becomes_self (found : s.escrows.find? key = some e) : s.EscrowBecomes key (some e) s := by
  intro other
  split
  next same =>
    rw [same, found]
  · rfl

theorem becomes_trans {between left : Option Escrow} (first : s.EscrowBecomes key between t)
    (second : t.EscrowBecomes key left u) : s.EscrowBecomes key left u := by
  intro other
  rw [second other]
  split
  · rfl
  · rw [first other, if_neg ‹_›]

/-- The escrows are replaced after payments that left them alone. -/
theorem becomes_of_same (same : t.escrows = s.escrows)
    (becomes : t.EscrowBecomes key left u) : s.EscrowBecomes key left u := by
  intro other
  rw [becomes other, same]

/-- Everything is given back and the escrow is gone. -/
theorem refundEscrow_ensures (found : s.escrows.find? (sender, escrowId) = some e) :
    Ensures s (refundEscrow sender escrowId) fun _ t =>
      Pays (e.refund sender) s t ∧ s.EscrowBecomes (sender, escrowId) none t := by
  simp only [refundEscrow, getEscrow, fetch, getAccount, ensures_steps]
  intro e' found' _ _ _ t₁ run₁ _ t₂ run₂ _ t₃ run₃
  cases found.symm.trans found'
  have same : t₃.escrows = s.escrows := by
    rw [escrows_of_adjustBalance run₃, escrows_of_adjustBalance run₂, escrows_of_adjustBalance run₁]
  refine ensures_removeEscrow.mpr fun _ _ => ⟨?_, becomes_of_same same becomes_erase⟩
  exact pays_of_run (forM_cons_eq_ok run₁ (forM_cons_eq_ok run₂ (forM_cons_eq_ok run₃ rfl)))

theorem payEscrowAgent_ensures {agent : AccountName} (found : s.escrows.find? (sender, escrowId) = some e) :
    Ensures s (payEscrowAgent sender escrowId agent) fun _ t =>
      Pays (if e.isApproved then [(agent, e.pendingFee)] else []) s t ∧
        s.EscrowBecomes (sender, escrowId) (some e.feePaid) t := by
  simp only [payEscrowAgent, getEscrow, fetch, ensures_steps, ensures_when]
  intro e' found'
  cases found.symm.trans found'
  refine ⟨fun approved => ?_, fun pending => ?_⟩
  · simp only [getAccount, ensures_steps, ensures_changeEscrow]
    intro _ _ _ t run _ _
    have same := escrows_of_adjustBalance run
    rw [if_pos approved, feePaid, if_pos approved]
    refine ⟨pays_of_run (forM_cons_eq_ok run rfl), becomes_of_same same ?_⟩
    exact becomes_modify (escrow_kept run found)
  · rw [if_neg pending, feePaid, if_neg pending]
    exact ⟨pays_nil, becomes_self found⟩

theorem Pays.of_escrows {payments : List Payment}
    (paid : Pays payments { s with escrows } t) : Pays payments s t := paid

/-- The approval of a party is put on record, and only that. -/
theorem recordApproval_ensures {isParty : Prop} [Decidable isParty] {approved : Bool}
    {message : String} (found : s.escrows.find? (o.fromAccount, o.escrowId) = some e) :
    Ensures s (when isParty (recordApproval o approved message f)) fun _ t =>
      (isParty → approved = false) ∧ ∃ escrows, t = { s with escrows } ∧
        s.EscrowBecomes (o.fromAccount, o.escrowId) (some (if isParty ∧ o.approve then f e else e)) t := by
  simp only [recordApproval, ensures_steps, ensures_when, ensures_changeEscrow, Bool.not_eq_true']
  refine ⟨fun party first => ⟨fun given _ _ => ⟨fun _ => first, _, rfl, ?_⟩, fun refused =>
    ⟨fun _ => first, _, rfl, ?_⟩⟩, fun other => ⟨fun party => absurd party other, _, rfl, ?_⟩⟩
  · rw [if_pos ⟨party, given⟩]
    exact becomes_modify found
  · rw [if_neg fun both => refused both.2]
    exact becomes_self found
  · rw [if_neg fun both => other both.1]
    exact becomes_self found

theorem Database.EscrowBecomes.found (becomes : s.EscrowBecomes key left t) : t.escrows.find? key = left := by
  rw [becomes key, if_pos rfl]

theorem EscrowApproveOperation.party_of_validate (valid : o.validate = .ok ()) :
    o.who = o.toAccount ∨ o.who = o.agent := by
  simp only [validate, except_bind_eq_ok, validThat_eq_ok] at valid
  obtain ⟨_, _, _, _, _, _, _, _, party⟩ := valid
  exact party

/-- The two records of an approval together: whoever approved has approved. -/
theorem Escrow.approvedBy_of_given (given : o.approve = true) : (if o.who = e.agent ∧ o.approve then
        { (if o.who = e.toAccount ∧ o.approve then { e with toApproved := true } else e) with agentApproved := true }
      else if o.who = e.toAccount ∧ o.approve then { e with toApproved := true } else e) =
      e.approvedBy o.who := by
  by_cases byTo : o.who = e.toAccount
  · by_cases byAgent : o.who = e.agent
    · simp [given, approvedBy, eq_true byTo, eq_true byAgent]
    · simp [given, approvedBy, eq_true byTo, eq_false byAgent]
  · by_cases byAgent : o.who = e.agent
    · simp [given, approvedBy, eq_false byTo, eq_true byAgent]
    · simp [approvedBy, eq_false byTo, eq_false byAgent]

/-- `escrow_approve_evaluator` keeps to the rules. -/
theorem escrowApprove_obeys (valid : o.validate = .ok ())
    (found : s.escrows.find? (o.fromAccount, o.escrowId) = some e) : Ensures s (escrowApprove o) fun _ t =>
      (EscrowAct.approve o).Obeys (o.fromAccount, o.escrowId) e s t := by
  simp only [escrowApprove, getEscrow, fetch, ensures_steps]
  intro e' found' toAccount agent inTime
  cases found.symm.trans found'
  rw [← toAccount, ← agent]
  refine (recordApproval_ensures found).mono ?_
  rintro _ _ ⟨toFirst, escrows₁, rfl, becomes₁⟩
  refine (recordApproval_ensures becomes₁.found).mono ?_
  rintro _ _ ⟨agentFirst, escrows₂, rfl, becomes₂⟩
  have recorded := becomes_trans becomes₁ becomes₂
  have permitted : e.Permits o.fromAccount s.head.time (.approve o) := by
    refine ⟨inTime, ?_⟩
    obtain party | party := EscrowApproveOperation.party_of_validate valid
    · rw [← toAccount] at party
      exact .inl ⟨party, toFirst party⟩
    · rw [← agent] at party
      exact .inr ⟨party, agentFirst party⟩
  refine ensures_ite.mpr ⟨fun given => ?_, fun refused => ?_⟩
  · rw [approvedBy_of_given given] at recorded
    refine (payEscrowAgent_ensures recorded.found).mono fun _ t paid => ⟨permitted, ?_, ?_⟩
    · rw [payments, if_pos given]
      exact paid.1.of_escrows
    · rw [result, if_pos given]
      exact becomes_trans recorded paid.2
  · rw [if_neg fun both => refused both.2, if_neg fun both => refused both.2] at recorded
    refine (refundEscrow_ensures recorded.found).mono fun _ t paid => ⟨permitted, ?_, ?_⟩
    · rw [payments, if_neg refused]
      exact paid.1.of_escrows
    · rw [result, if_neg refused]
      exact becomes_trans recorded paid.2

theorem EscrowDisputeOperation.party_of_validate {o : EscrowDisputeOperation} (valid : o.validate = .ok ()) :
    o.who = o.fromAccount ∨ o.who = o.toAccount := by
  simp only [validate, except_bind_eq_ok, validThat_eq_ok] at valid
  obtain ⟨_, _, _, _, _, _, _, _, party⟩ := valid
  exact party

/-- `escrow_dispute_evaluator` keeps to the rules. -/
theorem escrowDispute_obeys {o : EscrowDisputeOperation} (valid : o.validate = .ok ())
    (found : s.escrows.find? (o.fromAccount, o.escrowId) = some e) : Ensures s (escrowDispute o) fun _ t =>
      (EscrowAct.dispute o).Obeys (o.fromAccount, o.escrowId) e s t := by
  simp only [escrowDispute, getAccount, getEscrow, fetch, ensures_steps,
    ensures_changeEscrow, Bool.not_eq_true']
  intro _ _ e' found' inTime approved undisputed toAccount _ _ _
  cases found.symm.trans found'
  refine ⟨⟨inTime, approved, undisputed, ?_⟩, pays_nil, becomes_modify found⟩
  rw [toAccount]
  exact EscrowDisputeOperation.party_of_validate valid

/-- Who releases, by `checkEscrowRelease`. -/
theorem checkEscrowRelease_ensures {o : EscrowReleaseOperation} {now : Time} :
    Ensures s (checkEscrowRelease o e now) fun _ t => s = t ∧ if e.disputed then o.who = e.agent
      else (o.who = o.fromAccount ∨ o.who = e.toAccount) ∧
        (now < e.escrowExpiration → o.who = o.fromAccount ∧ o.receiver = e.toAccount ∨
          o.who = e.toAccount ∧ o.receiver = o.fromAccount) := by
  unfold checkEscrowRelease
  cases e.disputed with
  | true => simp
  | false =>
    simp only [Bool.false_eq_true, if_false, ensures_steps, ensures_when, ensures_ite, true_and]
    intro party
    refine ⟨fun _ => ⟨fun bySender toReceiver => ⟨party, fun _ => .inl ⟨bySender, toReceiver⟩⟩, fun other =>
      ⟨fun byReceiver toSender => ⟨party, fun _ => .inr ⟨byReceiver, toSender⟩⟩, fun neither => ?_⟩⟩,
      fun late => ⟨party, fun early => absurd early late⟩⟩
    exact (party.elim other neither).elim

/-- `escrow_release_evaluator` keeps to the rules. -/
theorem escrowRelease_obeys {o : EscrowReleaseOperation}
    (found : s.escrows.find? (o.fromAccount, o.escrowId) = some e) : Ensures s (escrowRelease o) fun _ t =>
      (EscrowAct.release o).Obeys (o.fromAccount, o.escrowId) e s t := by
  simp only [escrowRelease, getAccount, getEscrow, fetch, amountIn, ensures_steps]
  intro _ _ _ _ e' found' steem steemEnough sbd sbdEnough toAccount _ receiver approved
  cases found.symm.trans found'
  refine checkEscrowRelease_ensures.mono ?_
  rintro _ _ ⟨rfl, releaser⟩ _ t₁ run₁ _ t₂ run₂
  have same : t₂.escrows = s.escrows := by
    rw [escrows_of_adjustBalance run₂, escrows_of_adjustBalance run₁]
  have there : t₂.escrows.find? (o.fromAccount, o.escrowId) = some e := by rw [same, found]
  have permitted : e.Permits o.fromAccount s.head.time (.release o) :=
    ⟨approved, receiver, steem, steemEnough, sbd, sbdEnough, releaser⟩
  have becomes : s.EscrowBecomes (o.fromAccount, o.escrowId) (some (e.released o))
      { t₂ with escrows := t₂.escrows.modify (o.fromAccount, o.escrowId) fun e => e.released o } :=
    becomes_of_same same (becomes_modify there)
  have runs : (e.payments o.fromAccount (.release o)).forM (fun p => adjustBalance p.1 p.2) s = .ok ((), t₂) :=
    forM_cons_eq_ok run₁ (forM_cons_eq_ok run₂ rfl)
  simp only [ensures_changeEscrow, ensures_when, ensures_removeEscrow]
  refine fun _ _ => ⟨fun empty _ _ => ⟨permitted, pays_of_run runs, ?_⟩, fun rest =>
    ⟨permitted, pays_of_run runs, ?_⟩⟩
  · rw [result, if_pos (isEmpty_iff.mpr empty)]
    exact becomes_trans becomes becomes_erase
  · rw [Escrow.result, if_neg (mt Escrow.isEmpty_iff.mp rest)]
    exact becomes

/-- The body of `expire_escrow_ratification` keeps to the rules. -/
theorem expireEscrow_obeys (due : e.isApproved = false ∧ e.ratificationDeadline ≤ s.head.time) :
    Ensures s (expireEscrow key e) fun _ t => EscrowAct.expire.Obeys key e s t := by
  simp only [expireEscrow, getAccount, remove, fetch, updateEscrows, ensures_steps]
  intro _ _ _ t₁ run₁ _ t₂ run₂ _ t₃ run₃ _ _
  have same : t₃.escrows = s.escrows := by
    rw [escrows_of_adjustBalance run₃, escrows_of_adjustBalance run₂, escrows_of_adjustBalance run₁]
  refine ⟨due, ?_, becomes_of_same same becomes_erase⟩
  exact pays_of_run (forM_cons_eq_ok run₁ (forM_cons_eq_ok run₂ (forM_cons_eq_ok run₃ rfl)))

/-- Whatever happens to an escrow, the code keeps to the rules. -/
theorem EscrowAct.run_obeys (found : s.escrows.find? key = some e)
    (asked : act.Asked key s.head.time e) : Ensures s (act.run key e) fun _ t => act.Obeys key e s t := by
  cases act with
  | approve o =>
    obtain ⟨valid, rfl⟩ := asked
    exact escrowApprove_obeys valid found
  | dispute o =>
    obtain ⟨valid, rfl⟩ := asked
    exact escrowDispute_obeys valid found
  | release o =>
    obtain ⟨_, rfl⟩ := asked
    exact escrowRelease_obeys found
  | expire => exact expireEscrow_obeys asked

/-! ### Opening -/

/-- The escrow an operation asks for. -/
def EscrowTransferOperation.terms (o : EscrowTransferOperation) : Escrow where
  toAccount := o.toAccount
  agent := o.agent
  ratificationDeadline := o.ratificationDeadline
  escrowExpiration := o.escrowExpiration
  sbdBalance := o.sbdAmount
  steemBalance := o.steemAmount
  pendingFee := o.fee

theorem EscrowTransferOperation.terms_fresh {o : EscrowTransferOperation} (valid : o.validate = .ok ()) :
    o.terms.Fresh o.fromAccount := by
  simp only [validate, except_bind_eq_ok, validThat_eq_ok] at valid
  obtain ⟨_, _, _, _, _, _, _, _, _, _, _, _, _, _, _, _, _, third, _⟩ := valid
  exact ⟨⟨third.1.symm, third.2.symm⟩, ⟨rfl, rfl⟩, rfl⟩

/-- The sender pays for an escrow what it holds, and gets a new one. -/
structure EscrowTransferOperation.Opens (o : EscrowTransferOperation) (s t : Database) : Prop where
  fresh : o.terms.Fresh o.fromAccount
  free : s.escrows.find? (o.fromAccount, o.escrowId) = none
  pays : ∃ payments, Pays payments s t ∧ (∀ p ∈ payments, p.1 = o.fromAccount) ∧
    paymentsLedger payments = -o.terms.ledger
  result : s.EscrowBecomes (o.fromAccount, o.escrowId) (some o.terms) t

theorem checkBalance_ensures : Ensures s (checkBalance name amount) fun _ t => s = t := by
  simp [checkBalance, getBalance, getAccount, ensures_ite]

theorem escrowTransfer_opens {o : EscrowTransferOperation} (valid : o.validate = .ok ()) :
    Ensures s (escrowTransfer o) fun _ t => o.Opens s t := by
  simp only [escrowTransfer, getAccount, ensures_steps]
  intro _ _ _ _ _ _ _ _ sameSymbol
  refine checkBalance_ensures.mono ?_
  rintro _ _ rfl
  refine checkBalance_ensures.mono ?_
  rintro _ _ rfl _ t₁ run₁ _ t₂ run₂
  have same : t₂.escrows = s.escrows := by
    rw [escrows_of_adjustBalance run₂, escrows_of_adjustBalance run₁]
  simp only [create, updateEscrows, ensures_steps]
  intro free
  refine ⟨EscrowTransferOperation.terms_fresh valid, same ▸ free, ⟨[(o.fromAccount, _), (o.fromAccount, _)],
    pays_of_run (forM_cons_eq_ok run₁ (forM_cons_eq_ok run₂ rfl)), ?_, ?_⟩, ?_⟩
  · simp
  · have spent := ledger_spentOnEscrow sameSymbol
    simp only [paymentsLedger, map_cons, sum_cons, Asset.ledger_neg]
    rw [EscrowTransferOperation.terms, ledger, ← spent]
    abel
  · intro other
    rw [← same]
    exact Store.find?_insert free

end Evaluators

/-! ## Runs -/

/-- The terms of an escrow and what happened to it since, newest first. -/
structure EscrowRecord where
  terms : Escrow
  events : List EscrowEvent

/-- The escrows there have been under a key, newest first. -/
abbrev EscrowLog := EscrowKey → List EscrowRecord

def EscrowLog.add (log : EscrowLog) (key : EscrowKey) (terms : Escrow) : EscrowLog :=
  Function.update log key (⟨terms, []⟩ :: log key)

def EscrowLog.record (log : EscrowLog) (key : EscrowKey) (event : EscrowEvent) : EscrowLog :=
  Function.update log key <|
    match log key with
    | [] => []
    | r :: older => ⟨r.terms, event :: r.events⟩ :: older

def Operation.isEscrow : Operation → Bool
  | .escrowTransfer _ | .escrowApprove _ | .escrowDispute _ | .escrowRelease _ => true
  | _ => false

/-- A run of the chain as far as escrows are concerned, with a log of all that happened to them. -/
inductive EscrowRun (net : Network) : EscrowLog → Database → Prop where
  | genesis {s : Database} : net.initGenesis {} = .ok ((), s) → EscrowRun net (fun _ => []) s
  /-- An operation on something else. -/
  | operation {log : EscrowLog} {s t : Database} {producing : Bool} {nesting : Nesting}
    {apply : Nesting → Operation → Eval Unit} {op : Operation} :
    EscrowRun net log s → op.isProposal = false → op.isEscrow = false →
      evaluate producing nesting apply op s = .ok ((), t) → EscrowRun net log t
  /-- The bookkeeping of proposals and transactions. -/
  | dispatch {log : EscrowLog} {s t : Database} :
    EscrowRun net log s → Within operationRecords s t → EscrowRun net log t
  /-- A step of a block, other than the one that gives escrows back. -/
  | step {log : EscrowLog} {s t : Database} {step : BlockStep} :
    EscrowRun net log s → step.appliesOperations = false → step ≠ .expireEscrowRatification →
      step.run net s = .ok ((), t) → EscrowRun net log t
  | opened {log : EscrowLog} {s t : Database} {o : EscrowTransferOperation} :
    EscrowRun net log s → o.validate = .ok () → escrowTransfer o s = .ok ((), t) →
      EscrowRun net (log.add (o.fromAccount, o.escrowId) o.terms) t
  | acted {log : EscrowLog} {s t : Database} {key : EscrowKey} {e : Escrow} {act : EscrowAct} :
    EscrowRun net log s → s.escrows.find? key = some e → act.Asked key s.head.time e →
      act.run key e s = .ok ((), t) → EscrowRun net (log.record key ⟨s.head.time, e, act⟩) t

theorem evaluate_keepsEscrows {producing nesting apply} (notProposal : op.isProposal = false)
    (notEscrow : op.isEscrow = false) :
    Touches keepsEscrows (evaluate producing nesting apply op) := by
  cases op <;> first | exact Bool.noConfusion notProposal | exact Bool.noConfusion notEscrow |
    (unfold evaluate; infer_instance)

theorem run_keepsEscrows {net : Network} (noOperations : step.appliesOperations = false)
    (other : step ≠ .expireEscrowRatification) : Touches keepsEscrows (step.run net) := by
  cases step <;> first | exact Bool.noConfusion noOperations | exact absurd rfl other |
    (unfold BlockStep.run; infer_instance)

/-- The log tells the lives of all escrows there have been. -/
structure EscrowLog.Describes (log : EscrowLog) (s : Database) : Prop where
  never : ∀ key, log key = [] → s.escrows.find? key = none
  newest : ∀ key r older, log key = r :: older →
    r.terms.Fresh key.1 ∧ EscrowLife key.1 r.terms r.events (s.escrows.find? key)
  closed : ∀ key r older, log key = r :: older →
    ∀ r' ∈ older, r'.terms.Fresh key.1 ∧ EscrowLife key.1 r'.terms r'.events none

section Describes

variable {log : EscrowLog} {s t : Database} {key : EscrowKey}

theorem EscrowLog.Describes.of_same (described : log.Describes s) (same : t.escrows = s.escrows) : log.Describes t := by
  obtain ⟨never, newest, closed⟩ := described
  rw [← same] at never newest
  exact ⟨never, newest, closed⟩

/-- All but one of the keys are described as before. -/
theorem EscrowLog.Describes.update (described : log.Describes s) {records : List EscrowRecord}
    (becomes : s.EscrowBecomes key left t) (never : records = [] → left = none)
    (newest : ∀ r older, records = r :: older → r.terms.Fresh key.1 ∧ EscrowLife key.1 r.terms r.events left)
    (closed : ∀ r older, records = r :: older →
      ∀ r' ∈ older, r'.terms.Fresh key.1 ∧ EscrowLife key.1 r'.terms r'.events none) :
    EscrowLog.Describes (Function.update log key records) t := by
  refine ⟨fun other => ?_, fun other => ?_, fun other => ?_⟩
  all_goals
    by_cases same : other = key
    · subst same
      rw [Function.update_self]
      first | rwa [becomes.found] | exact closed
    · rw [Function.update_of_ne same]
      first
        | rw [becomes other, if_neg same]
          first | exact described.never other | exact described.newest other
        | exact described.closed other

theorem EscrowLog.Describes.add {o : EscrowTransferOperation} (described : log.Describes s) (opens : o.Opens s t) :
    EscrowLog.Describes (log.add (o.fromAccount, o.escrowId) o.terms) t := by
  refine described.update opens.result nofun ?_ ?_
  · rintro r older ⟨⟩
    exact ⟨opens.fresh, .opened⟩
  · rintro r older ⟨⟩ r' member
    -- the key was free, so what there was under it is over
    cases before : log (o.fromAccount, o.escrowId) with
    | nil =>
      rw [before] at member
      cases member
    | cons r older =>
      rw [before] at member
      obtain rfl | old := mem_cons.mp member
      · have newest := described.newest _ _ _ before
        rwa [opens.free] at newest
      · exact described.closed _ _ _ before r' old

theorem EscrowLog.Describes.record (described : log.Describes s)
    (found : s.escrows.find? key = some e) (obeys : act.Obeys key e s t) :
    EscrowLog.Describes (log.record key ⟨s.head.time, e, act⟩) t := by
  unfold EscrowLog.record
  cases before : log key with
  | nil =>
    rw [described.never key before] at found
    cases found
  | cons r older =>
    obtain ⟨fresh, life⟩ := described.newest key r older before
    rw [found] at life
    refine described.update obeys.result nofun ?_ ?_
    · rintro _ _ ⟨⟩
      exact ⟨fresh, life.next obeys.permitted⟩
    · rintro _ _ ⟨⟩
      exact described.closed key r older before

end Describes

section Runs

variable {net : Network} {log : EscrowLog} {s : Database}

theorem EscrowRun.describes (run : EscrowRun net log s) : log.Describes s := by
  induction run with
  | @genesis s start =>
    have absent : s.escrows = .empty := read_of_run keepsEscrows .escrows start rfl
    refine ⟨fun key _ => ?_, nofun, nofun⟩
    rw [absent]
    rfl
  | operation _ notProposal notEscrow run described =>
    have frame := (evaluate_keepsEscrows notProposal notEscrow).after run
    exact described.of_same (frame .escrows rfl)
  | dispatch _ within described => exact described.of_same (within .escrows rfl)
  | step _ noOperations other run described =>
    have frame := (run_keepsEscrows noOperations other).after run
    exact described.of_same (frame .escrows rfl)
  | opened _ valid run described => exact described.add (escrowTransfer_opens valid _ _ run)
  | acted _ found asked run described => exact described.record found (EscrowAct.run_obeys found asked _ _ run)

/-- Giving back what was not approved in time is one act after the other. -/
theorem exists_run_sweep {due : List (EscrowKey × Escrow)} (run : ∃ log, EscrowRun net log s)
    (lists : s.escrows.Lists due) (late : ∀ d ∈ due, d.2.isApproved = false ∧ d.2.ratificationDeadline ≤ s.head.time) :
    Ensures s (due.forM fun d => expireEscrow d.1 d.2) fun _ t => ∃ log, EscrowRun net log t := by
  induction due generalizing s with
  | nil => exact ensures_pure.mpr run
  | cons d due ih =>
    rw [forM_eq_forM, forM_cons, ensures_bind]
    intro _ t expired
    obtain ⟨log, run⟩ := run
    have found := lists.found d mem_cons_self
    have asked : EscrowAct.expire.Asked d.1 s.head.time d.2 := late d mem_cons_self
    have acted := run.acted found asked expired
    have sameTime : t.head = s.head := read_of_run keepsHead .head expired rfl
    refine ih ⟨_, acted⟩ ?_ fun d' member => ?_
    · rw [removes_expireEscrow _ _ expired]
      exact lists.tail
    · rw [sameTime]
      exact late d' (mem_cons_of_mem _ member)

/-- The acts of the parties are on escrows there are. -/
theorem escrow_found : (∀ o, Ensures s (escrowApprove o) fun _ _ =>
    ∃ e, s.escrows.find? (o.fromAccount, o.escrowId) = some e) ∧
    (∀ o, Ensures s (escrowDispute o) fun _ _ => ∃ e, s.escrows.find? (o.fromAccount, o.escrowId) = some e) ∧
    ∀ o, Ensures s (escrowRelease o) fun _ _ => ∃ e, s.escrows.find? (o.fromAccount, o.escrowId) = some e := by
  simp only [escrowApprove, escrowDispute, escrowRelease, getAccount, getEscrow, fetch, ensures_bind, ensures_get,
    ensures_require]
  refine ⟨fun o e found => ?_, fun o _ _ e found => ?_, fun o _ _ _ _ e found => ?_⟩
  all_goals
    repeat intro _ _ _
    exact ⟨e, found⟩

theorem exists_run_evaluate {producing : Bool} {nesting : Nesting} {apply : Nesting → Operation → Eval Unit}
    (run : ∃ log, EscrowRun net log s) (notProposal : op.isProposal = false) (valid : op.validate = .ok ()) :
    Ensures s (evaluate producing nesting apply op) fun _ t => ∃ log, EscrowRun net log t := by
  obtain ⟨log, run⟩ := run
  intro _ t ended
  cases kind : op.isEscrow with
  | false => exact ⟨log, run.operation notProposal kind ended⟩
  | true =>
    cases op with
    | escrowTransfer o => exact ⟨_, run.opened valid ended⟩
    | escrowApprove o =>
      obtain ⟨e, found⟩ := escrow_found.1 o _ _ ended
      have asked : (EscrowAct.approve o).Asked (o.fromAccount, o.escrowId) s.head.time e := ⟨valid, rfl⟩
      exact ⟨_, run.acted found asked ended⟩
    | escrowDispute o =>
      obtain ⟨e, found⟩ := escrow_found.2.1 o _ _ ended
      have asked : (EscrowAct.dispute o).Asked (o.fromAccount, o.escrowId) s.head.time e := ⟨valid, rfl⟩
      exact ⟨_, run.acted found asked ended⟩
    | escrowRelease o =>
      obtain ⟨e, found⟩ := escrow_found.2.2 o _ _ ended
      have asked : (EscrowAct.release o).Asked (o.fromAccount, o.escrowId) s.head.time e := ⟨valid, rfl⟩
      exact ⟨_, run.acted found asked ended⟩
    | _ => cases kind

theorem exists_run_step (run : ∃ log, EscrowRun net log s) (noOperations : step.appliesOperations = false) :
    Ensures s (step.run net) fun _ t => ∃ log, EscrowRun net log t := by
  by_cases expires : step = .expireEscrowRatification
  · subst expires
    refine ensures_unlessTransit run ?_
    rw [expireEscrowRatification, ensures_bind, ensures_get]
    refine exists_run_sweep run Store.lists_sorted fun d member => ?_
    have selected := (mem_filter.mp ((mem_insertionSort _).mp member)).2
    simpa using selected
  · obtain ⟨log, run⟩ := run
    exact fun _ t ended => ⟨log, run.step noOperations expires ended⟩

theorem escrowRun_keepsInvariant : net.KeepsInvariant (fun _ _ => True) fun s => ∃ log, EscrowRun net log s where
  genesis := fun _ _ start => ⟨_, .genesis start⟩
  operations :=
    { records := fun _ _ within => fun ⟨log, run⟩ => ⟨log, run.dispatch within⟩
      evaluator := fun _ _ _ _ _ notProposal valid run => exists_run_evaluate run notProposal valid }
  step := fun _ _ noOperations _ run => exists_run_step run noOperations

/-- What is to be said about escrows in a state that a logged run has led to. -/
structure EscrowLog.KeepsFaith (log : EscrowLog) (s : Database) : Prop where
  /-- Every open escrow is the newest of its key on the log. -/
  logged : ∀ key e, s.escrows.find? key = some e →
    ∃ r older, log key = r :: older ∧ EscrowLife.Faithful key.1 r.terms r.events (some e)
  /-- All escrows there have been kept faith, and are over unless they are open now. -/
  faithful : ∀ key, ∀ r ∈ log key, ∃ left, EscrowLife.Faithful key.1 r.terms r.events left ∧
    (left = none ∨ left = s.escrows.find? key)
  /-- A transfer takes from the sender what the new escrow holds. -/
  opens : ∀ o t, o.validate = .ok () → escrowTransfer o s = .ok ((), t) → o.Opens s t
  /-- The events on the log are the payments and changes the code makes. -/
  acts : ∀ key e (act : EscrowAct) t, s.escrows.find? key = some e → act.Asked key s.head.time e →
    act.run key e s = .ok ((), t) → act.Obeys key e s t

theorem EscrowLog.Describes.keepsFaith (described : log.Describes s) : log.KeepsFaith s where
  logged := by
    intro key e found
    cases before : log key with
    | nil =>
      rw [described.never key before] at found
      cases found
    | cons r older =>
      obtain ⟨fresh, life⟩ := described.newest key r older before
      exact ⟨r, older, rfl, found ▸ life.faithful fresh⟩
  faithful := by
    intro key r member
    cases before : log key with
    | nil =>
      rw [before] at member
      cases member
    | cons newest older =>
      rw [before] at member
      obtain rfl | old := mem_cons.mp member
      · obtain ⟨fresh, life⟩ := described.newest key r older before
        exact ⟨_, life.faithful fresh, .inr rfl⟩
      · obtain ⟨fresh, life⟩ := described.closed key newest older before r old
        exact ⟨_, life.faithful fresh, .inl rfl⟩
  opens := fun _ t valid run => escrowTransfer_opens valid _ t run
  acts := fun _ _ _ t found asked run => EscrowAct.run_obeys found asked _ t run

/-- The escrows of every chain keep faith: every state is the end of a logged run, and in every
state a logged run leads to, all escrows there have been lived by the rules. -/
theorem escrows_keep_faith (reachable : net.Reachable s) :
    (∃ log, EscrowRun net log s) ∧ ∀ log, EscrowRun net log s → log.KeepsFaith s := by
  obtain ⟨blocks, rest, reached⟩ := reachable
  refine ⟨?_, fun log run => run.describes.keepsFaith⟩
  exact (escrowRun_keepsInvariant.reaches reached).1

/-- The escrow of Alice, which Bob has ratified and the agent has not. -/
theorem escrows_keep_faith_inUse : ∃ log r older e, EscrowRun Network.bare log (usedFor 48).state ∧
    (usedFor 48).state.escrows.find? (.alice, 7) = some e ∧ e.steemBalance = .steem 5000 ∧
      log (.alice, 7) = r :: older ∧
      EscrowLife.Faithful .alice r.terms r.events (some e) := by
  obtain ⟨e, found, held⟩ := Option.map_eq_some_iff.mp usedFor_busy.state.escrow
  obtain ⟨⟨log, run⟩, keeps⟩ := escrows_keep_faith (usedFor_reachable 48)
  obtain ⟨r, older, newest, life⟩ := (keeps log run).logged _ _ found
  exact ⟨log, r, older, e, run, found, (Prod.mk.inj held).1, newest, life⟩

end Runs

end Golos
