import Golos.Chain.Limits

/-! # A network in use

`Network.record` applies a block and writes down what it does, so that a run is computed together with its
history.  What it records is a chronicle, and ends in the state the block leads to.  It takes one shortcut: the
code loops over all slots that were missed before a block, and where the producer is alone in the schedule
nothing happens in these loops after the first slots.  So weeks can pass in a recorded run.

The script of this module brings the bare network to hardfork 20 and then uses it; `usedFor n` is the moment
after its first `n` blocks.
-/

namespace Golos

open Stateful List

variable {net : Network} {s : Database} {b : Block} {m m' : Moment} {op : Operation} {h : HeadProperties}

/-! ## A long pause -/

/-- What the loop over the slots before a block makes of the head. -/
def HeadProperties.fillSlots (h : HeadProperties) (slots : Nat) : HeadProperties :=
  (range slots).foldl (fun h i => h.fillSlot (i == 0)) h

/-- The block comes so late that no slot before it is remembered, and nobody else could have missed them. -/
def Database.Pauses (s : Database) (b : Block) : Prop :=
  s.schedule.numScheduledWitnesses = 1 ∧ s.schedule.currentShuffledWitnesses.getD 0 .blank = b.witness ∧
    (s.witnesses.find? b.witness).isSome ∧ s.head.time ≠ 0 ∧ 129 ≤ s.slotAtTime b.timestamp ∧
    (s.head.fillSlots 129).recentSlotsFilled = 0 ∧ b.num - s.lastIrreversibleBlockNum < maxUndoHistory

instance : Decidable (s.Pauses b) := inferInstanceAs (Decidable (_ ∧ _))

/-- The head of the chain after such a block. -/
def Database.headAfterPause (s : Database) (b : Block) : HeadProperties :=
  { s.head.fillSlots 129 with
    headBlockNumber := b.num
    headBlockId := b.id
    time := b.timestamp
    currentAslot := s.head.currentAslot + (s.slotAtTime b.timestamp - 1) + 1
    averageBlockSize := (99 * s.head.averageBlockSize % 2 ^ 32 + b.size) / 100 % 2 ^ 32 }

def Database.afterPause (s : Database) (b : Block) : Database :=
  let t := { s with head := s.headAfterPause b }
  { t with rates := t.rates.adaptBandwidth t }

theorem HeadProperties.fillSlot_blank (blank : h.recentSlotsFilled = 0) : h.fillSlot false = h := by
  obtain ⟨⟩ := h
  simp_all [fillSlot]

theorem HeadProperties.fillSlots_pause (blank : (h.fillSlots 129).recentSlotsFilled = 0) (k : Nat) :
    h.fillSlots (129 + k) = h.fillSlots 129 := by
  induction k with
  | zero => rfl
  | succ k ih =>
    have next : h.fillSlots (129 + k + 1) = (h.fillSlots (129 + k)).fillSlot (129 + k == 0) := by
      simp [fillSlots, range_succ]
    rw [← Nat.add_assoc, next, ih, beq_false_of_ne (by omega)]
    exact fillSlot_blank blank

theorem missSlot_own {name : AccountName} (known : (s.witnesses.find? name).isSome) :
    missSlot name name s = .ok ((), s) := by
  obtain ⟨w, found⟩ := Option.isSome_iff_exists.mp known
  refine run_bind rfl (run_bind (run_bind rfl (run_require found)) ?_)
  simp [when]

theorem updateGlobalDynamicData_pause (pauses : s.Pauses b) :
    (BlockStep.updateGlobalDynamicData b).run net s = .ok ((), s.afterPause b) := by
  obtain ⟨alone, producer, known, started, late, blank, undo⟩ := pauses
  have missed (slots : List Nat) :
      (slots.forM fun i => missSlot b.witness (s.scheduledWitness (i + 1))) s = .ok ((), s) := by
    induction slots with
    | nil => rfl
    | cons i slots ih =>
      have own : s.scheduledWitness (i + 1) = b.witness := by
        rw [Database.scheduledWitness, alone, Nat.mod_one, producer]
      have first : missSlot b.witness (s.scheduledWitness (i + 1)) s = .ok ((), s) := by
        rw [own]
        exact missSlot_own known
      exact run_bind first ih
  obtain ⟨k, isLate⟩ := Nat.exists_eq_add_of_le late
  have head : s.head.advance b.num b.id b.timestamp (s.slotAtTime b.timestamp - 1) b.size = s.headAfterPause b := by
    have slots : s.slotAtTime b.timestamp - 1 + 1 = 129 + k := by omega
    have filled := HeadProperties.fillSlots_pause blank k
    rw [← slots] at filled
    rw [HeadProperties.advance, Database.headAfterPause, ← filled]
    rfl
  have moved : modifyHead (fun h => h.advance b.num b.id b.timestamp (s.slotAtTime b.timestamp - 1) b.size) s =
      .ok ((), { s with head := s.headAfterPause b }) := by
    rw [← head]
    rfl
  refine run_bind rfl ?_
  rw [if_pos started]
  refine run_bind (missed _) (run_bind moved (run_bind rfl (run_bind rfl (run_check ?_))))
  exact undo

/-! ## Recorded runs -/

/-- The moment after an operation that works on no proposal. -/
def Moment.apply (stack : Nat) (m : Moment) (op : Operation) : Option Moment :=
  if op.isProposal then none
  else (applyOperation false stack {} op m.state).toOption.map fun r => m.next (.evaluated op) r.2

/-- The moment after a step that applies no operation. -/
def Network.take (net : Network) (m : Moment) (step : BlockStep) : Option Moment :=
  (step.run net m.state).toOption.map fun r => m.next (.stepped step) r.2

/-- The moment after a step of a block, if no proposal is worked on. -/
def Network.recordStep (net : Network) (m : Moment) : BlockStep → Option Moment
  | .applyTransaction trx => (admitTransaction false trx m.state).toOption.bind fun r =>
    trx.operations.foldlM (Moment.apply net.stack) (m.next (.admitted trx) r.2)
  | .clearExpiredProposals => if m.state.nextExpiredProposal.isNone then some m else none
  | .updateGlobalDynamicData b =>
    if m.state.Pauses b then some (m.next (.stepped (.updateGlobalDynamicData b)) (m.state.afterPause b))
    else net.take m (.updateGlobalDynamicData b)
  | step => net.take m step

/-- The moment after a block. -/
def Network.record (net : Network) (m : Moment) (b : Block) : Option Moment :=
  (blockSteps b).foldlM net.recordStep m

theorem run_of_toOption {run : Eval Unit} {r : Unit × Database} (done : (run s).toOption = some r) :
    run s = .ok ((), r.2) := by
  cases ended : run s with
  | error e => rw [ended] at done; cases done
  | ok r => rw [ended] at done; cases done; rfl

theorem Moment.apply_performs {stack : Nat} (valid : op.validate = .ok ()) (applied : m.apply stack op = some m') :
    applyOperation false stack {} op m.state = .ok ((), m'.state) ∧ Performs net (.operation op) m m' := by
  rw [Moment.apply] at applied
  split at applied
  next => cases applied
  next notProposal =>
    obtain ⟨r, done, rfl⟩ := Option.map_eq_some_iff.mp applied
    have run := run_of_toOption done
    refine ⟨run, .evaluate ?_⟩
    cases stack with
    | zero => cases run
    | succ stack => exact .evaluated (by simpa using notProposal) valid run

theorem performs_of_foldlM {stack : Nat} {operations : List Operation} (valid : ∀ op ∈ operations, op.validate = .ok ())
    (applied : operations.foldlM (Moment.apply stack) m = some m') :
    operations.forM (applyOperation false stack {}) m.state = .ok ((), m'.state) ∧
      Performs net (.operations operations) m m' := by
  induction operations generalizing m with
  | nil =>
    cases applied
    exact ⟨rfl, .nil⟩
  | cons op rest ih =>
    obtain ⟨first, one, others⟩ := Option.bind_eq_some_iff.mp applied
    obtain ⟨headValid, restValid⟩ := forall_mem_cons.mp valid
    obtain ⟨run, performs⟩ := Moment.apply_performs headValid one
    obtain ⟨runs, performAll⟩ := ih restValid others
    exact ⟨run_bind run runs, .cons performs performAll⟩

theorem clearProposals_of_none {apply : Operation → Eval Unit} {passes : Nat}
    (noneLeft : s.nextExpiredProposal = none) :
    clearProposals apply passes s = .ok ((), s) := by
  cases passes with
  | zero => rfl
  | succ passes =>
    refine run_bind rfl ?_
    rw [noneLeft]
    rfl

/-- What a step does, as the run of the chain and in its history. -/
structure Network.Recorded (net : Network) (steps : List BlockStep) (m m' : Moment) : Prop where
  run : (steps.forM fun step => step.run net) m.state = .ok ((), m'.state)
  told : ∀ rest, net.Chronicle (fun _ _ => True) (steps ++ rest) m → net.Chronicle (fun _ _ => True) rest m'

theorem Network.recorded_take {step : BlockStep} (kind : step.appliesOperations = false)
    (taken : net.take m step = some m') : net.Recorded [step] m m' := by
  obtain ⟨r, done, rfl⟩ := Option.map_eq_some_iff.mp taken
  have run := run_of_toOption done
  exact ⟨run_bind run rfl, fun _ chronicle => chronicle.step trivial (.stepped kind run)⟩

theorem Network.recorded_step {step : BlockStep} (recorded : net.recordStep m step = some m') :
    net.Recorded [step] m m' := by
  cases step
  case applyTransaction trx =>
    obtain ⟨r, done, applied⟩ := Option.bind_eq_some_iff.mp recorded
    have admitted := run_of_toOption done
    obtain ⟨runs, performs⟩ := performs_of_foldlM (admitTransaction_valid _ _ admitted) applied
    refine ⟨run_bind (run_bind admitted runs) rfl, fun _ chronicle => ?_⟩
    exact chronicle.transaction trivial (.admitted admitted) performs
  case clearExpiredProposals =>
    rw [recordStep] at recorded
    split at recorded
    next nothing =>
      cases recorded
      have noneLeft := Option.isNone_iff_eq_none.mp nothing
      have run : BlockStep.clearExpiredProposals.run net m.state = .ok ((), m.state) := by
        refine run_bind rfl ?_
        unfold when
        split
        · exact run_bind rfl (clearProposals_of_none noneLeft)
        · rfl
      exact ⟨run_bind run rfl, fun _ chronicle => chronicle.cleared (.inr noneLeft)⟩
    next => cases recorded
  case updateGlobalDynamicData b =>
    rw [recordStep] at recorded
    split at recorded
    next pauses =>
      cases recorded
      have run := @updateGlobalDynamicData_pause net _ _ pauses
      exact ⟨run_bind run rfl, fun _ chronicle => chronicle.step trivial (.stepped rfl run)⟩
    next => exact recorded_take rfl recorded
  all_goals exact recorded_take rfl recorded

theorem Network.Recorded.append {steps others : List BlockStep} {m₁ : Moment} (first : net.Recorded steps m m₁)
    (second : net.Recorded others m₁ m') : net.Recorded (steps ++ others) m m' := by
  refine ⟨?_, fun rest chronicle => second.told rest (first.told _ (by rwa [← append_assoc]))⟩
  rw [forM_eq_forM, forM_append]
  exact run_bind first.run second.run

/-- A recorded block is applied, and what is recorded is its chronicle. -/
theorem Network.recorded (recorded : net.record m b = some m') : net.Recorded (blockSteps b) m m' := by
  rw [record] at recorded
  generalize blockSteps b = steps at recorded
  induction steps generalizing m with
  | nil =>
    cases recorded
    exact ⟨rfl, fun _ => id⟩
  | cons step steps ih =>
    obtain ⟨m₁, one, others⟩ := Option.bind_eq_some_iff.mp recorded
    exact (recorded_step one).append (ih others)

/-! ## Scripts -/

/-- The block without transactions that comes in the next slot, signed with the key of a bare network. -/
def Database.nextBlock (s : Database) : Block where
  previous := s.head.headBlockId
  timestamp := s.slotTime 1
  witness := s.scheduledWitness 1
  transactionMerkleRoot := 0
  extensions := []
  transactions := []
  digest := 1
  merkleRoot := 0
  signee := 1
  size := 1000

/-- What is to be done in a block: so many slots after the last one, by those who have the keys. -/
structure ScriptBlock where
  slots : Nat := 1
  keys : List PublicKey := [1]
  operations : List Operation := []

/-- The block of a script that comes next.  Its producer votes for hardfork 20. -/
def Database.scriptBlock (s : Database) (e : ScriptBlock) : Block :=
  { s.nextBlock with
    timestamp := s.slotTime e.slots
    witness := s.scheduledWitness e.slots
    extensions := [.version (hardforkVersion 20), .hardforkVersionVote (hardforkVersion 20) Evaluator.genesisTime]
    transactions := if e.operations.isEmpty then [] else [{
      id := s.head.headBlockNumber
      refBlockNum := s.head.headBlockNumber
      refBlockPrefix := s.head.headBlockId.secondWord
      expiration := s.slotTime 2
      operations := e.operations
      signatureKeys := e.keys }] }

def Network.follow (net : Network) (m : Moment) (e : ScriptBlock) : Option Moment :=
  net.record m (m.state.scriptBlock e)

/-- Where a script can be followed, its blocks extend the chain and its history the chronicle. -/
theorem Network.followed {script : List ScriptBlock} {blocks : List Block} (chain : net.Chain blocks m.state)
    (chronicle : net.Chronicle (fun _ _ => True) [] m) (followed : script.foldlM net.follow m = some m') :
    (∃ more, net.Chain (blocks ++ more) m'.state ∧ more.length = script.length) ∧
      net.Chronicle (fun _ _ => True) [] m' := by
  induction script generalizing m blocks with
  | nil =>
    cases followed
    exact ⟨⟨[], by rwa [append_nil], rfl⟩, chronicle⟩
  | cons e script ih =>
    obtain ⟨m₁, one, others⟩ := Option.bind_eq_some_iff.mp followed
    have recorded := recorded one
    obtain ⟨⟨more, longer, length⟩, told⟩ := ih (chain.block recorded.run)
      (recorded.told [] (by rw [append_nil]; exact chronicle.block _)) others
    exact ⟨⟨_ :: more, by rwa [append_assoc] at longer, congrArg (· + 1) length⟩, told⟩

/-! ## The script

Alice, Bob and a crew of twenty mine their accounts in the first block; with the crew as its witnesses the
network votes itself to hardfork 20 in block 42. -/

/-- "crewa", "crewb" and so on -/
def AccountName.crew (i : Nat) : AccountName := ⟨(0x6372657761 + i) * 2 ^ 88⟩

def everybody : List AccountName := [.alice, .bob] ++ (range 20).map .crew

def mine (worker : AccountName) : Operation :=
  .pow { workerAccount := worker, blockId := .zero, worker := 1, work := 0, workIsValid := true, props := {} }

/-- What Alice lends to Bob, for a tenth of what his votes earn with it. -/
def lending (shares : Int) : Operation :=
  .delegateVestingSharesWithInterest ⟨⟨.alice, .bob, .vests shares⟩, 1000, .toDelegator⟩

/-- The first blocks with hardfork 20. -/
def busyDay : List ScriptBlock :=
  [{ operations := [
      .transferToVesting ⟨.initMiner, .alice, .steem 1000000⟩,
      .transferToVesting ⟨.initMiner, .bob, .steem 1000000⟩,
      .transfer ⟨.initMiner, .alice, .steem 100000⟩,
      .chainPropertiesUpdate ⟨.initMiner, .v19 { votesWindow := 5, votesPerWindow := 3 }⟩] },
    { operations := [
      lending 2000000000000,
      .setWithdrawVestingRoute ⟨.alice, .bob, 2500, false⟩,
      .setWithdrawVestingRoute ⟨.alice, .crew 0, 5000, true⟩,
      .withdrawVesting ⟨.alice, .vests 1300000000000⟩,
      .escrowTransfer ⟨.alice, .bob, .crew 0, 7, .sbd 0, .steem 5000, .steem 10,
        Evaluator.genesisTime + 3600, Evaluator.genesisTime + 7200⟩,
      .escrowApprove ⟨.alice, .bob, .crew 0, .bob, 7, true⟩,
      .changeRecoveryAccount ⟨.alice, .bob⟩,
      .accountUpdate ⟨.bob, some (.ofKey 2), none, none, 1⟩] },
    { operations := [.comment ⟨.blank, "golos", .alice, "post"⟩] },
    { operations := [lending 1000000000000, .requestAccountRecovery ⟨.initMiner, .bob, .ofKey 3⟩] },
    { keys := [3, 1], operations := [.recoverAccount ⟨.bob, .ofKey 3, .ofKey 1⟩] },
    { operations := [
      .comment ⟨.alice, "post", .bob, "reply"⟩,
      .comment ⟨.bob, "reply", .alice, "answer"⟩,
      .vote ⟨.bob, .alice, "post", 10000⟩] }]

/-- The crew leaves the schedule.  Its last posts are voted for, and voted for again after their payout. -/
def quietMonths : List ScriptBlock :=
  [{ operations := everybody.map fun name => .witnessUpdate ⟨name, 0, {}, .steem 0⟩ },
    { operations := (range 5).map fun i => .comment ⟨.blank, "golos", .crew i, "news"⟩ },
    { operations := (range 5).map fun i => .vote ⟨.alice, .crew i, "news", 10000⟩ },
    { slots := 201700 },
    { slots := 2400000 },
    { operations := (range 5).map fun i => .vote ⟨.bob, .crew i, "news", 10000⟩ }]

def script : List ScriptBlock :=
  [{ keys := [], operations := everybody.map mine }] ++ replicate 41 { slots := 1 } ++ busyDay ++
    replicate 14 { slots := 1 } ++ quietMonths

/-- The moment after the first blocks of the script. -/
@[irreducible] def usedFor (n : Nat) : Moment :=
  ((script.take n).foldlM Network.bare.follow ⟨[], bareGenesis⟩).getD ⟨[], bareGenesis⟩

/-! ## Reports

All that the other modules use of these moments is computed here, in one run of the script. -/

/-- Alice could say thanks for the reply, and she could post again. -/
def thanks : CommentOperation := ⟨.bob, "reply", .alice, "thanks"⟩

def secondPost : CommentOperation := ⟨.blank, "golos", .alice, "second"⟩

/-- Alice approves her first proposal, which is executed at once.  Her second one needs a crew member as well and
is put aside for a review. -/
def proposalBlock : ScriptBlock where
  operations := [
    .proposalCreate .alice "gift" [.transfer ⟨.alice, .bob, .steem 1000⟩] (Evaluator.genesisTime + 3600) none,
    .proposalUpdate ⟨.alice, "gift", [.alice], [], [], [], [], [], [], []⟩,
    .proposalCreate .alice "plan" [.transfer ⟨.alice, .crew 1, .steem 1000⟩, .transfer ⟨.crew 1, .bob, .steem 1000⟩]
      (Evaluator.genesisTime + 7200) (some (Evaluator.genesisTime + 3600)),
    .proposalUpdate ⟨.alice, "plan", [.crew 1], [], [], [], [], [], [], []⟩]

/-- The busy day with one more block, for the proposals. -/
def Database.withProposals (s : Database) : Database :=
  stateAfter (Network.bare.applyBlock (s.scriptBlock proposalBlock)) s

/-- The round that would be scheduled next. -/
def Database.nextRound (s : Database) : Database := stateAfter updateWitnessSchedule4 s

/-- What is there after the busy day. -/
@[mk_iff] structure Database.Busy (s : Database) : Prop where
  hardfork : s.hasHardfork 20 = true
  time : s.head.time = 1476788544
  escrow : (s.escrows.find? (.alice, 7)).map (fun e => (e.steemBalance, e.isApproved)) = some (.steem 5000, false)
  replies : (s.comments.find? (.alice, "post")).map (·.children) = some 2
  thread : (s.comments.find? (.alice, "answer")).map (fun c => (c.place.depth, c.place.rootComment)) =
    some (2, .alice, "post")
  rates : (s.commentVotes.find? ((.alice, "post"), .bob)).map (fun v =>
    v.delegatorVoteInterestRates.map (·.interestRate)) = some [90]
  lent : (s.delegations.find? (.alice, .bob)).map (·.vestingShares) = some 1000000000000
  returning : s.delegationExpirations.values.map (·.vestingShares) = [1000000000000]
  shares : (s.accounts.find? .alice).map
    (fun a => (a.vestingShares, a.delegated.delegatedVestingShares, a.nextPayment)) =
    some (10000349885048, 2000000000000, 100000000000)
  routes : s.routes.keys = [(.alice, .bob), (.alice, .crew 0)]
  ids : ∀ k ∈ s.routes.keys, s.accountId k.2 ≠ 0
  pays : (payWithdrawal .alice s).isOk = true
  issued : (s.supply.totalVestingShares, (stateAfter (payWithdrawal .alice) s).supply.totalVestingShares) =
    (20212099396519, 20162099396519)
  key : (s.witnesses.find? .initMiner).map (·.info.signingKey) = some 1
  schedules : (updateWitnessSchedule4 s).isOk = true
  full : s.nextRound.scheduled.length = 21
  kinds : [.top19, .miner, .timeshare].map (fun kind => s.nextRound.scheduled.countP fun name =>
    (s.nextRound.witnesses.find? name).map (·.info.schedule) = some kind) = [19, 1, 1]
  posting : (s.schedule.medianProps.postsWindow, s.schedule.medianProps.postsPerWindow) = (3, 1)
  thanked : (Evaluator.comment false thanks s).isOk = true
  refused : (Evaluator.postCapacity secondPost (stateAfter (Evaluator.comment false thanks) s)).isOk = false
  accepted : (Evaluator.comment false secondPost s).isOk = true
  proposed : (Network.bare.applyBlock (s.scriptBlock proposalBlock) s).isOk = true
  pending : s.withProposals.proposals.keys = [(.alice, "plan")]
  executed : (s.withProposals.accounts.find? .bob).map (·.balances.balance) = some 1000

/-- What has happened until then. -/
@[mk_iff] structure Moment.Busy (m : Moment) : Prop where
  state : m.state.Busy
  small : ∀ e ∈ m.past, e.1.head.time < Time.maximum ∧ ∀ a ∈ e.1.accounts.values, a.effectiveVestingShares < 2 ^ 63
  votes : ∀ e ∈ m.past, e.1.hasHardfork 20 = false → e.1.commentVotes.keys = []
  lastPosted : m.lastPosted .alice = 1476788541
  posts : m.acceptedIn .posts .alice 1476788541 3 = 0

/-- Five votes in one block, where three are promised in five seconds; and a post, where one is in three seconds. -/
@[mk_iff] structure Moment.Voted (m : Moment) : Prop where
  held : m.LimitHeld .votes 1476788592 0 5 3
  votes : m.acceptedIn .votes .alice 1476788592 0 = 5
  postsHeld : m.LimitHeld .posts 1476788544 51 3 1
  posts : m.acceptedIn .posts (.crew 0) 1476788544 51 = 1

/-- What is there after the quiet months, and what has happened until then. -/
@[mk_iff] structure Moment.Quiet (m : Moment) : Prop where
  time : m.state.head.time < Time.maximum
  window : m.state.schedule.medianProps.votesWindow = 5
  perWindow : m.state.schedule.medianProps.votesPerWindow = 3
  withdrawn : (m.state.accounts.find? .alice).map (fun a => (a.withdrawal.toWithdraw, a.withdrawal.withdrawn)) =
    some (1300000000000, 300000000000)
  begun : (m.past.find? fun e => e.2.interrupts .alice).any (fun e => match e.2 with
    | .evaluated (.withdrawVesting o) => o.account = .alice ∧ o.vestingShares = .vests 1300000000000 ∧
      e.1.hasHardfork 16
    | _ => false) = true
  recovered : m.transitions.any (fun tr => match tr.deed with
    | .evaluated (.recoverAccount o) => o.accountToRecover = .bob
    | _ => false) = true
  partner : m.transitions.any (fun tr =>
    (tr.before.state.accounts.find? .alice).map (·.info.recoveryAccount) = some .initMiner ∧
      (tr.after.accounts.find? .alice).map (·.info.recoveryAccount) = some .bob) = true
  lateVotes : m.acceptedIn .votes .bob 1484593695 0 = 0
  stored : ∀ i < 5, (m.state.commentVotes.find? ((.crew i, "news"), .bob)).isSome

instance : Decidable s.Busy := decidable_of_iff _ (Database.busy_iff s).symm

instance : Decidable m.Busy := decidable_of_iff _ (Moment.busy_iff m).symm

instance : Decidable m.Voted := decidable_of_iff _ (Moment.voted_iff m).symm

instance : Decidable m.Quiet := decidable_of_iff _ (Moment.quiet_iff m).symm

theorem script_followed : ((script.take 48).foldlM Network.bare.follow ⟨[], bareGenesis⟩).any (fun m => m.Busy ∧
    (((script.drop 48).take 17).foldlM Network.bare.follow m).any fun m => m.Voted ∧
      (((script.drop 65).take 3).foldlM Network.bare.follow m).any (·.Quiet)) = true := by
  decide +kernel

/-- The moment after so many blocks can be reached. -/
def Followed (n : Nat) : Prop := (script.take n).foldlM Network.bare.follow ⟨[], bareGenesis⟩ = some (usedFor n)

/-- The script goes on from there. -/
theorem Followed.next {n k : Nat} {report : Moment → Bool} (followed : Followed n)
    (reported : (((script.drop n).take k).foldlM Network.bare.follow (usedFor n)).any report = true) :
    Followed (n + k) ∧ report (usedFor (n + k)) = true := by
  obtain ⟨m, run, good⟩ := (Option.any_eq_true _ _).mp reported
  have whole : (script.take (n + k)).foldlM Network.bare.follow ⟨[], bareGenesis⟩ = some m := by
    rw [take_add, foldlM_append, followed]
    exact run
  have here : usedFor (n + k) = m := by rw [usedFor, whole, Option.getD_some]
  rw [Followed, here]
  exact ⟨whole, good⟩

theorem script_reported : (usedFor 48).Busy ∧ (usedFor 65).Voted ∧ (usedFor 68).Quiet ∧ Followed 68 := by
  have start : Followed 0 := by rw [Followed, usedFor]; rfl
  have begun : usedFor 0 = ⟨[], bareGenesis⟩ := by rw [usedFor]; rfl
  obtain ⟨first, report⟩ := start.next (k := 48) (by rw [begun]; exact script_followed)
  obtain ⟨busy, report⟩ := of_decide_eq_true report
  obtain ⟨second, report⟩ := first.next report
  obtain ⟨voted, report⟩ := of_decide_eq_true report
  obtain ⟨third, report⟩ := second.next report
  exact ⟨busy, voted, of_decide_eq_true report, third⟩

theorem usedFor_busy : (usedFor 48).Busy := script_reported.1

theorem usedFor_voted : (usedFor 65).Voted := script_reported.2.1

theorem usedFor_quiet : (usedFor 68).Quiet := script_reported.2.2.1

/-- Every beginning of the script is a chain with a chronicle. -/
theorem usedFor_told (n : Nat) : (∃ blocks, Network.bare.Chain blocks (usedFor n).state ∧
    blocks.length = (script.take n).length) ∧
    Network.bare.Chronicle (fun _ _ => True) [] (usedFor n) := by
  have start : Network.bare.Chain [] (Moment.mk [] bareGenesis).state := .genesis bareGenesis_eq
  have whole : script.foldlM Network.bare.follow ⟨[], bareGenesis⟩ = some (usedFor 68) := script_reported.2.2.2
  rw [← take_append_drop n script, foldlM_append] at whole
  obtain ⟨m, first, -⟩ := Option.bind_eq_some_iff.mp whole
  have here : usedFor n = m := by rw [usedFor, first, Option.getD_some]
  rw [here]
  exact Network.followed start (.genesis bareGenesis_eq) first

theorem usedFor_chronicle (n : Nat) : Network.bare.Chronicle (fun _ _ => True) [] (usedFor n) := (usedFor_told n).2

theorem usedFor_reachable (n : Nat) : Network.bare.Reachable (usedFor n).state := by
  obtain ⟨⟨blocks, chain, -⟩, -⟩ := usedFor_told n
  exact ⟨blocks, [], chain.reaches⟩

theorem withProposals_reachable : Network.bare.Reachable (usedFor 48).state.withProposals := by
  obtain ⟨⟨blocks, chain, -⟩, -⟩ := usedFor_told 48
  exact ⟨_, [], (chain.block (stateAfter_eq usedFor_busy.state.proposed)).reaches⟩

end Golos
