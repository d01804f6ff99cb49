import Golos.Chain.Market
import Golos.Chain.Evaluator.Content
import Golos.Chain.Evaluator.Transfer
import Golos.Chain.Evaluator.Witness

/-! # Proposals and the dispatch of operations

A proposal holds operations until the accounts they need have approved them.  Its
evaluators apply operations themselves: the creation rehearses the proposed
operations in a session it undoes, and the last approval applies them.  So the
dispatch `applyOperation` and the evaluators below call each other; `stack` bounds
how deep, as the stack of the process does.
-/

namespace Golos

open Stateful

variable {apply : Operation → Eval Unit}

abbrev ProposalKey := AccountName × String

/-- The three `authority_getter`s over the database -/
def Database.authorityGetter (s : Database) : AuthorityGetter :=
  AuthorityGraph.getter {
    active := fun name => (s.authorities.find? name).map (·.active)
    owner := fun name => (s.authorities.find? name).map (·.owner)
    posting := fun name => (s.authorities.find? name).map (·.posting) }

def AuthorityError.toError : AuthorityError → Error
  | .combinedPostingAndActive =>
    .logic "Can't combine operations required posting authority and active or owner authority"
  | .missingObject => .missingObject "authority"
  | .missingPosting _ _ => .authority "Missing Posting Authority $id"
  | .missingOther _ => .authority "Missing Authority"
  | .missingActive _ _ => .authority "Missing Active Authority $id"
  | .missingOwner _ _ => .authority "Missing Owner Authority $id"
  | .irrelevantSig _ => .authority "Unnecessary signature(s) detected"
  | .irrelevantApproval _ => .authority "Unnecessary approval(s) detected"

namespace Proposal

/-- `proposal_object::verify_authority` -/
def verifyAuthority (p : Proposal) (s : Database) (active owner posting : List AccountName) :
    Except AuthorityError Unit :=
  Golos.verifyAuthority s.authorityGetter (requiredAuthorities p.proposedOperations)
    p.availableKeyApprovals (p.availableActiveApprovals ++ active)
    (p.availableOwnerApprovals ++ owner) (p.availablePostingApprovals ++ posting)

/-- `is_authorized_to_execute`: what is only irrelevant is not critical. -/
def isAuthorizedToExecute (p : Proposal) (s : Database) : Bool :=
  match p.verifyAuthority s [] [] [] with
  | .ok _ => true
  | .error (.irrelevantSig _) => true
  | .error (.irrelevantApproval _) => true
  | .error _ => false

def noApprovals (p : Proposal) : Bool :=
  p.availableActiveApprovals.isEmpty && p.availableOwnerApprovals.isEmpty &&
    p.availablePostingApprovals.isEmpty && p.availableKeyApprovals.isEmpty

def inReview (p : Proposal) (now : Time) : Bool := p.reviewPeriodTime.any (· ≤ now)

/-- What a `proposal_update_operation` does to one set of approvals. -/
def updateApprovals {α : Type} [DecidableEq α] (available toAdd toRemove : List α) : List α :=
  (available ++ toAdd).filter (· ∉ toRemove)

def update (p : Proposal) (o : ProposalUpdateOperation) : Proposal :=
  { p with
    availableActiveApprovals :=
      updateApprovals p.availableActiveApprovals o.activeApprovalsToAdd o.activeApprovalsToRemove
    availableOwnerApprovals :=
      updateApprovals p.availableOwnerApprovals o.ownerApprovalsToAdd o.ownerApprovalsToRemove
    availablePostingApprovals :=
      updateApprovals p.availablePostingApprovals o.postingApprovalsToAdd o.postingApprovalsToRemove
    availableKeyApprovals :=
      updateApprovals p.availableKeyApprovals o.keyApprovalsToAdd o.keyApprovalsToRemove }

/-- A proposal nobody has approved yet.  The approval of an owner implies that of the active
authority. -/
def new (id : Nat) (proposedOperations : List Operation) (expirationTime : Time)
    (reviewPeriodTime : Option Time) : Proposal :=
  let required := requiredAuthorities proposedOperations
  { id, expirationTime, reviewPeriodTime, proposedOperations
    requiredActiveApprovals := required.active.filter (· ∉ required.owner)
    requiredOwnerApprovals := required.owner
    requiredPostingApprovals := required.posting }

/-- The accounts whose approval is required, in the order of a `flat_set`. -/
def requiredTotal (p : Proposal) : List AccountName :=
  nameSet (p.requiredActiveApprovals ++ p.requiredOwnerApprovals ++ p.requiredPostingApprovals)

end Proposal

def ProposalUpdateOperation.addsNothing (o : ProposalUpdateOperation) : Bool :=
  o.ownerApprovalsToAdd.isEmpty && o.activeApprovalsToAdd.isEmpty &&
    o.postingApprovalsToAdd.isEmpty && o.keyApprovalsToAdd.isEmpty

/-- `assert_irrelevant_proposal_authority`.  The check stops at the first missing kind of
authority, so the missing accounts are added and the check is made again: what the
operation brought must not be superfluous even then. -/
def assertIrrelevantProposalAuthority (s : Database) (p : Proposal) (o : ProposalUpdateOperation) :
    (attempts : Nat) → (active owner posting : List AccountName) → (used : List PublicKey) →
      Except Error Unit
  | 0, _, _, _, _ => .ok ()
  | attempts + 1, active, owner, posting, used =>
    match p.verifyAuthority s active owner posting with
    | .ok _ => .ok ()
    | .error (.missingActive accounts keys) => do
      validThat (active = []) (AuthorityError.missingActive accounts keys).toError
      assertIrrelevantProposalAuthority s p o attempts accounts owner posting (used ++ keys)
    | .error (.missingOwner accounts keys) => do
      validThat (owner = []) (AuthorityError.missingOwner accounts keys).toError
      assertIrrelevantProposalAuthority s p o attempts active accounts posting (used ++ keys)
    | .error (.missingPosting accounts keys) => do
      validThat (posting = []) (AuthorityError.missingPosting accounts keys).toError
      assertIrrelevantProposalAuthority s p o attempts active owner accounts (used ++ keys)
    | .error (.irrelevantSig keys) =>
      validThat (∀ k ∈ keys, k ∈ o.keyApprovalsToAdd → k ∈ used)
        (AuthorityError.irrelevantSig keys).toError
    | .error (.irrelevantApproval accounts) =>
      validThat (∀ a ∈ accounts,
          a ∉ o.activeApprovalsToAdd ++ o.ownerApprovalsToAdd ++ o.postingApprovalsToAdd)
        (AuthorityError.irrelevantApproval accounts).toError
    | .error e => .error e.toError

/-- How many proposal evaluators are running inside each other, by kind. -/
structure Nesting where
  creates : Nat := 0
  updates : Nat := 0

/-- `STEEMIT_MAX_PROPOSAL_DEPTH` -/
def maxProposalDepth : Nat := 2

/-- `STEEMIT_MAX_PROPOSAL_LIFETIME_SEC` -/
def maxProposalLifetime : Nat := 60 * 60 * 24 * 7 * 4

/-- `transaction::validate` -/
def validateOperations (operations : List Operation) : Except Error Unit := do
  validThat (!operations.isEmpty) (.assertion "A transaction must have at least one operation")
  Operation.validateAll operations

/-- `get_proposal` -/
def getProposal (key : ProposalKey) : Eval Proposal := fetch (·.proposals) "proposal" key

/-- `remove(const proposal_object&)` -/
def removeProposal (key : ProposalKey) (p : Proposal) : Eval Unit := do
  updateRequiredApprovals fun t => t.filter fun k _ => !(k.2 = p.id ∧ k.1 ∈ p.requiredTotal)
  updateProposals fun t => t.erase key

/-- `push_proposal`, without its session.  What it removes in the end is the object it was
called with; when the operations have removed that object its reference dangles. -/
def pushProposal (apply : Operation → Eval Unit) (key : ProposalKey) (p : Proposal) : Eval Unit := do
  p.proposedOperations.forM apply
  let s ← get
  let p ← require ((s.proposals.find? key).filter (·.id = p.id)) (.crash "removed proposal")
  removeProposal key p

namespace Evaluator

def checkProposalDepth (producing : Bool) (depth : Nat) : Eval Unit :=
  checkLogic (producing = true → depth ≤ maxProposalDepth)
    "You can't create more than $depth nested proposals"

def checkExisting {α : Type} [DecidableEq α] (toRemove available : List α) : Eval Unit :=
  checkLogic (∀ a ∈ toRemove, a ∈ available) "Can't remove the non existing approval '$id'"

def checkDuplicate {α : Type} [DecidableEq α] (toAdd available : List α) : Eval Unit :=
  checkLogic (∀ a ∈ toAdd, a ∉ available) "Can't add already exist approval '$id'"

def checkProposalTimes (now expirationTime : Time) (reviewPeriodTime : Option Time) : Eval Unit := do
  checkOpParam "expiration_time" (now < expirationTime) "Proposal has already expired on creation."
  checkOpParam "expiration_time" (expirationTime ≤ now + maxProposalLifetime)
    "Proposal expiration time is too far i  n the future."
  checkOpParam "review_period_time" (reviewPeriodTime.all (now < ·))
    "Proposal review period has expired on creation."
  checkOpParam "review_period_time" (reviewPeriodTime.all (· < expirationTime))
    "Proposal review period must be less than its overall lifetime."

/-- The checks of `proposal_create_evaluator::do_apply`, with the rehearsal of the proposed
operations by `validate_transaction`. -/
def checkProposal (producing : Bool) (nesting : Nesting) (apply : Operation → Eval Unit)
    (key : ProposalKey) (p : Proposal) : Eval Unit := do
  checkProposalDepth producing nesting.creates
  let s ← get
  check (s.proposals.find? key = none) (.objectAlreadyExist "proposal")
  checkProposalTimes s.head.time p.expirationTime p.reviewPeriodTime
  check ((requiredAuthorities p.proposedOperations).other.isEmpty) (.internal "other size > 0")
  checkLogic (p.requiredPostingApprovals.isEmpty ≠
      (p.requiredOwnerApprovals ++ p.requiredActiveApprovals).isEmpty)
    "Can't combine operations required posting authority and active or owner authority"
  p.requiredTotal.forM fun name => do
    let _ ← getAccount name
    pure ()
  fromExcept (validateOperations p.proposedOperations)
  rehearse (p.proposedOperations.forM apply)

/-- The objects a new proposal has. -/
def storeProposal (key : ProposalKey) (p : Proposal) : Eval Unit := do
  create (·.proposals) updateProposals "proposal" key p
  setNextProposalId (p.id + 1)
  p.requiredTotal.forM fun account =>
    create (·.requiredApprovals) updateRequiredApprovals "required_approval" (account, p.id) ()

def proposalCreate (producing : Bool) (nesting : Nesting) (apply : Operation → Eval Unit)
    (author : AccountName) (title : String) (proposedOperations : List Operation)
    (expirationTime : Time) (reviewPeriodTime : Option Time) : Eval Unit := do
  let s ← get
  let p := Proposal.new s.nextProposalId proposedOperations expirationTime reviewPeriodTime
  checkProposal producing nesting apply (author, title) p
  storeProposal (author, title) p

/-- The approvals as they are after the operation, with the checks before. -/
def updateProposal (key : ProposalKey) (o : ProposalUpdateOperation) : Eval Unit := do
  let p ← getProposal key
  let s ← get
  checkLogic (p.inReview s.head.time = true → o.addsNothing)
    "This proposal is in it's review period. No new approvals may be added."
  checkExisting o.activeApprovalsToRemove p.availableActiveApprovals
  checkExisting o.ownerApprovalsToRemove p.availableOwnerApprovals
  checkExisting o.postingApprovalsToRemove p.availablePostingApprovals
  checkExisting o.keyApprovalsToRemove p.availableKeyApprovals
  checkDuplicate o.activeApprovalsToAdd p.availableActiveApprovals
  checkDuplicate o.ownerApprovalsToAdd p.availableOwnerApprovals
  checkDuplicate o.postingApprovalsToAdd p.availablePostingApprovals
  checkDuplicate o.keyApprovalsToAdd p.availableKeyApprovals
  updateProposals fun t => t.modify key fun p => p.update o

def proposalUpdate (producing : Bool) (nesting : Nesting) (apply : Operation → Eval Unit)
    (o : ProposalUpdateOperation) : Eval Unit := do
  checkProposalDepth producing nesting.updates
  let key := (o.author, o.title)
  updateProposal key o
  let p ← getProposal key
  let s ← get
  if p.reviewPeriodTime.isSome then
    -- without the ability to add an approval, there is no reason to keep the proposal
    when (p.inReview s.head.time && p.noApprovals) (removeProposal key p)
  else do
    fromExcept (assertIrrelevantProposalAuthority s p o 3 [] [] [] [])
    -- a failed proposal is tried again when it expires
    when (p.isAuthorizedToExecute s)
      (attempt Error.isException (pushProposal apply key p) (pure ()))

def proposalDelete (o : ProposalDeleteOperation) : Eval Unit := do
  let p ← getProposal (o.author, o.title)
  checkLogic (o.author = o.requester ∨ o.requester ∈ p.requiredActiveApprovals ∨
      o.requester ∈ p.requiredOwnerApprovals ∨ o.requester ∈ p.requiredPostingApprovals)
    "Provided authority is not authoritative for this proposal."
  removeProposal (o.author, o.title) p

end Evaluator

open Evaluator

/-- The evaluator of an operation; `apply` is the dispatch one level deeper. -/
def evaluate (producing : Bool) (nesting : Nesting) (apply : Nesting → Operation → Eval Unit) :
    Operation → Eval Unit
  | .accountCreate o => accountCreate producing o
  | .accountCreateWithDelegation o => accountCreateWithDelegation o
  | .accountUpdate o => accountUpdate producing o
  | .accountMetadata account => accountMetadata account
  | .challengeAuthority o => challengeAuthority o
  | .proveAuthority o => proveAuthority o
  | .requestAccountRecovery o => requestAccountRecovery o
  | .recoverAccount o => recoverAccount o
  | .changeRecoveryAccount o => changeRecoveryAccount o
  | .resetAccount _ => throw (.assertion "Reset Account Operation is currently disabled.")
  | .setResetAccount _ _ => throw (.assertion "Set Reset Account Operation is currently disabled.")
  | .declineVotingRights o => declineVotingRights o
  | .transfer o => transfer o
  | .transferToVesting o => transferToVesting o
  | .transferToSavings o => transferToSavings o
  | .transferFromSavings o => transferFromSavings o
  | .cancelTransferFromSavings o => cancelTransferFromSavings o
  | .escrowTransfer o => escrowTransfer o
  | .escrowApprove o => escrowApprove o
  | .escrowDispute o => escrowDispute o
  | .escrowRelease o => escrowRelease o
  | .withdrawVesting o => withdrawVesting producing o
  | .setWithdrawVestingRoute o => setWithdrawVestingRoute o
  | .delegateVestingShares o => delegateVestingShares o
  | .delegateVestingSharesWithInterest o => delegateVestingSharesWithInterest o
  | .rejectVestingSharesDelegation o => rejectVestingSharesDelegation o
  | .breakFreeReferral referral => breakFreeReferral referral
  | .witnessUpdate o => witnessUpdate o
  | .chainPropertiesUpdate o => chainPropertiesUpdate o
  | .transitToCyberway o => transitToCyberway o
  | .accountWitnessVote o => accountWitnessVote o
  | .accountWitnessProxy o => accountWitnessProxy o
  | .feedPublish o => feedPublish o
  | .pow o => pow producing o
  | .pow2 o => pow2 o
  | .reportOverProduction _ => reportOverProduction
  | .comment o => comment producing o
  | .commentOptions o => commentOptions producing o
  | .deleteComment o => deleteComment producing o
  | .vote o => vote o
  | .convert o => convert o
  | .limitOrderCreate o => limitOrderCreate o
  | .limitOrderCreate2 o => limitOrderCreate2 o
  | .limitOrderCancel o => limitOrderCancel o
  | .custom _ => pure ()
  | .proposalCreate author title proposedOperations expirationTime reviewPeriodTime =>
    let inner := { nesting with creates := nesting.creates + 1 }
    proposalCreate producing inner (apply inner) author title proposedOperations expirationTime
      reviewPeriodTime
  | .proposalUpdate o =>
    let inner := { nesting with updates := nesting.updates + 1 }
    proposalUpdate producing inner (apply inner) o
  | .proposalDelete o => proposalDelete o

/-- `apply_operation` -/
def applyOperation (producing : Bool) : (stack : Nat) → Nesting → Operation → Eval Unit
  | 0, _, _ => throw (.crash "stack exhausted")
  | stack + 1, nesting, op => evaluate producing nesting (applyOperation producing stack) op

/-- `proposal_expiration_index.begin()` while it has expired: the earliest expiration,
the oldest proposal among equals. -/
def Database.nextExpiredProposal (s : Database) : Option (ProposalKey × Proposal) :=
  ((s.proposals.entries.filter fun e => e.2.expirationTime ≤ s.head.time).insertionSort
    fun a b => a.2.expirationTime ≤ b.2.expirationTime).head?

/-- The loop of `clear_expired_proposals`; every pass removes the first proposal. -/
def clearProposals (apply : Operation → Eval Unit) : (passes : Nat) → Eval Unit
  | 0 => pure ()
  | passes + 1 => do
    let s ← get
    s.nextExpiredProposal.elim (pure ()) fun (key, p) => do
      (if p.isAuthorizedToExecute s then
        attempt Error.isException (pushProposal apply key p) (removeProposal key p)
      else removeProposal key p)
      clearProposals apply passes

/-- `clear_expired_proposals` -/
def clearExpiredProposals (stack : Nat) : Eval Unit := do
  let s ← get
  clearProposals (applyOperation false stack {}) s.proposals.entries.length

/-! ## Footprints -/

/-- What operations leave alone: the head block and what only the steps of a block
change. -/
abbrev operationCells : Footprint
  | .head | .lib | .transit | .schedule | .hardforks | .feed | .confirmation | .transactions
  | .blockSummary => false
  | _ => true

section Footprints

set_option synthInstance.maxSize 1000000

variable {F : Footprint}

instance {α} [DecidableEq α] {toRemove available : List α} : Touches F (checkExisting toRemove available) := by
  unfold checkExisting; infer_instance

instance {α} [DecidableEq α] {toAdd available : List α} : Touches F (checkDuplicate toAdd available) := by
  unfold checkDuplicate; infer_instance

section

variable [Allows (F .proposals)] [Allows (F .requiredApprovals)] [Allows (F .nextProposalId)]

deriving instance Touches F for removeProposal, checkProposalDepth, checkProposalTimes, getProposal,
  checkProposal, storeProposal, proposalCreate, updateProposal, proposalDelete

end

section

variable [Allows (F .proposals)] [Allows (F .requiredApprovals)] [∀ op, Touches F (apply op)]

instance {key p} : Touches F (pushProposal apply key p) := by
  unfold pushProposal; infer_instance

instance {producing nesting} {o} : Touches F (proposalUpdate producing nesting apply o) := by
  unfold proposalUpdate; infer_instance

instance {passes} : Touches F (clearProposals apply passes) := by
  induction passes with
  | zero => unfold clearProposals; infer_instance
  | succ passes ih => unfold clearProposals; infer_instance

end

instance {producing nesting} {apply : Nesting → Operation → Eval Unit} {op}
    [∀ nesting op, Touches operationCells (apply nesting op)] :
    Touches operationCells (evaluate producing nesting apply op) := by
  cases op <;> (unfold evaluate; infer_instance)

instance {producing stack nesting op} : Touches operationCells (applyOperation producing stack nesting op) := by
  induction stack generalizing nesting op with
  | zero => unfold applyOperation; infer_instance
  | succ stack ih => unfold applyOperation; infer_instance

deriving instance Touches operationCells for clearExpiredProposals

end Footprints

end Golos
