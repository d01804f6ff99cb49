import Golos.Chain.Hardfork
import Golos.Chain.Maintenance
import Golos.Chain.Proposal

/-! # Blocks, the genesis and the runs of a chain

`blockSteps` lists what `_apply_block` does, in its order.  `Reaches` is the state
machine a chain is: from the genesis, block after block and step after step, so its
states are those after every transaction and after every step of a block.  `Chain`
keeps the states between two blocks.
-/

namespace Golos

open Stateful

/-! ## Transactions -/

/-- `signed_transaction`.  `id` is its hash, `signatureKeys` are the keys recovered
from its signatures. -/
structure Transaction where
  id : Nat
  refBlockNum : Nat
  refBlockPrefix : Nat
  expiration : Time
  operations : List Operation
  signatureKeys : List PublicKey

/-- `get_shared_db_merkle` -/
def sharedDbMerkle : List (Nat × Nat) :=
  [(3705111, 0x0a8f0fd5450c3706ec8b8cbad795cd0b3679bf35),
    (3705120, 0x2027edb72b671f7011c8cc4c7a8b59c39b305093),
    (3713940, 0xbf8a1d516927c506ebdbb7b38bef2e992435435f),
    (3714132, 0xe8b77773d268b72c8d650337b8cce360bbe64779),
    (3714567, 0x45af59a8c2d7d4a606151ef5dae03d2dfe13fbdd),
    (3714588, 0xe64275443bdc82f104ac936486d367af8f6d1584),
    (4138790, 0xf65a3a788a2ef52406d8ba5705d7288be228403f),
    (5435426, 0x0b32538b2d22bd3146d54b6e3cb5ae8b9780e8a5)]

/-- The block after the head is one of those whose checks are relaxed. -/
def Database.nextBlockIsExempt (s : Database) : Bool :=
  sharedDbMerkle.any fun e => e.1 = s.head.headBlockNumber + 1

/-- `block_id._hash[1]`, the word after the block number. -/
def BlockId.secondWord (id : BlockId) : Nat := id.digest % 2 ^ 32

def Transaction.required (trx : Transaction) : RequiredAuthorities := requiredAuthorities trx.operations

/-- `signed_transaction::verify_authority` -/
def Transaction.verifyAuthority (trx : Transaction) (s : Database) : Except AuthorityError Unit :=
  Golos.verifyAuthority s.authorityGetter trx.required trx.signatureKeys [] [] []

/-- The authority check of `_validate_transaction`: a missing active authority is let
through in the exempt blocks. -/
def Transaction.authorityChecked (trx : Transaction) (s : Database) : Except Error Unit :=
  match trx.verifyAuthority s with
  | .ok _ => .ok ()
  | .error (.missingActive accounts keys) =>
    if s.nextBlockIsExempt then .ok () else .error (AuthorityError.missingActive accounts keys).toError
  | .error e => .error e.toError

/-- `STEEMIT_MAX_TIME_UNTIL_EXPIRATION` -/
def maxTimeUntilExpiration : Nat := 60 * 60

/-- The reference block and the expiration; neither is checked in block 1. -/
def validateExpiration (producing : Bool) (trx : Transaction) : Eval Unit := do
  let s ← get
  when (0 < s.head.headBlockNumber) do
    check (trx.refBlockPrefix = (s.blockSummary (trx.refBlockNum % 2 ^ 16)).secondWord)
      (.authority "Transaction field ref_block_prefix has invalid value")
    check (trx.expiration ≤ s.head.time + maxTimeUntilExpiration)
      (.authority "Transaction field expiration has invalid value")
    check (producing ∨ s.hasHardfork 9 → s.head.time < trx.expiration)
      (.authority "Transaction is expired. Now $now, expired $expired")
    check (s.head.time ≤ trx.expiration)
      (.authority "Transaction is expired. Now $now, expired $expired")

/-- `_validate_transaction` -/
def validateTransaction (producing : Bool) (trx : Transaction) : Eval Unit := do
  fromExcept (validateOperations trx.operations)
  check trx.signatureKeys.Nodup (.authority "Duplicate Signature detected")
  let s ← get
  fromExcept (trx.authorityChecked s)
  validateExpiration producing trx

/-- `_apply_transaction` up to the operations -/
def admitTransaction (producing : Bool) (trx : Transaction) : Eval Unit := do
  let s ← get
  check (s.transactions.find? trx.id = none) (.logic "Duplicate transaction check failed")
  validateTransaction producing trx
  (trx.required.active ++ trx.required.owner ++ trx.required.posting).forM fun name => do
    let _ ← getAccount name
    pure ()
  create (·.transactions) updateTransactions "transaction" trx.id trx.expiration

/-- `_apply_transaction` -/
def applyTransaction (stack : Nat) (producing : Bool) (trx : Transaction) : Eval Unit := do
  admitTransaction producing trx
  trx.operations.forM (applyOperation producing stack {})

/-- `clear_expired_transactions` -/
def clearExpiredTransactions : Eval Unit := do
  let s ← get
  updateTransactions fun t => t.filter fun _ expiration => s.head.time ≤ expiration

/-! ## Blocks -/

/-- `block_header_extensions` -/
inductive HeaderExtension where
  | void
  | version (runningVersion : Nat)
  | hardforkVersionVote (version : Nat) (time : Time)

/-- `signed_block`.  `digest` is the hash in its id, `merkleRoot` what
`calculate_merkle_root` gives, `signee` the key its signature recovers to and `size`
the length of its serialisation. -/
structure Block where
  previous : BlockId
  timestamp : Time
  witness : AccountName
  transactionMerkleRoot : Nat
  extensions : List HeaderExtension
  transactions : List Transaction
  digest : Nat
  merkleRoot : Nat
  signee : PublicKey
  size : Nat

namespace Block

/-- `block_num` -/
def num (b : Block) : Nat := b.previous.num + 1

def id (b : Block) : BlockId := ⟨b.num, b.digest⟩

end Block

/-- `_validate_block` -/
def validateBlock (b : Block) : Eval Unit := do
  check (b.transactionMerkleRoot = b.merkleRoot ∨ (b.num, b.merkleRoot) ∈ sharedDbMerkle)
    (.assertion "Merkle check failed")
  let s ← get
  check (s.hasHardfork 12 → b.size ≤ s.rates.maximumBlockSize) (.assertion "Block Size is too Big")

/-- `validate_block_header` -/
def validateBlockHeader (b : Block) : Eval Unit := do
  let s ← get
  check (s.head.headBlockId = b.previous) (.assertion "head_block_id() == next_block.previous")
  check (s.head.time < b.timestamp) (.assertion "head_block_time() < next_block.timestamp")
  let witness ← getWitness b.witness
  check (b.signee = witness.info.signingKey) (.assertion "next_block.validate_signee(witness.signing_key)")
  check (0 < s.slotAtTime b.timestamp) (.assertion "slot_num > 0")
  check (b.witness = s.scheduledWitness (s.slotAtTime b.timestamp))
    (.assertion "Witness produced block at wrong time")

def setCurrentWitness (witness : AccountName) : Eval Unit :=
  modifyHead fun h => { h with currentWitness := witness }

/-- `process_header_extensions` -/
def processHeaderExtensions (b : Block) : Eval Unit :=
  b.extensions.forM fun e =>
    modifyWitnessInfo b.witness fun i =>
      match e with
      | .void => i
      | .version runningVersion => { i with runningVersion }
      | .hardforkVersionVote version time =>
        { i with hardforkVersionVote := version, hardforkTimeVote := time }

/-- From hardfork 5 on, a block is taken only from a witness that runs the hardfork. -/
def checkRunningVersion (b : Block) : Eval Unit := do
  let s ← get
  when (s.hasHardfork 5) do
    let witness ← getWitness b.witness
    check (s.hardforks.currentHardforkVersion ≤ witness.info.runningVersion)
      (.assertion "Block produced by witness that is not running current hardfork")

/-- After the transit only empty blocks are taken. -/
def checkTransit (b : Block) : Eval Unit := do
  let s ← get
  check (s.isTransitEnabled = true → b.transactions.isEmpty)
    (.assertion "Migrating to CyberWay disabled accepting blocks with transactions.")

/-- `create_block_summary` -/
def createBlockSummary (b : Block) : Eval Unit :=
  updateBlockSummary fun summary n => if n = b.num % 2 ^ 16 then b.id else summary n

/-- The steps `_apply_block` takes only while there is no transit. -/
def unlessTransit (m : Eval Unit) : Eval Unit := do
  let s ← get
  when (!s.isTransitEnabled) m

/-- The steps of `_apply_block`, each under the name of the function it calls. -/
inductive BlockStep where
  | validateBlock (b : Block)
  | validateBlockHeader (b : Block)
  | setCurrentWitness (b : Block)
  | processHeaderExtensions (b : Block)
  | checkRunningVersion (b : Block)
  | checkTransit (b : Block)
  | applyTransaction (trx : Transaction)
  | updateGlobalDynamicData (b : Block)
  | updateSigningWitness (b : Block)
  | updateLastIrreversibleBlock
  | createBlockSummary (b : Block)
  | clearExpiredProposals
  | clearExpiredTransactions
  | clearExpiredOrders
  | clearExpiredDelegations
  | updateWitnessSchedule
  | updateMedianFeed
  | updateVirtualSupply
  | clearNullAccountBalance
  | processFunds
  | processConversions
  | processCommentCashout
  | processVestingWithdrawals
  | processSavingsWithdraws
  | payLiquidityReward
  | accountRecoveryProcessing
  | expireEscrowRatification
  | processDeclineVotingRights
  | processHardforks
  | processTransitToCyberway (b : Block)

def BlockStep.run (net : Network) : BlockStep → Eval Unit
  | .validateBlock b => Golos.validateBlock b
  | .validateBlockHeader b => Golos.validateBlockHeader b
  | .setCurrentWitness b => Golos.setCurrentWitness b.witness
  | .processHeaderExtensions b => Golos.processHeaderExtensions b
  | .checkRunningVersion b => Golos.checkRunningVersion b
  | .checkTransit b => Golos.checkTransit b
  | .applyTransaction trx => Golos.applyTransaction net.stack false trx
  | .updateGlobalDynamicData b => Golos.updateGlobalDynamicData b.num b.id b.timestamp b.witness b.size
  | .updateSigningWitness b => Golos.updateSigningWitness b.witness b.num b.timestamp
  | .updateLastIrreversibleBlock => Golos.updateLastIrreversibleBlock
  | .createBlockSummary b => Golos.createBlockSummary b
  | .clearExpiredProposals => unlessTransit (Golos.clearExpiredProposals net.stack)
  | .clearExpiredTransactions => unlessTransit Golos.clearExpiredTransactions
  | .clearExpiredOrders => unlessTransit Golos.clearExpiredOrders
  | .clearExpiredDelegations => unlessTransit Golos.clearExpiredDelegations
  | .updateWitnessSchedule => Golos.updateWitnessSchedule
  | .updateMedianFeed => unlessTransit Golos.updateMedianFeed
  | .updateVirtualSupply => unlessTransit Golos.updateVirtualSupply
  | .clearNullAccountBalance => unlessTransit Golos.clearNullAccountBalance
  | .processFunds => unlessTransit Golos.processFunds
  | .processConversions => unlessTransit Golos.processConversions
  | .processCommentCashout => unlessTransit Golos.processCommentCashout
  | .processVestingWithdrawals => unlessTransit Golos.processVestingWithdrawals
  | .processSavingsWithdraws => unlessTransit Golos.processSavingsWithdraws
  | .payLiquidityReward => unlessTransit Golos.payLiquidityReward
  | .accountRecoveryProcessing => unlessTransit Golos.accountRecoveryProcessing
  | .expireEscrowRatification => unlessTransit Golos.expireEscrowRatification
  | .processDeclineVotingRights => unlessTransit Golos.processDeclineVotingRights
  | .processHardforks => net.processHardforks
  | .processTransitToCyberway b => Golos.processTransitToCyberway b.num

/-- What `_apply_block` does before the transactions. -/
def headerSteps (b : Block) : List BlockStep :=
  [.validateBlock b, .validateBlockHeader b, .setCurrentWitness b, .processHeaderExtensions b,
    .checkRunningVersion b, .checkTransit b]

/-- What it does after them, to take the block as the new head. -/
def adoptionSteps (b : Block) : List BlockStep :=
  [.updateGlobalDynamicData b, .updateSigningWitness b, .updateLastIrreversibleBlock,
    .createBlockSummary b]

/-- The processing at the end of every block. -/
def processingSteps (b : Block) : List BlockStep :=
  [.clearExpiredProposals, .clearExpiredTransactions, .clearExpiredOrders, .clearExpiredDelegations,
    .updateWitnessSchedule, .updateMedianFeed, .updateVirtualSupply, .clearNullAccountBalance,
    .processFunds, .processConversions, .processCommentCashout, .processVestingWithdrawals,
    .processSavingsWithdraws, .payLiquidityReward, .updateVirtualSupply, .accountRecoveryProcessing,
    .expireEscrowRatification, .processDeclineVotingRights, .processHardforks,
    .processTransitToCyberway b]

/-- The steps of `_apply_block`, in order. -/
def blockSteps (b : Block) : List BlockStep :=
  headerSteps b ++ (b.transactions.map .applyTransaction ++ (adoptionSteps b ++ processingSteps b))

/-- `_apply_block` -/
def Network.applyBlock (net : Network) (b : Block) : Eval Unit :=
  (blockSteps b).forM fun step => step.run net

/-! ## The genesis -/

/-- `STEEMIT_INIT_SUPPLY` -/
def initSupply : Int := 43306176000

/-- `STEEMIT_MAX_BLOCK_SIZE` -/
def maxBlockSize : Nat := 1024 * 64 * 3 * 2000

/-- An `authority` with only its threshold set. -/
def Authority.bare (threshold : Nat) : Authority := ⟨threshold, [], []⟩

/-- `create<account_object>` and `create<account_authority_object>` of `init_genesis` -/
def createGenesisAccount (name : AccountName) (account : Account) (owner active posting : Authority) :
    Eval Unit := do
  createAccount name account
  createAuthority name owner active posting

/-- `init_genesis` -/
def Network.initGenesis (net : Network) : Eval Unit := do
  createGenesisAccount .miners {} (.bare 1) (.bare 1) (.bare 0)
  createGenesisAccount .null {} (.bare 1) (.bare 1) (.bare 0)
  createGenesisAccount .temp {} (.bare 0) (.bare 0) (.bare 0)
  let key := Authority.ofKey net.initPublicKey
  createGenesisAccount .initMiner
    { balances := { balance := initSupply }, info := { memoKey := net.initPublicKey } } key key key
  createWitness .initMiner { signingKey := net.initPublicKey, schedule := .miner } {}
  modifyHead fun h => { h with
    currentWitness := .initMiner
    time := Evaluator.genesisTime
    recentSlotsFilled := BitVec.allOnes 128
    participationCount := 128 }
  modifySupply fun p => { p with currentSupply := initSupply }
  modifyRates fun r => { r with virtualSupply := initSupply, maximumBlockSize := maxBlockSize }
  net.snapshot.forM fun a =>
    createGenesisAccount a.name { info := { memoKey := a.memoKey, recoveryAccount := .initMiner } }
      a.owner a.active a.posting
  modifyHardforks fun h => { h with processedHardforks := [Evaluator.genesisTime] }
  modifySchedule fun w => { w with currentShuffledWitnesses := [.initMiner] }

/-- A network without a snapshot and without compromised accounts. -/
def Network.bare : Network where
  stack := 8
  snapshot := []
  initPublicKey := 1
  compromisedAccounts := []
  compromisedKey := 2
  null_not_compromised := List.not_mem_nil

/-- The state a computation leads to; the one it started from where it throws. -/
def stateAfter (m : Eval Unit) (s : Database) : Database :=
  match m s with
  | .ok (_, t) => t
  | .error _ => s

theorem stateAfter_eq {m : Eval Unit} {s : Database} (succeeds : (m s).isOk = true) :
    m s = .ok ((), stateAfter m s) := by
  rw [stateAfter]
  cases run : m s with
  | error e => rw [run] at succeeds; cases succeeds
  | ok r => rfl

/-- The first state of the bare network. -/
def bareGenesis : Database := stateAfter Network.bare.initGenesis {}

/-! ## Footprints -/

section Footprints

set_option synthInstance.maxSize 1000000

variable {F : Footprint} [Allows (F .transactions)] [Allows (F .head)] [Allows (F .witnessInfo)]
  [Allows (F .blockSummary)] [Allows (F .balances)] [Allows (F .vesting)] [Allows (F .proxy)]
  [Allows (F .proxied)] [Allows (F .votedFor)] [Allows (F .withdrawal)] [Allows (F .delegated)]
  [Allows (F .activity)] [Allows (F .rewards)] [Allows (F .info)] [Allows (F .authorities)] [Allows (F .supply)]
  [Allows (F .rates)] [Allows (F .schedule)] [Allows (F .hardforks)] [Allows (F .tally)]

deriving instance Touches F for validateExpiration, validateTransaction, admitTransaction,
  clearExpiredTransactions, validateBlock, validateBlockHeader, setCurrentWitness, processHeaderExtensions,
  checkRunningVersion, checkTransit, createBlockSummary, createGenesisAccount, Network.initGenesis

instance {R : Database → Database → Prop} [Std.Refl R] [IsTrans Database R] {m : Eval Unit} [Preserves R m] :
    Preserves R (unlessTransit m) := by
  unfold unlessTransit; infer_instance

end Footprints

/-! ## Runs -/

/-- The runs whose steps all meet the condition `allowed`: the blocks so far, the steps of
the last one that are still to be taken, and the state. -/
inductive Network.Reaches (net : Network) (allowed : Database → BlockStep → Prop) :
    List Block → List BlockStep → Database → Prop
  | genesis {s : Database} : net.initGenesis {} = .ok ((), s) → Reaches net allowed [] [] s
  | block {blocks : List Block} {s : Database} (b : Block) :
      Reaches net allowed blocks [] s → Reaches net allowed (blocks ++ [b]) (blockSteps b) s
  | step {blocks : List Block} {step : BlockStep} {rest : List BlockStep} {s s' : Database} :
      Reaches net allowed blocks (step :: rest) s → allowed s step →
        step.run net s = .ok ((), s') → Reaches net allowed blocks rest s'

/-- The chains of whole blocks that apply one after the other, and the state they lead to. -/
inductive Network.Chain (net : Network) : List Block → Database → Prop
  | genesis {s : Database} : net.initGenesis {} = .ok ((), s) → Chain net [] s
  | block {blocks : List Block} {b : Block} {s s' : Database} :
      Chain net blocks s → net.applyBlock b s = .ok ((), s') → Chain net (blocks ++ [b]) s'

/-- A state the chain passes through, after any step of any block. -/
def Network.Reachable (net : Network) (s : Database) : Prop :=
  ∃ blocks rest, net.Reaches (fun _ _ => True) blocks rest s

theorem bareGenesis_eq : Network.bare.initGenesis {} = .ok ((), bareGenesis) := rfl

theorem bareGenesis_reachable : Network.bare.Reachable bareGenesis := ⟨[], [], .genesis bareGenesis_eq⟩

section Runs

variable {net : Network} {allowed : Database → BlockStep → Prop}

/-- The next steps of a block can be run from where the block stands. -/
theorem Network.Reaches.after {blocks : List Block} {steps rest : List BlockStep} {s s' : Database}
    (reached : net.Reaches (fun _ _ => True) blocks (steps ++ rest) s)
    (run : (steps.forM fun step => step.run net) s = .ok ((), s')) : net.Reaches (fun _ _ => True) blocks rest s' := by
  induction steps generalizing s with
  | nil =>
    obtain ⟨_, same⟩ := pure_eq_ok.mp run
    exact same ▸ reached
  | cons step steps ih =>
    obtain ⟨_, middle, first, last⟩ := bind_eq_ok.mp run
    exact ih (.step reached trivial first) last

/-- The chains are the runs that stop between two blocks. -/
theorem Network.Chain.reaches {blocks : List Block} {s : Database} (chain : net.Chain blocks s) :
    net.Reaches (fun _ _ => True) blocks [] s := by
  induction chain with
  | genesis start => exact .genesis start
  | @block _ b _ _ _ run ih =>
    have begun := Reaches.block b ih
    rw [← List.append_nil (blockSteps b)] at begun
    exact begun.after run

end Runs

end Golos
