import Golos.Chain.Inflation
import Golos.Chain.Evaluator.Account

/-! # Witness evaluators

Votes and proxies, the properties and feeds of witnesses, and proof of work.
-/

namespace Golos

open Stateful

namespace Evaluator

/-! ## Proxies and votes -/

/-- The loop over the proxies behind the new one: `seen` is `proxy_chain`.  A chain of
more than `STEEMIT_MAX_PROXY_RECURSION_DEPTH` accounts is refused, which also bounds
the loop. -/
def checkProxyChain : (steps : Nat) → (seen : List AccountName) → AccountName → Eval Unit
  | 0, _, _ => throw (.logic "Proxy chain is too long.")
  | steps + 1, seen, current => do
    let a ← getAccount current
    if a.proxy = .blank then pure ()
    else do
      let _ ← getAccount a.proxy
      checkLogic (a.proxy ∉ seen) "This proxy would create a proxy loop."
      checkLogic (seen.length + 1 ≤ maxProxyRecursionDepth) "Proxy chain is too long."
      checkProxyChain steps (a.proxy :: seen) a.proxy

/-- `account_witness_proxy_evaluator` -/
def accountWitnessProxy (o : AccountWitnessProxyOperation) : Eval Unit := do
  let account ← getAccount o.account
  checkLogic (account.proxy ≠ o.proxy) "Proxy must change."
  checkLogic account.activity.canVote
    "Account has declined the ability to vote and cannot proxy votes."
  adjustProxiedWitnessVotesArray o.account fun i => -account.voteArray i
  if o.proxy ≠ .blank then do
    checkProxyChain maxProxyRecursionDepth [o.proxy, o.account] o.proxy
    clearWitnessVotes o.account
    setProxy o.account o.proxy
    adjustProxiedWitnessVotesArray o.account account.voteArray
  else setProxy o.account o.proxy

/-- `STEEMIT_MAX_ACCOUNT_WITNESS_VOTES` -/
def maxAccountWitnessVotes : Nat := 30

/-- What a vote that comes or goes adds to the witness, by the hardfork.  Before
hardfork 3 the weight goes to every witness the account has voted for. -/
def countWitnessVote (voter witness : AccountName) (weight : Int) : Eval Unit := do
  let s ← get
  if s.hasHardfork 2 then
    if s.hasHardfork 3 then adjustWitnessVote witness weight else adjustProxiedWitnessVotes voter weight
  else do
    let w ← getWitness witness
    check (isShare (w.tally.votes + weight)) (.assertion "Integer Overflow")
    modifyTally witness fun t => { t with votes := t.votes + weight }

/-- `account_witness_vote_evaluator` -/
def accountWitnessVote (o : AccountWitnessVoteOperation) : Eval Unit := do
  let s ← get
  let voter ← getAccount o.account
  checkLogic (voter.proxy = .blank)
    "A proxy is currently set, please clear the proxy before voting for a witness."
  when o.approve (checkLogic voter.activity.canVote "Account has declined its voting rights.")
  let _ ← getWitness o.witness
  if s.witnessVotes.find? (o.account, o.witness) = none then do
    checkLogic o.approve "Vote doesn't exist, user must indicate a desire to approve witness."
    when (s.hasHardfork 2) <|
      checkLogic (voter.witnessesVotedFor < maxAccountWitnessVotes)
        "Account has voted for too many witnesses."
    create (·.witnessVotes) updateWitnessVotes "witness_vote" (o.account, o.witness) ()
    countWitnessVote o.account o.witness voter.witnessVoteWeight
    modifyWitnessesVotedFor o.account (· + 1)
  else do
    checkLogic (!o.approve) "Vote currently exists, user must indicate a desire to reject witness."
    countWitnessVote o.account o.witness (-voter.witnessVoteWeight)
    modifyWitnessesVotedFor o.account (· - 1)
    remove (·.witnessVotes) updateWitnessVotes "witness_vote" (o.account, o.witness)

/-! ## Properties and feeds -/

/-- `chain_properties_19::operator=` for the older versions -/
def ChainProperties.assign (p : ChainProperties) : VersionedChainProperties → ChainProperties
  | .v17 props => { p with toChainProperties17 := props }
  | .v18 props => { p with toChainProperties18 := props }
  | .v19 props => props

def isVersion19 : VersionedChainProperties → Bool
  | .v19 _ => true
  | _ => false

/-- Modify the witness if there is one, else create it. -/
def upsertWitness (owner : AccountName) (now : Time) (f : WitnessInfo → WitnessInfo) : Eval Unit := do
  let s ← get
  if s.witnesses.find? owner = none then createWitness owner (f { created := now }) {}
  else modifyWitnessInfo owner f

/-- `witness_update_evaluator` -/
def witnessUpdate (o : WitnessUpdateOperation) : Eval Unit := do
  let s ← get
  let _ ← getAccount o.owner
  upsertWitness o.owner s.head.time fun w => { w with
    signingKey := o.blockSigningKey
    props := if s.hasHardfork 18 then w.props else ChainProperties.assign w.props (.v17 o.props) }

/-- `chain_properties_update_evaluator` -/
def chainPropertiesUpdate (o : ChainPropertiesUpdateOperation) : Eval Unit := do
  let s ← get
  let _ ← getAccount o.owner
  when (isVersion19 o.props) (requireHardfork 19 "chain_properties_19")
  upsertWitness o.owner s.head.time fun w => { w with props := ChainProperties.assign w.props o.props }

/-- `STEEMIT_GENESIS_TIME` -/
def genesisTime : Time := 1476788400

/-- `transit_to_cyberway_evaluator` -/
def transitToCyberway (o : TransitToCyberwayOperation) : Eval Unit := do
  requireHardfork 21 "transit_to_cyberway"
  let s ← get
  let _ ← getAccount o.owner
  let witness ← getWitness o.owner
  checkOpParam "vote_to_transit"
    (o.voteToTransit ≠ decide (witness.info.transitToCyberwayVote ≠ genesisTime))
    "You should change your vote."
  modifyWitnessInfo o.owner fun w =>
    { w with transitToCyberwayVote := if o.voteToTransit then s.head.time else genesisTime }

/-- `feed_publish_evaluator` -/
def feedPublish (o : FeedPublishOperation) : Eval Unit := do
  let s ← get
  modifyWitnessInfo o.publisher fun w =>
    { w with sbdExchangeRate := o.exchangeRate, lastSbdExchangeUpdate := s.head.time }

/-! ## Proof of work -/

/-- `get_pow_target` -/
def powTarget (s : Database) : Nat := (2 ^ 256 - 1) / 2 ^ (s.pow.numPowWitnesses / 4 + 4)

/-- `get_pow_summary_target` -/
def powSummaryTarget (s : Database) : Nat :=
  if 1004 ≤ s.pow.numPowWitnesses then 0
  else ((if s.hasHardfork 16 then 0xFE00 else 0xFC00) - 0x40 * s.pow.numPowWitnesses) * 2 ^ 16

/-- An account found by mining: one key holds all its authorities. -/
def createMinedAccount (name : AccountName) (key : PublicKey) (recoveryAccount : AccountName) :
    Eval Unit := do
  let s ← get
  createAccount name
    { activity := { lastVoteTime := s.head.time }
      info := { memoKey := key, created := s.head.time, recoveryAccount } }
  createAuthority name (.ofKey key) (.ofKey key) (.ofKey key)

/-- One more witness waits to produce a block for its work. -/
def countPow : Eval Unit :=
  modifyPow fun p => ⟨(p.totalPow + 1) % 2 ^ 64, p.numPowWitnesses + 1⟩

/-- Pay the producer of the block for including the work. -/
def payPowReward (reward : Int) (liquid : Bool) : Eval Unit := do
  adjustSupply (.steem reward) true
  let s ← get
  if liquid then adjustBalance s.head.currentWitness (.steem reward)
  else do
    let _ ← createVesting s.head.currentWitness (.steem reward)
    pure ()

/-- The checks of `pow_apply` on the account that worked. -/
def checkPow (o : PowOperation) : Eval Unit := do
  let s ← get
  let account ← getAccount o.workerAccount
  let auth ← getAuthority o.workerAccount
  checkLogic (auth.active.numAuths = 1) "Miners can only have one key authority. $a"
  checkLogic (auth.active.keyAuths.map Prod.fst = [o.worker])
    "Work must be performed by key that signed the work."
  checkLogic (o.blockId = s.head.headBlockId) "pow not for last block"
  when (s.hasHardfork 13) <|
    checkLogic (account.info.lastAccountUpdate < s.head.time)
      "Worker account must not have updated their account this block."
  checkLogic (o.work < powTarget s) "Work lacks sufficient difficulty."

/-- `pow_evaluator`, with `pow_apply` -/
def pow (producing : Bool) (o : PowOperation) : Eval Unit := do
  let s ← get
  check (!s.hasHardfork 13) (.unsupportedOperation "pow is deprecated. Use pow2 instead")
  when (producing ∨ s.hasHardfork 5) <|
    checkLogic (∀ w ∈ s.witnesses.values, w.info.lastWork ≠ o.work)
      "Duplicate work discovered ($work $witness)"
  when (s.accounts.find? o.workerAccount = none) <|
    createMinedAccount o.workerAccount o.worker (if s.hasHardfork 11 then .blank else .initMiner)
  checkPow o
  countPow
  let t ← get
  t.witnesses.find? o.workerAccount |>.elim
    (createWitness o.workerAccount
      { props := ChainProperties.assign {} (.v17 o.props)
        signingKey := o.worker
        powWorker := t.pow.totalPow
        lastWork := o.work } {})
    fun w => do
      checkLogic (w.info.powWorker = 0) "This account is already scheduled for pow block production."
      modifyWitnessInfo o.workerAccount fun w => { w with
        props := ChainProperties.assign w.props (.v17 o.props)
        powWorker := t.pow.totalPow
        lastWork := o.work }
  let early := decide (t.head.headBlockNumber < startMinerVotingBlock)
  let reward ← fromExcept t.powReward
  payPowReward (if early then reward * maxWitnesses else reward) early

/-- The checks of `pow2_evaluator` on the work. -/
def checkPow2 (o : Pow2Operation) : Eval Unit := do
  let s ← get
  (if s.hasHardfork 16 then do
    check (o.kind = .equihash) (.assertion "static_variant")
    checkLogic (o.prevBlock = s.head.headBlockId) "Equihash pow op not for last block"
    checkLogic (s.lastIrreversibleBlockNum < o.inputPrevBlock.num)
      "Equihash pow done for block older than last irreversible block num"
  else do
    check (o.kind = .pow2) (.assertion "static_variant")
    checkLogic (o.inputPrevBlock = s.head.headBlockId) "Work not for last block")
  checkLogic (o.powSummary < powSummaryTarget s) "Insufficient work difficulty. Work: $w, Target: $t"
  checkOpParam "props.maximum_block_size" (minBlockSizeLimit * 2 ≤ o.props.maximumBlockSize)
    "Voted maximum block size is too small. Must be more then $max bytes."

/-- `pow2_evaluator` -/
def pow2 (o : Pow2Operation) : Eval Unit := do
  checkPow2 o
  countPow
  let s ← get
  (if s.accounts.find? o.workerAccount = none then do
    let key ← require o.newOwnerKey (.invalidParameter "new_owner_key" "Key is not valid.")
    createMinedAccount o.workerAccount key .blank
    createWitness o.workerAccount
      { props := ChainProperties.assign {} (.v17 o.props)
        signingKey := key
        powWorker := s.pow.totalPow } {}
  else do
    checkLogic (o.newOwnerKey = none) "Cannot specify an owner key unless creating account."
    let w ← require (s.witnesses.find? o.workerAccount)
      (.logic "Witness must be created for existing account before mining.")
    checkLogic (w.info.powWorker = 0) "This account is already scheduled for pow block production."
    modifyWitnessInfo o.workerAccount fun w => { w with
      props := ChainProperties.assign w.props (.v17 o.props)
      powWorker := s.pow.totalPow })
  when (!s.hasHardfork 16) do
    let reward ← fromExcept s.powReward
    payPowReward reward false

/-- `report_over_production_evaluator` -/
def reportOverProduction : Eval Unit := do
  let s ← get
  check (!s.hasHardfork 4) (.unsupportedOperation "report_over_production_operation is disabled")

/-! ## Footprints -/

section Footprints

set_option synthInstance.maxSize 1000000

variable {F : Footprint}

instance {steps seen current} : Touches F (checkProxyChain steps seen current) := by
  induction steps generalizing seen current with
  | zero => unfold checkProxyChain; infer_instance
  | succ steps ih => unfold checkProxyChain; infer_instance

variable [Allows (F .proxied)] [Allows (F .tally)] [Allows (F .proxy)] [Allows (F .votedFor)]
  [Allows (F .witnessVotes)] [Allows (F .witnessInfo)] [Allows (F .balances)] [Allows (F .vesting)]
  [Allows (F .withdrawal)] [Allows (F .delegated)] [Allows (F .activity)] [Allows (F .rewards)]
  [Allows (F .info)] [Allows (F .authorities)] [Allows (F .pow)] [Allows (F .supply)] [Allows (F .rates)]

deriving instance Touches F for accountWitnessProxy, countWitnessVote, accountWitnessVote, upsertWitness,
  witnessUpdate, chainPropertiesUpdate, transitToCyberway, feedPublish, createMinedAccount, countPow,
  payPowReward, checkPow, pow, checkPow2, pow2, reportOverProduction

end Footprints

end Evaluator

end Golos
