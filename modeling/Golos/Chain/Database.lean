import Golos.Chain.Objects

/-! # The chain database and its footprints

`Database` is the state every evaluator and every block step works on, `Eval` the
computations over it: an exception leaves no partial change, because the source
runs every evaluator inside an undo session.

`Cell` names the parts of the state that change independently.  `Within F s s'`
says that `s'` differs from `s` only in the cells `F` allows.  Every primitive
below has an instance that names the one cell it writes, so the footprint of a
program is found by instance search over its text.  An invariant that depends on
a few cells is then kept by every program whose footprint avoids them.
-/

namespace Golos

open Stateful Store

variable {F : Footprint} {s : Database} {f : Account → Account} {k : AccountName}

structure Database where
  head : HeadProperties := {}
  lastIrreversibleBlockNum : Nat := 0
  supply : Supply := {}
  totalRewardShares2 : Uint128 := 0
  rates : Rates := {}
  pow : PowProperties := {}
  transit : TransitProperties := {}
  schedule : WitnessSchedule := {}
  hardforks : HardforkProperties := {}
  feed : FeedHistory := {}
  accounts : Store AccountName Account := .empty
  authorities : Store AccountName AccountAuthority := .empty
  ownerHistory : List OwnerAuthorityHistory := []
  recoveryRequests : Store AccountName AccountRecoveryRequest := .empty
  changeRecoveryRequests : Store AccountName ChangeRecoveryAccountRequest := .empty
  witnesses : Store AccountName Witness := .empty
  /-- `witness_vote_object`: the voting account, then the witness. -/
  witnessVotes : Store (AccountName × AccountName) Unit := .empty
  comments : Store CommentKey Comment := .empty
  commentVotes : Store (CommentKey × AccountName) CommentVote := .empty
  orders : Store (AccountName × Nat) LimitOrder := .empty
  converts : Store (AccountName × Nat) ConvertRequest := .empty
  escrows : Store (AccountName × Nat) Escrow := .empty
  savingsWithdraws : Store (AccountName × Nat) SavingsWithdraw := .empty
  liquidity : Store AccountName LiquidityRewardBalance := .empty
  routes : Store (AccountName × AccountName) WithdrawVestingRoute := .empty
  declineRequests : Store AccountName Time := .empty
  delegations : Store (AccountName × AccountName) VestingDelegation := .empty
  delegationExpirations : Store Nat VestingDelegationExpiration := .empty
  /-- `transaction_object`: the id of an applied transaction and its expiration. -/
  transactions : Store Nat Time := .empty
  proposals : Store (AccountName × String) Proposal := .empty
  /-- The id the next `proposal_object` gets. -/
  nextProposalId : Nat := 0
  /-- `required_approval_object`: an account and the id of a proposal. -/
  requiredApprovals : Store (AccountName × Nat) Unit := .empty
  postBandwidth : Store AccountName PostBandwidth := .empty
  /-- `block_summary_object`: the id of the last block with each low half of its number. -/
  blockSummary : Nat → BlockId := fun _ => .zero

abbrev Eval := StateT Database (Except Error)

/-! ## Cells and footprints -/

inductive Cell where
  | head | lib | supply | rewardShares | rates | pow | transit | schedule | hardforks | feed
  | balances | vesting | proxy | proxied | votedFor | withdrawal | delegated | activity | rewards
  | info | authorities | ownerHistory | recoveryRequests | changeRecoveryRequests
  | tally | confirmation | witnessInfo | witnessVotes
  | commentPlace | commentChildren | netRshares | childrenShares | commentPayout | commentVotes
  | orders | converts | escrows | savingsWithdraws | liquidity | routes | declineRequests
  | delegations | delegationExpirations | transactions | proposals | nextProposalId
  | requiredApprovals | postBandwidth | blockSummary
  deriving DecidableEq

/-- The type of a cell's content. -/
abbrev Cell.Content : Cell → Type
  | .head => HeadProperties
  | .lib => Nat
  | .supply => Supply
  | .rewardShares => Uint128
  | .rates => Rates
  | .pow => PowProperties
  | .transit => TransitProperties
  | .schedule => WitnessSchedule
  | .hardforks => HardforkProperties
  | .feed => FeedHistory
  | .balances => List (AccountName × Balances)
  | .vesting => List (AccountName × Int)
  | .proxy => List (AccountName × AccountName)
  | .proxied => List (AccountName × (Fin 4 → Int))
  | .votedFor => List (AccountName × Nat)
  | .withdrawal => List (AccountName × Withdrawal)
  | .delegated => List (AccountName × DelegatedShares)
  | .activity => List (AccountName × Activity)
  | .rewards => List (AccountName × RewardTotals)
  | .info => List (AccountName × AccountInfo)
  | .authorities => Store AccountName AccountAuthority
  | .ownerHistory => List OwnerAuthorityHistory
  | .recoveryRequests => Store AccountName AccountRecoveryRequest
  | .changeRecoveryRequests => Store AccountName ChangeRecoveryAccountRequest
  | .tally => List (AccountName × WitnessVotes)
  | .confirmation => AccountName → Confirmation
  | .witnessInfo => List (AccountName × WitnessInfo)
  | .witnessVotes => Store (AccountName × AccountName) Unit
  | .commentPlace => List (CommentKey × CommentPlace)
  | .commentChildren => List (CommentKey × Nat)
  | .netRshares => List (CommentKey × Int)
  | .childrenShares => List (CommentKey × Uint128)
  | .commentPayout => List (CommentKey × CommentPayout)
  | .commentVotes => Store (CommentKey × AccountName) CommentVote
  | .orders => Store (AccountName × Nat) LimitOrder
  | .converts => Store (AccountName × Nat) ConvertRequest
  | .escrows => Store (AccountName × Nat) Escrow
  | .savingsWithdraws => Store (AccountName × Nat) SavingsWithdraw
  | .liquidity => Store AccountName LiquidityRewardBalance
  | .routes => Store (AccountName × AccountName) WithdrawVestingRoute
  | .declineRequests => Store AccountName Time
  | .delegations => Store (AccountName × AccountName) VestingDelegation
  | .delegationExpirations => Store Nat VestingDelegationExpiration
  | .transactions => Store Nat Time
  | .proposals => Store (AccountName × String) Proposal
  | .nextProposalId => Nat
  | .requiredApprovals => Store (AccountName × Nat) Unit
  | .postBandwidth => Store AccountName PostBandwidth
  | .blockSummary => Nat → BlockId

/-- What is recorded of the blocks of a witness: nothing for a name without a witness, as
for a new one. -/
def Database.confirmationOf (s : Database) (name : AccountName) : Confirmation :=
  (s.witnesses.find? name).elim {} (·.confirmation)

def Cell.read : (c : Cell) → Database → c.Content
  | .head, s => s.head
  | .lib, s => s.lastIrreversibleBlockNum
  | .supply, s => s.supply
  | .rewardShares, s => s.totalRewardShares2
  | .rates, s => s.rates
  | .pow, s => s.pow
  | .transit, s => s.transit
  | .schedule, s => s.schedule
  | .hardforks, s => s.hardforks
  | .feed, s => s.feed
  | .balances, s => s.accounts.view (·.balances)
  | .vesting, s => s.accounts.view (·.vestingShares)
  | .proxy, s => s.accounts.view (·.proxy)
  | .proxied, s => s.accounts.view (·.proxiedVsfVotes)
  | .votedFor, s => s.accounts.view (·.witnessesVotedFor)
  | .withdrawal, s => s.accounts.view (·.withdrawal)
  | .delegated, s => s.accounts.view (·.delegated)
  | .activity, s => s.accounts.view (·.activity)
  | .rewards, s => s.accounts.view (·.rewards)
  | .info, s => s.accounts.view (·.info)
  | .authorities, s => s.authorities
  | .ownerHistory, s => s.ownerHistory
  | .recoveryRequests, s => s.recoveryRequests
  | .changeRecoveryRequests, s => s.changeRecoveryRequests
  | .tally, s => s.witnesses.view (·.tally)
  | .confirmation, s => s.confirmationOf
  | .witnessInfo, s => s.witnesses.view (·.info)
  | .witnessVotes, s => s.witnessVotes
  | .commentPlace, s => s.comments.view (·.place)
  | .commentChildren, s => s.comments.view (·.children)
  | .netRshares, s => s.comments.view (·.netRshares)
  | .childrenShares, s => s.comments.view (·.childrenRshares2)
  | .commentPayout, s => s.comments.view (·.payout)
  | .commentVotes, s => s.commentVotes
  | .orders, s => s.orders
  | .converts, s => s.converts
  | .escrows, s => s.escrows
  | .savingsWithdraws, s => s.savingsWithdraws
  | .liquidity, s => s.liquidity
  | .routes, s => s.routes
  | .declineRequests, s => s.declineRequests
  | .delegations, s => s.delegations
  | .delegationExpirations, s => s.delegationExpirations
  | .transactions, s => s.transactions
  | .proposals, s => s.proposals
  | .nextProposalId, s => s.nextProposalId
  | .requiredApprovals, s => s.requiredApprovals
  | .postBandwidth, s => s.postBandwidth
  | .blockSummary, s => s.blockSummary

/-- The cells a computation may write. -/
abbrev Footprint := Cell → Bool

/-- `s'` differs from `s` only in cells of `F`. -/
def Within (F : Footprint) (s s' : Database) : Prop := ∀ c, F c = false → c.read s' = c.read s

/-- A computation writes only cells of `F`. -/
abbrev Touches {α : Type} (F : Footprint) (m : Eval α) : Prop := Preserves (Within F) m

/-- What stays within some cells stays within more. -/
theorem Within.widen {G : Footprint} {s t : Database} (within : Within F s t)
    (covers : ∀ c, G c = false → F c = false := by
        intro c outside
        cases c <;> first | rfl | cases outside) : Within G s t :=
  fun c outside => within c (covers c outside)

instance : Std.Refl (Within F) := ⟨fun _ _ _ => rfl⟩

instance : IsTrans Database (Within F) :=
  ⟨fun _ _ _ h h' c outside => (h' c outside).trans (h c outside)⟩

/-- A cell outside the footprint reads the same after a run. -/
theorem read_of_run {α} {m : Eval α} {t : Database} {a : α} (F : Footprint) (c : Cell)
    [frame : Touches F m] (run : m s = .ok (a, t)) (outside : F c = false) : c.read t = c.read s :=
  frame.related s a t run c outside

/-- The footprint contains the cell, as a fact instance search can use. -/
class Allows (b : Bool) : Prop where
  allowed : b = true

instance : Allows true := ⟨rfl⟩

theorem Allows.ne_false {b : Bool} [h : Allows b] : ¬b = false := by
  simp [h.allowed]

/-- An update that changes one cell only is within every footprint that allows it. -/
theorem within_of_cell {f : Database → Database} (cell : Cell) [Allows (F cell)]
    (others : ∀ s c, c ≠ cell → c.read (f s) = c.read s := by
      intro _ c other
      cases c <;> first | rfl | exact absurd rfl other) :
    Touches F (modify f : Eval PUnit) :=
  preserves_modify fun s c outside => others s c fun same => Allows.ne_false (same ▸ outside)

/-! ## Global properties -/

def modifyHead (f : HeadProperties → HeadProperties) : Eval Unit :=
  modify fun s => { s with head := f s.head }

def setLastIrreversibleBlockNum (n : Nat) : Eval Unit :=
  modify fun s => { s with lastIrreversibleBlockNum := n }

def modifySupply (f : Supply → Supply) : Eval Unit := modify fun s => { s with supply := f s.supply }

def setTotalRewardShares2 (x : Uint128) : Eval Unit := modify fun s => { s with totalRewardShares2 := x }

def modifyRates (f : Rates → Rates) : Eval Unit := modify fun s => { s with rates := f s.rates }

def modifyPow (f : PowProperties → PowProperties) : Eval Unit := modify fun s => { s with pow := f s.pow }

def modifyTransit (f : TransitProperties → TransitProperties) : Eval Unit :=
  modify fun s => { s with transit := f s.transit }

def modifySchedule (f : WitnessSchedule → WitnessSchedule) : Eval Unit :=
  modify fun s => { s with schedule := f s.schedule }

def modifyHardforks (f : HardforkProperties → HardforkProperties) : Eval Unit :=
  modify fun s => { s with hardforks := f s.hardforks }

def modifyFeed (f : FeedHistory → FeedHistory) : Eval Unit := modify fun s => { s with feed := f s.feed }

/-! ## Whole stores -/

def updateAuthorities (f : Store AccountName AccountAuthority → Store AccountName AccountAuthority) :
    Eval Unit := modify fun s => { s with authorities := f s.authorities }

def updateOwnerHistory (f : List OwnerAuthorityHistory → List OwnerAuthorityHistory) : Eval Unit :=
  modify fun s => { s with ownerHistory := f s.ownerHistory }

def updateRecoveryRequests
    (f : Store AccountName AccountRecoveryRequest → Store AccountName AccountRecoveryRequest) :
    Eval Unit := modify fun s => { s with recoveryRequests := f s.recoveryRequests }

def updateChangeRecoveryRequests
    (f : Store AccountName ChangeRecoveryAccountRequest →
      Store AccountName ChangeRecoveryAccountRequest) : Eval Unit :=
  modify fun s => { s with changeRecoveryRequests := f s.changeRecoveryRequests }

def updateWitnessVotes
    (f : Store (AccountName × AccountName) Unit → Store (AccountName × AccountName) Unit) :
    Eval Unit := modify fun s => { s with witnessVotes := f s.witnessVotes }

def updateCommentVotes
    (f : Store (CommentKey × AccountName) CommentVote → Store (CommentKey × AccountName) CommentVote) :
    Eval Unit := modify fun s => { s with commentVotes := f s.commentVotes }

def updateOrders (f : Store (AccountName × Nat) LimitOrder → Store (AccountName × Nat) LimitOrder) :
    Eval Unit := modify fun s => { s with orders := f s.orders }

def updateConverts
    (f : Store (AccountName × Nat) ConvertRequest → Store (AccountName × Nat) ConvertRequest) :
    Eval Unit := modify fun s => { s with converts := f s.converts }

def updateEscrows (f : Store (AccountName × Nat) Escrow → Store (AccountName × Nat) Escrow) :
    Eval Unit := modify fun s => { s with escrows := f s.escrows }

def updateSavingsWithdraws
    (f : Store (AccountName × Nat) SavingsWithdraw → Store (AccountName × Nat) SavingsWithdraw) :
    Eval Unit := modify fun s => { s with savingsWithdraws := f s.savingsWithdraws }

def updateLiquidity
    (f : Store AccountName LiquidityRewardBalance → Store AccountName LiquidityRewardBalance) :
    Eval Unit := modify fun s => { s with liquidity := f s.liquidity }

def updateRoutes
    (f : Store (AccountName × AccountName) WithdrawVestingRoute →
      Store (AccountName × AccountName) WithdrawVestingRoute) : Eval Unit :=
  modify fun s => { s with routes := f s.routes }

def updateDeclineRequests (f : Store AccountName Time → Store AccountName Time) : Eval Unit :=
  modify fun s => { s with declineRequests := f s.declineRequests }

def updateDelegations
    (f : Store (AccountName × AccountName) VestingDelegation →
      Store (AccountName × AccountName) VestingDelegation) : Eval Unit :=
  modify fun s => { s with delegations := f s.delegations }

def updateDelegationExpirations
    (f : Store Nat VestingDelegationExpiration → Store Nat VestingDelegationExpiration) : Eval Unit :=
  modify fun s => { s with delegationExpirations := f s.delegationExpirations }

def updateTransactions (f : Store Nat Time → Store Nat Time) : Eval Unit :=
  modify fun s => { s with transactions := f s.transactions }

def updateProposals
    (f : Store (AccountName × String) Proposal → Store (AccountName × String) Proposal) : Eval Unit :=
  modify fun s => { s with proposals := f s.proposals }

def setNextProposalId (n : Nat) : Eval Unit := modify fun s => { s with nextProposalId := n }

def updateRequiredApprovals
    (f : Store (AccountName × Nat) Unit → Store (AccountName × Nat) Unit) : Eval Unit :=
  modify fun s => { s with requiredApprovals := f s.requiredApprovals }

def updatePostBandwidth (f : Store AccountName PostBandwidth → Store AccountName PostBandwidth) :
    Eval Unit := modify fun s => { s with postBandwidth := f s.postBandwidth }

def updateBlockSummary (f : (Nat → BlockId) → Nat → BlockId) : Eval Unit :=
  modify fun s => { s with blockSummary := f s.blockSummary }

/-! ## Objects of a store

`get`, `create`, `modify` and `remove` of the source, for the store `table` whose
update is `update`. -/

section Objects

variable {K V : Type} [DecidableEq K]

def fetch (table : Database → Store K V) (type : String) (k : K) : Eval V := do
  let s ← get
  require ((table s).find? k) (.missingObject type)

def create (table : Database → Store K V) (update : (Store K V → Store K V) → Eval Unit)
    (type : String) (k : K) (v : V) : Eval Unit := do
  let s ← get
  check ((table s).find? k = none) (.objectAlreadyExist type)
  update fun t => t.insert k v

def change (table : Database → Store K V) (update : (Store K V → Store K V) → Eval Unit)
    (type : String) (k : K) (f : V → V) : Eval Unit := do
  let _ ← fetch table type k
  update fun t => t.modify k f

def remove (table : Database → Store K V) (update : (Store K V → Store K V) → Eval Unit)
    (type : String) (k : K) : Eval Unit := do
  let _ ← fetch table type k
  update fun t => t.erase k

end Objects

/-! ## Accounts, witnesses and comments, group by group -/

/-- `get_account` -/
def getAccount (name : AccountName) : Eval Account := do
  let s ← get
  require (s.accounts.find? name) (.missingObject "account")

def updateAccounts (f : Store AccountName Account → Store AccountName Account) : Eval Unit :=
  modify fun s => { s with accounts := f s.accounts }

/-- The update of one existing account; the other accounts stay as they are. -/
def updateAccount (name : AccountName) (f : Account → Account) : Eval Unit := do
  let _ ← getAccount name
  updateAccounts fun t => t.modify name f

def modifyBalances (name : AccountName) (f : Balances → Balances) : Eval Unit :=
  updateAccount name fun a => { a with balances := f a.balances }

def modifyVestingShares (name : AccountName) (f : Int → Int) : Eval Unit :=
  updateAccount name fun a => { a with vestingShares := f a.vestingShares }

def setProxy (name proxy : AccountName) : Eval Unit := updateAccount name fun a => { a with proxy }

def modifyProxiedVsfVotes (name : AccountName) (f : (Fin 4 → Int) → Fin 4 → Int) : Eval Unit :=
  updateAccount name fun a => { a with proxiedVsfVotes := f a.proxiedVsfVotes }

def modifyWitnessesVotedFor (name : AccountName) (f : Nat → Nat) : Eval Unit :=
  updateAccount name fun a => { a with witnessesVotedFor := f a.witnessesVotedFor }

def modifyWithdrawal (name : AccountName) (f : Withdrawal → Withdrawal) : Eval Unit :=
  updateAccount name fun a => { a with withdrawal := f a.withdrawal }

def modifyDelegated (name : AccountName) (f : DelegatedShares → DelegatedShares) : Eval Unit :=
  updateAccount name fun a => { a with delegated := f a.delegated }

def modifyActivity (name : AccountName) (f : Activity → Activity) : Eval Unit :=
  updateAccount name fun a => { a with activity := f a.activity }

def modifyRewards (name : AccountName) (f : RewardTotals → RewardTotals) : Eval Unit :=
  updateAccount name fun a => { a with rewards := f a.rewards }

def modifyAccountInfo (name : AccountName) (f : AccountInfo → AccountInfo) : Eval Unit :=
  updateAccount name fun a => { a with info := f a.info }

/-- `create<account_object>`; the name is a unique index. -/
def createAccount (name : AccountName) (account : Account) : Eval Unit := do
  let s ← get
  check (s.accounts.find? name = none) (.objectAlreadyExist "account")
  updateAccounts fun t => t.insert name account

/-- `get_witness` -/
def getWitness (name : AccountName) : Eval Witness := do
  let s ← get
  require (s.witnesses.find? name) (.missingObject "witness")

def updateWitnesses (f : Store AccountName Witness → Store AccountName Witness) : Eval Unit :=
  modify fun s => { s with witnesses := f s.witnesses }

def updateWitness (name : AccountName) (f : Witness → Witness) : Eval Unit := do
  let _ ← getWitness name
  updateWitnesses fun t => t.modify name f

def modifyTally (name : AccountName) (f : WitnessVotes → WitnessVotes) : Eval Unit :=
  updateWitness name fun w => { w with tally := f w.tally }

def modifyConfirmation (name : AccountName) (f : Confirmation → Confirmation) : Eval Unit :=
  updateWitness name fun w => { w with confirmation := f w.confirmation }

def modifyWitnessInfo (name : AccountName) (f : WitnessInfo → WitnessInfo) : Eval Unit :=
  updateWitness name fun w => { w with info := f w.info }

/-- `create<witness_object>`; the owner is a unique index.  Votes, virtual times and
the last confirmed block start at their defaults unless `tally` says otherwise. -/
def createWitness (name : AccountName) (info : WitnessInfo) (tally : WitnessVotes) : Eval Unit := do
  let s ← get
  check (s.witnesses.find? name = none) (.objectAlreadyExist "witness")
  updateWitnesses fun t => t.insert name { info, tally }

/-- `get_comment` -/
def getComment (key : CommentKey) : Eval Comment := do
  let s ← get
  require (s.comments.find? key) (.missingObject "comment")

def updateComments (f : Store CommentKey Comment → Store CommentKey Comment) : Eval Unit :=
  modify fun s => { s with comments := f s.comments }

def updateComment (key : CommentKey) (f : Comment → Comment) : Eval Unit := do
  let _ ← getComment key
  updateComments fun t => t.modify key f

def modifyChildren (key : CommentKey) (f : Nat → Nat) : Eval Unit :=
  updateComment key fun c => { c with children := f c.children }

def setNetRshares (key : CommentKey) (x : Int) : Eval Unit :=
  updateComment key fun c => { c with netRshares := x }

def modifyChildrenRshares2 (key : CommentKey) (f : Uint128 → Uint128) : Eval Unit :=
  updateComment key fun c => { c with childrenRshares2 := f c.childrenRshares2 }

def modifyPayout (key : CommentKey) (f : CommentPayout → CommentPayout) : Eval Unit :=
  updateComment key fun c => { c with payout := f c.payout }

/-- `create<comment_object>`; author and permlink are a unique index. -/
def createComment (key : CommentKey) (place : CommentPlace) (payout : CommentPayout) : Eval Unit := do
  let s ← get
  check (s.comments.find? key = none) (.objectAlreadyExist "comment")
  updateComments fun t => t.insert key { place, payout }

def removeComment (key : CommentKey) : Eval Unit := do
  let _ ← getComment key
  updateComments fun t => t.erase key

/-! ## Footprints of the primitives -/

section Footprints

variable {F : Footprint}

instance {f} [Allows (F .head)] : Touches F (modifyHead f) := within_of_cell .head

instance {n} [Allows (F .lib)] : Touches F (setLastIrreversibleBlockNum n) := within_of_cell .lib

instance {f} [Allows (F .supply)] : Touches F (modifySupply f) := within_of_cell .supply

instance {x} [Allows (F .rewardShares)] : Touches F (setTotalRewardShares2 x) := within_of_cell .rewardShares

instance {f} [Allows (F .rates)] : Touches F (modifyRates f) := within_of_cell .rates

instance {f} [Allows (F .pow)] : Touches F (modifyPow f) := within_of_cell .pow

instance {f} [Allows (F .transit)] : Touches F (modifyTransit f) := within_of_cell .transit

instance {f} [Allows (F .schedule)] : Touches F (modifySchedule f) := within_of_cell .schedule

instance {f} [Allows (F .hardforks)] : Touches F (modifyHardforks f) := within_of_cell .hardforks

instance {f} [Allows (F .feed)] : Touches F (modifyFeed f) := within_of_cell .feed

instance {f} [Allows (F .authorities)] : Touches F (updateAuthorities f) := within_of_cell .authorities

instance {f} [Allows (F .ownerHistory)] : Touches F (updateOwnerHistory f) := within_of_cell .ownerHistory

instance {f} [Allows (F .recoveryRequests)] : Touches F (updateRecoveryRequests f) := within_of_cell .recoveryRequests

instance {f} [Allows (F .changeRecoveryRequests)] : Touches F (updateChangeRecoveryRequests f) :=
  within_of_cell .changeRecoveryRequests

instance {f} [Allows (F .witnessVotes)] : Touches F (updateWitnessVotes f) := within_of_cell .witnessVotes

instance {f} [Allows (F .commentVotes)] : Touches F (updateCommentVotes f) := within_of_cell .commentVotes

instance {f} [Allows (F .orders)] : Touches F (updateOrders f) := within_of_cell .orders

instance {f} [Allows (F .converts)] : Touches F (updateConverts f) := within_of_cell .converts

instance {f} [Allows (F .escrows)] : Touches F (updateEscrows f) := within_of_cell .escrows

instance {f} [Allows (F .savingsWithdraws)] : Touches F (updateSavingsWithdraws f) := within_of_cell .savingsWithdraws

instance {f} [Allows (F .liquidity)] : Touches F (updateLiquidity f) := within_of_cell .liquidity

instance {f} [Allows (F .routes)] : Touches F (updateRoutes f) := within_of_cell .routes

instance {f} [Allows (F .declineRequests)] : Touches F (updateDeclineRequests f) := within_of_cell .declineRequests

instance {f} [Allows (F .delegations)] : Touches F (updateDelegations f) := within_of_cell .delegations

instance {f} [Allows (F .delegationExpirations)] : Touches F (updateDelegationExpirations f) :=
  within_of_cell .delegationExpirations

instance {f} [Allows (F .transactions)] : Touches F (updateTransactions f) := within_of_cell .transactions

instance {f} [Allows (F .proposals)] : Touches F (updateProposals f) := within_of_cell .proposals

instance {n} [Allows (F .nextProposalId)] : Touches F (setNextProposalId n) := within_of_cell .nextProposalId

instance {f} [Allows (F .requiredApprovals)] : Touches F (updateRequiredApprovals f) :=
  within_of_cell .requiredApprovals

instance {f} [Allows (F .postBandwidth)] : Touches F (updatePostBandwidth f) := within_of_cell .postBandwidth

instance {f} [Allows (F .blockSummary)] : Touches F (updateBlockSummary f) := within_of_cell .blockSummary

section Objects

variable {R : Database → Database → Prop} [Std.Refl R] [IsTrans Database R]

deriving instance Preserves R for getAccount, getWitness, getComment

variable {K V : Type} [DecidableEq K] {table : Database → Store K V}
  {update : (Store K V → Store K V) → Eval Unit} {type : String} {k : K}

deriving instance Preserves R for fetch

variable [∀ f, Preserves R (update f)]

instance {v : V} : Preserves R (create table update type k v) := by
  unfold create; infer_instance

instance {f : V → V} : Preserves R (change table update type k f) := by
  unfold change; infer_instance

instance : Preserves R (remove table update type k) := by unfold remove; infer_instance

end Objects

theorem ensures_getAccount {Q : Account → Database → Prop} :
    Ensures s (getAccount k) Q ↔ ∀ a, s.accounts.find? k = some a → Q a s := by
  simp only [getAccount, ensures_steps]

theorem ensures_getComment {k : CommentKey} {Q : Comment → Database → Prop} :
    Ensures s (getComment k) Q ↔ ∀ c, s.comments.find? k = some c → Q c s := by
  simp only [getComment, ensures_steps]

theorem find?_updateAccount :
    Ensures s (updateAccount k f) fun _ t =>
      ∀ x, t.accounts.find? x = if x = k then (s.accounts.find? x).map f else s.accounts.find? x := by
  simp only [updateAccount, getAccount, updateAccounts, ensures_steps]
  exact fun _ _ _ => find?_modify

theorem within_updateAccount (cell : Cell) [Allows (F cell)]
    (others : ∀ (s : Database) c, c ≠ cell → c.read { s with accounts := s.accounts.modify k f } = c.read s := by
        intro _ c other
        cases c <;> first | rfl | exact view_modify fun _ => rfl | exact absurd rfl other) :
    Touches F (updateAccount k f) := by
  have update : Touches F (updateAccounts fun t => t.modify k f) := within_of_cell cell others
  unfold updateAccount; infer_instance

/-- An update of a witness that keeps its last block keeps what is recorded of everyone's. -/
theorem confirmationOf_modify {f : Witness → Witness}
    (kept : ∀ w, (f w).confirmation = w.confirmation) :
    Database.confirmationOf { s with witnesses := s.witnesses.modify k f } = s.confirmationOf := by
  funext name
  rw [Database.confirmationOf, Database.confirmationOf, find?_modify]
  split <;> cases s.witnesses.find? name <;> simp [kept]

theorem within_updateWitness {f : Witness → Witness} (cell : Cell) [Allows (F cell)]
    (others : ∀ (s : Database) c, c ≠ cell → c.read { s with witnesses := s.witnesses.modify k f } = c.read s := by
        intro _ c other
        cases c <;> first
        | rfl | exact view_modify fun _ => rfl | exact confirmationOf_modify fun _ => rfl
        | exact absurd rfl other) :
    Touches F (updateWitness k f) := by
  have update : Touches F (updateWitnesses fun t => t.modify k f) := within_of_cell cell others
  unfold updateWitness; infer_instance

theorem within_updateComment {k : CommentKey} {f : Comment → Comment} (cell : Cell) [Allows (F cell)]
    (others : ∀ (s : Database) c, c ≠ cell → c.read { s with comments := s.comments.modify k f } = c.read s := by
        intro _ c other
        cases c <;> first | rfl | exact view_modify fun _ => rfl | exact absurd rfl other) :
    Touches F (updateComment k f) := by
  have update : Touches F (updateComments fun t => t.modify k f) := within_of_cell cell others
  unfold updateComment; infer_instance

instance {k x} [Allows (F .balances)] : Touches F (modifyBalances k x) :=
  within_updateAccount .balances

instance {k x} [Allows (F .vesting)] : Touches F (modifyVestingShares k x) :=
  within_updateAccount .vesting

instance {k x} [Allows (F .proxy)] : Touches F (setProxy k x) :=
  within_updateAccount .proxy

instance {k x} [Allows (F .proxied)] : Touches F (modifyProxiedVsfVotes k x) :=
  within_updateAccount .proxied

instance {k x} [Allows (F .votedFor)] : Touches F (modifyWitnessesVotedFor k x) :=
  within_updateAccount .votedFor

instance {k x} [Allows (F .withdrawal)] : Touches F (modifyWithdrawal k x) :=
  within_updateAccount .withdrawal

instance {k x} [Allows (F .delegated)] : Touches F (modifyDelegated k x) :=
  within_updateAccount .delegated

instance {k x} [Allows (F .activity)] : Touches F (modifyActivity k x) :=
  within_updateAccount .activity

instance {k x} [Allows (F .rewards)] : Touches F (modifyRewards k x) :=
  within_updateAccount .rewards

instance {k x} [Allows (F .info)] : Touches F (modifyAccountInfo k x) :=
  within_updateAccount .info

instance {k x} [Allows (F .tally)] : Touches F (modifyTally k x) :=
  within_updateWitness .tally

instance {k x} [Allows (F .confirmation)] : Touches F (modifyConfirmation k x) :=
  within_updateWitness .confirmation

instance {k x} [Allows (F .witnessInfo)] : Touches F (modifyWitnessInfo k x) :=
  within_updateWitness .witnessInfo

instance {k x} [Allows (F .commentChildren)] : Touches F (modifyChildren k x) :=
  within_updateComment .commentChildren

instance {k x} [Allows (F .netRshares)] : Touches F (setNetRshares k x) :=
  within_updateComment .netRshares

instance {k x} [Allows (F .childrenShares)] : Touches F (modifyChildrenRshares2 k x) :=
  within_updateComment .childrenShares

instance {k x} [Allows (F .commentPayout)] : Touches F (modifyPayout k x) :=
  within_updateComment .commentPayout

instance {k x y} [Allows (F .tally)] [Allows (F .witnessInfo)] : Touches F (createWitness k x y) := by
  refine ⟨fun s => ?_⟩
  simp only [createWitness, updateWitnesses, ensures_steps]
  intro new c outside
  cases c <;> first | rfl | exact absurd outside Allows.ne_false | skip
  funext name
  by_cases same : name = k
  · simp [Cell.read, Database.confirmationOf, find?_insert new, same, new]
  · simp [Cell.read, Database.confirmationOf, find?_insert new, same]

section

variable [Allows (F .balances)] [Allows (F .vesting)] [Allows (F .proxy)] [Allows (F .proxied)] [Allows (F .votedFor)]
  [Allows (F .withdrawal)] [Allows (F .delegated)] [Allows (F .activity)] [Allows (F .rewards)] [Allows (F .info)]

instance {f} : Touches F (updateAccounts f) :=
  preserves_modify fun _ c outside => by
    cases c <;> first | rfl | exact absurd outside Allows.ne_false

deriving instance Touches F for createAccount

end

variable [Allows (F .commentPlace)] [Allows (F .commentChildren)] [Allows (F .netRshares)] [Allows (F .childrenShares)]
  [Allows (F .commentPayout)]

instance {f} : Touches F (updateComments f) :=
  preserves_modify fun _ c outside => by
    cases c <;> first | rfl | exact absurd outside Allows.ne_false

deriving instance Touches F for createComment, removeComment

end Footprints

end Golos
