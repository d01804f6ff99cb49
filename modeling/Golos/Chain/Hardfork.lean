import Golos.Chain.Cashout
import Golos.Chain.Market
import Golos.Chain.Schedule

/-! # Hardforks

`process_hardforks` applies the hardforks that are due, in order: up to the fifth by their
times, from then on by the votes of the scheduled witnesses.  Several of them rewrite the
state, either to change a unit or to count again what an earlier rule had counted wrong.
-/

namespace Golos

open Stateful

/-! ## What a hardfork rewrites -/

/-- `vesting_withdraw_rate` and the amounts of a power-down after a split. -/
def Withdrawal.split (w : Withdrawal) (magnitude : Int) : Withdrawal :=
  let rate := (w.toWithdraw * magnitude).tdiv 104
  { w with
    withdrawn := w.withdrawn * magnitude
    toWithdraw := w.toWithdraw * magnitude
    vestingWithdrawRate := if rate = 0 then 1 else rate }

/-- `perform_vesting_share_split` for one account -/
def splitAccount (magnitude : Int) (name : AccountName) : Eval Unit := do
  modifyVestingShares name (· * magnitude)
  modifyWithdrawal name fun w => w.split magnitude
  modifyProxiedVsfVotes name fun v i => v i * magnitude

/-- The first loop of `perform_vesting_share_split` over the comments -/
def splitComment (magnitude : Int) (key : CommentKey) : Eval Unit := do
  let c ← getComment key
  check (isShare (c.netRshares * magnitude)) (.assertion "Integer Overflow")
  setNetRshares key (c.netRshares * magnitude)
  modifyPayout key fun p => { p with
    absRshares := p.absRshares * magnitude
    voteRshares := p.voteRshares * magnitude }
  modifyChildrenRshares2 key fun _ => 0

/-- Add what a comment is worth to the totals, which were cleared before. -/
def recountRshares2 (key : CommentKey) : Eval Unit := do
  let s ← get
  let c ← getComment key
  when (0 < c.netRshares) <|
    adjustRshares2 0 (s.vshares c.netRshares) (c.place.depth + 1) key

/-- `perform_vesting_share_split` -/
def performVestingShareSplit (magnitude : Int) : Eval Unit := do
  modifySupply fun p => { p with totalVestingShares := p.totalVestingShares * magnitude }
  setTotalRewardShares2 0
  let s ← get
  s.accounts.keys.forM fun name => splitAccount magnitude name
  s.comments.keys.forM fun key => splitComment magnitude key
  s.comments.keys.forM recountRshares2

/-- Count one comment at every comment above it. -/
def recountChildren (key : CommentKey) : Eval Unit := do
  let c ← getComment key
  when (c.place.parentAuthor ≠ .blank) <|
    countAtAncestors (· + 1) c.place.depth c.place.parent

/-- `retally_comment_children` -/
def retallyCommentChildren : Eval Unit := do
  let s ← get
  s.comments.keys.forM fun key => modifyChildren key fun _ => 0
  s.comments.keys.forM recountChildren

/-- Count the votes of one account for all witnesses. -/
def recountVotes (name : AccountName) : Eval Unit := do
  let s ← get
  let a ← getAccount name
  when (a.proxy = .blank) <|
    (s.votedWitnesses name).forM fun w => adjustWitnessVote w a.witnessVoteWeight

/-- `retally_witness_votes` -/
def retallyWitnessVotes : Eval Unit := do
  let s ← get
  s.witnesses.keys.forM fun w => modifyTally w fun t => { t with votes := 0, virtualPosition := 0 }
  s.accounts.keys.forM recountVotes

/-- `retally_witness_vote_counts`: without `force` only accounts with a proxy are counted, and
every other account is left with none. -/
def retallyWitnessVoteCounts (force : Bool) : Eval Unit := do
  let s ← get
  s.accounts.keys.forM fun name => do
    let a ← getAccount name
    modifyWitnessesVotedFor name fun _ =>
      if force ∨ a.proxy ≠ .blank then (s.votedWitnesses name).length else 0

/-- `retally_liquidity_weight` -/
def retallyLiquidityWeight : Eval Unit :=
  updateLiquidity fun t => t.mapValues fun _ r => r.updateWeight true

/-- The payout times hardfork 12 sets for root posts. -/
def CommentPayout.hardfork12 (p : CommentPayout) (now : Time) : CommentPayout :=
  if p.lastPayout = 0 ∧ p.cashoutTime = Time.maximum then
    { p with cashoutTime := now + 60 * 60 * 24, mode := .firstPayout }
  else if 0 < p.lastPayout then
    { p with cashoutTime := p.lastPayout + 60 * 60 * 24 * 30, mode := .secondPayout }
  else p

/-- Hardfork 12 -/
def applyHardfork12 : Eval Unit := do
  let s ← get
  s.comments.keys.forM fun key => do
    let c ← getComment key
    when (c.place.parentAuthor = .blank) (modifyPayout key fun p => p.hardfork12 s.head.time)
  let closed : Authority := ⟨1, [], []⟩
  changeAuthority .miners fun a => { a with posting := closed }
  changeAuthority .null fun a => { a with posting := closed }
  changeAuthority .temp fun a => { a with posting := closed }

/-- Hardfork 16: the accounts whose keys were lost get a new one. -/
def applyHardfork16 (compromised : List AccountName) (key : PublicKey) : Eval Unit := do
  modifyFeed fun f => { f with priceHistory := f.priceHistory.drop (f.priceHistory.length - 12 * 7) }
  let s ← get
  compromised.forM fun name =>
    when (s.accounts.find? name).isSome do
      updateOwnerAuthority name (.ofKey key)
      changeAuthority name fun a => { a with active := .ofKey key, posting := .ofKey key }

/-- The body of the loops of hardfork 17 over the comments of a discussion with a payout
ahead. -/
def migrateComment (key : CommentKey) : Eval Unit := do
  let s ← get
  modifyPayout key fun p => { p with cashoutTime := max (p.created + cashoutWindow) s.head.time }
  let c ← getComment key
  when (0 < c.netRshares) <|
    adjustRshares2 (vsharesQuadratic c.netRshares) (vsharesLinear c.netRshares)
      (c.place.depth + 1) key

/-- Hardfork 17 -/
def applyHardfork17 : Eval Unit := do
  let s ← get
  let rootPosts := (s.comments.entries.filter fun e =>
    e.2.payout.cashoutTime ≠ Time.maximum).insertionSort fun a b =>
      a.2.payout.cashoutTime ≤ b.2.payout.cashoutTime
  rootPosts.forM fun root =>
    ((s.comments.entries.filter fun e => e.2.place.rootComment = root.1).map Prod.fst).forM
      migrateComment

/-! ## The sequence of hardforks -/

/-- `STEEMIT_NUM_HARDFORKS` -/
def numHardforks : Nat := 21

/-- `_hardfork_times` -/
def hardforkTimes : List Time :=
  [1476788400, 1476788420, 1476788440, 1476788460, 1476788480, 1476788500, 1476788520, 1476788540,
    1476788560, 1476788580, 1476788600, 1476788620, 1476788640, 1476788660, 1476788680, 1488369000,
    1488369600, 1522832400, 1529485200, 1544778000, 1547787600, 1565859600]

/-- `_hardfork_versions`, as `v_num` -/
def hardforkVersion (hardfork : Nat) : Nat := hardfork * 2 ^ 16

/-- `account_summary` of the genesis snapshot -/
structure SnapshotAccount where
  name : AccountName
  memoKey : PublicKey
  owner : Authority
  active : Authority
  posting : Authority

/-- The data the code reads from its tables and from the snapshot file: the accounts of the
genesis, those compromised before hardfork 16, and the keys it gives to accounts itself.
`stack` is how deep the process can nest operations inside proposals. -/
structure Network where
  stack : Nat
  snapshot : List SnapshotAccount
  initPublicKey : PublicKey
  compromisedAccounts : List AccountName
  compromisedKey : PublicKey
  null_not_compromised : AccountName.null ∉ compromisedAccounts

/-- The state changes of one hardfork. -/
def Network.rewrite (net : Network) : (hardfork : Nat) → Eval Unit
  | 1 => performVestingShareSplit 10000
  | 2 => retallyWitnessVotes
  | 3 => retallyWitnessVotes
  | 4 => resetVirtualScheduleTime
  | 6 => do
    retallyWitnessVoteCounts false
    retallyCommentChildren
  | 8 => retallyWitnessVoteCounts true
  | 10 => retallyLiquidityWeight
  | 12 => applyHardfork12
  | 16 => applyHardfork16 net.compromisedAccounts net.compromisedKey
  | 17 => applyHardfork17
  | _ => pure ()

/-- `apply_hardfork` -/
def Network.applyHardfork (net : Network) (hardfork : Nat) : Eval Unit := do
  net.rewrite hardfork
  let s ← get
  check (hardfork = s.hardforks.lastHardfork + 1) (.assertion "Hardfork being applied out of order")
  check (s.hardforks.processedHardforks.length = hardfork)
    (.assertion "Hardfork being applied out of order")
  modifyHardforks fun h => { h with
    processedHardforks := h.processedHardforks ++ [hardforkTimes.getD hardfork 0]
    lastHardfork := hardfork
    currentHardforkVersion := hardforkVersion hardfork }

/-- Whether the loop of `process_hardforks` goes on, before and from hardfork 5 on. -/
def Database.hardforkIsDue (s : Database) (byVotes : Bool) : Bool :=
  if byVotes then
    hardforkVersion s.hardforks.lastHardfork < s.hardforks.nextHardfork &&
      s.hardforks.nextHardforkTime ≤ s.head.time
  else
    s.hardforks.lastHardfork < 5 &&
      hardforkTimes.getD (s.hardforks.lastHardfork + 1) 0 ≤ s.head.time

/-- The loop of `process_hardforks`; every pass applies one hardfork more. -/
def Network.applyDueHardforks (net : Network) (byVotes : Bool) : (fuel : Nat) → Eval Unit
  | 0 => pure ()
  | fuel + 1 => do
    let s ← get
    when (s.hardforkIsDue byVotes) do
      check (s.hardforks.lastHardfork < numHardforks) (.internal "unknown hardfork")
      net.applyHardfork (s.hardforks.lastHardfork + 1)
      net.applyDueHardforks byVotes fuel

/-- `process_hardforks` -/
def Network.processHardforks (net : Network) : Eval Unit := do
  let s ← get
  net.applyDueHardforks (s.hasHardfork 5) (numHardforks + 1)

/-! ## Footprints -/

section Footprints

set_option synthInstance.maxSize 1000000

variable {F : Footprint} [Allows (F .vesting)] [Allows (F .proxied)] [Allows (F .withdrawal)]
  [Allows (F .netRshares)] [Allows (F .childrenShares)] [Allows (F .commentPayout)] [Allows (F .rewardShares)]
  [Allows (F .supply)] [Allows (F .commentChildren)] [Allows (F .tally)] [Allows (F .votedFor)]
  [Allows (F .liquidity)] [Allows (F .authorities)] [Allows (F .feed)] [Allows (F .ownerHistory)]

deriving instance Touches F for splitAccount, splitComment, recountRshares2, performVestingShareSplit,
  recountChildren, retallyCommentChildren, recountVotes, retallyWitnessVotes, retallyWitnessVoteCounts,
  retallyLiquidityWeight, applyHardfork12, applyHardfork16, migrateComment, applyHardfork17

instance {net hardfork} [Allows (F .schedule)] : Touches F (Network.rewrite net hardfork) := by
  unfold Network.rewrite
  split <;> infer_instance

end Footprints

section Sequence

variable {R : Database → Database → Prop} [Std.Refl R] [IsTrans Database R] {net : Network}

instance {hardfork} [∀ hardfork, Preserves R (net.rewrite hardfork)]
    [∀ time hardfork version, Preserves R (modifyHardforks fun h => { h with
      processedHardforks := h.processedHardforks ++ [time]
      lastHardfork := hardfork
      currentHardforkVersion := version })] : Preserves R (net.applyHardfork hardfork) := by
  unfold Network.applyHardfork; infer_instance

variable [∀ hardfork, Preserves R (net.applyHardfork hardfork)]

instance {byVotes fuel} : Preserves R (net.applyDueHardforks byVotes fuel) := by
  induction fuel with
  | zero => unfold Network.applyDueHardforks; infer_instance
  | succ fuel ih => unfold Network.applyDueHardforks; infer_instance

instance : Preserves R net.processHardforks := by
  unfold Network.processHardforks; infer_instance

end Sequence

end Golos
