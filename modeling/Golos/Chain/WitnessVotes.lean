import Golos.Chain.Balance

/-! # Vesting and witness votes

`adjust_proxied_witness_votes` carries a change of vesting shares along the chain
of proxies to the witnesses the last account of the chain votes for.
`create_vesting` and `clear_null_account_balance` are the two functions of the
database that change vesting shares by themselves.
-/

namespace Golos

open Stateful

/-- `STEEMIT_MAX_PROXY_RECURSION_DEPTH` -/
def maxProxyRecursionDepth : Nat := 4

/-- `VIRTUAL_SCHEDULE_LAP_LENGTH` -/
def virtualScheduleLapLength : Uint128 := BitVec.ofNat 128 (2 ^ 64 - 1)

/-- `VIRTUAL_SCHEDULE_LAP_LENGTH2` -/
def virtualScheduleLapLength2 : Uint128 := BitVec.allOnes 128

/-! ## Votes for one witness -/

/-- The virtual time a witness with these votes is due, counted from its last update. -/
def WitnessVotes.schedule (t : WitnessVotes) (s : Database) : WitnessVotes :=
  let lap := if s.hasHardfork 2 then virtualScheduleLapLength2 else virtualScheduleLapLength
  let due := t.virtualLastUpdate + (lap - t.virtualPosition) / BitVec.ofInt 128 (t.votes + 1)
  -- a witness with few votes could overflow the time and be scheduled in the past
  { t with virtualScheduledTime :=
      if s.hasHardfork 4 ∧ due < s.schedule.currentVirtualTime then BitVec.allOnes 128 else due }

/-- `adjust_witness_vote` -/
def adjustWitnessVote (witness : AccountName) (delta : Int) : Eval Unit := do
  let s ← get
  let w ← getWitness witness
  check (isShare (w.tally.votes + delta)) (.assertion "Integer Overflow")
  check (w.tally.votes + delta ≤ s.supply.totalVestingShares)
    (.assertion "w.votes <= total_vesting_shares.amount")
  modifyTally witness fun t =>
    WitnessVotes.schedule
      { t with
        votes := t.votes + delta
        virtualLastUpdate := s.schedule.currentVirtualTime
        virtualPosition := t.virtualPosition +
          BitVec.ofInt 128 t.votes * (s.schedule.currentVirtualTime - t.virtualLastUpdate) } s

/-- The witnesses an account has a vote object for, in the order of their ids. -/
def Database.votedWitnesses (s : Database) (account : AccountName) : List AccountName :=
  s.witnesses.keys.filter fun w => (s.witnessVotes.find? (account, w)).isSome

/-- `adjust_witness_votes` -/
def adjustWitnessVotes (account : AccountName) (delta : Int) : Eval Unit := do
  let s ← get
  (s.votedWitnesses account).forM fun w => adjustWitnessVote w delta

/-- `clear_witness_votes` -/
def clearWitnessVotes (account : AccountName) : Eval Unit := do
  updateWitnessVotes fun t => t.filter fun k _ => k.1 ≠ account
  let s ← get
  when (s.hasHardfork 6) (modifyWitnessesVotedFor account fun _ => 0)

/-! ## Along the chain of proxies -/

/-- The entries of `delta` that fit in the `hops + 1` places left. -/
def proxiedTotal (delta : Nat → Int) (hops : Nat) : Int := ((List.range (hops + 1)).map delta).sum

/-- `adjust_proxied_witness_votes` with an array of amounts; `hops` is
`STEEMIT_MAX_PROXY_RECURSION_DEPTH - depth`.  A chain longer than that is cut: what
is left of it does not count. -/
def adjustProxiedVotes : (hops : Nat) → AccountName → (delta : Nat → Int) → Eval Unit
  | 0, name, delta => do
    let a ← getAccount name
    if a.proxy ≠ .blank then pure () else adjustWitnessVotes name (proxiedTotal delta 0)
  | hops + 1, name, delta => do
    let a ← getAccount name
    if a.proxy ≠ .blank then do
      let depth := maxProxyRecursionDepth - (hops + 1)
      modifyProxiedVsfVotes a.proxy fun v i =>
        if depth ≤ i then v i + delta (i - depth) else v i
      adjustProxiedVotes hops a.proxy delta
    else adjustWitnessVotes name (proxiedTotal delta (hops + 1))

/-- `adjust_proxied_witness_votes(a, delta)` for an array of amounts. -/
def adjustProxiedWitnessVotesArray (name : AccountName) (delta : Nat → Int) : Eval Unit :=
  adjustProxiedVotes maxProxyRecursionDepth name delta

/-- `adjust_proxied_witness_votes(a, delta)` for one amount, which is an array with
nothing behind its first entry. -/
def adjustProxiedWitnessVotes (name : AccountName) (delta : Int) : Eval Unit :=
  adjustProxiedWitnessVotesArray name fun i => if i = 0 then delta else 0

/-- What an account carries to its proxy: its own shares and what is proxied to it, by
distance. -/
def Account.voteArray (a : Account) : Nat → Int
  | 0 => a.vestingShares
  | i + 1 => if h : i < 4 then a.proxiedVsfVotes ⟨i, h⟩ else 0

/-! ## Vesting -/

/-- `create_vesting` -/
def createVesting (toAccount : AccountName) (steem : Asset) : Eval Int := do
  let s ← get
  let newVesting ← times steem s.supply.vestingSharePrice
  let newVesting ← amountIn vestsSymbol newVesting
  modifyVestingShares toAccount (· + newVesting)
  let steem ← amountIn steemSymbol steem
  modifySupply fun p => { p with
    totalVestingFundSteem := p.totalVestingFundSteem + steem
    totalVestingShares := p.totalVestingShares + newVesting }
  adjustProxiedWitnessVotes toAccount newVesting
  pure newVesting

/-- Take a positive balance from the null account; the amount taken. -/
def drainNull (balance : Balances → Int) (adjust : AccountName → Asset → Eval Unit)
    (asset : Int → Asset) : Eval Int := do
  let a ← getAccount .null
  if 0 < balance a.balances then do
    adjust .null (asset (-balance a.balances))
    pure (balance a.balances)
  else pure 0

/-- The vesting part of `clear_null_account_balance`: the GOLOS the shares were worth. -/
def drainNullVesting : Eval Int := do
  let a ← getAccount .null
  if 0 < a.vestingShares then do
    let s ← get
    let converted ← times (.vests a.vestingShares) s.supply.vestingSharePrice
    let converted ← amountIn steemSymbol converted
    modifySupply fun p => { p with
      totalVestingShares := p.totalVestingShares - a.vestingShares
      totalVestingFundSteem := p.totalVestingFundSteem - converted }
    modifyVestingShares .null fun _ => 0
    pure converted
  else pure 0

/-- `clear_null_account_balance` -/
def clearNullAccountBalance : Eval Unit := do
  let s ← get
  when (s.hasHardfork 14) do
    let balance ← drainNull (·.balance) adjustBalance .steem
    let savings ← drainNull (·.savingsBalance) adjustSavingsBalance .steem
    let sbd ← drainNull (·.sbdBalance) adjustBalance .sbd
    let savingsSbd ← drainNull (·.savingsSbdBalance) adjustSavingsBalance .sbd
    let converted ← drainNullVesting
    let totalSteem := balance + savings + converted
    let totalSbd := sbd + savingsSbd
    when (0 < totalSteem) (adjustSupply (.steem (-totalSteem)) false)
    when (0 < totalSbd) (adjustSupply (.sbd (-totalSbd)) false)

/-! ## Footprints -/

section Footprints

set_option synthInstance.maxSize 10000

variable {F : Footprint}

section

variable [Allows (F .tally)] [Allows (F .witnessVotes)] [Allows (F .votedFor)]

deriving instance Touches F for adjustWitnessVote, adjustWitnessVotes, clearWitnessVotes

end

instance {hops n d} [Allows (F .proxied)] [Allows (F .tally)] : Touches F (adjustProxiedVotes hops n d) := by
  induction hops generalizing n with
  | zero => unfold adjustProxiedVotes; infer_instance
  | succ hops ih => unfold adjustProxiedVotes; infer_instance

instance {r f a} [∀ n x, Touches F (f n x)] : Touches F (drainNull r f a) := by
  unfold drainNull; infer_instance

variable [Allows (F .proxied)] [Allows (F .tally)] [Allows (F .supply)] [Allows (F .vesting)]
  [Allows (F .balances)] [Allows (F .rates)]

deriving instance Touches F for adjustProxiedWitnessVotesArray, adjustProxiedWitnessVotes, createVesting,
  drainNullVesting, clearNullAccountBalance

end Footprints

end Golos
