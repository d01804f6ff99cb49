import Golos.Chain.Database

/-! # Balances and supply

`adjust_balance`, `adjust_savings_balance`, `adjust_supply` and what is built from
them.  Every token the chain creates, destroys or moves goes through these
functions.
-/

namespace Golos

open Stateful

/-! ## Reading the state -/

/-- `has_hardfork` -/
def Database.hasHardfork (s : Database) (hardfork : Nat) : Bool :=
  hardfork < s.hardforks.processedHardforks.length

theorem Database.hasHardfork_mono {s : Database} {m n : Nat} (le : m ≤ n) (has : s.hasHardfork n = true) :
    s.hasHardfork m = true := by
  simp only [Database.hasHardfork, decide_eq_true_eq] at has ⊢
  omega

/-- `is_transit_enabled` -/
def Database.isTransitEnabled (s : Database) : Bool :=
  s.hasHardfork 21 && s.transit.transitBlockNum ≠ 4294967295

/-- `get_vesting_share_price` -/
def Supply.vestingSharePrice (p : Supply) : Price :=
  if p.totalVestingFundSteem = 0 ∨ p.totalVestingShares = 0 then ⟨.steem 1000, .vests 1000000⟩
  else ⟨.vests p.totalVestingShares, .steem p.totalVestingFundSteem⟩

/-- The amount of an asset that must have the given symbol. -/
def amountIn (symbol : AssetSymbol) (a : Asset) : Eval Int := do
  check (a.symbol = symbol) (.assertion "symbol == o.symbol")
  pure a.amount

/-- `a * p`, thrown out of the evaluator when it is not defined. -/
def times (a : Asset) (p : Price) : Eval Asset := fromExcept (a.mulPrice p)

/-- `to_sbd` -/
def toSbd (steem : Asset) : Eval Asset := do
  check (steem.symbol = steemSymbol) (.assertion "steem.symbol == STEEM_SYMBOL")
  let s ← get
  if s.feed.currentMedianHistory.isNull then pure (.sbd 0)
  else times steem s.feed.currentMedianHistory

/-- `to_steem` -/
def toSteem (sbd : Asset) : Eval Asset := do
  check (sbd.symbol = sbdSymbol) (.assertion "sbd.symbol == SBD_SYMBOL")
  let s ← get
  if s.feed.currentMedianHistory.isNull then pure (.steem 0)
  else times sbd s.feed.currentMedianHistory

/-! ## Supply -/

/-- `virtual_supply += a` -/
def addVirtualSupply (a : Asset) : Eval Unit := do
  let amount ← amountIn steemSymbol a
  modifyRates fun r => { r with virtualSupply := r.virtualSupply + amount }

/-- `adjust_supply` -/
def adjustSupply (delta : Asset) (adjustVesting : Bool) : Eval Unit := do
  let s ← get
  let adjustVesting := adjustVesting && 28800 * 7 ≤ s.head.headBlockNumber
  if delta.symbol = steemSymbol then do
    let newVesting := if adjustVesting ∧ 0 < delta.amount then delta.amount * 9 else 0
    modifySupply fun p => { p with
      currentSupply := p.currentSupply + (delta.amount + newVesting)
      totalVestingFundSteem := p.totalVestingFundSteem + newVesting }
    modifyRates fun r => { r with virtualSupply := r.virtualSupply + (delta.amount + newVesting) }
  else if delta.symbol = sbdSymbol then do
    modifySupply fun p => { p with currentSbdSupply := p.currentSbdSupply + delta.amount }
    let s ← get
    let sbd ← times (.sbd s.supply.currentSbdSupply) s.feed.currentMedianHistory
    let sbd ← amountIn steemSymbol sbd
    modifyRates fun r => { r with virtualSupply := sbd + s.supply.currentSupply }
  else throw (.invalidValue "invalid symbol")

/-! ## Balances -/

/-- `STEEMIT_SBD_INTEREST_COMPOUND_INTERVAL_SEC` -/
def sbdInterestCompoundInterval : Nat := 60 * 60 * 24 * 30

/-- `STEEMIT_SECONDS_PER_YEAR` -/
def secondsPerYear : Nat := 60 * 60 * 24 * 365

/-- Interest is new SBD: it is added to the supply when it is credited. -/
def issueInterest (interest : Int) : Eval Unit := do
  modifySupply fun p => { p with currentSbdSupply := p.currentSbdSupply + interest }
  let s ← get
  let virtual ← times (.sbd interest) s.feed.currentMedianHistory
  addVirtualSupply virtual

/-- `adjust_sbd_balance` -/
def adjustSbdBalance (name : AccountName) (delta : Int) : Eval Unit := do
  let s ← get
  let a ← getAccount name
  let now := s.head.time
  let isFeePaymentEnabled := !s.hasHardfork 19 || !s.rates.isForcedMinPrice
  when (a.balances.sbdSecondsLastUpdate ≠ now) do
    let seconds := (a.balances.sbdSeconds +
      toUint128 a.balances.sbdBalance * (now - a.balances.sbdSecondsLastUpdate)) % 2 ^ 128
    modifyBalances name fun b => { b with sbdSeconds := seconds, sbdSecondsLastUpdate := now }
    when (isFeePaymentEnabled ∧ 0 < seconds ∧
        sbdInterestCompoundInterval < now - a.balances.sbdLastInterestPayment) do
      let interest ← fromExcept <|
        toShare (seconds * s.rates.sbdInterestRate % 2 ^ 128 / (secondsPerYear * 10000) % 2 ^ 64)
      modifyBalances name fun b => { b with
        sbdBalance := b.sbdBalance + interest, sbdSeconds := 0, sbdLastInterestPayment := now }
      issueInterest interest
  modifyBalances name fun b => { b with sbdBalance := b.sbdBalance + delta }

/-- `adjust_balance` -/
def adjustBalance (name : AccountName) (delta : Asset) : Eval Unit := do
  if delta.symbol = steemSymbol then do
    let _ ← getAccount name
    modifyBalances name fun b => { b with balance := b.balance + delta.amount }
  else if delta.symbol = sbdSymbol then adjustSbdBalance name delta.amount
  else throw (.invalidValue "invalid symbol")

/-- The SBD branch of `adjust_savings_balance`.  Unlike the main balance, savings
earn interest also while the minimum price is forced. -/
def adjustSavingsSbdBalance (name : AccountName) (delta : Int) : Eval Unit := do
  let s ← get
  let a ← getAccount name
  let now := s.head.time
  when (a.balances.savingsSbdSecondsLastUpdate ≠ now) do
    let seconds := (a.balances.savingsSbdSeconds +
      toUint128 a.balances.savingsSbdBalance * (now - a.balances.savingsSbdSecondsLastUpdate)) % 2 ^ 128
    modifyBalances name fun b => { b with
      savingsSbdSeconds := seconds, savingsSbdSecondsLastUpdate := now }
    when (0 < seconds ∧
        sbdInterestCompoundInterval < now - a.balances.savingsSbdLastInterestPayment) do
      let interest ← fromExcept <|
        toShare (seconds / secondsPerYear * s.rates.sbdInterestRate % 2 ^ 128 / 10000 % 2 ^ 64)
      modifyBalances name fun b => { b with
        savingsSbdBalance := b.savingsSbdBalance + interest
        savingsSbdSeconds := 0
        savingsSbdLastInterestPayment := now }
      issueInterest interest
  modifyBalances name fun b => { b with savingsSbdBalance := b.savingsSbdBalance + delta }

/-- `adjust_savings_balance` -/
def adjustSavingsBalance (name : AccountName) (delta : Asset) : Eval Unit := do
  if delta.symbol = steemSymbol then do
    let _ ← getAccount name
    modifyBalances name fun b => { b with savingsBalance := b.savingsBalance + delta.amount }
  else if delta.symbol = sbdSymbol then adjustSavingsSbdBalance name delta.amount
  else throw (.invalidValue "invalid symbol")

/-- `get_balance` -/
def getBalance (name : AccountName) (symbol : AssetSymbol) : Eval Int := do
  let a ← getAccount name
  if symbol = steemSymbol then pure a.balances.balance
  else if symbol = sbdSymbol then pure a.balances.sbdBalance
  else throw (.invalidValue "invalid symbol")

/-- `get_savings_balance` -/
def getSavingsBalance (name : AccountName) (symbol : AssetSymbol) : Eval Int := do
  let a ← getAccount name
  if symbol = steemSymbol then pure a.balances.savingsBalance
  else if symbol = sbdSymbol then pure a.balances.savingsSbdBalance
  else throw (.invalidValue "invalid symbol")

/-- `GOLOS_CHECK_BALANCE(account, MAIN_BALANCE, amount)` -/
def checkBalance (name : AccountName) (amount : Asset) : Eval Unit := do
  let balance ← getBalance name amount.symbol
  check (amount.amount ≤ balance) (.insufficientFunds "balance")

/-- `create_sbd`: the SBD and the STEEM paid out. -/
def createSbd (toAccount : AccountName) (steem : Int) : Eval (Asset × Asset) := do
  let s ← get
  if steem = 0 then pure (.sbd 0, .steem 0)
  else if s.feed.currentMedianHistory.isNull then do
    adjustBalance toAccount (.steem steem)
    pure (.sbd 0, .steem steem)
  else do
    let toSbd := (s.rates.sbdPrintRate * steem).tdiv 10000
    let toSteem := steem - toSbd
    let sbd ← times (.steem toSbd) s.feed.currentMedianHistory
    adjustBalance toAccount sbd
    adjustBalance toAccount (.steem toSteem)
    adjustSupply (.steem (-toSbd)) false
    adjustSupply sbd false
    pure (sbd, .steem toSteem)

/-! ## Footprints -/

section Footprints

set_option synthInstance.maxSize 10000

variable {F : Footprint} {R : Database → Database → Prop} [Std.Refl R] [IsTrans Database R]

deriving instance Preserves R for amountIn, times, toSbd, toSteem, getBalance, getSavingsBalance, checkBalance

variable [Allows (F .rates)] [Allows (F .supply)] [Allows (F .balances)]

deriving instance Touches F for addVirtualSupply, adjustSupply, issueInterest, adjustSbdBalance, adjustBalance,
  adjustSavingsSbdBalance, adjustSavingsBalance, createSbd

end Footprints

end Golos
