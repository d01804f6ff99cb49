import Golos.Chain.Quantity
import Golos.Chain.WitnessVotes

/-! # The ledger of all tokens

`held` counts the GOLOS and GBG of every holder: accounts, open orders, conversion
requests, escrows, savings on their way and the two funds.  `imbalance` is what is
held less what the supply says was issued.  The lemmas below say by how much every
function that changes a balance or the supply moves it; a transfer from one holder to
another moves it by nothing.
-/

namespace Golos

open Stateful Database Asset

/-! ## Entries -/

/-- An amount for every symbol. -/
abbrev Ledger := AssetSymbol → Int

/-- An asset as a ledger entry: nothing in the other symbols. -/
def Asset.ledger (a : Asset) : Ledger := Pi.single a.symbol a.amount

namespace Asset

@[simp] theorem ledger_neg (a : Asset) : (-a).ledger = -a.ledger := by
  simp [ledger, Pi.single_neg]

theorem ledger_add (x y : Int) (c : AssetSymbol) :
    (⟨x + y, c⟩ : Asset).ledger = (⟨x, c⟩ : Asset).ledger + (⟨y, c⟩ : Asset).ledger := by
  simp [ledger, Pi.single_add]

theorem ledger_sub (x y : Int) (c : AssetSymbol) :
    (⟨x - y, c⟩ : Asset).ledger = (⟨x, c⟩ : Asset).ledger - (⟨y, c⟩ : Asset).ledger := by
  simp [ledger, Pi.single_sub]

@[simp] theorem ledger_zero (c : AssetSymbol) : (⟨0, c⟩ : Asset).ledger = 0 := by
  simp [ledger]

@[simp] theorem ledger_steem_add (x y : Int) : (steem (x + y)).ledger = (steem x).ledger + (steem y).ledger :=
  ledger_add x y _

@[simp] theorem ledger_steem_sub (x y : Int) : (steem (x - y)).ledger = (steem x).ledger - (steem y).ledger :=
  ledger_sub x y _

@[simp] theorem ledger_steem_neg (x : Int) : (steem (-x)).ledger = -(steem x).ledger := ledger_neg (steem x)

@[simp] theorem ledger_steem_zero : (steem 0).ledger = 0 := ledger_zero _

@[simp] theorem ledger_sbd_add (x y : Int) : (sbd (x + y)).ledger = (sbd x).ledger + (sbd y).ledger :=
  ledger_add x y _

@[simp] theorem ledger_sbd_sub (x y : Int) : (sbd (x - y)).ledger = (sbd x).ledger - (sbd y).ledger :=
  ledger_sub x y _

@[simp] theorem ledger_sbd_neg (x : Int) : (sbd (-x)).ledger = -(sbd x).ledger := ledger_neg (sbd x)

@[simp] theorem ledger_sbd_zero : (sbd 0).ledger = 0 := ledger_zero _

theorem ledger_eq_zero {a : Asset} (h : a.amount = 0) : a.ledger = 0 := by simp [ledger, h]

theorem ledger_congr {a b : Asset} (h : a.symbol = b.symbol) : a.ledger = (⟨a.amount, b.symbol⟩ : Asset).ledger := by
  rw [← h]

theorem ledger_eq_steem {a : Asset} (h : a.symbol = steemSymbol) : a.ledger = (steem a.amount).ledger := by
  rw [ledger, ledger, h]; rfl

theorem ledger_eq_sbd {a : Asset} (h : a.symbol = sbdSymbol) : a.ledger = (sbd a.amount).ledger := by
  rw [ledger, ledger, h]; rfl

end Asset

/-! ## Holders -/

def Balances.ledger (b : Balances) : Ledger :=
  (steem (b.balance + b.savingsBalance)).ledger + (sbd (b.sbdBalance + b.savingsSbdBalance)).ledger

def Escrow.ledger (e : Escrow) : Ledger := e.steemBalance.ledger + e.sbdBalance.ledger + e.pendingFee.ledger

def LimitOrder.ledger (o : LimitOrder) : Ledger := o.amountForSale.ledger

namespace Database

/-- Everything accounts and the objects between them hold. -/
def heldOutsideFunds (s : Database) : Ledger :=
  (s.accounts.total fun _ a => a.balances.ledger) + (s.converts.total fun _ r => r.amount.ledger) +
    (s.orders.total fun _ o => o.ledger) + (s.escrows.total fun _ e => e.ledger) +
    (s.savingsWithdraws.total fun _ w => w.amount.ledger)

/-- Everything that is held of each token, in or outside the funds. -/
def held (s : Database) : Ledger :=
  s.heldOutsideFunds +
    (steem (s.supply.totalVestingFundSteem + s.supply.totalRewardFundSteem)).ledger

end Database

/-- The funds less the tokens issued. -/
def Supply.ledger (p : Supply) : Ledger :=
  (steem (p.totalVestingFundSteem + p.totalRewardFundSteem - p.currentSupply)).ledger -
    (sbd p.currentSbdSupply).ledger

/-- What is held less what was issued. -/
def Database.imbalance (s : Database) : Ledger := s.heldOutsideFunds + s.supply.ledger

/-- Without an imbalance, all that is held of a token is what was issued of it. -/
theorem Database.held_eq_of_imbalance {s : Database} (balanced : s.imbalance = 0) :
    s.held steemSymbol = s.supply.currentSupply ∧ s.held sbdSymbol = s.supply.currentSbdSupply := by
  have same : s.held = (steem s.supply.currentSupply).ledger + (sbd s.supply.currentSbdSupply).ledger := by
    have sum : s.held = s.imbalance + ((steem s.supply.currentSupply).ledger +
        (sbd s.supply.currentSbdSupply).ledger) := by
      simp only [held, imbalance, Supply.ledger, ledger_steem_sub]
      abel
    rw [sum, balanced, zero_add]
  have distinct : steemSymbol ≠ sbdSymbol := by decide
  rw [same]
  simp [ledger, distinct]

/-! ## Programs that leave every holder alone -/

/-- The cells outside the ledger. -/
abbrev outsideLedger : Footprint
  | .supply | .balances | .converts | .orders | .escrows | .savingsWithdraws => false
  | _ => true

theorem imbalance_eq_of_within {s t : Database} (frame : Within outsideLedger s t) : t.imbalance = s.imbalance := by
  have accounts := Store.total_eq_of_view (g := fun _ (b : Balances) => b.ledger) (frame .balances rfl)
  have supply : t.supply = s.supply := frame .supply rfl
  have converts : t.converts = s.converts := frame .converts rfl
  have orders : t.orders = s.orders := frame .orders rfl
  have escrows : t.escrows = s.escrows := frame .escrows rfl
  have savings : t.savingsWithdraws = s.savingsWithdraws := frame .savingsWithdraws rfl
  simp only [imbalance, heldOutsideFunds, accounts, supply, converts, orders, escrows,
    savings]

theorem conserves_of_within {α} {m : Eval α} {s : Database} [frame : Touches outsideLedger m] :
    Conserves imbalance s m :=
  .of_preserves frame fun _ _ => imbalance_eq_of_within

theorem moves_skip {α β} {m : Eval α} {k : α → Eval β} {d : β → Ledger} {s : Database} [Touches outsideLedger m]
    (rest : ∀ a t, Moves imbalance t (k a) d) : Moves imbalance s (m >>= k) d :=
  conserves_of_within.bind fun a t _ => rest a t

/-! ## Primitives -/

theorem accounts_isHolder : IsHolder imbalance (·.accounts) updateAccounts fun _ a => a.balances.ledger := by
  refine ⟨fun f s => ?_⟩
  simp only [updateAccounts, ensures_modify, imbalance, heldOutsideFunds, true_and]
  abel

theorem orders_isHolder : IsHolder imbalance (·.orders) updateOrders fun _ => LimitOrder.ledger := by
  refine ⟨fun f s => ?_⟩
  simp only [updateOrders, ensures_modify, imbalance, heldOutsideFunds, true_and]
  abel

theorem converts_isHolder : IsHolder imbalance (·.converts) updateConverts fun _ r => r.amount.ledger := by
  refine ⟨fun f s => ?_⟩
  simp only [updateConverts, ensures_modify, imbalance, heldOutsideFunds, true_and]
  abel

theorem escrows_isHolder : IsHolder imbalance (·.escrows) updateEscrows fun _ => Escrow.ledger := by
  refine ⟨fun f s => ?_⟩
  simp only [updateEscrows, ensures_modify, imbalance, heldOutsideFunds, true_and]
  abel

theorem savingsWithdraws_isHolder :
    IsHolder imbalance (·.savingsWithdraws) updateSavingsWithdraws fun _ w => w.amount.ledger := by
  refine ⟨fun f s => ?_⟩
  simp only [updateSavingsWithdraws, ensures_modify, imbalance, heldOutsideFunds, true_and]
  abel

theorem moves_modifyBalances {s : Database} {name : AccountName} {f : Balances → Balances} {d : Ledger}
    (change : ∀ a, s.accounts.find? name = some a → (f a.balances).ledger = a.balances.ledger + d) :
    Moves imbalance s (modifyBalances name f) fun _ => d :=
  accounts_isHolder.moves_updateAccount change

theorem moves_modifySupply {s : Database} {f : Supply → Supply} {d : Ledger}
    (change : (f s.supply).ledger = s.supply.ledger + d) : Moves imbalance s (modifySupply f) fun _ => d := by
  rw [modifySupply, moves_modify]
  change s.heldOutsideFunds + (f s.supply).ledger = s.heldOutsideFunds + s.supply.ledger + d
  rw [change, add_assoc]

/-! ## Supply and balances -/

section Balance

variable {s : Database} {name : AccountName}

/-- New supply that nobody holds yet. -/
theorem moves_adjustSupply {delta : Asset} {adjustVesting : Bool} :
    Moves imbalance s (adjustSupply delta adjustVesting) fun _ => -delta.ledger := by
  rw [adjustSupply, moves_get_bind]
  split
  next steem =>
    refine Moves.then (moves_modifySupply ?_) fun _ _ _ => conserves_of_within
    simp only [Supply.ledger, ledger_eq_steem steem, ledger_steem_add, ledger_steem_sub]
    abel
  · split
    next sbd =>
      refine Moves.then (moves_modifySupply ?_) fun _ _ _ => conserves_of_within
      simp only [Supply.ledger, ledger_eq_sbd sbd, ledger_sbd_add]
      abel
    · exact moves_throw

theorem moves_issueInterest {interest : Int} :
    Moves imbalance s (issueInterest interest) fun _ => -(sbd interest).ledger := by
  refine Moves.then (moves_modifySupply ?_) fun _ _ _ => conserves_of_within
  simp only [Supply.ledger, ledger_sbd_add]
  abel

/-- Adding to one of the four balances of an account. -/
theorem moves_addSbd {x : Int} {f : Balances → Balances} (adds : ∀ b, (f b).ledger = b.ledger + (sbd x).ledger) :
    Moves imbalance s (modifyBalances name f) fun _ => (sbd x).ledger :=
  moves_modifyBalances fun a _ => adds a.balances

/-- Interest is issued as it is credited, so only `delta` is moved; savings are no different. -/
theorem moves_adjustAnySbd {delta : Int} :
    (Moves imbalance s (adjustSbdBalance name delta) fun _ => (sbd delta).ledger) ∧
      Moves imbalance s (adjustSavingsSbdBalance name delta) fun _ => (sbd delta).ledger := by
  constructor
  all_goals
    simp only [adjustSbdBalance, adjustSavingsSbdBalance, moves_get_bind, moves_getAccount_bind]
    intro a _
    refine Conserves.bind (Conserves.when fun _ => ?_) fun _ t _ => ?_
    · refine Conserves.bind (moves_modifyBalances fun _ _ => by simp [Balances.ledger]) fun _ t _ => ?_
      refine Conserves.when fun _ => ?_
      refine moves_fromExcept_bind.mpr fun interest _ => ?_
      refine Moves.bind (moves_addSbd (x := interest) fun b => ?_) fun _ u _ => ?_
      · simp only [Balances.ledger, ledger_sbd_add]; abel
      · simpa using moves_issueInterest
    · refine moves_addSbd fun b => ?_
      simp only [Balances.ledger, ledger_sbd_add]; abel

theorem moves_adjustAnyBalance {delta : Asset} :
    (Moves imbalance s (adjustBalance name delta) fun _ => delta.ledger) ∧
      Moves imbalance s (adjustSavingsBalance name delta) fun _ => delta.ledger := by
  rw [adjustBalance, adjustSavingsBalance]
  constructor
  all_goals
    split
    next steem =>
      rw [moves_getAccount_bind]
      refine fun _ _ => moves_modifyBalances fun a _ => ?_
      simp only [Balances.ledger, ledger_eq_steem steem, ledger_steem_add]
      abel
    · split
      next sbd =>
        rw [ledger_eq_sbd sbd]
        first | exact moves_adjustAnySbd.1 | exact moves_adjustAnySbd.2
      · exact moves_throw

theorem moves_adjustBalance {delta : Asset} :
    Moves imbalance s (adjustBalance name delta) fun _ => delta.ledger := moves_adjustAnyBalance.1

theorem moves_adjustSavingsBalance {delta : Asset} :
    Moves imbalance s (adjustSavingsBalance name delta) fun _ => delta.ledger := moves_adjustAnyBalance.2

/-- SBD are created for GOLOS that leave the supply. -/
theorem moves_createSbd {steem : Int} :
    Moves imbalance s (createSbd name steem) fun _ => (Asset.steem steem).ledger := by
  rw [createSbd, moves_get_bind]
  split
  next nothing =>
    simp [nothing]
  · split
    · exact moves_adjustBalance.then fun _ _ _ => by simp
    · rw [moves_times_bind]
      intro sbd _
      refine moves_adjustBalance.bind fun _ _ _ => moves_adjustBalance.bind fun _ _ _ => ?_
      refine moves_adjustSupply.bind fun _ _ _ => moves_adjustSupply.bind fun _ _ _ => ?_
      simp only [moves_pure, ledger_steem_sub, ledger_steem_neg]
      abel

/-- Vesting puts GOLOS into the fund. -/
theorem moves_createVesting {steem : Asset} :
    Moves imbalance s (createVesting name steem) fun _ => steem.ledger := by
  simp only [createVesting, moves_get_bind, moves_times_bind, moves_amountIn_bind]
  intro shares _ _
  refine moves_skip fun _ t => ?_
  rw [moves_amountIn_bind]
  intro isSteem
  refine Moves.then (moves_modifySupply ?_) fun _ _ _ => conserves_of_within
  simp only [Supply.ledger, ledger_eq_steem isSteem, ledger_steem_add, ledger_steem_sub]
  abel

end Balance

end Golos
