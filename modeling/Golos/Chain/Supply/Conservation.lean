import Golos.Chain.Invariant
import Golos.Chain.Supply.Processing

/-! # The supply is what is held

Every state of a chain is balanced: what accounts, funds and the objects between them
hold of GOLOS and of GBG is what the supply says was issued.  The genesis is, and the
evaluators and the steps of a block move tokens from one holder to another or change
the supply by what they issue and burn.
-/

namespace Golos

open Stateful Evaluator Database

set_option synthInstance.maxSize 1000000

variable {s : Database} {net : Network}

/-- Nothing is held that was not issued, and approved escrows have paid their fee. -/
structure Database.Balanced (s : Database) : Prop where
  imbalance : s.imbalance = 0
  settled : s.EscrowsSettled

/-- The cells neither the ledger nor the state of the escrows is read from. -/
theorem balanced_of_within {t : Database} (frame : Within outsideLedger s t) (balanced : s.Balanced) : t.Balanced := by
  have escrows : t.escrows = s.escrows := frame .escrows rfl
  refine ⟨(imbalance_eq_of_within frame).trans balanced.imbalance, ?_⟩
  rw [EscrowsSettled, escrows]
  exact balanced.settled

theorem balanced_of_conserves {α} {m : Eval α} (balanced : s.Balanced)
    (conserves : Conserves imbalance s m) (settled : Ensures s m fun _ t => t.EscrowsSettled) :
    Ensures s m fun _ t => t.Balanced :=
  (conserves.and settled).mono fun _ t after =>
    ⟨by rw [after.1, balanced.imbalance, add_zero], after.2⟩

/-- What conserves the tokens and has nothing to do with escrows. -/
theorem balanced_of_keepsEscrows {α} {m : Eval α} [Touches keepsEscrows m]
    (balanced : s.Balanced) (conserves : Conserves imbalance s m) : Ensures s m fun _ t => t.Balanced :=
  balanced_of_conserves balanced conserves fun _ _ run => settled_of_run balanced.settled run

/-! ## Operations -/

theorem AccountCreateOperation.fee_nonneg {o : AccountCreateOperation} (valid : o.validate = .ok ()) :
    0 ≤ o.fee.amount := by
  simp only [validate, except_bind_eq_ok, validThat_eq_ok] at valid
  obtain ⟨_, _, _, _, _, _, _, _, nonneg⟩ := valid
  exact nonneg

theorem AccountCreateWithDelegationOperation.fee_nonneg {o : AccountCreateWithDelegationOperation}
    (valid : o.validate = .ok ()) : 0 ≤ o.fee.amount := by
  simp only [validate, checkAssetGe0, except_bind_eq_ok, validThat_eq_ok] at valid
  obtain ⟨_, _, _, _, _, ⟨_, _, nonneg⟩, _⟩ := valid
  exact nonneg

theorem evaluate_balanced {producing nesting apply} {op : Operation} (other : op.isProposal = false)
    (valid : op.validate = .ok ())
    (balanced : s.Balanced) : Ensures s (evaluate producing nesting apply op) fun _ t => t.Balanced := by
  cases op <;> unfold evaluate
  case accountCreate o =>
    exact balanced_of_keepsEscrows balanced (conserves_accountCreate (AccountCreateOperation.fee_nonneg valid))
  case accountCreateWithDelegation o =>
    exact balanced_of_keepsEscrows balanced
      (conserves_accountCreateWithDelegation (AccountCreateWithDelegationOperation.fee_nonneg valid))
  case challengeAuthority o => exact balanced_of_keepsEscrows balanced conserves_challengeAuthority
  case breakFreeReferral referral => exact balanced_of_keepsEscrows balanced conserves_breakFreeReferral
  case transfer o => exact balanced_of_keepsEscrows balanced conserves_transfer
  case transferToVesting o => exact balanced_of_keepsEscrows balanced conserves_transferToVesting
  case transferToSavings o => exact balanced_of_keepsEscrows balanced conserves_transferToSavings
  case transferFromSavings o => exact balanced_of_keepsEscrows balanced conserves_transferFromSavings
  case cancelTransferFromSavings o => exact balanced_of_keepsEscrows balanced conserves_cancelTransferFromSavings
  case escrowTransfer o =>
    exact balanced_of_conserves balanced conserves_escrowTransfer (settled_escrowTransfer balanced.settled)
  case escrowApprove o =>
    exact balanced_of_conserves balanced conserves_escrowApprove (settled_escrowApprove balanced.settled)
  case escrowDispute o =>
    exact balanced_of_conserves balanced conserves_escrowDispute (settled_escrowDispute balanced.settled)
  case escrowRelease o =>
    exact balanced_of_conserves balanced (conserves_escrowRelease balanced.settled)
      (settled_escrowRelease balanced.settled)
  case limitOrderCreate o => exact balanced_of_keepsEscrows balanced conserves_limitOrderCreate
  case limitOrderCreate2 o => exact balanced_of_keepsEscrows balanced (conserves_limitOrderCreate2 valid)
  case limitOrderCancel o => exact balanced_of_keepsEscrows balanced conserves_cancelOrder
  case convert o => exact balanced_of_keepsEscrows balanced conserves_convert
  case pow o => exact balanced_of_keepsEscrows balanced conserves_pow
  case pow2 o => exact balanced_of_keepsEscrows balanced conserves_pow2
  case proposalCreate | proposalUpdate | proposalDelete => cases other
  all_goals exact ensures_of_within (fun _ _ => balanced_of_within) balanced

theorem balanced_keptByOperations : KeptByOperations Balanced where
  records _ _ frame := balanced_of_within frame.widen
  evaluator _ _ _ _ _ := evaluate_balanced

/-! ## The steps of a block -/

section Steps

variable {s : Database}

/-- A split changes the number of vesting shares, not the fund behind them. -/
theorem conserves_performVestingShareSplit {magnitude : Int} :
    Conserves imbalance s (performVestingShareSplit magnitude) := by
  refine Conserves.bind (moves_modifySupply ?_) fun _ _ _ => conserves_of_within
  simp [Supply.ledger]

theorem conserves_rewrite {hardfork : Nat} : Conserves imbalance s (net.rewrite hardfork) := by
  unfold Network.rewrite
  split
  · exact conserves_performVestingShareSplit
  all_goals exact conserves_of_within

theorem conserves_applyDueHardforks {byVotes : Bool} {fuel : Nat} :
    Conserves imbalance s (net.applyDueHardforks byVotes fuel) := by
  induction fuel generalizing s with
  | zero => simp [Network.applyDueHardforks]
  | succ fuel ih =>
    simp only [Network.applyDueHardforks, moves_get_bind]
    refine Conserves.when fun _ => moves_check_bind.mpr fun _ => ?_
    refine Conserves.bind ?_ fun _ _ _ => ih
    exact conserves_rewrite.bind fun _ _ _ => conserves_of_within

theorem run_balanced {step : BlockStep} (other : step.appliesOperations = false)
    (balanced : s.Balanced) : Ensures s (step.run net) fun _ t => t.Balanced := by
  have skipped {m : Eval Unit} (body : Ensures s m fun _ t => t.Balanced) :
      Ensures s (unlessTransit m) fun _ t => t.Balanced := ensures_unlessTransit balanced body
  cases step <;> unfold BlockStep.run
  case applyTransaction | clearExpiredProposals => cases other
  case clearExpiredOrders => exact skipped (balanced_of_keepsEscrows balanced conserves_clearExpiredOrders)
  case clearNullAccountBalance =>
    exact skipped (balanced_of_keepsEscrows balanced conserves_clearNullAccountBalance)
  case processFunds => exact skipped (balanced_of_keepsEscrows balanced conserves_processFunds)
  case processConversions => exact skipped (balanced_of_keepsEscrows balanced conserves_processConversions)
  case processCommentCashout =>
    exact skipped (balanced_of_keepsEscrows balanced conserves_processCommentCashout)
  case processVestingWithdrawals =>
    exact skipped (balanced_of_keepsEscrows balanced conserves_processVestingWithdrawals)
  case processSavingsWithdraws =>
    exact skipped (balanced_of_keepsEscrows balanced conserves_processSavingsWithdraws)
  case payLiquidityReward => exact skipped (balanced_of_keepsEscrows balanced conserves_payLiquidityReward)
  case expireEscrowRatification =>
    exact skipped (balanced_of_conserves balanced conserves_expireEscrowRatification
      (settled_expireEscrowRatification balanced.settled))
  case processHardforks => exact balanced_of_keepsEscrows balanced (moves_get_bind.mpr conserves_applyDueHardforks)
  all_goals exact ensures_of_within (fun _ _ => balanced_of_within) balanced

end Steps

/-! ## Runs -/

theorem moves_createGenesisAccount {name : AccountName} {account : Account} {owner active posting : Authority} :
    Moves imbalance s (createGenesisAccount name account owner active posting)
      fun _ => account.balances.ledger :=
  accounts_isHolder.moves_createAccount.then fun _ _ _ => conserves_of_within

abbrev keepsSupply : Footprint
  | .supply => false
  | _ => true

/-- The genesis gives the initial supply to one account. -/
theorem conserves_initGenesis : Conserves imbalance {} net.initGenesis := by
  have empty {name : AccountName} {info : AccountInfo} {owner active posting : Authority} {t : Database} :
      Conserves imbalance t (createGenesisAccount name { info } owner active posting) :=
    moves_createGenesisAccount.congr fun _ _ _ => by simp [Balances.ledger]
  have kept {α} {m : Eval α} {s t : Database} {a : α} [Touches keepsSupply m]
      (unissued : s.supply = {}) (run : m s = .ok (a, t)) : t.supply = {} :=
    (read_of_run keepsSupply .supply run rfl).trans unissued
  unfold Network.initGenesis
  refine empty.bind fun _ _ run₁ => empty.bind fun _ _ run₂ => empty.bind fun _ _ run₃ => ?_
  refine moves_createGenesisAccount.bind fun _ _ run₄ => conserves_of_within.bind fun _ _ run₅ => ?_
  refine conserves_of_within.bind fun _ _ run₆ => ?_
  have unissued := kept (kept (kept (kept (kept (kept rfl run₁) run₂) run₃) run₄) run₅) run₆
  refine Moves.bind (d := fun _ => -(Asset.steem initSupply).ledger) (moves_modifySupply ?_) fun _ _ _ => ?_
  · simp [unissued, Supply.ledger]
  refine moves_skip fun _ _ => ?_
  refine Conserves.bind (Conserves.forM fun _ _ _ => empty) fun _ _ _ => ?_
  exact conserves_of_within.congr fun _ _ _ => by simp [Balances.ledger]

theorem genesis_balanced : Ensures {} net.initGenesis fun _ s => s.Balanced := by
  have nothing : imbalance {} = 0 := by
    simp [imbalance, heldOutsideFunds, Supply.ledger]
  refine balanced_of_keepsEscrows ⟨nothing, ?_⟩ conserves_initGenesis
  intro k e found
  cases found

theorem balanced_keepsInvariant : net.KeepsInvariant (fun _ _ => True) Balanced where
  genesis := genesis_balanced
  operations := balanced_keptByOperations
  step _ _ other _ := run_balanced other

/-- In every state of a chain, and after every operation an evaluator accepts there, the GOLOS
and the GBG that are held are the supply. -/
theorem held_eq_supply {net : Network} {s : Database} (reachable : net.Reachable s) :
    (s.held steemSymbol = s.supply.currentSupply ∧ s.held sbdSymbol = s.supply.currentSbdSupply) ∧
      ∀ producing stack nesting op, op.validate = .ok () →
        Ensures s (applyOperation producing stack nesting op) fun _ t =>
          t.held steemSymbol = t.supply.currentSupply ∧ t.held sbdSymbol = t.supply.currentSbdSupply := by
  obtain ⟨blocks, rest, reached⟩ := reachable
  have balanced := balanced_keepsInvariant.reaches reached
  refine ⟨held_eq_of_imbalance balanced.1.imbalance, fun producing stack nesting op valid => ?_⟩
  exact (balanced_keptByOperations.applyOperation valid balanced).mono fun _ t after =>
    held_eq_of_imbalance after.imbalance

theorem held_eq_supply_bareGenesis : Network.bare.Reachable bareGenesis ∧ bareGenesis.held steemSymbol = initSupply :=
  ⟨bareGenesis_reachable, (held_eq_supply bareGenesis_reachable).1.1.trans rfl⟩

end Golos
