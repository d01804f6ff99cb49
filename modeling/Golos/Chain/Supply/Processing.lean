import Golos.Chain.Supply.Operations
import Golos.Chain.Block

/-! # Block processing conserves the tokens

The same for the steps of a block: every step issues what it credits, and pays what it
takes out of a fund.
-/

namespace Golos

open Stateful Evaluator Database Asset Conserves

variable {s : Database} {balance : Balances → Int} {adjust : AccountName → Asset → Eval Unit}
  {request : SavingsWithdraw} {e : Escrow} {delegatee : AccountName} {rshares : Int} {rewardWeight : Nat}
  {maxSteem : Asset}

variable {key : AccountName × Nat} {p : CommentPayout} {asset : Int → Asset} {info : CurationInfo} {maxRewards : Int}
  {claim : Int}

/-! ## The null account -/

theorem moves_drainNull (negated : ∀ x, (asset (-x)).ledger = -(asset x).ledger) (nothing : (asset 0).ledger = 0)
    (adjusts : ∀ s name a, Moves imbalance s (adjust name a) fun _ => a.ledger) :
    Moves imbalance s (drainNull balance adjust asset) fun x => -(asset x).ledger := by
  simp only [drainNull, moves_getAccount_bind]
  refine fun a _ => moves_ite.mpr ⟨fun _ => (adjusts _ _ _).bind fun _ _ _ => ?_, fun _ => ?_⟩
  · simp [negated]
  · simp [nothing]

theorem drainNull_nonneg : Ensures s (drainNull balance adjust asset) fun x _ => 0 ≤ x := by
  simp only [drainNull, getAccount, ensures_steps, ensures_ite]
  exact fun a _ => ⟨fun positive _ _ _ => positive.le, fun _ => le_rfl⟩

theorem moves_drainNullVesting : Moves imbalance s drainNullVesting fun x => -(steem x).ledger := by
  simp only [drainNullVesting, moves_getAccount_bind]
  refine fun a _ => moves_ite.mpr ⟨fun _ => ?_, fun _ => by simp⟩
  simp only [moves_get_bind, moves_times_bind, moves_amountIn_bind]
  intro converted _ _
  refine Moves.bind (d := fun _ => -(steem converted.amount).ledger) (moves_modifySupply ?_)
    fun _ _ _ => moves_skip fun _ _ => by simp
  simp only [Supply.ledger, ledger_steem_add, ledger_steem_sub]
  abel

theorem drainNullVesting_nonneg : Ensures s drainNullVesting fun x _ => 0 ≤ x := by
  simp only [drainNullVesting, getAccount, times, amountIn, ensures_steps, ensures_ite]
  exact fun a _ => ⟨fun _ converted worth _ _ _ _ _ _ _ => mulPrice_nonneg worth, fun _ => le_rfl⟩

/-- What is taken from the null account is taken from the supply. -/
theorem conserves_burn {total : Int} (nothing : (asset 0).ledger = 0)
    (negated : ∀ x, (asset (-x)).ledger = -(asset x).ledger) (nonneg : 0 ≤ total) :
    Moves imbalance s (when (0 < total) (adjustSupply (asset (-total)) false))
      fun _ => (asset total).ledger := by
  refine moves_when.mpr ⟨fun _ => moves_adjustSupply.congr fun _ _ _ => ?_, fun none => ?_⟩
  · rw [negated, neg_neg]
  · have zero : total = 0 := by omega
    rw [zero, nothing]

theorem conserves_clearNullAccountBalance : Conserves imbalance s clearNullAccountBalance := by
  refine moves_get_bind.mpr <| when fun _ => ?_
  have steem : ∀ x, (steem (-x)).ledger = -(steem x).ledger := ledger_steem_neg
  have sbd : ∀ x, (sbd (-x)).ledger = -(sbd x).ledger := ledger_sbd_neg
  refine (moves_drainNull steem (by simp) fun _ _ _ => moves_adjustBalance).bind fun a _ first => ?_
  refine (moves_drainNull steem (by simp) fun _ _ _ => moves_adjustSavingsBalance).bind fun b _ second => ?_
  refine (moves_drainNull sbd (by simp) fun _ _ _ => moves_adjustBalance).bind fun c _ third => ?_
  refine (moves_drainNull sbd (by simp) fun _ _ _ => moves_adjustSavingsBalance).bind fun d _ fourth => ?_
  refine Moves.bind moves_drainNullVesting fun e _ fifth => ?_
  have hₐ := drainNull_nonneg _ _ first
  have hb := drainNull_nonneg _ _ second
  have hc := drainNull_nonneg _ _ third
  have hd := drainNull_nonneg _ _ fourth
  have hₑ := drainNullVesting_nonneg _ _ fifth
  refine (conserves_burn (by simp) steem (by omega)).bind fun _ _ _ => ?_
  refine (conserves_burn (by simp) sbd (by omega)).congr fun _ _ _ => ?_
  simp only [ledger_steem_add, ledger_sbd_add]
  abel

/-! ## Inflation -/

/-- New tokens for the funds; those for the producer are issued but not yet paid. -/
theorem moves_issueToFunds {vesting content paid : Int} :
    Moves imbalance s (issueToFunds vesting content paid) fun _ => -(steem paid).ledger := by
  refine Moves.then (moves_modifySupply ?_) fun _ _ _ => conserves_of_within
  simp only [Supply.ledger, ledger_steem_add, ledger_steem_sub]
  abel

theorem conserves_processFunds : Conserves imbalance s processFunds := by
  simp only [processFunds, moves_get_bind, moves_getWitness_bind, moves_getAccount_bind]
  refine fun _ _ account _ => moves_ite.mpr ⟨fun _ => ?_, fun _ => ?_⟩
  · refine Moves.bind moves_issueToFunds fun _ _ _ => moves_createVesting.bind fun _ _ _ => ?_
    simp
  · refine moves_fromExcept_bind.mpr fun pay _ => ?_
    refine Moves.bind (d := fun _ => (steem pay).ledger) (moves_ite.mpr ⟨fun _ => ?_, fun _ => ?_⟩)
      fun _ _ _ => ?_
    · exact moves_createVesting.then fun _ _ _ => by simp
    · refine moves_modifyBalances fun a _ => ?_
      simp only [Balances.ledger, ledger_steem_add]
      abel
    · refine moves_fromExcept_bind.mpr fun _ _ => moves_fromExcept_bind.mpr fun _ _ => ?_
      exact Moves.congr moves_issueToFunds fun _ _ _ => by simp

theorem conserves_payLiquidityReward : Conserves imbalance s payLiquidityReward := by
  simp only [payLiquidityReward, moves_get_bind, moves_fromExcept_bind]
  refine fun reward _ => when fun _ => ?_
  cases s.topLiquidity with
  | none => simp
  | some e =>
    refine when fun _ => moves_adjustSupply.bind fun _ _ _ => moves_adjustBalance.bind fun _ _ _ => ?_
    exact conserves_of_within.congr fun _ _ _ => by simp

/-! ## Requests that fall due -/

theorem conserves_clearExpiredOrders : Conserves imbalance s clearExpiredOrders :=
  moves_get_bind.mpr <| forM fun _ _ _ => conserves_cancelOrder

abbrev keepsConverts : Footprint
  | .converts => false
  | _ => true

/-- The GBG burnt and the GOLOS issued by conversions are booked after the loop. -/
theorem moves_convertRequests {price : Price} {requests : List (OrderKey × ConvertRequest)}
    (lists : s.converts.Lists requests) : Moves imbalance s (convertRequests price requests)
      fun net => (steem net.2).ledger - (sbd net.1).ledger := by
  induction requests generalizing s with
  | nil => simp [convertRequests]
  | cons request rest ih =>
    obtain ⟨key, request⟩ := request
    simp only [convertRequests, moves_getAccount_bind, moves_times_bind]
    intro _ _ issued _
    refine moves_adjustBalance.bind fun _ t credited => ?_
    simp only [moves_amountIn_bind]
    intro sbd steem
    have kept : t.converts = s.converts := read_of_run keepsConverts .converts credited rfl
    have found : t.converts.find? key = some request := kept ▸ lists.found _ List.mem_cons_self
    refine (converts_isHolder.moves_remove found).bind fun _ u removed => ?_
    have erased := converts_isHolder.table_remove _ _ removed
    refine (ih (by rw [erased, kept]; exact lists.tail)).bind fun more _ _ => ?_
    simp only [moves_pure, ledger_eq_steem steem, ledger_eq_sbd sbd, ledger_steem_add,
      ledger_sbd_add]
    abel

theorem conserves_processConversions : Conserves imbalance s processConversions := by
  refine moves_get_bind.mpr <| when fun _ => ?_
  refine (moves_convertRequests Store.lists_sorted).bind fun net _ _ => ?_
  refine Moves.bind (d := fun _ => (sbd net.1).ledger - (steem net.2).ledger)
    (moves_modifySupply ?_) fun _ _ _ => ?_
  · simp only [Supply.ledger, ledger_steem_add, ledger_steem_sub, ledger_sbd_sub]
    abel
  · exact conserves_of_within.congr fun _ _ _ => by abel

/-- The body of the loop over completed savings withdrawals. -/
theorem conserves_completeSavingsWithdraw (found : s.savingsWithdraws.find? key = some request) :
    Conserves imbalance s (completeSavingsWithdraw key request) := by
  simp only [completeSavingsWithdraw, moves_getAccount_bind]
  refine fun _ _ => moves_adjustBalance.bind fun _ t credited => ?_
  refine conserves_of_within.bind fun _ u counted => ?_
  have kept : u.savingsWithdraws = s.savingsWithdraws :=
    (read_of_run keepsSavingsWithdraws .savingsWithdraws counted rfl).trans
      (read_of_run keepsSavingsWithdraws .savingsWithdraws credited rfl)
  exact (savingsWithdraws_isHolder.moves_remove (kept ▸ found)).congr fun _ _ _ => by simp

theorem removes_completeSavingsWithdraw :
    Ensures s (completeSavingsWithdraw key request) fun _ t => t.savingsWithdraws = s.savingsWithdraws.erase key := by
  simp only [completeSavingsWithdraw, getAccount, ensures_steps]
  intro _ _ _ t credited _ u counted
  have kept : u.savingsWithdraws = s.savingsWithdraws :=
    (read_of_run keepsSavingsWithdraws .savingsWithdraws counted rfl).trans
      (read_of_run keepsSavingsWithdraws .savingsWithdraws credited rfl)
  exact kept ▸ savingsWithdraws_isHolder.table_remove

theorem conserves_processSavingsWithdraws : Conserves imbalance s processSavingsWithdraws :=
  moves_get_bind.mpr <| conserves_sweep Store.lists_sorted
    (fun _ _ _ => conserves_completeSavingsWithdraw) fun _ _ _ => removes_completeSavingsWithdraw

theorem conserves_expireEscrow (found : s.escrows.find? key = some e) :
    Conserves imbalance s (expireEscrow key e) := by
  -- an escrow that expires is given back as one that is refused
  have refund := @conserves_refundEscrow s key.1 key.2
  simp only [refundEscrow, getEscrow, moves_fetch_bind] at refund
  exact refund e found

theorem removes_expireEscrow : Ensures s (expireEscrow key e) fun _ t => t.escrows = s.escrows.erase key := by
  simp only [expireEscrow, getAccount, ensures_steps]
  intro _ _ _ _ first _ _ second _ u third
  have kept : u.escrows = s.escrows :=
    (read_of_run keepsEscrows .escrows third rfl).trans
      ((read_of_run keepsEscrows .escrows second rfl).trans (read_of_run keepsEscrows .escrows first rfl))
  exact kept ▸ escrows_isHolder.table_remove

theorem conserves_expireEscrowRatification : Conserves imbalance s expireEscrowRatification :=
  moves_get_bind.mpr <| conserves_sweep Store.lists_sorted
    (fun _ _ _ => conserves_expireEscrow) fun _ _ _ => removes_expireEscrow

theorem settled_erase {k : AccountName × Nat} (settled : s.EscrowsSettled) {t : Database}
    (erased : t.escrows = s.escrows.erase k) : t.EscrowsSettled := by
  intro j e found
  rw [erased, Store.find?_erase_eq_some] at found
  exact settled j e found.2

theorem settled_expireEscrowRatification (settled : s.EscrowsSettled) :
    Ensures s expireEscrowRatification fun _ t => t.EscrowsSettled := by
  simp only [expireEscrowRatification]
  exact ensures_forM settled fun e _ t settled => Ensures.mono removes_expireEscrow fun _ u erased =>
    settled_erase settled erased

/-! ## Power-down -/

theorem conserves_depositAsSteem {toWithdraw : Int} {routes : List Route} :
    Conserves imbalance s (depositAsSteem toWithdraw routes) := by
  induction routes generalizing s with
  | nil => simp [depositAsSteem]
  | cons route rest ih =>
    refine moves_ite.mpr ⟨fun _ => ih, fun _ => moves_getAccount_bind.mpr fun _ _ => ?_⟩
    refine moves_skip fun converted _ => ?_
    refine bind (when fun _ => ?_) fun _ _ _ => ?_
    · refine Moves.bind (d := fun _ => (steem converted).ledger) (moves_modifyBalances fun a _ => ?_)
        fun _ _ _ => moves_modifySupply ?_
      · simp only [Balances.ledger, ledger_steem_add]; abel
      · simp only [Supply.ledger, ledger_steem_add, ledger_steem_sub]; abel
    · exact ih.bind fun _ _ _ => by simp

theorem conserves_depositOnRoutes {toWithdraw : Int} {routes : List Route} :
    Conserves imbalance s (depositOnRoutes toWithdraw routes) :=
  moves_skip fun _ _ => bind conserves_depositAsSteem fun _ _ _ => by simp

/-- What leaves the vesting fund is credited to the account. -/
theorem conserves_payWithdrawal {name : AccountName} : Conserves imbalance s (payWithdrawal name) := by
  simp only [payWithdrawal, moves_get_bind, moves_getAccount_bind]
  refine fun a _ => bind conserves_depositOnRoutes fun _ _ _ => ?_
  refine moves_skip fun converted _ => moves_skip fun _ _ => ?_
  refine Moves.bind (d := fun _ => (steem converted).ledger) (moves_modifyBalances fun a _ => ?_)
    fun _ _ _ => ?_
  · simp only [Balances.ledger, ledger_steem_add]; abel
  refine moves_getAccount_bind.mpr fun _ _ => moves_skip fun _ _ => ?_
  refine Moves.bind (d := fun _ => -(steem converted).ledger) (moves_modifySupply ?_) fun _ _ _ => ?_
  · simp only [Supply.ledger, ledger_steem_add, ledger_steem_sub]; abel
  · exact conserves_of_within.congr fun _ _ _ => by abel

theorem conserves_processVestingWithdrawals : Conserves imbalance s processVestingWithdrawals := by
  have pays (name : AccountName) : Preserves (SameQuantity imbalance) (payWithdrawal name) :=
    preserves_of_conserves fun _ => conserves_payWithdrawal
  exact conserves_of_preserves

/-! ## Payouts -/

theorem moves_payDelegator {d : DelegatorVoteInterestRate} :
    Moves imbalance s (payDelegator delegatee claim d) fun paid => (steem paid).ledger := by
  unfold payDelegator
  refine moves_ite.mpr ⟨fun _ => by simp, fun _ => moves_createVesting.bind fun _ _ _ => ?_⟩
  refine moves_get_bind.mpr <| moves_skip fun _ _ => moves_skip fun _ _ => ?_
  simp

theorem moves_payDelegators {rates : List DelegatorVoteInterestRate} :
    Moves imbalance s (payDelegators delegatee claim rates) fun paid => (steem paid).ledger := by
  induction rates generalizing s with
  | nil => simp [payDelegators]
  | cons d rest ih =>
    refine Moves.bind moves_payDelegator fun _ _ _ => ih.bind fun _ _ _ => ?_
    simp only [moves_pure, ledger_steem_add]
    abel

/-- A claim is paid out in full, to the delegators and to the voter. -/
theorem moves_payCurator {voter : AccountName} {vote : CommentVote} :
    Moves imbalance s (payCurator voter vote claim) fun _ => (steem claim).ledger := by
  simp only [payCurator, moves_get_bind, moves_getAccount_bind]
  intro _ _
  refine moves_ite.mpr ⟨fun _ => Moves.bind moves_payDelegators fun _ _ _ => ?_, fun _ => ?_⟩
  · refine moves_createVesting.bind fun _ _ _ => moves_skip fun _ _ => ?_
    simp
  · rw [pure_bind]
    refine moves_createVesting.bind fun _ _ _ => moves_skip fun _ _ => ?_
    simp

theorem moves_payVotes {votes : List VoteInfo} {start : CuratorPayout} :
    Moves imbalance s (payVotes info p maxRewards votes start)
      fun left => (steem (start.unclaimed - left.unclaimed)).ledger := by
  induction votes generalizing s start with
  | nil => simp [payVotes]
  | cons v rest ih =>
    refine moves_ite.mpr ⟨fun _ => ih, fun _ => moves_ite.mpr ⟨fun _ => ?_, fun _ => by simp⟩⟩
    refine moves_fromExcept_bind.mpr fun claim _ => Moves.bind moves_payCurator fun _ _ _ => ?_
    refine ih.congr fun left _ _ => ?_
    simp only [ledger_steem_sub]
    abel

theorem moves_payVoters : Moves imbalance s (payVoters info p maxRewards)
      fun left => (steem (maxRewards - left.1)).ledger := by
  refine moves_ite.mpr ⟨fun _ => Moves.bind moves_payVotes fun left _ _ => ?_, fun _ => by simp⟩
  cases left.heaviest with
  | none => simp
  | some v =>
    refine Moves.bind moves_payCurator fun _ _ _ => ?_
    simp only [moves_pure, ledger_steem_sub, ledger_steem_zero]
    abel

theorem moves_returnToRewardFund {tokens : Int} :
    Moves imbalance s (returnToRewardFund tokens) fun _ => (steem tokens).ledger := by
  refine moves_modifySupply ?_
  simp only [Supply.ledger, ledger_steem_add, ledger_steem_sub]
  abel

theorem moves_payCurators : Moves imbalance s (payCuratorsCounted info p maxRewards)
      fun left => (steem (maxRewards - left.1)).ledger := by
  refine Moves.bind moves_payVoters fun left _ _ => moves_ite.mpr ⟨fun _ => ?_, fun _ => by simp⟩
  refine Moves.bind moves_returnToRewardFund fun _ _ _ => ?_
  simp only [moves_pure, ledger_steem_sub, ledger_steem_zero]
  abel

theorem moves_claimRshareReward : Moves imbalance s (claimRshareReward rshares rewardWeight maxSteem)
      fun payout => -(steem payout).ledger := by
  simp only [claimRshareReward, moves_check_bind, moves_get_bind]
  refine fun _ _ _ => moves_skip fun _ _ => ?_
  refine Moves.bind (moves_modifySupply ?_) fun _ _ _ => moves_pure.mpr (sub_self _)
  simp only [Supply.ledger, ledger_steem_add, ledger_steem_sub]
  abel

theorem claimRshareReward_nonneg :
    Ensures s (claimRshareReward rshares rewardWeight maxSteem) fun payout _ => 0 ≤ payout := by
  simp only [claimRshareReward, ensures_steps]
  intro _ _ _ sbdValue t _ _ _ _
  refine le_min ?_ (Int.emod_nonneg _ (by decide))
  split
  · exact le_rfl
  · exact Int.natCast_nonneg _

theorem moves_payBeneficiaries {authorTokens : Int} {routes : List BeneficiaryRoute} :
    Moves imbalance s (payBeneficiaries authorTokens routes) fun paid => (steem paid).ledger := by
  induction routes generalizing s with
  | nil => simp [payBeneficiaries]
  | cons b rest ih =>
    refine moves_createVesting.bind fun _ _ _ => moves_skip fun _ _ => ?_
    refine ih.bind fun _ _ _ => ?_
    simp only [moves_pure, ledger_steem_add]
    abel

theorem moves_payReward {key : CommentKey} {rewardTokens : Int} :
    Moves imbalance s (payReward key p rewardTokens) fun _ => (steem rewardTokens).ledger := by
  simp only [payReward, moves_get_bind, moves_fromExcept_bind]
  refine fun info _ => Moves.bind moves_payCurators fun unclaimed _ _ =>
    Moves.bind moves_payBeneficiaries fun _ _ _ => ?_
  refine moves_createVesting.bind fun _ _ _ => moves_createSbd.bind fun _ _ _ => ?_
  refine moves_skip fun _ _ => ?_
  simp only [moves_pure, ledger_steem_add, ledger_steem_sub]
  abel

/-- What is claimed from the reward fund is paid out. -/
theorem conserves_payComment {key : CommentKey} {c : Comment} : Conserves imbalance s (payComment key c) := by
  refine moves_get_bind.mpr <| moves_skip fun maxSteem _ => ?_
  refine Moves.bind moves_claimRshareReward fun payout _ claimed => ?_
  have nonneg := claimRshareReward_nonneg _ _ claimed
  refine Moves.bind
    (moves_when.mpr ⟨fun _ => Moves.then moves_payReward fun _ _ _ => moves_pure.mpr rfl, fun nothing => ?_⟩)
      fun _ _ _ => ?_
  · have zero : payout = 0 := by omega
    simp [zero]
  · refine moves_skip fun _ _ => ?_
    simp

theorem conserves_cashoutCommentHelper {key : CommentKey} :
    Conserves imbalance s (cashoutCommentHelper key) := by
  simp only [cashoutCommentHelper, moves_getComment_bind]
  intro c _
  refine moves_ite.mpr ⟨fun _ => bind conserves_payComment fun _ _ _ => ?_, fun _ => ?_⟩
  · exact conserves_of_within
  · exact conserves_of_within

theorem conserves_processCommentCashout : Conserves imbalance s processCommentCashout :=
  moves_get_bind.mpr <| when fun _ => forM fun _ _ _ => forM fun _ _ _ =>
    conserves_cashoutCommentHelper

end Golos
