import Golos.Chain.Supply.Ledger
import Golos.Chain.Proposal

/-! # Operations conserve the tokens

For every evaluator that touches a balance, the supply or an object that holds
tokens: what it takes in one place it puts in another.  An escrow is removed once its
two balances are empty, so nothing may be left of its fee by then; `EscrowsSettled` is
the invariant that says so.
-/

namespace Golos

open Stateful Database Asset Conserves

variable {s t : Database} {producing approved : Bool} {k : AccountName × Nat} {sender agent : AccountName}
  {message : String} {Q : Unit → Database → Prop} {newKey : OrderKey}

theorem moves_inOpParam {α M : Type} [AddCommGroup M] {q : Database → M} {param : String}
    {m : Eval α} {d : α → M} : Moves q s (inOpParam param m) d ↔ Moves q s m d := by
  simp [Moves]

/-- Nothing is left of the fee of an escrow that both parties have approved. -/
def Database.EscrowsSettled (s : Database) : Prop :=
  ∀ k e, s.escrows.find? k = some e → e.isApproved → e.pendingFee.amount = 0

namespace Evaluator

variable {s : Database}

variable {sender : AccountName} {escrowId : Nat} {f : Escrow → Escrow} {o : EscrowApproveOperation} {key : OrderKey}
  {α : Type}

/-! ## Accounts -/

/-- The fee of a new account becomes its vesting. -/
theorem conserves_accountCreate {o : AccountCreateOperation} (fee : 0 ≤ o.fee.amount) :
    Conserves imbalance s (accountCreate producing o) := by
  simp only [accountCreate, moves_getAccount_bind]
  refine fun _ _ => moves_skip fun _ _ => ?_
  rw [moves_get_bind]
  refine moves_skip fun _ _ => moves_skip fun _ _ => ?_
  rw [moves_amountIn_bind]
  intro steem
  refine Moves.bind (moves_modifyBalances (d := -o.fee.ledger) fun a _ => ?_) fun _ _ _ => ?_
  · simp only [Balances.ledger, ledger_eq_steem steem, ledger_steem_add, ledger_steem_sub]
    abel
  refine accounts_isHolder.moves_createAccount.bind fun _ _ _ => moves_skip fun _ _ => ?_
  refine moves_when.mpr ⟨fun _ => moves_createVesting.bind fun _ _ _ => ?_, fun nothing => ?_⟩
  · simp [Balances.ledger]
  · have zero : o.fee.amount = 0 := by omega
    simp [Balances.ledger, ledger_eq_steem steem, zero]

theorem conserves_accountCreateWithDelegation {o : AccountCreateWithDelegationOperation}
    (feeNonneg : 0 ≤ o.fee.amount) : Conserves imbalance s (accountCreateWithDelegation o) := by
  simp only [accountCreateWithDelegation, moves_getAccount_bind]
  refine fun _ _ => moves_skip fun _ _ => moves_skip fun _ _ => ?_
  simp only [moves_get_bind, moves_times_bind, moves_amountIn_bind, moves_check_bind]
  intro _ _ _ _ _ _ steem _
  refine moves_skip fun _ _ => moves_skip fun _ _ => ?_
  refine moves_skip fun _ _ => ?_
  refine Moves.bind (moves_modifyBalances (d := -o.fee.ledger) fun a _ => ?_) fun _ _ _ => ?_
  · simp only [Balances.ledger, ledger_eq_steem steem, ledger_steem_add, ledger_steem_sub]
    abel
  refine moves_skip fun _ _ => ?_
  refine accounts_isHolder.moves_createAccount.bind fun _ _ _ => moves_skip fun _ _ => ?_
  refine moves_skip fun _ _ => ?_
  refine Moves.bind (d := fun _ => o.fee.ledger) (moves_when.mpr ⟨fun _ => ?_, fun nothing => ?_⟩)
    fun _ _ _ => ?_
  · exact moves_createVesting.then fun _ _ _ => by simp
  · have zero : o.fee.amount = 0 := by omega
    simp [ledger_eq_steem steem, zero]
  · exact conserves_of_within.congr fun _ _ _ => by simp [Balances.ledger]

/-- The fee of a challenge becomes vesting of the challenged. -/
theorem conserves_challengeFee {payer receiver : AccountName} {fee : Int} {f : AccountInfo → AccountInfo} :
    Conserves imbalance s (do
      adjustBalance payer (.steem (-fee))
      let _ ← createVesting receiver (.steem fee)
      modifyAccountInfo receiver f) := by
  refine moves_adjustBalance.bind fun _ _ _ => moves_createVesting.bind fun _ _ _ => ?_
  exact conserves_of_within.congr fun _ _ _ => by simp

theorem conserves_challengeAuthority {o : ChallengeAuthorityOperation} :
    Conserves imbalance s (challengeAuthority o) := by
  simp only [challengeAuthority, moves_get_bind, moves_check_bind, moves_getAccount_bind, moves_ite]
  refine fun _ _ _ _ _ => ⟨fun _ _ _ _ _ => conserves_challengeFee, fun _ _ _ _ => conserves_challengeFee⟩

theorem conserves_breakFreeReferral {referral : AccountName} :
    Conserves imbalance s (breakFreeReferral referral) := by
  refine moves_skip fun _ _ => ?_
  simp only [moves_getAccount_bind, moves_check_bind]
  intro a _ _ _ _
  refine moves_skip fun _ _ => ?_
  refine moves_adjustBalance.bind fun _ _ _ => moves_adjustBalance.bind fun _ _ _ => ?_
  exact conserves_of_within.congr fun _ _ _ => by simp

/-! ## Transfers and savings -/

theorem conserves_transfer {o : TransferOperation} : Conserves imbalance s (transfer o) := by
  simp only [transfer, moves_get_bind, moves_getAccount_bind]
  refine fun _ _ _ _ => moves_skip fun _ _ => moves_inOpParam.mpr ?_
  refine moves_skip fun _ _ => moves_adjustBalance.bind fun _ _ _ => ?_
  simpa using @moves_adjustBalance _ _ o.amount

theorem conserves_transferToVesting {o : TransferToVestingOperation} :
    Conserves imbalance s (transferToVesting o) := by
  simp only [transferToVesting, moves_getAccount_bind]
  refine fun _ _ _ _ => moves_inOpParam.mpr ?_
  refine moves_skip fun _ _ => moves_adjustBalance.bind fun _ _ _ => ?_
  refine moves_createVesting.bind fun _ _ _ => ?_
  simp

theorem conserves_transferToSavings {o : TransferToSavingsOperation} :
    Conserves imbalance s (transferToSavings o) := by
  simp only [transferToSavings, moves_getAccount_bind]
  refine fun _ _ _ _ => moves_skip fun _ _ => moves_adjustBalance.bind fun _ _ _ => ?_
  simpa using @moves_adjustSavingsBalance _ _ o.amount

theorem conserves_transferFromSavings {o : TransferFromSavingsOperation} :
    Conserves imbalance s (transferFromSavings o) := by
  simp only [transferFromSavings, moves_get_bind, moves_getAccount_bind, moves_check_bind]
  refine fun _ _ _ _ _ => moves_skip fun _ _ => moves_check_bind.mpr fun _ => ?_
  refine moves_adjustSavingsBalance.bind fun _ _ _ => ?_
  refine savingsWithdraws_isHolder.moves_create.bind fun _ _ _ => ?_
  exact conserves_of_within.congr fun _ _ _ => by simp

/-- What keeps the open savings withdrawals as they are. -/
abbrev keepsSavingsWithdraws : Footprint
  | .savingsWithdraws => false
  | _ => true

theorem conserves_cancelTransferFromSavings {o : CancelTransferFromSavingsOperation} :
    Conserves imbalance s (cancelTransferFromSavings o) := by
  simp only [cancelTransferFromSavings, moves_getAccount_bind, moves_fetch_bind]
  intro _ _ request found
  refine moves_adjustSavingsBalance.bind fun _ t run => ?_
  have kept : t.savingsWithdraws = s.savingsWithdraws :=
    read_of_run keepsSavingsWithdraws .savingsWithdraws run rfl
  refine (savingsWithdraws_isHolder.moves_remove (kept ▸ found)).bind fun _ _ _ => ?_
  exact conserves_of_within.congr fun _ _ _ => by simp

/-! ## Escrow -/

/-- What keeps the open escrows as they are. -/
abbrev keepsEscrows : Footprint
  | .escrows => false
  | _ => true

/-- The escrow that was found is still there after a run that leaves escrows alone. -/
theorem escrow_kept {m : Eval α} {a : α} {e : Escrow}
    [Touches keepsEscrows m] (run : m s = .ok (a, t)) (found : s.escrows.find? k = some e) :
    t.escrows.find? k = some e := by
  have kept : t.escrows = s.escrows := read_of_run keepsEscrows .escrows run rfl
  rw [kept, found]

/-- What is spent on an escrow, with the fee in its own symbol, is what the escrow holds. -/
theorem ledger_spentOnEscrow {o : EscrowTransferOperation} {inSteem : Bool}
    (sameSymbol : o.fee.symbol = if inSteem then o.steemAmount.symbol else o.sbdAmount.symbol) :
    (⟨o.steemAmount.amount + (if inSteem then o.fee.amount else 0), o.steemAmount.symbol⟩ : Asset).ledger +
        (⟨o.sbdAmount.amount + (if inSteem then 0 else o.fee.amount), o.sbdAmount.symbol⟩ : Asset).ledger =
      o.steemAmount.ledger + o.sbdAmount.ledger + o.fee.ledger := by
  have fee : o.fee.ledger = (⟨o.fee.amount, o.fee.symbol⟩ : Asset).ledger := rfl
  cases inSteem <;>
  · simp only [Bool.false_eq_true, if_false, if_true] at sameSymbol ⊢
    simp only [ledger_add, add_zero, fee, sameSymbol]
    abel

theorem conserves_escrowTransfer {o : EscrowTransferOperation} : Conserves imbalance s (escrowTransfer o) := by
  simp only [escrowTransfer, moves_get_bind, moves_getAccount_bind, moves_check_bind]
  intro _ _ _ _ _ _ _ _ sameSymbol
  refine moves_skip fun _ _ => moves_skip fun _ _ => ?_
  refine moves_adjustBalance.bind fun _ _ _ => moves_adjustBalance.bind fun _ _ _ => ?_
  refine escrows_isHolder.moves_create.congr fun _ _ _ => ?_
  rw [Escrow.ledger, ledger_neg, ledger_neg, ← ledger_spentOnEscrow sameSymbol]
  abel

theorem conserves_refundEscrow : Conserves imbalance s (refundEscrow sender escrowId) := by
  simp only [refundEscrow, getEscrow, moves_fetch_bind, moves_getAccount_bind]
  intro e found _ _
  refine moves_adjustBalance.bind fun _ _ first => moves_adjustBalance.bind fun _ _ second => ?_
  refine moves_adjustBalance.bind fun _ _ third => ?_
  refine (escrows_isHolder.moves_remove
    (escrow_kept third (escrow_kept second (escrow_kept first found)))).congr fun _ _ _ => ?_
  simp only [Escrow.ledger]
  abel

theorem conserves_payEscrowAgent : Conserves imbalance s (payEscrowAgent sender escrowId agent) := by
  simp only [payEscrowAgent, getEscrow, moves_fetch_bind]
  refine fun e found => when fun _ => ?_
  simp only [moves_getAccount_bind]
  refine fun _ _ => moves_adjustBalance.bind fun _ _ run => ?_
  refine (escrows_isHolder.moves_change (escrow_kept run found)).congr fun _ _ _ => ?_
  simp only [Escrow.ledger, ledger_zero]
  abel

/-- A change of an escrow that keeps what it holds. -/
theorem conserves_changeEscrow (kept : ∀ e, (f e).ledger = e.ledger) :
    Conserves imbalance s (changeEscrow sender escrowId f) := by
  intro _ t run
  obtain ⟨e, _, read, _⟩ := bind_eq_ok.mp run
  have found : s.escrows.find? (sender, escrowId) = some e := by
    obtain ⟨_, _, here, there⟩ := bind_eq_ok.mp read
    obtain ⟨rfl, rfl⟩ := get_eq_ok.mp here
    exact (require_eq_ok.mp there).1
  have moved := escrows_isHolder.moves_change found _ _ run
  rw [moved, kept, sub_self]

theorem conserves_recordApproval (kept : ∀ e, (f e).ledger = e.ledger) :
    Conserves imbalance s (recordApproval o approved message f) :=
  moves_check_bind.mpr fun _ => when fun _ => conserves_changeEscrow kept

theorem conserves_escrowApprove : Conserves imbalance s (escrowApprove o) := by
  simp only [escrowApprove, moves_get_bind, getEscrow, moves_fetch_bind, moves_check_bind]
  intro _ _ _ _ _
  refine bind (when fun _ => conserves_recordApproval fun _ => rfl) fun _ _ _ => ?_
  refine bind (when fun _ => conserves_recordApproval fun _ => rfl) fun _ _ _ => ?_
  exact moves_ite.mpr ⟨fun _ => conserves_payEscrowAgent, fun _ => conserves_refundEscrow⟩

theorem conserves_escrowDispute {o : EscrowDisputeOperation} : Conserves imbalance s (escrowDispute o) := by
  simp only [escrowDispute, moves_get_bind, moves_getAccount_bind, getEscrow, moves_fetch_bind,
    moves_check_bind]
  exact fun _ _ _ _ _ _ _ _ _ => conserves_changeEscrow fun _ => rfl

/-- An escrow without balances is removed; its fee is settled since its approval. -/
theorem conserves_escrowRelease {o : EscrowReleaseOperation} (settled : s.EscrowsSettled) :
    Conserves imbalance s (escrowRelease o) := by
  simp only [escrowRelease, moves_get_bind, moves_getAccount_bind, getEscrow, moves_fetch_bind,
    moves_amountIn_bind, moves_check_bind]
  intro _ _ _ _ e found steem _ sbd _ _ _ _ approved
  refine conserves_of_within.bind fun _ _ before => ?_
  refine moves_adjustBalance.bind fun _ _ first => moves_adjustBalance.bind fun _ _ second => ?_
  have there := escrow_kept second (escrow_kept first (escrow_kept before found))
  refine (escrows_isHolder.moves_change there).bind fun _ _ changed => ?_
  refine moves_when.mpr ⟨fun empty => ?_, fun _ => ?_⟩
  · refine (escrows_isHolder.moves_remove (escrows_isHolder.find?_change there _ _ changed)).congr
      fun _ _ _ => ?_
    have fee : e.pendingFee.ledger = 0 := ledger_eq_zero (settled _ e found approved)
    have steemAll : o.steemAmount.amount = e.steemBalance.amount := by omega
    have sbdAll : o.sbdAmount.amount = e.sbdBalance.amount := by omega
    simp only [Escrow.ledger, ledger_congr steem, ledger_congr sbd, fee, steemAll, sbdAll]
    abel
  · simp only [Escrow.ledger, ledger_congr steem, ledger_congr sbd, ledger_sub]
    abel

/-! ### Settled fees -/

/-- All escrows but one are settled. -/
def SettledBut (k : AccountName × Nat) (s : Database) : Prop :=
  ∀ j e, j ≠ k → s.escrows.find? j = some e → e.isApproved → e.pendingFee.amount = 0

theorem ensures_changeEscrow : Ensures s (changeEscrow sender escrowId f) Q ↔
    ∀ e, s.escrows.find? (sender, escrowId) = some e →
      Q () { s with escrows := s.escrows.modify (sender, escrowId) f } := by
  simp [changeEscrow, change, fetch, updateEscrows]

theorem ensures_removeEscrow :
    Ensures s (removeEscrow sender escrowId) Q ↔ ∀ e, s.escrows.find? (sender, escrowId) = some e →
      Q () { s with escrows := s.escrows.erase (sender, escrowId) } := by
  simp [removeEscrow, remove, fetch, updateEscrows]

theorem settledBut_changeEscrow (others : SettledBut (sender, escrowId) s) :
    Ensures s (changeEscrow sender escrowId f) fun _ t => SettledBut (sender, escrowId) t := by
  rw [ensures_changeEscrow]
  intro _ _ j e different found
  rw [Store.find?_modify, if_neg different] at found
  exact others j e different found

theorem settled_removeEscrow (others : SettledBut (sender, escrowId) s) :
    Ensures s (removeEscrow sender escrowId) fun _ t => t.EscrowsSettled := by
  rw [ensures_removeEscrow]
  intro _ _ j e found
  obtain ⟨different, found⟩ := Store.find?_erase_eq_some.mp found
  exact others j e different found

/-- A change that leaves approvals and fee alone. -/
theorem settled_changeEscrow (settled : s.EscrowsSettled)
    (keeps : ∀ e, (f e).isApproved = e.isApproved ∧ (f e).pendingFee = e.pendingFee) :
    Ensures s (changeEscrow sender escrowId f) fun _ t => t.EscrowsSettled := by
  rw [ensures_changeEscrow]
  refine fun _ _ j e => Store.all_modify (fun old before => ?_) settled
  rw [(keeps old).1, (keeps old).2]
  exact before

/-- What leaves the escrows alone leaves them settled, all or all but one. -/
theorem SettledBut.of_run {m : Eval α} {a : α}
    [Touches keepsEscrows m] (others : SettledBut k s) (run : m s = .ok (a, t)) : SettledBut k t := by
  have kept : t.escrows = s.escrows := read_of_run keepsEscrows .escrows run rfl
  unfold SettledBut
  rwa [kept]

theorem settled_of_run {m : Eval α} {a : α}
    [Touches keepsEscrows m] (settled : s.EscrowsSettled) (run : m s = .ok (a, t)) : t.EscrowsSettled := by
  have kept : t.escrows = s.escrows := read_of_run keepsEscrows .escrows run rfl
  unfold EscrowsSettled
  rwa [kept]

theorem settled_escrowTransfer {o : EscrowTransferOperation} (settled : s.EscrowsSettled) :
    Ensures s (escrowTransfer o) fun _ t => t.EscrowsSettled := by
  simp only [escrowTransfer, getAccount, ensures_steps]
  intro _ _ _ _ _ _ _ _ _ _ t₁ run₁ _ t₂ run₂ _ t₃ run₃ _ t₄ run₄
  have before : t₄.EscrowsSettled :=
    settled_of_run (settled_of_run (settled_of_run (settled_of_run settled run₁) run₂) run₃) run₄
  simp only [create, updateEscrows, ensures_steps]
  exact fun fresh j e => Store.all_insert fresh (by rintro ⟨⟩) before

theorem settled_refundEscrow (others : SettledBut (sender, escrowId) s) :
    Ensures s (refundEscrow sender escrowId) fun _ t => t.EscrowsSettled := by
  simp only [refundEscrow, getEscrow, fetch, getAccount, ensures_steps]
  intro _ _ _ _ _ _ run₁ _ _ run₂ _ _ run₃
  exact settled_removeEscrow (((others.of_run run₁).of_run run₂).of_run run₃)

/-- Once both parties have approved, the fee is paid. -/
theorem settled_payEscrowAgent (others : SettledBut (sender, escrowId) s) :
    Ensures s (payEscrowAgent sender escrowId agent) fun _ t => t.EscrowsSettled := by
  simp only [payEscrowAgent, getEscrow, fetch, ensures_steps, ensures_when]
  refine fun e found => ⟨fun approved => ?_, fun pending j e' there approved => ?_⟩
  · simp only [getAccount, ensures_steps, ensures_changeEscrow]
    intro _ _ _ _ run _ _ j e' there _
    rw [Store.find?_modify] at there
    split at there
    · obtain ⟨_, _, rfl⟩ := Option.map_eq_some_iff.mp there
      rfl
    · exact others.of_run run j e' ‹_› there ‹_›
  · by_cases same : j = (sender, escrowId)
    · rw [same, found] at there
      cases there
      exact absurd approved pending
    · exact others j e' same there approved

theorem settledBut_recordApproval (others : SettledBut (o.fromAccount, o.escrowId) s) :
    Ensures s (recordApproval o approved message f) fun _ t => SettledBut (o.fromAccount, o.escrowId) t := by
  simp only [recordApproval, ensures_steps, ensures_when]
  exact fun _ => ⟨fun _ => settledBut_changeEscrow others, fun _ => others⟩

theorem settled_escrowApprove (settled : s.EscrowsSettled) :
    Ensures s (escrowApprove o) fun _ t => t.EscrowsSettled := by
  simp only [escrowApprove, getEscrow, fetch, ensures_steps]
  intro e _ _ _ _
  -- from an approval on until the fee is paid, the escrow itself may be unsettled
  have others : SettledBut (o.fromAccount, o.escrowId) s := fun j e _ => settled j e
  refine Ensures.mono (ensures_when.mpr ⟨fun _ => settledBut_recordApproval others, fun _ => others⟩)
    fun _ t others => ?_
  refine Ensures.mono (ensures_when.mpr ⟨fun _ => settledBut_recordApproval others, fun _ => others⟩)
    fun _ t others => ?_
  exact ensures_ite.mpr ⟨fun _ => settled_payEscrowAgent others, fun _ => settled_refundEscrow others⟩

theorem settled_escrowDispute {o : EscrowDisputeOperation} (settled : s.EscrowsSettled) :
    Ensures s (escrowDispute o) fun _ t => t.EscrowsSettled := by
  simp only [escrowDispute, getAccount, getEscrow, fetch, ensures_steps]
  exact fun _ _ _ _ _ _ _ _ _ => settled_changeEscrow settled fun _ => ⟨rfl, rfl⟩

theorem settled_escrowRelease {o : EscrowReleaseOperation} (settled : s.EscrowsSettled) :
    Ensures s (escrowRelease o) fun _ t => t.EscrowsSettled := by
  simp only [escrowRelease, getAccount, getEscrow, fetch, amountIn, ensures_steps]
  intro _ _ _ _ e _ _ _ _ _ _ _ _ _ _ _ run₁ _ _ run₂ _ _ run₃
  have before := settled_of_run (settled_of_run (settled_of_run settled run₁) run₂) run₃
  refine Ensures.mono (settled_changeEscrow before ?_) fun _ t settled => ?_
  · exact fun _ => ⟨rfl, rfl⟩
  · exact ensures_when.mpr ⟨fun _ => settled_removeEscrow fun j e _ => settled j e, fun _ => settled⟩

/-! ## Market -/

/-- What keeps the open orders as they are. -/
abbrev keepsOrders : Footprint
  | .orders => false
  | _ => true

theorem order_kept {m : Eval α} {a : α} {k : OrderKey} {order : LimitOrder}
    [Touches keepsOrders m] (run : m s = .ok (a, t)) (found : s.orders.find? k = some order) :
    t.orders.find? k = some order := by
  have kept : t.orders = s.orders := read_of_run keepsOrders .orders run rfl
  rw [kept, found]

theorem conserves_cancelOrder : Conserves imbalance s (cancelOrder key) := by
  simp only [cancelOrder, getLimitOrder, moves_fetch_bind, moves_getAccount_bind]
  intro order found _ _
  refine moves_adjustBalance.bind fun _ _ run => ?_
  refine (orders_isHolder.moves_remove (order_kept run found)).congr fun _ _ _ => ?_
  simp [LimitOrder.ledger]

/-- An order that is filled pays `pays` and receives `receives`. -/
theorem moves_fillOrder {pays receives : Asset} :
    Moves imbalance s (fillOrder key pays receives) fun _ => receives.ledger - pays.ledger := by
  simp only [fillOrder, getLimitOrder, moves_fetch_bind, moves_check_bind, moves_getAccount_bind]
  intro order found sameSymbol _ _ _
  have paysLedger : pays.ledger = (⟨pays.amount, order.sellPrice.base.symbol⟩ : Asset).ledger := by
    rw [ledger, ← sameSymbol]; rfl
  refine moves_adjustBalance.bind fun _ _ run => ?_
  refine moves_ite.mpr ⟨fun all => ?_, fun _ => ?_⟩
  · refine (orders_isHolder.moves_remove (order_kept run found)).bind fun _ _ _ => ?_
    simp only [moves_pure, LimitOrder.ledger, LimitOrder.amountForSale, paysLedger, all]
    abel
  · refine (orders_isHolder.moves_change (order_kept run found)).bind fun _ _ _ => ?_
    simp only [moves_fetch_bind, moves_fromExcept_bind]
    refine fun _ _ _ _ => moves_ite.mpr ⟨fun _ => bind conserves_cancelOrder fun _ _ _ => ?_, fun _ => ?_⟩ <;>
    · simp only [moves_pure, LimitOrder.ledger, LimitOrder.amountForSale, paysLedger, ledger_sub]
      abel

/-- What one order pays the other receives. -/
theorem conserves_matchOrders {oldKey : OrderKey} : Conserves imbalance s (matchOrders newKey oldKey) := by
  simp only [matchOrders, getLimitOrder, moves_fetch_bind]
  intro _ _ _ _
  refine moves_skip fun _ _ => moves_skip fun _ _ => ?_
  refine Moves.bind moves_fillOrder fun _ _ _ => Moves.bind moves_fillOrder fun _ _ _ => ?_
  rw [moves_pure]
  abel

theorem conserves_matchAll {oldKeys : List OrderKey} : Conserves imbalance s (matchAll newKey oldKeys) := by
  induction oldKeys generalizing s with
  | nil => simp [matchAll]
  | cons oldKey rest ih =>
    refine bind conserves_matchOrders fun finished _ _ => ?_
    exact moves_ite.mpr ⟨fun _ => by simp, fun _ => ih⟩

theorem conserves_applyOrder : Conserves imbalance s (applyOrder key) := by
  simp only [applyOrder, getLimitOrder, moves_fetch_bind, moves_get_bind]
  exact fun _ _ => bind conserves_matchAll fun _ _ _ => moves_get_bind.mpr (moves_pure.mpr rfl)

theorem conserves_placeOrder {owner : AccountName} {orderId : Nat} {amountToSell : Asset} {sellPrice : Price}
    {expiration : Time} {fillOrKill : Bool} (sells : sellPrice.base.symbol = amountToSell.symbol) :
    Conserves imbalance s (placeOrder owner orderId amountToSell sellPrice expiration fillOrKill) := by
  simp only [placeOrder, moves_get_bind, moves_check_bind, moves_getAccount_bind]
  intro _ _ _
  refine moves_skip fun _ _ => moves_adjustBalance.bind fun _ _ _ => ?_
  refine orders_isHolder.moves_create.bind fun _ _ _ => bind conserves_applyOrder fun _ _ _ => ?_
  refine conserves_of_within.congr fun _ _ _ => ?_
  have same : (⟨amountToSell.amount, amountToSell.symbol⟩ : Asset).ledger = amountToSell.ledger := rfl
  simp only [LimitOrder.ledger, LimitOrder.amountForSale, sells, ledger_neg]
  abel

theorem conserves_limitOrderCreate {o : LimitOrderCreateOperation} :
    Conserves imbalance s (limitOrderCreate o) :=
  conserves_placeOrder rfl

theorem conserves_limitOrderCreate2 {o : LimitOrderCreate2Operation} (valid : o.validate = .ok ()) :
    Conserves imbalance s (limitOrderCreate2 o) := by
  refine conserves_placeOrder ?_
  simp only [LimitOrderCreate2Operation.validate, except_bind_eq_ok, validThat_eq_ok] at valid
  obtain ⟨_, _, _, _, _, _, _, sells, _⟩ := valid
  exact sells.symm

theorem conserves_convert {o : ConvertOperation} : Conserves imbalance s (convert o) := by
  simp only [convert, moves_get_bind, moves_getAccount_bind]
  refine fun _ _ => moves_skip fun _ _ => moves_adjustBalance.bind fun _ _ _ => ?_
  refine moves_check_bind.mpr fun _ => converts_isHolder.moves_create.congr fun _ _ _ => ?_
  simp

/-! ## Mining -/

/-- The reward for a block's work is new supply. -/
theorem conserves_payPowReward {reward : Int} {liquid : Bool} :
    Conserves imbalance s (payPowReward reward liquid) := by
  refine moves_adjustSupply.bind fun _ _ _ => moves_get_bind.mpr <| moves_ite.mpr ⟨fun _ => ?_, fun _ => ?_⟩
  · exact moves_adjustBalance.congr fun _ _ _ => by simp
  · refine moves_createVesting.bind fun _ _ _ => ?_
    simp

theorem conserves_createMinedAccount {name recoveryAccount : AccountName} {key : PublicKey} :
    Conserves imbalance s (createMinedAccount name key recoveryAccount) := by
  refine moves_get_bind.mpr <| accounts_isHolder.moves_createAccount.bind fun _ _ _ => ?_
  exact conserves_of_within.congr fun _ _ _ => by simp [Balances.ledger]

theorem conserves_pow {o : PowOperation} : Conserves imbalance s (pow producing o) := by
  simp only [pow, moves_get_bind, moves_check_bind]
  refine fun _ => moves_skip fun _ _ => ?_
  refine bind (when fun _ => conserves_createMinedAccount) fun _ _ _ => ?_
  refine moves_skip fun _ _ => moves_skip fun _ t => ?_
  rw [moves_get_bind]
  refine moves_skip fun _ _ => moves_fromExcept_bind.mpr fun _ _ => ?_
  exact conserves_payPowReward

theorem conserves_pow2 {o : Pow2Operation} : Conserves imbalance s (pow2 o) := by
  refine moves_skip fun _ _ => moves_skip fun _ _ => ?_
  rw [moves_get_bind]
  refine bind (moves_ite.mpr ⟨fun _ => moves_require_bind.mpr fun _ _ => ?_,
    fun _ => conserves_of_within⟩) fun _ _ _ => ?_
  · exact bind conserves_createMinedAccount fun _ _ _ => conserves_of_within
  · exact when fun _ => moves_fromExcept_bind.mpr fun _ _ => conserves_payPowReward

end Evaluator

end Golos
