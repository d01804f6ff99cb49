import Golos.Chain.Routes
import Golos.Chain.Quantity

/-! # Vesting shares add up

`total_vesting_shares` is what the accounts hold together.  Deposits, power-downs along any routes and the burning of
the shares of `null` change both by the same amount; hardfork 1 multiplies both.

* `vesting_shares_add_up` — in every state of every run nothing is issued that nobody holds.
-/

namespace Golos

open Stateful Evaluator Database Store List

set_option synthInstance.maxSize 1000000

variable {s t : Database} {name : AccountName} {delta toWithdraw : Int} {routes : List Route}

/-! ## Shares nobody holds -/

namespace Database

/-- The vesting shares of all accounts. -/
def heldShares (s : Database) : Int := s.accounts.total fun _ a => a.vestingShares

/-- The vesting shares that were issued and nobody holds. -/
def looseShares (s : Database) : Int := s.supply.totalVestingShares - s.heldShares

end Database

abbrev keepsLoose : Footprint
  | .vesting | .supply => false
  | _ => true

theorem heldShares_of_view (same : t.accounts.view (·.vestingShares) = s.accounts.view (·.vestingShares)) :
    t.heldShares = s.heldShares :=
  total_eq_of_view (g := fun _ shares => shares) same

theorem looseShares_of_within (within : Within keepsLoose s t) : t.looseShares = s.looseShares := by
  have supply : t.supply = s.supply := within .supply rfl
  rw [looseShares, looseShares, supply, heldShares_of_view (within .vesting rfl)]

instance : Finer (Within keepsLoose) (SameQuantity looseShares) := ⟨fun _ _ => looseShares_of_within⟩

/-- A change of the supply that leaves the shares. -/
instance {supply sbd fund reward : Supply → Int} : Preserves (SameQuantity looseShares) (modifySupply fun p =>
    ⟨supply p, sbd p, fund p, p.totalVestingShares, reward p⟩) :=
  preserves_modify fun _ => rfl

theorem moves_modifyVestingShares {f : Int → Int}
    (moved : ∀ a, s.accounts.find? name = some a → a.vestingShares - f a.vestingShares = delta) :
    Moves looseShares s (modifyVestingShares name f) fun _ => delta := by
  simp only [modifyVestingShares, updateAccount, getAccount, updateAccounts, Moves, ensures_steps]
  intro a known
  have held := total_modify known (g := fun _ (a : Account) => a.vestingShares)
    (f := fun a => { a with vestingShares := f a.vestingShares })
  have less := moved a known
  dsimp only [looseShares, heldShares] at held ⊢
  omega

theorem moves_deposit : Moves looseShares s (modifyVestingShares name (· + delta)) fun _ => -delta :=
  moves_modifyVestingShares fun _ _ => by omega

theorem moves_takeFromFund {converted : Int} :
    Moves looseShares s (takeFromFund delta converted) fun _ => -delta := by
  simp only [takeFromFund, modifySupply, moves_modify, looseShares, heldShares]
  omega

instance {steem} : Preserves (SameQuantity looseShares) (createVesting name steem) := by
  refine preserves_of_conserves fun s => ?_
  simp only [createVesting, moves_get_bind]
  refine Conserves.bind conserves_of_preserves fun _ _ _ => Conserves.bind conserves_of_preserves fun new _ _ => ?_
  refine moves_deposit.bind fun _ _ _ => Conserves.bind conserves_of_preserves fun steem t _ => ?_
  have issued : Moves looseShares t (modifySupply fun p => { p with
      totalVestingFundSteem := p.totalVestingFundSteem + steem
      totalVestingShares := p.totalVestingShares + new }) fun _ => new := by
    simp only [modifySupply, moves_modify, looseShares, heldShares]
    omega
  rw [zero_sub, neg_neg]
  exact issued.then fun _ _ _ => Conserves.bind conserves_of_preserves fun _ _ _ => moves_pure.mpr rfl

deriving instance Preserves (SameQuantity looseShares) for adjustSupply, issueInterest, adjustSbdBalance,
  adjustSavingsSbdBalance, adjustBalance, adjustSavingsBalance, createSbd, payDelegator

/-! ## Power-downs -/

/-- The first pass over the routes issues no shares.  It says how many it has given away: all that is due. -/
theorem depositAsVests_gives_due (nonneg : 0 ≤ toWithdraw) :
    Ensures s (depositAsVests toWithdraw routes) fun given t => t.looseShares = s.looseShares + -given ∧
      given = (routes.map fun r => if r.2.autoVest then routeShare toWithdraw r.2.percent else 0).sum := by
  induction routes generalizing s with
  | nil => simp [depositAsVests]
  | cons route rest ih =>
    have share : 0 ≤ if route.2.autoVest then routeShare toWithdraw route.2.percent else 0 := by
      split
      · exact routeShare_nonneg nonneg _
      · exact le_rfl
    have deposited (amount : Int) (enough : 0 ≤ amount) : Moves looseShares s (when (0 < amount) do
        modifyVestingShares route.1.2 (· + amount)
        adjustProxiedWitnessVotes route.1.2 amount) fun _ => -amount := by
      refine moves_when.mpr ⟨fun _ => moves_deposit.then fun _ _ _ => conserves_of_preserves, fun nothing => ?_⟩
      omega
    simp only [depositAsVests, ensures_bind, ensures_pure]
    refine Ensures.mono (deposited _ share) fun _ t moved => ih.mono fun more u ⟨after, sum⟩ => ?_
    rw [map_cons, sum_cons, ← sum, after, moved]
    dsimp only
    omega

/-- The second pass takes what it gives away out of the fund. -/
theorem depositAsSteem_gives_due (nonneg : 0 ≤ toWithdraw) :
    Ensures s (depositAsSteem toWithdraw routes) fun given t => t.looseShares = s.looseShares + -given ∧
      given = (routes.map fun r => if r.2.autoVest then 0 else routeShare toWithdraw r.2.percent).sum := by
  induction routes generalizing s with
  | nil => simp [depositAsSteem]
  | cons route rest ih =>
    have share := routeShare_nonneg nonneg route.2.percent
    have deposited (u : Database) (converted : Int) : Moves looseShares u
        (when (0 < routeShare toWithdraw route.2.percent) do
          modifyBalances route.1.2 fun b => { b with balance := b.balance + converted }
          takeFromFund (routeShare toWithdraw route.2.percent) converted)
        fun _ => -routeShare toWithdraw route.2.percent := by
      refine moves_when.mpr ⟨fun _ => Conserves.bind conserves_of_preserves fun _ _ _ => moves_takeFromFund,
        fun nothing => ?_⟩
      omega
    unfold depositAsSteem
    rw [map_cons, sum_cons]
    refine ensures_ite.mpr ⟨fun auto => ?_, fun auto => ?_⟩
    · rw [if_pos auto, zero_add]
      exact ih
    · simp only [ensures_bind, ensures_pure, ensures_getAccount, if_neg auto]
      intro _ _
      refine ensures_read fun converted => Ensures.mono (deposited s converted) fun _ t moved => ?_
      refine ih.mono fun more u ⟨after, sum⟩ => ?_
      rw [← sum, after, moved]
      dsimp only
      omega

/-- The shares of the routes round down. -/
theorem routeShares_le (toWithdraw : Int) (routes : List Route) :
    10000 * (routes.map fun r => routeShare toWithdraw r.2.percent).sum ≤
      toWithdraw * ((routes.map fun r => r.2.percent).sum : Nat) := by
  induction routes with
  | nil => simp
  | cons route rest ih =>
    have share : 10000 * routeShare toWithdraw route.2.percent ≤ toWithdraw * route.2.percent := by
      unfold routeShare
      omega
    simp only [List.map_cons, List.sum_cons, Nat.cast_add, mul_add]
    exact add_le_add share ih

/-- Both passes together give away no more than is withdrawn. -/
theorem depositOnRoutes_gives_due (nonneg : 0 ≤ toWithdraw)
    (limited : (routes.map fun r => r.2.percent).sum ≤ 10000) :
    Ensures s (depositOnRoutes toWithdraw routes) fun given t =>
      t.looseShares = s.looseShares + -(given.1 + given.2) ∧ given.1 + given.2 ≤ toWithdraw := by
  simp only [depositOnRoutes, ensures_bind, ensures_pure]
  refine (depositAsVests_gives_due nonneg).mono ?_
  rintro asVests t ⟨vested, vests⟩
  refine (depositAsSteem_gives_due nonneg).mono ?_
  rintro asSteem u ⟨paid, steem⟩
  refine ⟨by omega, ?_⟩
  have both : asVests + asSteem = (routes.map fun r => routeShare toWithdraw r.2.percent).sum := by
    rw [vests, steem, ← List.sum_map_add]
    congr 2
    funext r
    split <;> omega
  have percent : toWithdraw * ((routes.map fun r => r.2.percent).sum : Nat) ≤ toWithdraw * 10000 :=
    mul_le_mul_of_nonneg_left (by exact_mod_cast limited) nonneg
  have le := routeShares_le toWithdraw routes
  omega

theorem payWithdrawal_conserves (limited : ((s.routesInOrder name).map fun r => r.2.percent).sum ≤ 10000) :
    Conserves looseShares s (payWithdrawal name) := by
  simp only [payWithdrawal, moves_get_bind]
  refine Conserves.bind conserves_of_preserves fun a t run => ?_
  have nonneg : 0 ≤ a.nextPayment := le_max_left _ _
  have due := depositOnRoutes_gives_due nonneg limited (s := t)
  refine Moves.bind (due.mono fun _ _ => And.left) fun given u paid => ?_
  have le := (due _ _ paid).2
  refine Conserves.bind conserves_of_preserves fun converted _ _ => ?_
  refine Moves.bind (d := fun _ => a.nextPayment) (moves_modifyVestingShares fun _ _ => by omega) fun _ _ _ => ?_
  refine Conserves.bind conserves_of_preserves fun _ _ _ => ?_
  refine Conserves.bind conserves_of_preserves fun _ _ _ => ?_
  refine Conserves.bind conserves_of_preserves fun _ _ _ => ?_
  -- what the routes leave is converted for the owner, out of the fund
  refine moves_takeFromFund.bind fun _ _ _ => ?_
  refine Moves.congr (d := fun _ => 0) conserves_of_preserves fun _ _ _ => ?_
  omega

theorem percentInOrder_le (recorded : s.RoutesRecorded) :
    ((s.routesInOrder name).map fun r => r.2.percent).sum ≤ 10000 := by
  have same : (s.routesInOrder name).Perm (s.routesOf name) := perm_insertionSort _ _
  rw [(same.map _).sum_eq]
  exact recorded.limited name

/-! ## Splits -/

theorem held_keys : (s.accounts.keys.map fun name => (s.sharesOf name).getD 0).sum = s.heldShares := by
  rw [Store.keys, List.map_map, heldShares, total]
  refine congrArg List.sum (map_congr_left fun e member => ?_)
  have found := find?_eq_some.mpr member
  simp only [Function.comp, sharesOf, found, Option.map_some, Option.getD_some]

theorem splitAccount_held {magnitude : Int} : Ensures s (splitAccount magnitude name) fun _ t =>
    t.looseShares = s.looseShares - (magnitude - 1) * (s.sharesOf name).getD 0 ∧
      ∀ x ≠ name, t.sharesOf x = s.sharesOf x := by
  simp only [splitAccount, ensures_bind]
  have moved : Moves looseShares s (modifyVestingShares name (· * magnitude)) fun _ =>
      -((magnitude - 1) * (s.sharesOf name).getD 0) := by
    refine moves_modifyVestingShares fun a found => ?_
    simp only [sharesOf, found, Option.map_some, Option.getD_some]
    ring
  refine (moved.and sharesOf_modifyVestingShares).mono fun _ t split => ?_
  refine ensures_frame (Within keepsLoose) fun _ u first => ensures_since _ first fun _ v within => ?_
  refine ⟨?_, fun x other => ?_⟩
  · rw [looseShares_of_within within, sub_eq_add_neg]
    exact split.1
  · rw [within.sharesOf_eq rfl, split.2, if_neg other]

theorem splitAccounts_held {magnitude : Int} (names : List AccountName) (nodup : names.Nodup) :
    Ensures s (names.forM fun name => splitAccount magnitude name) fun _ t =>
      t.looseShares = s.looseShares - (magnitude - 1) * (names.map fun name => (s.sharesOf name).getD 0).sum := by
  induction names generalizing s with
  | nil => simp only [forM_eq_forM, forM_nil, ensures_pure, map_nil, sum_nil, mul_zero, sub_zero]
  | cons name rest ih =>
    obtain ⟨once, nodup⟩ := nodup_cons.mp nodup
    simp only [forM_eq_forM, forM_cons, ensures_bind] at ih ⊢
    refine splitAccount_held.mono fun _ t split => (ih nodup).mono fun _ u others => ?_
    have same : rest.map (fun x => (t.sharesOf x).getD 0) = rest.map fun x => (s.sharesOf x).getD 0 :=
      map_congr_left fun x member => by rw [split.2 x (ne_of_mem_of_not_mem member once)]
    rw [others, same, split.1, map_cons, sum_cons]
    ring

/-- A split multiplies what is issued and what is held. -/
theorem performVestingShareSplit_loose {magnitude : Int} : Ensures s (performVestingShareSplit magnitude) fun _ t =>
    t.looseShares = magnitude * s.looseShares := by
  simp only [performVestingShareSplit, ensures_bind, modifySupply, ensures_modify, ensures_get]
  refine ensures_frame (Within keepsLoose) fun _ t cleared => ?_
  refine (splitAccounts_held t.accounts.keys t.accounts.nodup).mono fun _ u split => ?_
  refine ensures_frame (Within keepsLoose) fun _ v comments => ensures_since _ comments fun _ w recounted => ?_
  rw [looseShares_of_within recounted, split, held_keys, looseShares_of_within cleared]
  have held : t.heldShares = s.heldShares := heldShares_of_view (cleared .vesting rfl)
  rw [held]
  simp only [looseShares, heldShares]
  ring

/-! ## Runs -/

/-- Every vesting share that was issued is held. -/
def Database.AllHeld (s : Database) : Prop := s.supply.totalVestingShares = s.heldShares

theorem allHeld_iff : s.AllHeld ↔ s.looseShares = 0 := by
  rw [AllHeld, looseShares, sub_eq_zero]

theorem Database.AllHeld.keep (held : s.AllHeld) (same : t.looseShares = s.looseShares) : t.AllHeld :=
  allHeld_iff.mpr (same.trans (allHeld_iff.mp held))

instance : Finer (SameQuantity looseShares) (Keeps AllHeld) := ⟨fun _ _ same held => held.keep same⟩

instance {magnitude : Int} : Preserves (Keeps AllHeld) (performVestingShareSplit magnitude) := by
  refine ⟨fun s => performVestingShareSplit_loose.mono fun _ t split held => ?_⟩
  rw [allHeld_iff] at held ⊢
  rw [split, held, mul_zero]

instance {balances proxy proxied votes withdrawal delegated activity rewards info} :
    Preserves (SameQuantity looseShares) (createAccount name
      ⟨balances, 0, proxy, proxied, votes, withdrawal, delegated, activity, rewards, info⟩) := by
  refine preserves_of_conserves fun s => ?_
  simp only [createAccount, updateAccounts, Moves, ensures_steps]
  intro fresh
  simp only [looseShares, heldShares, total_insert fresh, add_zero]

instance {balance adjust asset} [∀ n a, Preserves (SameQuantity looseShares) (adjust n a)] :
    Preserves (SameQuantity looseShares) (drainNull balance adjust asset) := by
  unfold drainNull; infer_instance

instance : Preserves (SameQuantity looseShares) drainNullVesting := by
  refine preserves_of_conserves fun s => ?_
  simp only [drainNullVesting, moves_getAccount_bind]
  refine fun a found => moves_ite.mpr ⟨fun _ => ?_, fun _ => moves_pure.mpr rfl⟩
  simp only [moves_get_bind, moves_times_bind, moves_amountIn_bind]
  intro converted _ _
  refine Moves.bind (d := fun _ => -a.vestingShares) ?_ fun _ t supplied => ?_
  · simp only [modifySupply, moves_modify, looseShares, heldShares]
    omega
  · cases supplied
    refine Moves.bind (d := fun _ => a.vestingShares) (moves_modifyVestingShares fun b known => ?_) fun _ _ _ => ?_
    · rw [Option.some.inj (known.symm.trans found), sub_zero]
    · rw [moves_pure]
      omega

variable {net : Network}

theorem evaluate_loose {producing nesting apply} {op : Operation} (other : op.isProposal = false) :
    Preserves (SameQuantity looseShares) (evaluate producing nesting apply op) := by
  cases op <;> simp only [evaluate, accountCreate, accountCreateWithDelegation, breakFreeReferral, challengeAuthority,
    transfer, transferToVesting, transferToSavings, transferFromSavings, cancelTransferFromSavings, escrowTransfer,
    refundEscrow, payEscrowAgent, escrowApprove, escrowRelease, createMinedAccount, payPowReward, Evaluator.pow,
    pow2]
  case proposalCreate | proposalUpdate | proposalDelete => cases other
  all_goals infer_instance

instance {hardfork : Nat} : Preserves (Keeps AllHeld) (net.rewrite hardfork) := by
  unfold Network.rewrite
  split <;> infer_instance

theorem run_allHeld {step : BlockStep} (noOperations : step.appliesOperations = false)
    (other : step ≠ .processVestingWithdrawals) : Preserves (Keeps AllHeld) (step.run net) := by
  cases step <;> simp only [BlockStep.run, clearNullAccountBalance, issueToFunds, processFunds, payLiquidityReward,
    processConversions, updateVirtualSupply]
  case applyTransaction | clearExpiredProposals => cases noOperations
  case processVestingWithdrawals => exact absurd rfl other
  all_goals infer_instance

theorem initGenesis_allHeld : Ensures {} net.initGenesis fun _ s => s.AllHeld := by
  have frame : Preserves (SameQuantity looseShares) net.initGenesis := by
    unfold Network.initGenesis createGenesisAccount
    infer_instance
  exact (frame.related {}).mono fun _ s same => allHeld_iff.mpr same

instance : Preserves (Keeps fun s => s.RoutesRecorded ∧ s.AllHeld) (payWithdrawal name) := by
  refine ⟨fun s => ensures_keeps fun ⟨recorded, held⟩ => ?_⟩
  refine Ensures.and (ensures_frame SameRoutes fun _ _ same => same.recorded recorded) ?_
  exact Ensures.mono (payWithdrawal_conserves (percentInOrder_le recorded)) fun _ t same =>
    held.keep (same.trans (add_zero _))

theorem allHeld_keepsInvariant : net.KeepsInvariant (fun _ _ => True) fun s => s.RoutesRecorded ∧ s.AllHeld := by
  refine routesRecorded_keepsInvariant.and initGenesis_allHeld (fun s t within held => ?_)
    (fun _ _ _ _ s other _ _ held => ?_) fun s step other _ recorded held => ?_
  · exact held.keep (looseShares_of_within within.widen)
  · exact ((evaluate_loose other).related s).mono fun _ t same => held.keep same
  · -- only withdrawals need the limit on the routes
    by_cases withdrawals : step = .processVestingWithdrawals
    · subst withdrawals
      refine ensures_unlessTransit held ?_
      exact ensures_kept (P := fun s : Database => s.RoutesRecorded ∧ s.AllHeld) ⟨recorded, held⟩ fun _ _ => And.right
    · exact ((run_allHeld other withdrawals).related s).mono fun _ t kept => kept held

/-- Every vesting share is held by an account, in every state of every run.  At whatever price the shares are issued
and converted, and along whatever routes the check lets through, each of the payments moves what is issued and what
is held by the same amount. -/
theorem vesting_shares_add_up (reachable : net.Reachable s) :
    (s.supply.totalVestingShares = s.accounts.total fun _ a => a.vestingShares) ∧
    ∀ u : Database, (∀ name steem, Conserves looseShares u (createVesting name steem)) ∧
      (u.RoutesRecorded → ∀ name, Conserves looseShares u (payWithdrawal name)) ∧
      Conserves looseShares u clearNullAccountBalance ∧ Conserves looseShares u processCommentCashout := by
  obtain ⟨blocks, rest, reached⟩ := reachable
  have burns : Preserves (SameQuantity looseShares) clearNullAccountBalance := by
    unfold clearNullAccountBalance; infer_instance
  refine ⟨(allHeld_keepsInvariant.reaches reached).1.2, fun u => ⟨fun _ _ => conserves_of_preserves, ?_,
    conserves_of_preserves, conserves_of_preserves⟩⟩
  exact fun recorded name => payWithdrawal_conserves (percentInOrder_le recorded)

/-- Half of what Alice withdraws next stays in the fund, as shares of others. -/
theorem vesting_shares_add_up_inUse :
    (usedFor 48).state.heldShares = 20212099396519 ∧
    payWithdrawal .alice (usedFor 48).state = .ok ((), stateAfter (payWithdrawal .alice) (usedFor 48).state) ∧
    (stateAfter (payWithdrawal .alice) (usedFor 48).state).supply.totalVestingShares = 20162099396519 ∧
    (stateAfter (payWithdrawal .alice) (usedFor 48).state).heldShares = 20162099396519 := by
  obtain ⟨same, moved⟩ := vesting_shares_add_up (usedFor_reachable 48)
  have run := stateAfter_eq usedFor_busy.state.pays
  have kept := (moved _).2.1 (usedFor_reachable 48).routesRecorded .alice _ _ run
  obtain ⟨before, after⟩ := Prod.mk.inj usedFor_busy.state.issued
  simp only [looseShares, heldShares] at kept ⊢
  refine ⟨?_, run, after, ?_⟩ <;> omega

end Golos
