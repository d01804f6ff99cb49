import Golos.Chain.Cashout
import Golos.Chain.Maintenance

/-! # Deposits and payouts

Vesting shares are credited in many places, and payouts credit them to many accounts.  A
relation between states that one deposit keeps is kept by all of them.
-/

namespace Golos

open Stateful

variable {R : Database → Database → Prop}

/-! ## Deposits -/

/-- What a deposit of vesting shares changes besides the shares. -/
abbrev depositCells : Footprint
  | .supply | .proxied | .tally => true
  | _ => false

/-- Relations that hold between the states before and after an account is given vesting shares. -/
class KeptByDeposits (R : Database → Database → Prop) : Prop extends Std.Refl R, IsTrans Database R where
  within : ∀ s t, Within depositCells s t → R s t
  deposit : ∀ (name : AccountName) (delta : Int), 0 ≤ delta → Preserves R (modifyVestingShares name (· + delta))

section Deposits

variable [kept : KeptByDeposits R]

theorem KeptByDeposits.frame {α} {m : Eval α} [frame : Touches depositCells m] : Preserves R m :=
  frame.mono kept.within

instance {name steem} : Preserves R (createVesting name steem) := by
  refine ⟨fun s => ?_⟩
  simp only [createVesting, times, ensures_steps]
  intro newVesting price
  have nonneg : 0 ≤ newVesting.amount := Asset.mulPrice_nonneg price
  simp only [amountIn, ensures_steps]
  intro _
  have := kept.deposit name newVesting.amount nonneg
  have supplied (f : Supply → Supply) : Preserves R (modifySupply f) := kept.frame
  have carried : Preserves R (adjustProxiedWitnessVotes name newVesting.amount) := kept.frame
  refine ensures_frame R fun _ t grown _ => ?_
  refine ensures_frame R fun _ u funded => ?_
  exact ensures_frame R fun _ v counted => trans_of R (trans_of R grown funded) counted

instance {toWithdraw routes} : Preserves R (depositAsVests toWithdraw routes) := by
  have carried (name : AccountName) (delta : Int) : Preserves R (adjustProxiedWitnessVotes name delta) := kept.frame
  induction routes with
  | nil => unfold depositAsVests; infer_instance
  | cons route rest ih =>
    have deposited (amount : Int) : Preserves R (when (0 < amount) do
        modifyVestingShares route.1.2 (· + amount)
        adjustProxiedWitnessVotes route.1.2 amount) := by
      by_cases positive : 0 < amount
      · have := kept.deposit route.1.2 amount positive.le
        infer_instance
      · rw [when, if_neg positive]
        infer_instance
    unfold depositAsVests; infer_instance

end Deposits

/-! ## Payouts -/

/-- What payouts change besides the shares of those they credit. -/
abbrev payoutCells : Footprint
  | .supply | .rewardShares | .rates | .balances | .rewards | .netRshares | .childrenShares | .commentPayout
  | .commentVotes => true
  | _ => false

/-- Relations that hold between the states before and after a curator, an author or a delegator is paid. -/
class KeptByPayouts (R : Database → Database → Prop) : Prop extends Std.Refl R, IsTrans Database R where
  within : ∀ s t, Within payoutCells s t → R s t
  createVesting : ∀ name steem, Preserves R (createVesting name steem)
  payDelegator : ∀ delegatee claim d, Preserves R (payDelegator delegatee claim d)

section Payouts

variable [kept : KeptByPayouts R]

instance (priority := low) {α} {m : Eval α} [frame : Touches payoutCells m] : Preserves R m :=
  frame.mono kept.within

instance {name steem} : Preserves R (createVesting name steem) := kept.createVesting name steem

instance {delegatee claim d} : Preserves R (payDelegator delegatee claim d) := kept.payDelegator delegatee claim d

end Payouts

end Golos
