import Golos.Protocol.Types

/-! # Comment rewards of the social network plugin

The virtual operations of a payout come one by one.  The plugin gathers their amounts in members of its own, which
no undo restores, and writes them to the reward of the comment when the payout ends.

* `rewards_summed` — the runs in which every stored reward is the sum over the payouts of its comment.
-/

namespace Golos.SocialNetwork

/-! ## Payouts -/

/-- What the plugin has gathered of a payout. -/
structure Gathered where
  authorGbgPayoutValue : Int := 0
  authorGolosPayoutValue : Int := 0
  authorGestsPayoutValue : Int := 0
  benefPayoutGests : Int := 0
  curatorPayoutGests : Int := 0

/-- `author_reward_operation`, `curation_reward_operation` and `comment_benefactor_reward_operation` -/
inductive Reward
  | author (sbdPayout steemPayout vestingPayout : Int)
  | curation (reward : Int)
  | benefactor (reward : Int)

def Gathered.add (g : Gathered) : Reward → Gathered
  | .author sbdPayout steemPayout vestingPayout => { g with
    authorGbgPayoutValue := g.authorGbgPayoutValue + sbdPayout
    authorGolosPayoutValue := g.authorGolosPayoutValue + steemPayout
    authorGestsPayoutValue := g.authorGestsPayoutValue + vestingPayout }
  | .curation reward => { g with curatorPayoutGests := g.curatorPayoutGests + reward }
  | .benefactor reward => { g with benefPayoutGests := g.benefPayoutGests + reward }

/-- `comment_reward_object` -/
@[ext] structure CommentReward where
  totalPayoutValue : Int := 0
  authorRewards : Int := 0
  authorGbgPayoutValue : Int := 0
  authorGolosPayoutValue : Int := 0
  authorGestsPayoutValue : Int := 0
  beneficiaryPayoutValue : Int := 0
  beneficiaryGestsPayoutValue : Int := 0
  curatorPayoutValue : Int := 0
  curatorGestsPayoutValue : Int := 0
  deriving DecidableEq

/-- The prices of a moment: that of the vesting shares and the median of the feed. -/
structure Prices where
  vesting : Price := ⟨.vests 1000000, .steem 1000⟩
  median : Price := .null

/-- `to_sbd` -/
def Prices.toSbd (p : Prices) (steem : Int) : Except Error Int :=
  if p.median.isNull then pure 0 else (·.amount) <$> (Asset.steem steem).mulPrice p.median

/-- `to_steem` -/
def Prices.toSteem (p : Prices) (sbd : Int) : Except Error Int :=
  if p.median.isNull then pure 0 else (·.amount) <$> (Asset.sbd sbd).mulPrice p.median

/-- What `comment_payout_update_operation` writes, and whether it does. -/
def Gathered.reward (g : Gathered) (p : Prices) : Except Error (CommentReward × Bool) := do
  let vested ← (Asset.vests g.authorGestsPayoutValue).mulPrice p.vesting
  let converted ← p.toSteem g.authorGbgPayoutValue
  let authorRewards := g.authorGolosPayoutValue + vested.amount + converted
  let totalPayoutGbg ← p.toSbd authorRewards
  let benefPayoutGolos ← (Asset.vests g.benefPayoutGests).mulPrice p.vesting
  let benefPayoutGbg ← p.toSbd benefPayoutGolos.amount
  let curatorPayoutGolos ← (Asset.vests g.curatorPayoutGests).mulPrice p.vesting
  let curatorPayoutGbg ← p.toSbd curatorPayoutGolos.amount
  pure ({
    totalPayoutValue := totalPayoutGbg
    authorRewards
    authorGbgPayoutValue := g.authorGbgPayoutValue
    authorGolosPayoutValue := g.authorGolosPayoutValue
    authorGestsPayoutValue := g.authorGestsPayoutValue
    beneficiaryPayoutValue := benefPayoutGbg
    beneficiaryGestsPayoutValue := g.benefPayoutGests
    curatorPayoutValue := curatorPayoutGbg
    curatorGestsPayoutValue := g.curatorPayoutGests },
    authorRewards ≠ 0 ∨ benefPayoutGolos.amount ≠ 0 ∨ curatorPayoutGolos.amount ≠ 0)

def CommentReward.plus (cr new : CommentReward) : CommentReward where
  totalPayoutValue := cr.totalPayoutValue + new.totalPayoutValue
  authorRewards := cr.authorRewards + new.authorRewards
  authorGbgPayoutValue := cr.authorGbgPayoutValue + new.authorGbgPayoutValue
  authorGolosPayoutValue := cr.authorGolosPayoutValue + new.authorGolosPayoutValue
  authorGestsPayoutValue := cr.authorGestsPayoutValue + new.authorGestsPayoutValue
  beneficiaryPayoutValue := cr.beneficiaryPayoutValue + new.beneficiaryPayoutValue
  beneficiaryGestsPayoutValue := cr.beneficiaryGestsPayoutValue + new.beneficiaryGestsPayoutValue
  curatorPayoutValue := cr.curatorPayoutValue + new.curatorPayoutValue
  curatorGestsPayoutValue := cr.curatorGestsPayoutValue + new.curatorGestsPayoutValue

/-- The change of a stored reward.  The shares of beneficiaries are assigned, not added. -/
def CommentReward.modify (cr new : CommentReward) : CommentReward :=
  { cr.plus new with beneficiaryGestsPayoutValue := new.beneficiaryGestsPayoutValue }

/-- The stored rewards, by the id of the comment. -/
abbrev Rewards := Nat → Option CommentReward

/-- The plugin: its members and its part of the database. -/
structure Plugin where
  gathered : Gathered := {}
  rewards : Rewards := fun _ => none

/-- A payout as `cashout_comment_helper` announces it: the curators first, then the beneficiaries and the author. -/
structure Payout where
  comment : Nat
  rewards : List Reward
  prices : Prices := {}

inductive Event
  | payout (p : Payout)
  /-- `delete_comment_operation` -/
  | delete (comment : Nat)

/-- `comment_payout_update_operation`.  An exception of the conversions is caught where plugins are notified. -/
def Plugin.payoutUpdate (s : Plugin) (comment : Nat) (prices : Prices) : Plugin :=
  match s.gathered.reward prices with
  | .error _ => s
  | .ok (_, false) => { s with gathered := {} }
  | .ok (new, true) =>
    ⟨{}, Function.update s.rewards comment (some ((s.rewards comment).elim new (·.modify new)))⟩

def Plugin.apply (s : Plugin) : Event → Plugin
  | .payout p => Plugin.payoutUpdate { s with gathered := p.rewards.foldl .add s.gathered } p.comment p.prices
  | .delete comment => { s with rewards := Function.update s.rewards comment none }

/-! ## Runs -/

/-- A node: the plugin, and its part of the database before each block that can be undone. -/
structure Node where
  plugin : Plugin := {}
  undo : List Rewards := []

/-- Every event is allowed where it comes. -/
def Along (may : Plugin → Event → Prop) : Plugin → List Event → Prop
  | _, [] => True
  | s, e :: events => may s e ∧ Along may (s.apply e) events

/-- Blocks that are applied, that fail after some events and some rewards of a payout, and that are undone.
`chain` has the events of the blocks on the chain, the last one first. -/
inductive Run (may : Plugin → Event → Prop) (mayFail : Gathered → Prop) : List (List Event) → Node → Prop
  | start : Run may mayFail [] {}
  | block {chain n events} : Run may mayFail chain n → Along may n.plugin events →
      Run may mayFail (events.reverse :: chain) ⟨events.foldl .apply n.plugin, n.plugin.rewards :: n.undo⟩
  | fail {chain n gathered} (events : List Event) (rewards : List Reward) : Run may mayFail chain n →
      gathered = rewards.foldl .add (events.foldl .apply n.plugin).gathered → mayFail gathered →
      Run may mayFail chain { n with plugin := { n.plugin with gathered } }
  | undo {events chain s before older} : Run may mayFail (events :: chain) ⟨s, before :: older⟩ →
      Run may mayFail chain ⟨{ s with rewards := before }, older⟩

/-- What a payout is worth at its prices. -/
def Payout.worth (p : Payout) : CommentReward :=
  ((p.rewards.foldl .add {} : Gathered).reward p.prices).toOption.elim {} (·.1)

/-- The sum over the payouts of a comment, given the events from the last one on. -/
def total (comment : Nat) : List Event → CommentReward
  | [] => {}
  | .payout p :: older => if p.comment = comment then (total comment older).plus p.worth else total comment older
  | .delete deleted :: older => if deleted = comment then {} else total comment older

/-- The rewards stored now and before each block are the sums for the chain as it was. -/
def Summed : List Rewards → List (List Event) → Prop
  | [], _ => True
  | rewards :: before, chain =>
    (∀ comment, (rewards comment).getD {} = total comment chain.flatten) ∧ Summed before chain.tail

/-- A payout can be converted, is written unless it is worth nothing, and finds no shares of beneficiaries stored. -/
def Careful (s : Plugin) : Event → Prop
  | .payout p => ∃ new written, (p.rewards.foldl .add {} : Gathered).reward p.prices = .ok (new, written) ∧
      (written = false → new = {}) ∧
      (written = true → ∀ cr, s.rewards p.comment = some cr → cr.beneficiaryGestsPayoutValue = 0)
  | .delete _ => True

variable {s : Plugin} {events : List Event} {history : List Event} {chain : List (List Event)} {n : Node}

theorem plus_empty (cr : CommentReward) : cr.plus {} = cr := by
  ext <;> exact add_zero _

theorem empty_plus (cr : CommentReward) : CommentReward.plus {} cr = cr := by
  ext <;> exact zero_add _

theorem Careful.apply {e : Event} (careful : Careful s e) (fresh : s.gathered = {})
    (summed : ∀ comment, (s.rewards comment).getD {} = total comment history) :
    (s.apply e).gathered = {} ∧ ∀ comment, ((s.apply e).rewards comment).getD {} = total comment (e :: history) := by
  cases e with
  | delete deleted =>
    refine ⟨fresh, fun comment => ?_⟩
    by_cases same : comment = deleted
    · simp [Plugin.apply, total, same]
    · simp [Plugin.apply, total, same, Ne.symm same, summed]
  | payout p =>
    obtain ⟨new, written, converted, nothing, first⟩ := careful
    have worth : p.worth = new := by rw [Payout.worth, converted]; rfl
    rw [Plugin.apply, Plugin.payoutUpdate, fresh]
    simp only [converted, total, worth]
    cases written with
    | false =>
      refine ⟨rfl, fun comment => ?_⟩
      rw [nothing rfl, plus_empty, ite_self]
      exact summed comment
    | true =>
      refine ⟨rfl, fun comment => ?_⟩
      dsimp only
      by_cases same : p.comment = comment
      · subst same
        rw [if_pos rfl, ← summed, Function.update_self]
        cases found : s.rewards p.comment with
        | none => exact (empty_plus new).symm
        | some cr =>
          ext
          case beneficiaryGestsPayoutValue =>
            exact ((congrArg (· + new.beneficiaryGestsPayoutValue) (first rfl cr found)).trans (zero_add _)).symm
          all_goals rfl
      · rw [if_neg same, Function.update_of_ne (Ne.symm same)]
        exact summed comment

theorem Along.apply (along : Along Careful s events) (fresh : s.gathered = {})
    (summed : ∀ comment, (s.rewards comment).getD {} = total comment history) :
    (events.foldl .apply s).gathered = {} ∧
      ∀ comment, ((events.foldl .apply s).rewards comment).getD {} = total comment (events.reverse ++ history) := by
  induction events generalizing s history with
  | nil => exact ⟨fresh, summed⟩
  | cons e events ih =>
    obtain ⟨fresh', summed'⟩ := along.1.apply fresh summed
    rw [List.reverse_cons, List.append_assoc]
    exact ih along.2 fresh' summed'

/-- Where no block fails in the middle of a payout, the stored rewards are the sums over the payouts on the chain. -/
theorem rewards_summed (run : Run Careful (· = {}) chain n) :
    ∀ comment, (n.plugin.rewards comment).getD {} = total comment chain.flatten := by
  have holds : n.plugin.gathered = {} ∧ Summed (n.plugin.rewards :: n.undo) chain := by
    induction run with
    | start => exact ⟨rfl, fun _ => rfl, trivial⟩
    | block run along ih =>
      obtain ⟨fresh, summed⟩ := along.apply ih.1 ih.2.1
      exact ⟨fresh, summed, ih.2⟩
    | fail events rewards run isGathered between ih => exact ⟨between, ih.2⟩
    | undo run ih => exact ⟨ih.1, ih.2.2⟩
  exact holds.2.1

/-- A payout with a beneficiary, which is worth 2 GOLOS. -/
def benefited : Payout := ⟨1, [.benefactor 2000000], {}⟩

/-- A payout to the author alone. -/
def own : Payout := ⟨1, [.author 0 0 3000000], {}⟩

theorem rewards_summed_twice : ∃ n, Run Careful (· = {}) [[.payout benefited, .payout own], [.payout own]] n ∧
    n.plugin.rewards 1 = some {
      authorRewards := 6000, authorGestsPayoutValue := 6000000, beneficiaryGestsPayoutValue := 2000000 } ∧
      (n.plugin.rewards 1).getD {} = total 1 [.payout benefited, .payout own, .payout own] := by
  have first : Run Careful (· = {}) [[.payout own]] ⟨Plugin.apply {} (.payout own), [fun _ => none]⟩ :=
    @Run.block _ _ _ _ [.payout own] .start ⟨⟨_, _, rfl, by decide, by decide⟩, trivial⟩
  have second := @Run.block _ _ _ _ [.payout own, .payout benefited] first
    ⟨⟨_, _, rfl, by decide, by decide⟩, ⟨_, _, rfl, by decide, by decide⟩, trivial⟩
  exact ⟨_, second, by decide, rewards_summed second 1⟩

/-- The second payout of a comment hides the shares of the beneficiaries of the first. -/
theorem rewards_not_summed : ∃ n, Run (fun _ _ => True) (fun _ => True) [[.payout benefited], [.payout benefited]] n ∧
    n.plugin.rewards 1 = some { beneficiaryGestsPayoutValue := 2000000 } ∧
      (total 1 [.payout benefited, .payout benefited]).beneficiaryGestsPayoutValue = 4000000 :=
  ⟨_, @Run.block _ _ _ _ [.payout benefited] (@Run.block _ _ _ _ [.payout benefited] .start ⟨trivial, trivial⟩)
    ⟨trivial, trivial⟩, by decide, by decide⟩

end Golos.SocialNetwork
