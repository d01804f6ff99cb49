import Golos.Chain.Invariant

/-! # Withdrawal routes

An account can have a part of its power-down sent to others.  The loops over the routes of an
account start at `upper_bound(from_account.id, account_id_type())` in the index by source and
destination, behind a route to the account with id 0; the removal of the routes of a recovered
account starts at `upper_bound(account.id)`, behind all of them.

* `Database.RoutesRecorded` — what is true of the routes in every state of a run;
* `routes_kept_iff` — the routes are kept and paid as they should be as long as none leads to the
  account with id 0;
* `recoverAccount_resets_iff` — a recovery removes no routes.
-/

namespace Golos

open Stateful Store List
open Database hiding pow

set_option synthInstance.maxSize 1000000

variable {F : Footprint} {amount : Int} {deposits : List (AccountName × Int)} {net : Network}

/-! ## The routes of an account -/

namespace Database

/-- All routes of an account. -/
def routesFrom (s : Database) (name : AccountName) : List Route := s.routes.entries.filter fun e => e.1.1 = name

/-- What its routes are worth together. -/
def percentFrom (s : Database) (name : AccountName) : Nat := ((s.routesFrom name).map fun e => e.2.percent).sum

/-- `withdraw_routes` -/
def withdrawRoutes (s : Database) (name : AccountName) : Nat :=
  (s.accounts.find? name).elim 0 fun a => a.withdrawal.withdrawRoutes

/-- The routes are counted, and those the check can see add up to no more than 100%. -/
structure RoutesRecorded (s : Database) : Prop where
  first : s.accounts.keys.head? = some .miners
  counted : ∀ name, s.withdrawRoutes name = (s.routesFrom name).length
  limited : ∀ name, ((s.routesOf name).map fun e => e.2.percent).sum ≤ 10000

end Database

/-- The routes are the same, and accounts that are added have none. -/
structure SameRoutes (s t : Database) : Prop where
  routes : t.routes = s.routes
  accounts : s.accounts.keys <+: t.accounts.keys
  counts : t.withdrawRoutes = s.withdrawRoutes

instance : Std.Refl SameRoutes := ⟨fun _ => ⟨rfl, prefix_refl _, rfl⟩⟩

instance : IsTrans Database SameRoutes := ⟨fun _ _ _ first second =>
  ⟨second.routes.trans first.routes, first.accounts.trans second.accounts, second.counts.trans first.counts⟩⟩

abbrev outsideRoutes : Footprint
  | .routes | .withdrawal => false
  | _ => true

section Routes

variable {s t : Database} {name : AccountName}

theorem withdrawRoutes_eq {a : Account} (found : s.accounts.find? name = some a) :
    s.withdrawRoutes name = a.withdrawal.withdrawRoutes := by
  rw [withdrawRoutes, found, Option.elim_some]

theorem SameRoutes.of_within (within : Within outsideRoutes s t) : SameRoutes s t := by
  have keys : t.accounts.keys = s.accounts.keys := keys_eq_of_view (within .withdrawal rfl)
  refine ⟨within .routes rfl, keys ▸ prefix_refl _, ?_⟩
  funext name
  have same : (t.accounts.find? name).map (·.withdrawal) = (s.accounts.find? name).map (·.withdrawal) :=
    find?_eq_of_view (within .withdrawal rfl) name
  have read (u : Database) : u.withdrawRoutes name =
    ((u.accounts.find? name).map (·.withdrawal)).elim 0 (·.withdrawRoutes) := by
    rw [withdrawRoutes]
    cases u.accounts.find? name <;> rfl
  rw [read, read, same]

instance : Finer (Within outsideRoutes) SameRoutes := ⟨fun _ _ => SameRoutes.of_within⟩

/-- The first account alone has the id 0. -/
theorem accountId_eq_zero (first : s.accounts.keys.head? = some .miners) : s.accountId name = 0 ↔ name = .miners := by
  rw [accountId]
  cases keys : s.accounts.keys with
  | nil => rw [keys] at first; cases first
  | cons k rest =>
    rw [keys] at first
    cases first
    rw [idxOf_cons]
    by_cases same : AccountName.miners = name
    · simp [same]
    · have different : (AccountName.miners == name) = false := beq_false_of_ne same
      simp [different, Ne.symm same]

/-- The loops see the routes that do not lead to it. -/
theorem routesOf_eq (first : s.accounts.keys.head? = some .miners) :
    s.routesOf name = (s.routesFrom name).filter fun e => e.1.2 ≠ .miners := by
  rw [routesOf, routesFrom, filter_filter]
  refine filter_congr fun e _ => ?_
  have id := @accountId_eq_zero s e.1.2 first
  simp only [Nat.pos_iff_ne_zero, ne_eq, id]
  by_cases own : e.1.1 = name <;> simp [own]

theorem head?_of_prefix (first : s.accounts.keys.head? = some .miners) (grows : s.accounts.keys <+: t.accounts.keys) :
    t.accounts.keys.head? = some .miners := by
  obtain ⟨more, same⟩ := grows
  rw [← same, head?_append, first, Option.some_or]

theorem SameRoutes.recorded (same : SameRoutes s t) (recorded : s.RoutesRecorded) : t.RoutesRecorded := by
  have first := head?_of_prefix recorded.first same.accounts
  have routes : t.routesFrom = s.routesFrom := by
    funext name
    rw [routesFrom, routesFrom, same.routes]
  refine ⟨first, fun name => ?_, fun name => ?_⟩
  · rw [same.counts, routes]
    exact recorded.counted name
  · rw [routesOf_eq first, routes, ← routesOf_eq recorded.first]
    exact recorded.limited name

instance {balances vestingShares proxy proxiedVsfVotes witnessesVotedFor delegated activity rewards info} :
    Preserves SameRoutes (createAccount name
      { balances, vestingShares, proxy, proxiedVsfVotes, witnessesVotedFor, delegated, activity, rewards, info }) := by
  refine ⟨fun s => ?_⟩
  simp only [createAccount, updateAccounts, ensures_steps]
  refine fun fresh => ⟨rfl, ?_, ?_⟩
  · rw [keys_insert fresh]
    exact prefix_append _ _
  · funext other
    simp only [withdrawRoutes, find?_insert fresh]
    split
    next same =>
      rw [same, fresh]
      rfl
    · rfl

/-- A change of a power-down that leaves the number of routes. -/
theorem sameRoutes_modifyWithdrawal {f : Withdrawal → Withdrawal}
    (kept : ∀ w, (f w).withdrawRoutes = w.withdrawRoutes) :
    Preserves SameRoutes (modifyWithdrawal name f) := by
  refine ⟨fun s => ?_⟩
  simp only [modifyWithdrawal, updateAccount, getAccount, updateAccounts, ensures_steps]
  refine fun a found => ⟨rfl, ?_, ?_⟩
  · dsimp only
    rw [keys_modify]
  funext other
  simp only [withdrawRoutes, find?_modify]
  split
  next same =>
    rw [same, found]
    exact kept a.withdrawal
  · rfl

end Routes

/-! ## Setting a route -/

section Setting

open Evaluator

variable {s t : Database} {name : AccountName}

theorem length_routesFrom : (s.routesFrom name).length = s.routes.total fun k _ => if k.1 = name then 1 else 0 := by
  have counted := sum_map_filter (t := s.routes) (p := fun e => e.1.1 = name) (g := fun _ => 1)
  rw [map_const', sum_replicate, nsmul_one, Nat.cast_id] at counted
  rw [routesFrom, counted]
  simp only [decide_eq_true_eq]

theorem percent_routesOf (first : s.accounts.keys.head? = some .miners) :
    ((s.routesOf name).map fun e => e.2.percent).sum =
      s.routes.total fun k r => if k.1 = name ∧ k.2 ≠ .miners then r.percent else 0 := by
  rw [routesOf_eq first, routesFrom, filter_filter, sum_map_filter]
  simp only [Bool.and_eq_true, decide_eq_true_eq, and_comm]

/-- A change of one route of an account is recorded if its routes are counted and checked. -/
theorem recorded_of_change (recorded : s.RoutesRecorded) (keys : t.accounts.keys = s.accounts.keys)
    (others : ∀ other, other ≠ name → t.withdrawRoutes other = s.withdrawRoutes other)
    (kept : ∀ g : AccountName × AccountName → WithdrawVestingRoute → Nat, (∀ k r, k.1 = name → g k r = 0) →
      t.routes.total g = s.routes.total g) (counted : t.withdrawRoutes name = (t.routesFrom name).length)
    (limited : ((t.routesOf name).map fun e => e.2.percent).sum ≤ 10000) : t.RoutesRecorded := by
  have first : t.accounts.keys.head? = some .miners := keys ▸ recorded.first
  refine ⟨first, fun other => ?_, fun other => ?_⟩
  · by_cases same : other = name
    · exact same ▸ counted
    · rw [others other same, recorded.counted, length_routesFrom, length_routesFrom, kept]
      exact fun k _ own => if_neg fun isOther => same (isOther.symm.trans own)
  · by_cases same : other = name
    · exact same ▸ limited
    · have before := recorded.limited other
      rw [percent_routesOf recorded.first] at before
      rw [percent_routesOf first, kept]
      · exact before
      · exact fun k _ own => if_neg fun isOther => same (isOther.1.symm.trans own)

/-- The number of routes after `modify_withdrawal`. -/
theorem withdrawRoutes_modify {f : Withdrawal → Withdrawal} :
    Ensures s (modifyWithdrawal name f) fun _ t => t.routes = s.routes ∧ t.accounts.keys = s.accounts.keys ∧
      ∃ w : Withdrawal, w.withdrawRoutes = s.withdrawRoutes name ∧ t.withdrawRoutes name = (f w).withdrawRoutes ∧
        ∀ other, other ≠ name → t.withdrawRoutes other = s.withdrawRoutes other := by
  simp only [modifyWithdrawal, updateAccount, getAccount, updateAccounts, ensures_steps]
  refine fun a found => ⟨trivial, keys_modify, a.withdrawal, (withdrawRoutes_eq found).symm, ?_,
    fun other different => ?_⟩
  · simp only [withdrawRoutes, find?_modify, if_true, found, Option.map_some, Option.elim_some]
  · simp only [withdrawRoutes, find?_modify, if_neg different]

theorem setWithdrawVestingRoute_recorded {o : SetWithdrawVestingRouteOperation} :
    Ensures s (setWithdrawVestingRoute o) fun _ t => Keeps RoutesRecorded s t := by
  simp only [setWithdrawVestingRoute, getAccount, create, remove, change, fetch, updateRoutes, ensures_steps,
    ensures_ite]
  intro account found _ _
  refine ⟨fun fresh _ _ _ => ?_, fun present => ⟨fun _ route isRoute => ?_, fun _ route isRoute limited recorded => ?_⟩⟩
  · -- a new route
    refine withdrawRoutes_modify.mono fun _ t modified limited recorded => ?_
    obtain ⟨routes, keys, w, before, after, others⟩ := modified
    refine recorded_of_change recorded keys others (fun g unseen => ?_) ?_ limited
    · rw [routes, total_insert fresh, unseen _ _ rfl, add_zero]
    · have isBefore : w.withdrawRoutes = s.withdrawRoutes o.fromAccount := before
      rw [after, isBefore, recorded.counted, length_routesFrom, length_routesFrom, routes, total_insert fresh,
        if_pos rfl]
  · -- the route is removed
    refine withdrawRoutes_modify.mono fun _ t modified limited recorded => ?_
    obtain ⟨routes, keys, w, before, after, others⟩ := modified
    refine recorded_of_change recorded keys others (fun g unseen => ?_) ?_ limited
    · have less := total_erase (g := g) isRoute
      rw [unseen _ _ rfl, add_zero] at less
      rw [routes, less]
    · have isBefore : w.withdrawRoutes = s.withdrawRoutes o.fromAccount := before
      have less := total_erase (g := fun (k : AccountName × AccountName) (_ : WithdrawVestingRoute) =>
        if k.1 = o.fromAccount then 1 else 0) isRoute
      rw [if_pos rfl] at less
      rw [after, isBefore, recorded.counted, length_routesFrom, length_routesFrom, routes, ← less, Nat.add_sub_cancel]
  · -- it is changed
    refine recorded_of_change recorded rfl (fun _ _ => rfl) (fun g unseen => ?_) ?_ limited
    · have same := total_modify (g := g) (f := fun _ => ⟨o.percent, o.autoVest⟩) isRoute
      rw [unseen _ _ rfl, unseen _ _ rfl, add_zero, add_zero] at same
      exact same
    · have same := total_modify (g := fun (k : AccountName × AccountName) (_ : WithdrawVestingRoute) =>
        if k.1 = o.fromAccount then 1 else 0) (f := fun _ => ⟨o.percent, o.autoVest⟩) isRoute
      have kept := recorded.counted o.fromAccount
      rw [length_routesFrom] at kept ⊢
      exact kept.trans (Nat.add_right_cancel same).symm

end Setting

/-! ## Paying the routes -/

/-- The vesting shares of an account. -/
def Database.sharesOf (s : Database) (name : AccountName) : Option Int := (s.accounts.find? name).map (·.vestingShares)

/-- The GOLOS of an account. -/
def Database.steemOf (s : Database) (name : AccountName) : Option Int :=
  (s.accounts.find? name).map (·.balances.balance)

/-- The vesting fund without some shares and the GOLOS they were worth. -/
def Supply.without (p : Supply) (shares converted : Int) : Supply :=
  { p with
    totalVestingFundSteem := p.totalVestingFundSteem - converted
    totalVestingShares := p.totalVestingShares - shares }

/-- The GOLOS every route without `auto_vest` is worth: its share of what is withdrawn, at the price
of the fund when its turn comes. -/
def steemDeposits (toWithdraw : Int) : List Route → Supply → Except Error (List (AccountName × Int))
  | [], _ => pure []
  | route :: rest, p =>
    if route.2.autoVest then steemDeposits toWithdraw rest p
    else do
      let share := routeShare toWithdraw route.2.percent
      let converted ← (Asset.vests share).mulPrice p.vestingSharePrice
      if 0 < share then do
        let more ← steemDeposits toWithdraw rest (p.without share converted.amount)
        pure ((route.1.2, converted.amount) :: more)
      else do
        let more ← steemDeposits toWithdraw rest p
        pure ((route.1.2, 0) :: more)

abbrev outsideShares : Footprint
  | .vesting => false
  | _ => true

abbrev outsideSteem : Footprint
  | .balances | .supply => false
  | _ => true

abbrev outsideHoldings : Footprint
  | .vesting | .balances => false
  | _ => true

section Paying

variable {s t : Database} {name : AccountName} {toWithdraw : Int} {routes : List Route}

theorem Within.sharesOf_eq (within : Within F s t) (outside : F .vesting = false) : t.sharesOf = s.sharesOf := by
  funext name
  exact find?_eq_of_view (within .vesting outside) name

theorem Within.steemOf_eq (within : Within F s t) (outside : F .balances = false) : t.steemOf = s.steemOf := by
  funext name
  have same : (t.accounts.find? name).map (·.balances) = (s.accounts.find? name).map (·.balances) :=
    find?_eq_of_view (within .balances outside) name
  have read (u : Database) : u.steemOf name = ((u.accounts.find? name).map (·.balances)).map (·.balance) := by
    rw [steemOf, Option.map_map]
    rfl
  rw [read, read, same]

theorem sharesOf_modifyVestingShares {f : Int → Int} : Ensures s (modifyVestingShares name f) fun _ t =>
    ∀ x, t.sharesOf x = if x = name then (s.sharesOf x).map f else s.sharesOf x := by
  simp only [modifyVestingShares, updateAccount, getAccount, updateAccounts, ensures_steps]
  intro a _ x
  simp only [sharesOf, find?_modify]
  split
  · rw [Option.map_map, Option.map_map]
    rfl
  · rfl

theorem steemOf_modifyBalances :
    Ensures s (modifyBalances name fun b => { b with balance := b.balance + amount }) fun _ t =>
      t.supply = s.supply ∧ ∀ x, t.steemOf x = if x = name then (s.steemOf x).map (· + amount) else s.steemOf x := by
  simp only [modifyBalances, updateAccount, getAccount, updateAccounts, ensures_steps]
  refine fun a _ => ⟨trivial, fun x => ?_⟩
  simp only [steemOf, find?_modify]
  split
  · rw [Option.map_map, Option.map_map]
    rfl
  · rfl

theorem routeShare_nonneg (nonneg : 0 ≤ toWithdraw) (percent : Nat) : 0 ≤ routeShare toWithdraw percent :=
  Int.ediv_nonneg (Int.mul_nonneg nonneg (Int.natCast_nonneg percent)) (by decide)

theorem add_zero_shares (shares : Option Int) : shares.map (· + 0) = shares := by
  cases shares <;> simp

/-- A deposit of the first pass. -/
theorem deposit_gives (nonneg : 0 ≤ amount) :
    Ensures s (when (0 < amount) do
      modifyVestingShares name (· + amount)
      adjustProxiedWitnessVotes name amount) fun _ t =>
      ∀ x, t.sharesOf x = if x = name then (s.sharesOf x).map (· + amount) else s.sharesOf x := by
  rw [ensures_when]
  refine ⟨fun positive => ?_, fun nothing x => ?_⟩
  · rw [ensures_bind]
    refine sharesOf_modifyVestingShares.mono fun _ t given => ?_
    refine ensures_frame (Within outsideShares) fun _ u within x => ?_
    rw [within.sharesOf_eq rfl]
    exact given x
  · obtain rfl : amount = 0 := by omega
    rw [add_zero_shares, ite_self]

/-- The first pass gives every route with `auto_vest` its share, and nobody else anything. -/
theorem depositAsVests_gives (nonneg : 0 ≤ toWithdraw) (nodup : (routes.map fun r => r.1.2).Nodup) :
    Ensures s (depositAsVests toWithdraw routes) fun _ t =>
      (∀ r ∈ routes, t.sharesOf r.1.2 =
        (s.sharesOf r.1.2).map (· + if r.2.autoVest then routeShare toWithdraw r.2.percent else 0)) ∧
        ∀ x, (∀ r ∈ routes, r.1.2 ≠ x) → t.sharesOf x = s.sharesOf x := by
  induction routes generalizing s with
  | nil => simp [depositAsVests]
  | cons route rest ih =>
    obtain ⟨notAgain, nodup⟩ := nodup_cons.mp nodup
    have notAgain (r : Route) (mem : r ∈ rest) : r.1.2 ≠ route.1.2 := fun same =>
      notAgain (mem_map.mpr ⟨r, mem, same⟩)
    have share : 0 ≤ if route.2.autoVest then routeShare toWithdraw route.2.percent else 0 := by
      split
      · exact routeShare_nonneg nonneg _
      · exact le_rfl
    unfold depositAsVests
    rw [ensures_bind]
    refine (deposit_gives share).mono fun _ t given => ?_
    rw [ensures_bind]
    refine (ih nodup).mono fun _ u later => ?_
    rw [ensures_pure]
    obtain ⟨routed, others⟩ := later
    refine ⟨fun r mem => ?_, fun x notRouted => ?_⟩
    · rcases mem_cons.mp mem with rfl | mem
      · rw [others _ notAgain, given, if_pos rfl]
      · rw [routed r mem, given, if_neg (notAgain r mem)]
    · rw [others x fun r mem => notRouted r (mem_cons_of_mem _ mem), given,
        if_neg (Ne.symm (notRouted route mem_cons_self))]

theorem steemOf_takeFromFund {shares converted : Int} : Ensures s (takeFromFund shares converted) fun _ t =>
    t.supply = s.supply.without shares converted ∧ t.steemOf = s.steemOf := by
  simp only [takeFromFund, modifySupply, ensures_modify]
  exact ⟨rfl, rfl⟩

/-- What the second pass has done for the routes it has gone over. -/
structure PaidInSteem (toWithdraw : Int) (routes : List Route) (s t : Database) (deposits : List (AccountName × Int)) :
    Prop where
  worth : steemDeposits toWithdraw routes s.supply = .ok deposits
  routed : deposits.map Prod.fst = (routes.filter fun r => !r.2.autoVest).map fun r => r.1.2
  paid : ∀ d ∈ deposits, t.steemOf d.1 = (s.steemOf d.1).map (· + d.2)
  others : ∀ x, (∀ d ∈ deposits, d.1 ≠ x) → t.steemOf x = s.steemOf x

theorem PaidInSteem.dest (rest : PaidInSteem toWithdraw routes s t deposits)
    {d : AccountName × Int} (mem : d ∈ deposits) : ∃ r ∈ routes, r.1.2 = d.1 := by
  have routed : d.1 ∈ deposits.map Prod.fst := mem_map_of_mem mem
  rw [rest.routed] at routed
  obtain ⟨r, isRoute, same⟩ := mem_map.mp routed
  exact ⟨r, (mem_filter.mp isRoute).1, same⟩

/-- A deposit in GOLOS, and then the rest of the pass. -/
theorem PaidInSteem.cons {route : Route} {converted : Asset} {u : Database} (inSteem : route.2.autoVest = false)
    (priced : (Asset.vests (routeShare toWithdraw route.2.percent)).mulPrice s.supply.vestingSharePrice = .ok converted)
    (given : ∀ x, t.steemOf x = if x = route.1.2 then (s.steemOf x).map (· + amount) else s.steemOf x)
    (step : if 0 < routeShare toWithdraw route.2.percent then
      amount = converted.amount ∧ t.supply = s.supply.without (routeShare toWithdraw route.2.percent) converted.amount
      else amount = 0 ∧ t.supply = s.supply)
    (notAgain : ∀ r ∈ routes, r.1.2 ≠ route.1.2) (rest : PaidInSteem toWithdraw routes t u deposits) :
    PaidInSteem toWithdraw (route :: routes) s u ((route.1.2, amount) :: deposits) := by
  have apart (d) (mem : d ∈ deposits) : d.1 ≠ route.1.2 := by
    obtain ⟨r, isRoute, same⟩ := rest.dest mem
    exact same ▸ notAgain r isRoute
  refine ⟨?_, ?_, fun d mem => ?_, fun x notRouted => ?_⟩
  · rw [steemDeposits, inSteem, if_neg Bool.false_ne_true]
    refine except_bind_eq_ok.mpr ⟨converted, priced, ?_⟩
    have worth := rest.worth
    split at step
    next positive =>
      rw [step.2] at worth
      rw [if_pos positive, step.1]
      exact except_bind_eq_ok.mpr ⟨deposits, worth, rfl⟩
    next nothing =>
      rw [step.2] at worth
      rw [if_neg nothing, step.1]
      exact except_bind_eq_ok.mpr ⟨deposits, worth, rfl⟩
  · rw [map_cons, rest.routed, filter_cons, inSteem]
    rfl
  · rcases mem_cons.mp mem with rfl | mem
    · rw [rest.others _ apart, given, if_pos rfl]
    · rw [rest.paid d mem, given, if_neg (apart d mem)]
  · rw [rest.others x fun d mem => notRouted d (mem_cons_of_mem _ mem), given,
      if_neg (Ne.symm (notRouted (route.1.2, amount) mem_cons_self))]

/-- The second pass gives every other route the GOLOS its share is worth. -/
theorem depositAsSteem_gives (nodup : (routes.map fun r => r.1.2).Nodup) :
    Ensures s (depositAsSteem toWithdraw routes) fun _ t => ∃ deposits, PaidInSteem toWithdraw routes s t deposits := by
  induction routes generalizing s with
  | nil =>
    rw [depositAsSteem, ensures_pure]
    exact ⟨[], rfl, rfl, by simp, by simp⟩
  | cons route rest ih =>
    obtain ⟨notAgain, nodup⟩ := nodup_cons.mp nodup
    have notAgain (r : Route) (mem : r ∈ rest) : r.1.2 ≠ route.1.2 := fun same =>
      notAgain (mem_map.mpr ⟨r, mem, same⟩)
    unfold depositAsSteem
    cases vest : route.2.autoVest with
    | true =>
      refine (ih nodup).mono fun _ t later => ?_
      obtain ⟨deposits, worth, routed, paid, others⟩ := later
      refine ⟨deposits, ?_, ?_, paid, others⟩
      · rw [steemDeposits, if_pos vest, worth]
      · rw [routed, filter_cons, vest]
        rfl
    | false =>
      rw [if_neg Bool.false_ne_true]
      simp only [getAccount, convertVests, times, amountIn, ensures_steps, ensures_when]
      refine fun a found converted priced _ => ⟨fun positive => ?_, fun nothing => ?_⟩
      · refine steemOf_modifyBalances.mono fun _ t given => ?_
        refine steemOf_takeFromFund.mono fun _ u taken => ?_
        refine (ih nodup).mono fun _ v later => ?_
        obtain ⟨deposits, later⟩ := later
        refine ⟨(route.1.2, converted.amount) :: deposits, .cons vest priced (fun x => ?_) ?_ notAgain later⟩
        · rw [taken.2, given.2]
        · rw [if_pos positive, taken.1, given.1]
          exact ⟨rfl, rfl⟩
      · refine (ih nodup).mono fun _ v later => ?_
        obtain ⟨deposits, later⟩ := later
        refine ⟨(route.1.2, 0) :: deposits, .cons vest priced (fun x => ?_) ?_ notAgain later⟩
        · rw [add_zero_shares, ite_self]
        · rw [if_neg nothing]
          exact ⟨rfl, rfl⟩

/-- What a withdrawal does for the routes it goes over. -/
structure RoutesPaid (toWithdraw : Int) (routes : List Route) (s t : Database) : Prop where
  vested : ∀ r ∈ routes, t.sharesOf r.1.2 =
    (s.sharesOf r.1.2).map (· + if r.2.autoVest then routeShare toWithdraw r.2.percent else 0)
  converted : ∃ deposits, PaidInSteem toWithdraw routes s t deposits
  others : ∀ x, (∀ r ∈ routes, r.1.2 ≠ x) → t.sharesOf x = s.sharesOf x

theorem depositOnRoutes_pays (nonneg : 0 ≤ toWithdraw) (nodup : (routes.map fun r => r.1.2).Nodup) :
    Ensures s (depositOnRoutes toWithdraw routes) fun _ t => RoutesPaid toWithdraw routes s t := by
  rw [depositOnRoutes, ensures_bind]
  refine ((depositAsVests_gives nonneg nodup).framed (Within outsideSteem)).mono fun _ t first => ?_
  obtain ⟨within, vested, others⟩ := first
  rw [ensures_bind]
  refine ((depositAsSteem_gives nodup).framed (Within outsideShares)).mono fun _ u second => ?_
  obtain ⟨within', deposits, worth, routed, paid, unpaid⟩ := second
  rw [ensures_pure]
  have shares : u.sharesOf = t.sharesOf := within'.sharesOf_eq rfl
  have steem : t.steemOf = s.steemOf := within.steemOf_eq rfl
  have supply : t.supply = s.supply := within .supply rfl
  refine ⟨fun r mem => ?_, ⟨deposits, ?_, routed, fun d mem => ?_, fun x notPaid => ?_⟩, fun x notRouted => ?_⟩
  · rw [shares, vested r mem]
  · rw [← supply, worth]
  · rw [paid d mem, steem]
  · rw [unpaid x notPaid, steem]
  · rw [shares, others x notRouted]

theorem routesInOrder_nodup : ((s.routesInOrder name).map fun r => r.1.2).Nodup := by
  have keys : ((s.routesOf name).map Prod.fst).Nodup := (filter_sublist.map Prod.fst).nodup s.routes.nodup
  have dests : ((s.routesOf name).map fun r => r.1.2).Nodup := by
    refine Nodup.map_on (fun r member r' member' same => ?_) (Nodup.of_map _ keys)
    have from₁ : r.1.1 = name := (of_decide_eq_true (mem_filter.mp member).2).1
    have from₂ : r'.1.1 = name := (of_decide_eq_true (mem_filter.mp member').2).1
    exact inj_on_of_nodup_map keys member member' (Prod.ext (from₁.trans from₂.symm) same)
  exact ((perm_insertionSort _ _).map _).nodup_iff.mpr dests

/-- The shares that come back to an account over its own route to itself. -/
def routeBack (toWithdraw : Int) (routes : List Route) (name : AccountName) : Int :=
  (routes.find? fun r => r.1.2 = name).elim 0 fun r => if r.2.autoVest then routeShare toWithdraw r.2.percent else 0

theorem RoutesPaid.back (paid : RoutesPaid toWithdraw routes s t) :
    t.sharesOf name = (s.sharesOf name).map (· + routeBack toWithdraw routes name) := by
  rw [routeBack]
  cases found : routes.find? fun r => r.1.2 = name with
  | none =>
    rw [Option.elim_none, add_zero_shares]
    exact paid.others name fun r member => by simpa using find?_eq_none.mp found r member
  | some r =>
    obtain rfl : r.1.2 = name := by simpa using find?_some found
    exact paid.vested r (mem_of_find?_eq_some found)

/-- A withdrawal pays the routes, takes the shares from the account and gives it what is left over in GOLOS. -/
def WithdrawalPaid (name : AccountName) (toWithdraw : Int) (routes : List Route) (s t : Database) : Prop :=
  ∃ u leftOver, RoutesPaid toWithdraw routes s u ∧
    (∀ x, t.sharesOf x = if x = name then (u.sharesOf x).map (· - toWithdraw) else u.sharesOf x) ∧
    ∀ x, t.steemOf x = if x = name then (u.steemOf x).map (· + leftOver) else u.steemOf x

theorem payWithdrawal_pays {a : Account} (found : s.accounts.find? name = some a) :
    Ensures s (payWithdrawal name) fun _ t => WithdrawalPaid name a.nextPayment (s.routesInOrder name) s t := by
  simp only [payWithdrawal, getAccount, ensures_steps]
  intro b same
  cases found.symm.trans same
  refine (depositOnRoutes_pays (le_max_left _ _) routesInOrder_nodup).mono fun deposited u paid => ?_
  refine ensures_frame (Within fun _ => false) fun leftOver u' unchanged => ?_
  refine (sharesOf_modifyVestingShares.framed (Within outsideSteem)).mono fun _ t₁ taken => ?_
  refine (steemOf_modifyBalances.framed (Within outsideShares)).mono fun _ t₂ given => ?_
  refine fun c _ => ensures_frame (Within outsideHoldings) fun _ t₃ advanced => ?_
  refine ensures_since _ advanced fun _ t₄ funded => ?_
  refine ensures_since _ funded fun _ t within => ?_
  refine ⟨u, leftOver, paid, fun x => ?_, fun x => ?_⟩
  · rw [within.sharesOf_eq rfl, given.1.sharesOf_eq rfl, taken.2, unchanged.sharesOf_eq rfl]
  · rw [within.steemOf_eq rfl, given.2.2, taken.1.steemOf_eq rfl, unchanged.steemOf_eq rfl]

end Paying

/-! ## Recovery -/

section Recovery

open Evaluator

variable {s : Database} {account : AccountName}

/-- Behind the routes of the account there is none of its routes, so none is removed. -/
theorem removeVestingRoutes_eq : removeVestingRoutes account s = .ok ((), s) := by
  have others : ∀ k ∈ s.routes.keys.filter fun k => s.accounts.keys.idxOf account < s.accounts.keys.idxOf k.1,
      k.1 ≠ account := by
    intro k member same
    have behind := (mem_filter.mp member).2
    rw [same, decide_eq_true_eq] at behind
    exact absurd behind (lt_irrefl _)
  have absent : (s.routes.keys.filter fun k => s.accounts.keys.idxOf account < s.accounts.keys.idxOf k.1).takeWhile
      (fun k => k.1 = account) = [] := by
    generalize (s.routes.keys.filter fun k => s.accounts.keys.idxOf account < s.accounts.keys.idxOf k.1) = l at others
    cases l with
    | nil => rfl
    | cons k l => rw [takeWhile_cons, if_neg (by simpa using others k mem_cons_self)]
  simp only [removeVestingRoutes]
  refine bind_eq_ok.mpr ⟨s, s, get_eq_ok.mpr ⟨rfl, rfl⟩, ?_⟩
  rw [absent]
  rfl

instance : Preserves SameRoutes (removeVestingRoutes account) :=
  ⟨fun s _ t run => by
    rw [removeVestingRoutes_eq] at run
    cases run
    exact refl_of SameRoutes s⟩

instance : Preserves SameRoutes (stopWithdraw account) := sameRoutes_modifyWithdrawal fun _ => rfl

instance {o} : Preserves SameRoutes (recoverAccount o) := by
  simp only [recoverAccount, resetVestingWithdraw]; infer_instance

/-- What a recovery should leave: no power-down, no routes of the account, and those of others. -/
structure WithdrawalsReset (account : AccountName) (s t : Database) : Prop where
  stopped : ∀ a, t.accounts.find? account = some a → a.withdrawal.vestingWithdrawRate = 0 ∧
    a.withdrawal.nextVestingWithdrawal = Time.maximum ∧ a.withdrawal.withdrawn = 0 ∧ a.withdrawal.toWithdraw = 0
  removed : t.routesFrom account = []
  counted : t.withdrawRoutes account = 0
  others : ∀ name, name ≠ account → t.routesFrom name = s.routesFrom name

theorem stopWithdraw_stops : Ensures s (stopWithdraw account) fun _ t => ∀ a, t.accounts.find? account = some a →
    a.withdrawal.vestingWithdrawRate = 0 ∧ a.withdrawal.nextVestingWithdrawal = Time.maximum ∧
      a.withdrawal.withdrawn = 0 ∧ a.withdrawal.toWithdraw = 0 := by
  simp only [stopWithdraw, modifyWithdrawal, updateAccount, getAccount, updateAccounts, ensures_steps]
  intro a found b found'
  rw [find?_modify, if_pos rfl, found] at found'
  cases found'
  exact ⟨rfl, rfl, rfl, rfl⟩

/-- From hardfork 19 on a recovery stops the power-down of the account.  It leaves all routes as they
are, so that the account has none afterwards exactly if it had none before. -/
theorem recoverAccount_resets_iff {o : RecoverAccountOperation} (late : s.hasHardfork 19 = true) :
    Ensures s (recoverAccount o) fun _ t => WithdrawalsReset o.accountToRecover s t ↔
      s.routesFrom o.accountToRecover = [] ∧ s.withdrawRoutes o.accountToRecover = 0 := by
  have stopped : Ensures s (recoverAccount o) fun _ t => ∀ a, t.accounts.find? o.accountToRecover = some a →
      a.withdrawal.vestingWithdrawRate = 0 ∧ a.withdrawal.nextVestingWithdrawal = Time.maximum ∧
        a.withdrawal.withdrawn = 0 ∧ a.withdrawal.toWithdraw = 0 := by
    simp only [recoverAccount, ensures_bind, ensures_get]
    iterate 8 refine ensures_frame SameRoutes fun _ _ _ => ?_
    refine ensures_when.mpr ⟨fun _ => ?_, fun early => absurd late early⟩
    rw [resetVestingWithdraw, ensures_bind]
    refine stopWithdraw_stops.mono fun _ t₉ stops => fun _ u run => ?_
    rw [removeVestingRoutes_eq] at run
    cases run
    exact stops
  refine (stopped.framed SameRoutes).mono fun _ t after => ?_
  obtain ⟨same, stops⟩ := after
  have routes : t.routesFrom = s.routesFrom := by
    funext name
    rw [routesFrom, routesFrom, same.routes]
  constructor
  · intro reset
    refine ⟨?_, ?_⟩
    · rw [← routes]
      exact reset.removed
    · rw [← same.counts]
      exact reset.counted
  · rintro ⟨absent, zero⟩
    exact ⟨stops, by rw [routes, absent], by rw [same.counts, zero], fun name _ => by rw [routes]⟩

/-- The account of Alice has been taken over, and her recovery is requested. -/
def takenOver : Database :=
  { head := { time := 1600000000, headBlockNumber := 1 }
    hardforks := { processedHardforks := replicate 21 0 }
    accounts := (empty.insert .alice { vestingShares := 1000000 }).insert .bob {}
    authorities := empty.insert .alice ⟨.ofKey 2, .ofKey 2, .ofKey 2, 1599999000⟩
    ownerHistory := [⟨.alice, .ofKey 1, 1599999000⟩]
    recoveryRequests := empty.insert .alice ⟨.ofKey 3, 1600003600⟩ }

/-- Whoever took it over has sent her power-down to Bob. -/
def rerouted : Database := stateAfter (setWithdrawVestingRoute ⟨.alice, .bob, 10000, false⟩) takenOver

def recoverAlice : RecoverAccountOperation := ⟨.alice, .ofKey 3, .ofKey 1⟩

/-- What is left of her routes. -/
def Database.routesLeft (s : Database) : Option (Nat × Nat) :=
  (recoverAccount recoverAlice s).toOption.map fun r => ((r.2.routesFrom .alice).length, r.2.withdrawRoutes .alice)

theorem routesLeft_eq_some {n m : Nat} (left : s.routesLeft = some (n, m)) :
    ∃ t, recoverAccount recoverAlice s = .ok ((), t) ∧ (t.routesFrom .alice).length = n ∧
      t.withdrawRoutes .alice = m := by
  obtain ⟨⟨_, t⟩, done, same⟩ := Option.map_eq_some_iff.mp left
  simp only [Prod.mk.injEq] at same
  refine ⟨t, ?_, same⟩
  cases run : recoverAccount recoverAlice s with
  | error e => rw [run] at done; cases done
  | ok r => rw [run] at done; cases done; rfl

theorem recoverAccount_resets_takenOver :
    ∃ t, recoverAccount recoverAlice takenOver = .ok ((), t) ∧ WithdrawalsReset .alice takenOver t := by
  have left : takenOver.routesLeft = some (0, 0) := by decide +kernel
  obtain ⟨t, run, _⟩ := routesLeft_eq_some left
  exact ⟨t, run, (recoverAccount_resets_iff (by decide) _ _ run).mpr ⟨by decide, by decide⟩⟩

/-- The route is still there after the recovery, and counted. -/
theorem recoverAccount_leaves_routes :
    ∃ t, recoverAccount recoverAlice rerouted = .ok ((), t) ∧ (t.routesFrom .alice).length = 1 ∧
      t.withdrawRoutes .alice = 1 ∧ ¬WithdrawalsReset .alice rerouted t := by
  have left : rerouted.routesLeft = some (1, 1) := by decide +kernel
  obtain ⟨t, run, one, counted⟩ := routesLeft_eq_some left
  refine ⟨t, run, one, counted, fun reset => ?_⟩
  rw [reset.removed] at one
  cases one

end Recovery

/-! ## Runs -/

section Runs

open Evaluator

instance {producing o} : Preserves SameRoutes (withdrawVesting producing o) := by
  have started (rate : Int) (next : Time) (shares : Int) := @sameRoutes_modifyWithdrawal o.account (fun w => { w with
    vestingWithdrawRate := rate, nextVestingWithdrawal := next, toWithdraw := shares, withdrawn := 0 }) fun _ => rfl
  unfold withdrawVesting; infer_instance

theorem withdrawRoutes_advance {w : Withdrawal} {paid : Int} {nothingLeft hf19 : Bool} :
    (w.advance paid nothingLeft hf19).withdrawRoutes = w.withdrawRoutes := by
  rw [Withdrawal.advance]
  split <;> rfl

instance {name} : Preserves SameRoutes (payWithdrawal name) := by
  have advanced (paid : Int) (nothingLeft hf19 : Bool) := @sameRoutes_modifyWithdrawal name
    (fun w => w.advance paid nothingLeft hf19) fun _ => withdrawRoutes_advance
  unfold payWithdrawal; infer_instance

instance {magnitude name} : Preserves SameRoutes (splitAccount magnitude name) := by
  have split := @sameRoutes_modifyWithdrawal name (fun w => w.split magnitude) fun _ => rfl
  unfold splitAccount; infer_instance

instance {net hardfork} : Preserves SameRoutes (Network.rewrite net hardfork) := by
  unfold Network.rewrite performVestingShareSplit
  split <;> infer_instance

variable {s : Database}

theorem evaluate_recorded {producing nesting apply} {op : Operation} (other : op.isProposal = false) :
    Ensures s (evaluate producing nesting apply op) fun _ t => Keeps RoutesRecorded s t := by
  cases op <;> simp only [evaluate, accountCreate, accountCreateWithDelegation, createMinedAccount, pow, pow2]
  case setWithdrawVestingRoute o => exact setWithdrawVestingRoute_recorded
  case proposalCreate | proposalUpdate | proposalDelete => cases other
  all_goals exact ensures_frame SameRoutes fun _ _ same => same.recorded

theorem run_sameRoutes {step : BlockStep} (other : step.appliesOperations = false) :
    Preserves SameRoutes (step.run net) := by
  cases step <;> unfold BlockStep.run
  case applyTransaction | clearExpiredProposals => cases other
  all_goals infer_instance

instance {name balances info owner active posting} :
    Preserves SameRoutes (createGenesisAccount name { balances, info } owner active posting) := by
  unfold createGenesisAccount; infer_instance

/-- The first account of the genesis has no routes, and neither has any other. -/
theorem recorded_first {account : Account} (absent : account.withdrawal.withdrawRoutes = 0) :
    Ensures {} (createAccount .miners account) fun _ s => s.RoutesRecorded := by
  simp only [createAccount, updateAccounts, ensures_steps]
  refine fun fresh => ⟨?_, fun name => ?_, fun name => ?_⟩
  · rw [keys_insert fresh]
    rfl
  · simp only [withdrawRoutes, find?_insert fresh]
    split
    · exact absent
    · rfl
  · exact Nat.zero_le _

theorem initGenesis_recorded : Ensures {} net.initGenesis fun _ s => s.RoutesRecorded := by
  rw [Network.initGenesis, ensures_bind, createGenesisAccount, ensures_bind]
  refine (recorded_first rfl).mono fun _ s₁ recorded => ?_
  refine ensures_frame SameRoutes fun _ s₂ same => ?_
  exact ensures_since _ same fun _ s₃ same => same.recorded recorded

theorem routesRecorded_keepsInvariant : net.KeepsInvariant (fun _ _ => True) RoutesRecorded where
  genesis := initGenesis_recorded
  operations := {
    records := fun s t within => (SameRoutes.of_within within.widen).recorded
    evaluator := fun _ _ _ _ s other _ recorded => (evaluate_recorded other).mono fun _ t kept => kept recorded }
  step s step other _ recorded := ((run_sameRoutes other).related s).mono fun _ t same => same.recorded recorded

theorem Network.Reachable.routesRecorded (reachable : net.Reachable s) : s.RoutesRecorded := by
  obtain ⟨blocks, rest, reached⟩ := reachable
  exact (routesRecorded_keepsInvariant.reaches reached).1

/-- Each withdrawal pays the routes it goes over, and in every state of a run the routes of every account
are counted.  They add up to at most 100% and withdrawals go over all of them as long as no route leads to the
account with id 0. -/
theorem routes_kept_iff {net : Network} (reachable : net.Reachable s) :
    (∀ u name a, u.accounts.find? name = some a → Ensures u (payWithdrawal name) fun _ t =>
      WithdrawalPaid name a.nextPayment (u.routesInOrder name) u t) ∧
    (∀ name, s.withdrawRoutes name = (s.routesFrom name).length) ∧
    ((∀ name, s.percentFrom name ≤ 10000 ∧ (s.routesInOrder name).Perm (s.routesFrom name)) ↔
      ∀ k ∈ s.routes.keys, s.accountId k.2 ≠ 0) := by
  have recorded := reachable.routesRecorded
  refine ⟨fun _ _ _ => payWithdrawal_pays, recorded.counted, fun kept k isKey => ?_, fun apart name => ?_⟩
  · obtain ⟨e, isRoute, rfl⟩ := mem_map.mp isKey
    have listed : e ∈ s.routesFrom e.1.1 := mem_filter.mpr ⟨isRoute, by simp⟩
    have seen : e ∈ s.routesOf e.1.1 := (perm_insertionSort _ _).mem_iff.mp ((kept e.1.1).2.mem_iff.mpr listed)
    rw [routesOf_eq recorded.first, mem_filter] at seen
    rw [ne_eq, accountId_eq_zero recorded.first]
    simpa using seen.2
  · have all : s.routesOf name = s.routesFrom name := by
      rw [routesOf_eq recorded.first]
      refine filter_eq_self.mpr fun e listed => ?_
      have isKey : e.1 ∈ s.routes.keys := mem_map_of_mem (mem_filter.mp listed).1
      have different := apart e.1 isKey
      rw [ne_eq, accountId_eq_zero recorded.first] at different
      simpa using different
    refine ⟨?_, ?_⟩
    · have limited := recorded.limited name
      rw [all] at limited
      exact limited
    · rw [← all]
      exact perm_insertionSort _ _

/-- Alice has a route of each kind, and her next payment goes along both. -/
theorem routes_kept_inUse : (usedFor 48).state.routes.keys = [(.alice, .bob), (.alice, .crew 0)] ∧
    (usedFor 48).state.percentFrom .alice ≤ 10000 ∧
    ((usedFor 48).state.routesInOrder .alice).Perm ((usedFor 48).state.routesFrom .alice) ∧
    payWithdrawal .alice (usedFor 48).state = .ok ((), stateAfter (payWithdrawal .alice) (usedFor 48).state) ∧
    WithdrawalPaid .alice 100000000000 ((usedFor 48).state.routesInOrder .alice) (usedFor 48).state
      (stateAfter (payWithdrawal .alice) (usedFor 48).state) := by
  obtain ⟨paid, -, kept⟩ := routes_kept_iff (usedFor_reachable 48)
  have run := stateAfter_eq usedFor_busy.state.pays
  obtain ⟨a, found, numbers⟩ := Option.map_eq_some_iff.mp usedFor_busy.state.shares
  obtain ⟨-, -, next⟩ : _ ∧ _ ∧ a.nextPayment = 100000000000 := by simpa using numbers
  obtain ⟨percent, seen⟩ := kept.mpr usedFor_busy.state.ids .alice
  exact ⟨usedFor_busy.state.routes, percent, seen, run, next ▸ paid _ _ _ found _ _ run⟩

/-- A first transaction that sends all of a power-down to `null` and all of it to `miners`. -/
def overbook : Transaction where
  id := 1
  refBlockNum := 0
  refBlockPrefix := 0
  expiration := Evaluator.genesisTime
  operations := [.setWithdrawVestingRoute ⟨.initMiner, .null, 10000, false⟩,
    .setWithdrawVestingRoute ⟨.initMiner, .miners, 10000, false⟩]
  signatureKeys := [1]

def overbookingBlock : Block where
  previous := bareGenesis.head.headBlockId
  timestamp := Evaluator.genesisTime + 3
  witness := .initMiner
  transactionMerkleRoot := 0
  extensions := []
  transactions := [overbook]
  digest := 1
  merkleRoot := 0
  signee := 1
  size := 1000

/-- The block up to its transaction. -/
def overbooking : Eval Unit :=
  (headerSteps overbookingBlock ++ [BlockStep.applyTransaction overbook]).forM fun step => step.run Network.bare

def overbooked : Database := stateAfter overbooking bareGenesis

theorem overbooked_reachable : Network.bare.Reachable overbooked := by
  have begun : Network.bare.Reaches (fun _ _ => True) [overbookingBlock] ((headerSteps overbookingBlock ++
      [.applyTransaction overbook]) ++ (adoptionSteps overbookingBlock ++
        processingSteps overbookingBlock)) bareGenesis :=
    .block overbookingBlock (.genesis bareGenesis_eq)
  have run : overbooking bareGenesis = .ok ((), overbooked) := stateAfter_eq (by decide +kernel)
  exact ⟨_, _, begun.after run⟩

/-- The account has routes of 200%, and its withdrawals do not see the one to `miners`. -/
theorem routes_overbooked : Network.bare.Reachable overbooked ∧ overbooked.percentFrom .initMiner = 20000 ∧
      (overbooked.routesFrom .initMiner).map (fun r => r.1.2) = [.null, .miners] ∧
      (overbooked.routesInOrder .initMiner).map (fun r => r.1.2) = [.null] :=
  ⟨overbooked_reachable, by decide +kernel, by decide +kernel, by decide +kernel⟩

end Runs

end Golos
