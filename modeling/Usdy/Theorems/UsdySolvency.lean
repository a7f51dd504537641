import Usdy.Theorems.Frozen
import Usdy.Theorems.Instances
import Usdy.Theorems.Solvency

/-! Solvency of the manager over USDY. While the manager alone mints USDY, all of it was bought: what is in
    circulation, what waits for its settlement and what was settled. -/

namespace Usdy
open Checked Function

/-! ### USDY -/

namespace USDY
variable {lists : Lists} {s t : USDY} {caller : Address} {call : Call}

/-- Only a mint raises the supply. -/
theorem exec_supply (hcall : ∀ dst amount, call ≠ .mint dst amount) (h : exec lists caller call s = .ok t) :
    t.totalSupply.toNat ≤ s.totalSupply.toNat := by
  cases call with
  | transfer dst amount =>
    obtain ⟨-, -, -, _, _, -, -, rfl⟩ := internalTransfer_eq_ok.mp h
    exact Nat.le_refl _
  | approve spender amount =>
    obtain ⟨-, -, rfl⟩ := internalApprove_eq_ok.mp h
    exact Nat.le_refl _
  | transferFrom src dst amount =>
    obtain ⟨u, hu, h⟩ := bind_eq_ok.mp h
    obtain ⟨allowances, events, rfl⟩ := spendAllowance_inv hu
    obtain ⟨-, -, -, _, _, -, -, rfl⟩ := internalTransfer_eq_ok.mp h
    exact Nat.le_refl _
  | increaseAllowance spender value | decreaseAllowance spender value =>
    obtain ⟨allowance, -, h⟩ := bind_eq_ok.mp h
    obtain ⟨-, -, rfl⟩ := internalApprove_eq_ok.mp h
    exact Nat.le_refl _
  | mint dst amount => exact absurd rfl (hcall dst amount)
  | burn amount =>
    obtain ⟨-, -, balance, totalSupply, -, hsupply, rfl⟩ := internalBurn_eq_ok.mp h
    exact Nat.le.intro hsupply
  | burnFrom account amount =>
    obtain ⟨u, hu, h⟩ := bind_eq_ok.mp h
    obtain ⟨allowances, events, rfl⟩ := spendAllowance_inv hu
    obtain ⟨-, -, balance, totalSupply, -, hsupply, rfl⟩ := internalBurn_eq_ok.mp h
    exact Nat.le.intro hsupply
  | adminBurn src amount =>
    obtain ⟨_, -, h⟩ := bind_eq_ok.mp h
    obtain ⟨-, -, balance, totalSupply, -, hsupply, rfl⟩ := internalBurn_eq_ok.mp h
    exact Nat.le.intro hsupply
  | pause | unpause | setBlocklist blocklist | setAllowlist allowlist =>
    obtain ⟨_, -, h⟩ := bind_eq_ok.mp h
    obtain ⟨_, -, h⟩ := bind_eq_ok.mp h
    obtain rfl := pure_eq_ok.mp h
    exact Nat.le_refl _
  | role call =>
    obtain ⟨access, -, h⟩ := bind_eq_ok.mp h
    obtain rfl := pure_eq_ok.mp h
    exact Nat.le_refl _

end USDY

/-! ### The manager's token -/

variable {C : Type} {manager : Address} {transferFrom : Views → C → Address → Address → Uint256 → Option C}
  {w w' : World C} {s s₀ : State (World C)}

/-- What an account holds of USDY. -/
def World.balance (w : World C) (account : Address) : Nat := (w.token.balances account).toNat

/-- The balances after a write to one of them. -/
theorem balance_update {f : Address → Uint256} {account : Address} {b : Uint256} :
    (fun a => (update f account b a).toNat) = update (fun a => (f a).toNat) account b.toNat := by
  funext a
  rw [update_apply, update_apply]
  split <;> rfl

theorem usdyTokens_rwaToken : RwaToken (usdyTokens manager transferFrom) World.balance where
  mint h := by
    obtain ⟨token, htoken, rfl⟩ := World.exec_eq_some.mp h
    obtain ⟨_, -, hmint⟩ := bind_eq_ok.mp htoken
    obtain ⟨-, -, totalSupply, balance, -, hbalance, rfl⟩ := USDY.internalMint_eq_ok.mp hmint
    exact balance_update.trans (congrArg _ hbalance)
  burnFrom h := by
    obtain ⟨token, htoken, rfl⟩ := World.exec_eq_some.mp h
    obtain ⟨u, hspent, hburn⟩ := bind_eq_ok.mp htoken
    obtain ⟨allowances, events, rfl⟩ := USDY.spendAllowance_inv hspent
    obtain ⟨-, -, balance, totalSupply, hbalance, -, rfl⟩ := USDY.internalBurn_eq_ok.mp hburn
    exact ⟨Nat.le.intro ((Nat.add_comm ..).trans hbalance),
      balance_update.trans (congrArg _ (Nat.eq_sub_of_add_eq hbalance))⟩
  transferFrom h := by
    obtain ⟨collateral, -, rfl⟩ := Option.map_eq_some_iff.mp h
    rfl

/-- The accounts hold the supply together. -/
def World.Backed (w : World C) : Prop := w.token.ledger.Backed

theorem World.Backed.supply_eq (h : w.Backed) : supply World.balance w = w.token.totalSupply.toNat := h.total

theorem World.Backed.exec (h : w.Backed) {views : Views} {caller : Address} {call : USDY.Call}
    (hexec : w.exec views caller call = some w') : w'.Backed := by
  obtain ⟨token, htoken, rfl⟩ := World.exec_eq_some.mp hexec
  exact USDY.exec_backed h htoken

theorem World.Backed.moves (h : w.Backed) {views : Views} {moved : List TokenCall}
    (hmoves : (usdyTokens manager transferFrom).Moves views w moved w') : w'.Backed := by
  refine Trail.preserves (I := World.Backed) hmoves h fun u call v ih hcall => ?_
  cases call with
  | mint dst amount | burnFrom src amount => exact ih.exec hcall
  | transferFrom src dst amount =>
    obtain ⟨collateral, -, rfl⟩ := Option.map_eq_some_iff.mp hcall
    exact ih

/-- The manager alone mints USDY; anybody does anything else with it. No record is overwritten. -/
def managerMints : Rules (World C) where
  call := (onlyMinter World.balance).call
  world s _ w := tokenMove (fun call => ∀ dst amount, call ≠ .mint dst amount) s w

theorem World.Backed.world (h : s.tokens.Backed) {views : Views} (hw : managerMints.world s views w) :
    w.Backed ∧ supply World.balance w ≤ supply World.balance s.tokens := by
  rcases hw with hsame | ⟨sender, call, u, hcall, hexec, hsame⟩
  · have hbacked : w.Backed := by rwa [World.Backed, hsame]
    exact ⟨hbacked, by rw [hbacked.supply_eq, h.supply_eq, hsame]⟩
  · obtain ⟨token, htoken, rfl⟩ := World.exec_eq_some.mp hexec
    have hbacked : w.Backed := by
      rw [World.Backed, hsame]
      exact USDY.exec_backed h htoken
    refine ⟨hbacked, ?_⟩
    rw [hbacked.supply_eq, h.supply_eq, hsame]
    exact USDY.exec_supply hcall htoken

/-- Every move of USDY by others adds nothing to the supply. -/
theorem Run.managerMints {acts : List (Action (World C))} (h₀ : s₀.tokens.Backed)
    (h : Run (usdyTokens manager transferFrom) Usdy.managerMints s₀ acts s) :
    Run (usdyTokens manager transferFrom) (onlyMinter World.balance) s₀ acts s ∧ s.tokens.Backed := by
  refine Trail.invariant (I := fun acts s =>
    Run (usdyTokens manager transferFrom) (onlyMinter World.balance) s₀ acts s ∧ s.tokens.Backed) h ⟨.nil _, h₀⟩
    fun acts s a t _ ih hstep => ?_
  cases hstep with
  | @call _ sender _ hexec hallowed =>
    obtain ⟨new, moved, hbooked, -⟩ := exec_booked sender.ne_zero hexec
    exact ⟨ih.1.snoc (.call hexec hallowed), ih.2.moves hbooked.moves⟩
  | reverted hexec => exact ⟨ih.1.snoc (.reverted hexec), ih.2⟩
  | block hlater => exact ⟨ih.1.snoc (.block hlater), ih.2⟩
  | world hallowed =>
    obtain ⟨hbacked, hle⟩ := ih.2.world hallowed
    exact ⟨ih.1.snoc (.world hle), hbacked⟩

/-! ### What was minted and what is owed -/

/-- What the redemptions that are not settled yet burned. -/
def openRedemptions (g : Ledgers) : Nat := Slots.total (·.amountRwaTokenBurned.toNat) g.redemptionIdToRedeemer

theorem sum_pendingRedemptions (g : Ledgers) : ∑ user, pendingRedemptions user g = openRedemptions g := by
  simp only [pendingRedemptions, openRedemptions, Slots.total]
  rw [Finset.sum_comm]
  refine Finset.sum_congr rfl fun d _ => ?_
  simp only [Redeemer.owes, Finset.sum_ite_eq, Finset.mem_univ, if_true]

/-- Requests burned all that was settled and all that waits for it. -/
theorem Reachable.open_le {T : Type} {X : Tokens T} {s : State T} (h : Reachable X noOverwriteRedeemer s) :
    Exchange.volume (s.events.filterMap (·.event.sale)) + openRedemptions s.toLedgers ≤ totalBurned s.calls := by
  have hsettled : ∑ user, settledRedemptions user s.events = Exchange.volume (s.events.filterMap (·.event.sale)) := by
    rw [Exchange.volume, sum_filterMap]
    exact (sum_users s.events).trans (sum_congr fun e _ => sum_settledFor e.event)
  calc Exchange.volume (s.events.filterMap (·.event.sale)) + openRedemptions s.toLedgers
    _ = ∑ user, (settledRedemptions user s.events + pendingRedemptions user s.toLedgers) := by
      rw [Finset.sum_add_distrib, hsettled, sum_pendingRedemptions]
    _ = ∑ user, requestedRedemptions user s.events := Finset.sum_congr rfl fun user _ => (requested_eq h user).symm
    _ = (s.events.map fun e => ∑ user, e.event.requestedBy user).sum := sum_users s.events
    _ ≤ ((s.events.filterMap (·.event.rwaCall)).map TokenCall.burned).sum := by
      rw [sum_filterMap]
      exact List.sum_le_sum fun e _ => sum_requestedBy e.event
    _ = totalBurned s.calls := by
      rw [← h.rwaCalls]
      exact (sum_isRwa (fun c hc => by cases c <;> first | rfl | cases hc) s.calls).symm

/-- The manager is deployed over a USDY of which nothing is issued, in a run only the manager mints and no record is
    overwritten, and no settlement is at a price above that of a mint. Then the USDY in circulation and the redemptions
    that wait, worth what any price says that no mint was below, and the collateral owed for all settlements are
    together at most the deposits that were claimed. -/
theorem circulation_covered {acts : List (Action (World C))} {price : Nat} (h₀ : Deployed s₀)
    (hunissued : s₀.tokens.token.Unissued) (h : Run (usdyTokens manager transferFrom) managerMints s₀ acts s)
    (hprices : NonRising s.events) (hprice : ∀ e ∈ s.events, ∀ p ∈ e.event.purchase, price ≤ p.2) :
    (s.tokens.token.totalSupply.toNat + openRedemptions s.toLedgers) * price / 10 ^ 18 / s.decimalsMultiplier.toNat +
      totalDue s.decimalsMultiplier s.events ≤ totalClaimed s.events := by
  obtain ⟨hrun, hbacked⟩ := h.managerMints hunissued.backed
  have hr : Reachable (usdyTokens manager transferFrom) (onlyMinter World.balance) s := ⟨s₀, acts, h₀, hrun⟩
  have hdeposits : Reachable (usdyTokens manager transferFrom) noOverwriteDepositor s :=
    hr.mono (fun _ _ call hrule => by cases call <;> first | exact hrule | trivial) fun _ _ _ _ => trivial
  have hredemptions : Reachable (usdyTokens manager transferFrom) noOverwriteRedeemer s :=
    hr.mono (fun _ _ call hrule => by cases call <;> first | exact hrule | trivial) fun _ _ _ _ => trivial
  have hminted := hdeposits.totalMinted_eq
  have hburned := hredemptions.open_le
  have hzero : ∀ a, World.balance s₀.tokens a = 0 := fun a => congrArg BitVec.toNat (hunissued.balances a)
  have hsupply := usdyTokens_rwaToken.supply_le h₀ hzero hrun
  rw [hbacked.supply_eq] at hsupply
  -- What circulates and what waits is one more sale, at the price.
  let sales := (s.tokens.token.totalSupply.toNat + openRedemptions s.toLedgers, price) ::
    s.events.filterMap (·.event.sale)
  have hvolume : Exchange.volume sales = s.tokens.token.totalSupply.toNat + openRedemptions s.toLedgers +
    Exchange.volume (s.events.filterMap (·.event.sale)) := rfl
  have hbelow : ∀ q ∈ sales, ∀ p ∈ s.events.filterMap (·.event.purchase), q.2 ≤ p.2 := fun q hq p hp => by
    obtain ⟨x, hx, hp⟩ := List.mem_filterMap.mp hp
    rcases List.mem_cons.mp hq with rfl | hq
    · exact hprice x hx p hp
    · obtain ⟨e, he, hq⟩ := List.mem_filterMap.mp hq
      exact hprices e he x hx q hq p hp
  rw [totalDue_eq, totalClaimed_eq, Nat.div_div_eq_div_mul]
  exact Exchange.totalWorth_le hbelow (by omega)

namespace Sample

/-- The address of the manager, which mints. -/
def minter : Address := 0xda

/-- USDY before anything is issued. -/
def unissuedWorld : World Unit := ⟨USDY.Sample.token, fun _ _ => some true, ()⟩

theorem deployUnissued_isSome : (deploy deployment 1000 views unissuedWorld).toOption.isSome = true := by
  decide +kernel

/-- The manager deployed over USDY before anything is issued. -/
def unissuedState : State (World Unit) :=
  (deploy deployment 1000 views unissuedWorld).toOption.get deployUnissued_isSome

theorem grantMinter_isSome :
    (unissuedWorld.exec views admin.address (.role (.grantRole .minter minter))).isSome = true := by
  decide +kernel

/-- The admin of USDY lets the manager mint. -/
def grantedWorld : World Unit :=
  (unissuedWorld.exec views admin.address (.role (.grantRole .minter minter))).get grantMinter_isSome

-- Alice deposits, and the manager mints USDY for her.
def issuing : List (Action (World Unit)) :=
  [.world views grantedWorld,
   .call admin (.grantRole .priceIdSetter admin.address),
   .call admin (.grantRole .timestampSetter admin.address),
   .call alice (.requestSubscription 1000),
   .call admin (.setPriceIdForDeposits [1] [1]),
   .call admin (.setClaimableTimestamp 1500 [1]),
   .block 2000,
   .call alice (.claimMint [1])]

/-- Alice holds what was minted for her. -/
def issuedState : State (World Unit) := run usdy unissuedState issuing

theorem approveManager_isSome : (issuedState.tokens.exec views alice.address (.approve minter 700)).isSome = true := by
  decide +kernel

/-- She lets the manager burn 700 of it. -/
def approvedWorld : World Unit :=
  (issuedState.tokens.exec views alice.address (.approve minter 700)).get approveManager_isSome

-- She redeems in two requests; one of them is settled.
def redeeming : List (Action (World Unit)) :=
  [.world views approvedWorld,
   .call alice (.requestRedemption 400),
   .call alice (.requestRedemption 300),
   .call admin (.setPriceIdForRedemptions [1] [1]),
   .call admin (.claimRedemption [1])]

end Sample

theorem circulation_covered_history :
    let s := run Sample.usdy Sample.unissuedState (Sample.issuing ++ Sample.redeeming)
    s.tokens.token.totalSupply = 300 ∧ totalDue s.decimalsMultiplier s.events = 400 ∧
      (s.tokens.token.totalSupply.toNat + openRedemptions s.toLedgers) * e18.toNat / 10 ^ 18 /
        s.decimalsMultiplier.toNat + totalDue s.decimalsMultiplier s.events ≤ totalClaimed s.events := by
  have hinit : USDY.init Sample.admin.address 0xc5 0xc6 = .ok USDY.Sample.token := rfl
  have hunissued : Sample.unissuedState.tokens.token.Unissued := ⟨(USDY.init_told hinit).backed, rfl⟩
  have hdeployed : Deployed Sample.unissuedState :=
    ⟨Sample.deployment, 1000, Sample.views, Sample.unissuedWorld, eq_ok_get Sample.deployUnissued_isSome⟩
  have hallowed : managerMints.AllowsAll Sample.usdy Sample.unissuedState (Sample.issuing ++ Sample.redeeming) := by
    refine ⟨.inr ⟨Sample.admin, .role (.grantRole .minter Sample.minter), Sample.grantedWorld, ?_, ?_, rfl⟩, trivial,
      trivial, trivial, trivial, trivial, ?_, trivial, .inr ⟨Sample.alice, .approve Sample.minter 700,
      Sample.approvedWorld, ?_, ?_, rfl⟩, trivial, trivial, trivial, trivial, trivial⟩
    · exact fun dst amount hmint => by cases hmint
    · exact (Option.some_get Sample.grantMinter_isSome).symm
    · unfold Rules.Allows
      decide +kernel
    · exact fun dst amount hmint => by cases hmint
    · exact (Option.some_get Sample.approveManager_isSome).symm
  refine ⟨by decide +kernel, by decide +kernel, circulation_covered hdeployed hunissued (run_path hallowed) ?_ ?_⟩
  · unfold NonRising
    decide +kernel
  · decide +kernel

end Usdy
