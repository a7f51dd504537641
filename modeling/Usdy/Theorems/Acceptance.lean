import Usdy.Theorems.Log

/-! Which lists of deposits `claimMint` accepts, where the pricer answers for every price id and the token
    accepts every mint: lists of different ids, each of which may be claimed by itself. A pass deletes its
    deposit, so an id that comes again cannot be claimed any more. -/

namespace Usdy
open Checked Function State

variable {T : Type} {X : Tokens T} {rules : Rules T} {s t : State T} {price : Uint256 → Uint256}
  {balance : T → Address → Nat} {id depositId : Bytes32} {ids : List Bytes32} {tokens : T} {calls : List TokenCall}
  {events : List Entry}

/-- The token accepts every mint, and adds it to the balance of its receiver. -/
structure MintsAll (X : Tokens T) (views : Views) (balance : T → Address → Nat) : Prop where
  accepts : ∀ tokens dst amount, ∃ tokens', X.mint views tokens dst amount = some tokens'
  adds : ∀ {tokens dst amount tokens'}, X.mint views tokens dst amount = some tokens' →
    balance tokens' = update (balance tokens) dst (balance tokens dst + amount.toNat)

/-- The pricer answers for every price id. -/
def State.Quotes (s : State T) (price : Uint256 → Uint256) : Prop :=
  ∀ priceId, s.views.getPrice s.pricer priceId = some (price priceId)

/-- The deposit under the id may be claimed now. -/
def State.Claimable (s : State T) (price : Uint256 → Uint256) (id : Bytes32) : Prop :=
  s.depositIdToClaimableTimestamp id ≠ 0 ∧ s.depositIdToClaimableTimestamp id ≤ s.now ∧
    (s.depositIdToDepositor id).priceId ≠ 0 ∧ price (s.depositIdToDepositor id).priceId ≠ 0 ∧
    (s.depositIdToDepositor id).amountDepositedMinusFees.toNat * s.decimalsMultiplier.toNat * 10 ^ 18 < 2 ^ 256

/-- What the deposit under the id is owed. -/
def State.rwaOwed (s : State T) (price : Uint256 → Uint256) (id : Bytes32) : Nat :=
  (s.depositIdToDepositor id).amountDepositedMinusFees.toNat * s.decimalsMultiplier.toNat * 10 ^ 18 /
    (price (s.depositIdToDepositor id).priceId).toNat

/-- What an account is owed for its deposits of the list. -/
def State.rwaOwedTo (s : State T) (price : Uint256 → Uint256) (ids : List Bytes32) (account : Address) : Nat :=
  (ids.map fun id => if (s.depositIdToDepositor id).user = account then s.rwaOwed price id else 0).sum

/-- The deposits of the list are deleted, and their timestamps. -/
def Ledgers.claimed (g : Ledgers) (ids : List Bytes32) : Ledgers :=
  { g with
    depositIdToDepositor := fun id => if id ∈ ids then 0 else g.depositIdToDepositor id
    depositIdToClaimableTimestamp := fun id => if id ∈ ids then 0 else g.depositIdToClaimableTimestamp id }

instance {s : State T} : Decidable (s.Claimable price id) := inferInstanceAs (Decidable (_ ∧ _))

/-! ### One pass -/

theorem exists_minting {deposit : Uint256 × Depositor} (hprice : s.Quotes price) :
    (∃ x, s.minting id deposit = .ok x) ↔
      deposit.1 ≠ 0 ∧ deposit.1 ≤ s.now ∧ deposit.2.priceId ≠ 0 ∧ price deposit.2.priceId ≠ 0 ∧
        deposit.2.amountDepositedMinusFees.toNat * s.decimalsMultiplier.toNat * 10 ^ 18 < 2 ^ 256 := by
  simp only [minting, bind_eq_ok, exists_unit_iff, revertIf_eq_ok, getPrice_eq_ok, pure_eq_ok]
  constructor
  · rintro ⟨x, hset, hpassed, hpriced, p, hquote, out, hout, -⟩
    obtain rfl : price deposit.2.priceId = p := Option.some.inj ((hprice _).symm.trans hquote)
    obtain ⟨hfits, hpos⟩ := exists_getMintAmountForPrice.mp ⟨out, hout⟩
    exact ⟨hset, BitVec.not_lt.mp hpassed, hpriced, hpos, hfits⟩
  · rintro ⟨hset, hpassed, hpriced, hpos, hfits⟩
    obtain ⟨out, hout⟩ := exists_getMintAmountForPrice.mpr ⟨hfits, hpos⟩
    exact ⟨_, hset, BitVec.not_lt.mpr hpassed, hpriced, _, hprice _, out, hout, rfl⟩

theorem exists_internalClaimMint (hX : MintsAll X s.views balance) (hprice : s.Quotes price) :
    (∃ t, USDYManager.internalClaimMint X id s = .ok t) ↔ s.Claimable price id := by
  have hminting : (∃ x, s.minting id (s.toLedgers.deposit id) = .ok x) ↔ s.Claimable price id := exists_minting hprice
  simp only [USDYManager.internalClaimMint_eq_ok, ← hminting]
  constructor
  · rintro ⟨t, x, tokens, hx, -⟩
    exact ⟨x, hx⟩
  · rintro ⟨x, hx⟩
    obtain ⟨tokens, hmint⟩ := hX.accepts s.tokens x.user x.rwaOwed
    exact ⟨_, x, tokens, hx, hmint, rfl⟩

theorem internalClaimMint_pays (hX : MintsAll X s.views balance) (hprice : s.Quotes price)
    (h : USDYManager.internalClaimMint X id s = .ok t) :
    ∃ tokens calls events, t = s.moved (s.toLedgers.minted id) tokens calls events ∧
      ∀ a, balance tokens a = balance s.tokens a +
        if (s.depositIdToDepositor id).user = a then s.rwaOwed price id else 0 := by
  obtain ⟨x, tokens, hx, hmint, rfl⟩ := USDYManager.internalClaimMint_eq_ok.mp h
  obtain ⟨-, -, -, hquote, -, hout, hrecord⟩ := Minting.inv hx
  have huser : x.user = (s.depositIdToDepositor id).user := by rw [hrecord]; rfl
  have howed : x.rwaOwed.toNat = s.rwaOwed price id := by
    rw [hout, ← Option.some.inj ((hprice _).symm.trans hquote)]
    rfl
  refine ⟨tokens, _, _, rfl, fun a => ?_⟩
  rw [hX.adds hmint, huser, howed]
  by_cases ha : (s.depositIdToDepositor id).user = a
  · rw [← ha, update_self, if_pos rfl]
  · rw [update_of_ne (Ne.symm ha), if_neg ha, Nat.add_zero]

/-! ### What a pass leaves -/

section Left

theorem depositor_minted (h : id ≠ depositId) :
    (s.moved (s.toLedgers.minted depositId) tokens calls events).depositIdToDepositor id = s.depositIdToDepositor id :=
  update_of_ne h ..

theorem claimable_minted :
    (s.moved (s.toLedgers.minted depositId) tokens calls events).Claimable price id ↔
      id ≠ depositId ∧ s.Claimable price id := by
  by_cases h : id = depositId
  · subst h
    refine iff_of_false (fun hc => hc.1 (update_self ..)) fun hc => hc.1 rfl
  · have hset : (s.moved (s.toLedgers.minted depositId) tokens calls events).depositIdToClaimableTimestamp id =
        s.depositIdToClaimableTimestamp id := update_of_ne h ..
    rw [and_iff_right h, Claimable, Claimable, depositor_minted h, hset]
    rfl

theorem rwaOwedTo_minted (h : depositId ∉ ids) (a : Address) :
    (s.moved (s.toLedgers.minted depositId) tokens calls events).rwaOwedTo price ids a = s.rwaOwedTo price ids a := by
  rw [rwaOwedTo, rwaOwedTo]
  refine congrArg List.sum (List.map_congr_left fun id hid => ?_)
  have hne : id ≠ depositId := fun heq => h (heq ▸ hid)
  rw [rwaOwed, rwaOwed, depositor_minted hne]
  rfl

theorem claimed_minted (g : Ledgers) (depositId : Bytes32) (ids : List Bytes32) :
    (g.minted depositId).claimed ids = g.claimed (depositId :: ids) := by
  simp only [Ledgers.claimed, Ledgers.minted, Ledgers.mk.injEq, and_true, true_and]
  constructor
  · funext id
    by_cases h : id = depositId
    · simp [h]
    · simp [h]
  · funext id
    by_cases h : id = depositId
    · simp [h]
    · simp [h]

end Left

/-! ### The loop -/

theorem foldlM_claims_iff : ∀ {ids : List Bytes32} {s : State T}, MintsAll X s.views balance → s.Quotes price →
    ((∃ t, ids.foldlM (fun s depositId => USDYManager.internalClaimMint X depositId s) s = .ok t) ↔
      ids.Nodup ∧ ∀ id ∈ ids, s.Claimable price id)
  | [], s, _, _ => by simp [pure_eq_ok]
  | id :: ids, s, hX, hprice => by
    simp only [List.foldlM_cons, bind_eq_ok, List.nodup_cons, List.forall_mem_cons]
    constructor
    · rintro ⟨u, t, ht, hu⟩
      have hid := (exists_internalClaimMint hX hprice).mp ⟨t, ht⟩
      obtain ⟨tokens, calls, events, rfl, -⟩ := internalClaimMint_pays hX hprice ht
      obtain ⟨hnodup, hids⟩ :=
        (foldlM_claims_iff (s := s.moved (s.toLedgers.minted id) tokens calls events) hX hprice).mp ⟨u, hu⟩
      -- the deposit is gone, so the rest cannot list it
      have hids := fun id' hid' => claimable_minted.mp (hids id' hid')
      exact ⟨⟨fun hmem => (hids id hmem).1 rfl, hnodup⟩, hid, fun id' hid' => (hids id' hid').2⟩
    · rintro ⟨⟨hnot, hnodup⟩, hid, hids⟩
      obtain ⟨t, ht⟩ := (exists_internalClaimMint hX hprice).mpr hid
      obtain ⟨tokens, calls, events, rfl, -⟩ := internalClaimMint_pays hX hprice ht
      obtain ⟨u, hu⟩ := (foldlM_claims_iff (s := s.moved (s.toLedgers.minted id) tokens calls events) hX hprice).mpr
        ⟨hnodup, fun id' hid' => claimable_minted.mpr ⟨fun heq => hnot (heq ▸ hid'), hids id' hid'⟩⟩
      exact ⟨u, _, ht, hu⟩

theorem foldlM_claims_pays : ∀ {ids : List Bytes32} {s t : State T}, MintsAll X s.views balance → s.Quotes price →
    ids.foldlM (fun s depositId => USDYManager.internalClaimMint X depositId s) s = .ok t →
      ∃ tokens calls events, t = s.moved (s.toLedgers.claimed ids) tokens calls events ∧
        ∀ a, balance tokens a = balance s.tokens a + s.rwaOwedTo price ids a
  | [], s, t, _, _, h => by
    obtain rfl := pure_eq_ok.mp h
    refine ⟨s.tokens, s.calls, s.events, ?_, fun a => rfl⟩
    simp [moved, Ledgers.claimed]
  | id :: ids, s, u, hX, hprice, h => by
    obtain ⟨hnot, -⟩ := List.nodup_cons.mp ((foldlM_claims_iff hX hprice).mp ⟨u, h⟩).1
    rw [List.foldlM_cons, bind_eq_ok] at h
    obtain ⟨t, ht, hu⟩ := h
    obtain ⟨tokens, calls, events, rfl, hpaid⟩ := internalClaimMint_pays hX hprice ht
    obtain ⟨tokens', calls', events', rfl, hrest⟩ :=
      foldlM_claims_pays (s := s.moved (s.toLedgers.minted id) tokens calls events) hX hprice hu
    refine ⟨tokens', calls', events', ?_, fun a => ?_⟩
    · rw [← claimed_minted]
      rfl
    · rw [hrest, rwaOwedTo_minted hnot, rwaOwedTo, rwaOwedTo, List.map_cons, List.sum_cons, ← Nat.add_assoc, ← hpaid]
      rfl

/-! ### Between calls

The reentrancy guard is only up inside a call. -/

theorem exec_status {caller : Address} {call : Call} (hs : s.status = 1) (h : exec X caller call s = .ok t) :
    t.status = 1 := by
  cases call with
  | requestSubscription amount =>
    obtain ⟨_, -, h⟩ := exec_request_inv rfl h
    obtain ⟨_, _, _, _, _, -, -, -, -, -, -, -, -, -, -, rfl⟩ := RWAHub.requestSubscription_inv h
    rfl
  | requestSubscriptionServicedOffchain user amount offChainDestination =>
    obtain ⟨_, -, h⟩ := exec_request_inv rfl h
    obtain ⟨_, _, -, -, -, -, -, -, -, -, -, rfl⟩ :=
      RWAHubOffChainRedemptions.requestSubscriptionServicedOffchain_inv h
    rfl
  | requestRedemption amount =>
    obtain ⟨_, -, h⟩ := exec_request_inv rfl h
    obtain ⟨_, _, -, -, -, -, -, -, rfl⟩ := RWAHub.requestRedemption_inv h
    rfl
  | requestRedemptionServicedOffchain amount offChainDestination =>
    obtain ⟨_, -, h⟩ := exec_request_inv rfl h
    obtain ⟨_, _, -, -, -, -, -, -, rfl⟩ := RWAHubOffChainRedemptions.requestRedemptionServicedOffchain_inv h
    rfl
  | claimMint ids =>
    obtain ⟨u, -, -, -, rfl⟩ := RWAHub.claimMint_eq_ok.mp h
    rfl
  | claimRedemption ids =>
    obtain ⟨_, _, _, _, -, -, -, -, -, rfl⟩ := RWAHub.claimRedemption_eq_ok.mp h
    rfl
  | setClaimableTimestamp claimTimestamp ids =>
    obtain ⟨-, -, rfl⟩ := USDYManager.setClaimableTimestamp_inv h
    exact List.foldlRecOn (motive := fun s : State T => s.status = 1) ids _ hs fun _ hs _ _ => hs
  | setPriceIdForDeposits ids priceIds =>
    obtain ⟨-, -, h⟩ := RWAHub.setPriceIdForDeposits_inv h
    refine foldlM_keeps (I := fun s : State T => s.status = 1) (fun s entry t hs h => ?_) hs h
    obtain ⟨-, -, rfl⟩ := RWAHub.setPriceIdForDeposit_eq_ok.mp h
    exact hs
  | setPriceIdForRedemptions ids priceIds =>
    obtain ⟨-, -, h⟩ := RWAHub.setPriceIdForRedemptions_inv h
    refine foldlM_keeps (I := fun s : State T => s.status = 1) (fun s entry t hs h => ?_) hs h
    obtain ⟨-, rfl⟩ := RWAHub.setPriceIdForRedemption_eq_ok.mp h
    exact hs
  | overwriteDepositor id user amount priceId =>
    obtain ⟨-, -, rfl⟩ := RWAHub.overwriteDepositor_inv h
    exact hs
  | overwriteRedeemer id user amount priceId =>
    obtain ⟨-, -, rfl⟩ := RWAHub.overwriteRedeemer_inv h
    exact hs
  | grantRole role account =>
    obtain ⟨-, rfl⟩ := grantRole_inv h
    obtain ⟨roles, new, heq, -⟩ := internalGrantRole_inv s role account caller
    rw [heq]
    exact hs
  | revokeRole role account =>
    obtain ⟨-, rfl⟩ := revokeRole_inv h
    obtain ⟨roles, new, heq, -⟩ := internalRevokeRole_inv s role account caller
    rw [heq]
    exact hs
  | renounceRole role account =>
    obtain ⟨-, rfl⟩ := renounceRole_inv h
    obtain ⟨roles, new, heq, -⟩ := internalRevokeRole_inv s role account caller
    rw [heq]
    exact hs
  | admin call =>
    obtain ⟨config, event, rfl, -⟩ := AdminCall.exec_inv h
    exact hs

theorem Reachable.not_entered (h : Reachable X rules s) : s.status ≠ 2 := by
  have hstatus : s.status = 1 := h.invariant (fun s hs => hs.fresh.status)
    (fun s t sender call _ ih _ hexec => exec_status ih hexec) (fun _ _ ih _ => ih) fun _ _ _ ih _ => ih
  rw [hstatus]
  decide

/-! ### Acceptance -/

/-- Subscriptions are running, and the list names different deposits, each of which may be claimed. -/
def State.Claims (s : State T) (price : Uint256 → Uint256) (ids : List Bytes32) : Prop :=
  s.subscriptionPaused = false ∧ ids.Nodup ∧ ∀ id ∈ ids, s.Claimable price id

/-- Between calls, `claimMint` succeeds exactly for lists of different claimable deposits while subscriptions
    run; it then deletes the listed deposits and nothing else, and every account receives what its deposits of
    the list are owed; otherwise it changes nothing. -/
theorem claimMint_accepted_iff (hs : s.status ≠ 2) (hX : MintsAll X s.views balance) (hprice : s.Quotes price)
    (sender : Sender) (ids : List Bytes32) :
    ((∃ t, exec X sender.address (.claimMint ids) s = .ok t) ↔ s.Claims price ids) ∧
    (∀ t, exec X sender.address (.claimMint ids) s = .ok t → ∃ tokens calls events,
      t = { s.moved (s.toLedgers.claimed ids) tokens calls events with status := 1 } ∧
        ∀ a, balance tokens a = balance s.tokens a + s.rwaOwedTo price ids a) ∧
    (¬s.Claims price ids → step X s (.call sender (.claimMint ids)) = s) := by
  have hiff : (∃ t, exec X sender.address (.claimMint ids) s = .ok t) ↔ s.Claims price ids := by
    have hloop : (∃ u, ids.foldlM (fun s depositId => USDYManager.internalClaimMint X depositId s)
        { s with status := 2 } = .ok u) ↔ ids.Nodup ∧ ∀ id ∈ ids, s.Claimable price id :=
      foldlM_claims_iff (s := { s with status := 2 }) hX hprice
    constructor
    · rintro ⟨t, h⟩
      obtain ⟨u, -, hpaused, hu, -⟩ := RWAHub.claimMint_eq_ok.mp h
      exact ⟨hpaused, hloop.mp ⟨u, hu⟩⟩
    · rintro ⟨hpaused, hids⟩
      obtain ⟨u, hu⟩ := hloop.mpr hids
      exact ⟨_, RWAHub.claimMint_eq_ok.mpr ⟨u, hs, hpaused, hu, rfl⟩⟩
  refine ⟨hiff, fun t h => ?_, fun hnot => ?_⟩
  · obtain ⟨u, -, -, hu, rfl⟩ := RWAHub.claimMint_eq_ok.mp h
    obtain ⟨tokens, calls, events, rfl, hpaid⟩ := foldlM_claims_pays (s := { s with status := 2 }) hX hprice hu
    exact ⟨tokens, calls, events, rfl, hpaid⟩
  · cases h : exec X sender.address (.claimMint ids) s with
    | ok t => exact absurd (hiff.mp ⟨t, h⟩) hnot
    | error e => exact step_of_error h

theorem Sample.tokens_mintsAll {views : Views} : MintsAll Sample.tokens views (fun balances => balances) where
  accepts _ _ _ := ⟨_, rfl⟩
  adds h := (Option.some.inj h).symm

theorem claimMint_accepted_iff_history :
    let s := run Sample.tokens Sample.state (Sample.history.take 10)
    (∃ t, exec Sample.tokens Sample.bob.address (.claimMint [5, 1]) s = .ok t ∧ ∃ tokens calls events,
      t = { s.moved (s.toLedgers.claimed [5, 1]) tokens calls events with status := 1 } ∧
        ∀ a, tokens a = s.tokens a + s.rwaOwedTo Sample.pricer.getPrice [5, 1] a) ∧
    step Sample.tokens s (.call Sample.bob (.claimMint [5, 5])) = s := by
  intro s
  have hrun : Rules.any.AllowsAll Sample.tokens Sample.state (Sample.history.take 10) := Sample.history_allowed.take 10
  have hs := ((Reachable.of_deployed Sample.state_deployed).run (run_path hrun)).not_entered
  have hprice : s.Quotes Sample.pricer.getPrice := fun _ => rfl
  obtain ⟨hiff, hpaid, -⟩ := claimMint_accepted_iff hs Sample.tokens_mintsAll hprice Sample.bob [5, 1]
  obtain ⟨-, -, hkept⟩ := claimMint_accepted_iff hs Sample.tokens_mintsAll hprice Sample.bob [5, 5]
  have hclaims : s.Claims Sample.pricer.getPrice [5, 1] := by
    refine ⟨by decide +kernel, by decide, List.forall_mem_cons.mpr ⟨?_, List.forall_mem_singleton.mpr ?_⟩⟩
    · decide +kernel
    · decide +kernel
  obtain ⟨t, ht⟩ := hiff.mpr hclaims
  exact ⟨⟨t, ht, hpaid t ht⟩, hkept fun h => absurd h.2.1 (by decide)⟩

end Usdy
