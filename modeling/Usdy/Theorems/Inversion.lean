import Usdy.Books
import Usdy.Side

/-! What a function that succeeds found in the state and how it left it: one lemma for each function, or
    for each pass of its loop. Later proofs use these and never unfold a function. -/

namespace Usdy
open Checked Function State

variable {T : Type} {X : Tokens T} {s t : State T}

/-! ### Modifiers, views and calls to the tokens -/

theorem nonReentrant_eq_ok {body : State T → Except Err (State T)} :
    nonReentrant body s = .ok t ↔
      s.status ≠ 2 ∧ ∃ u, body { s with status := 2 } = .ok u ∧ { u with status := 1 } = t := by
  simp only [nonReentrant, bind_eq_ok, revertIf_eq_ok, exists_unit_iff, pure_eq_ok, ne_eq]

theorem ifNotPaused_eq_ok {feature : Bool} {u : Unit} : ifNotPaused feature = .ok u ↔ feature = false := by
  simp [ifNotPaused, revertIf_eq_ok]

theorem onlyRole_eq_ok {caller : Address} {role : Role} {u : Unit} :
    s.onlyRole caller role = .ok u ↔ s.hasRole role caller = true := by
  simp [onlyRole, revertIf_eq_ok]

theorem getPrice_eq_ok {priceId price : Uint256} :
    s.getPrice priceId = .ok price ↔ s.views.getPrice s.pricer priceId = some price := orFail_eq_ok

theorem Tokens.step_eq_ok {call : TokenCall} :
    X.step s call = .ok t ↔ ∃ tokens, X.exec s.views s.tokens call = some tokens ∧
      { s with tokens, calls := s.calls ++ [call] } = t := by
  simp only [Tokens.step, bind_eq_ok, orFail_eq_ok, pure_eq_ok]

theorem rwaMint_eq_ok {dst : Address} {amount : Uint256} :
    s.rwaMint X dst amount = .ok t ↔
      ∃ tokens, X.exec s.views s.tokens (.mint dst amount) = some tokens ∧
        { s with tokens, calls := s.calls ++ [.mint dst amount] } = t :=
  Tokens.step_eq_ok

theorem rwaBurnFrom_eq_ok {src : Address} {amount : Uint256} :
    s.rwaBurnFrom X src amount = .ok t ↔
      ∃ tokens, X.exec s.views s.tokens (.burnFrom src amount) = some tokens ∧
        { s with tokens, calls := s.calls ++ [.burnFrom src amount] } = t :=
  Tokens.step_eq_ok

theorem safeTransferFrom_eq_ok {src dst : Address} {amount : Uint256} :
    s.safeTransferFrom X src dst amount = .ok t ↔
      ∃ tokens, X.exec s.views s.tokens (.transferFrom src dst amount) = some tokens ∧
        { s with tokens, calls := s.calls ++ [.transferFrom src dst amount] } = t :=
  Tokens.step_eq_ok

theorem transfer_if_positive_eq_ok {src dst : Address} {amount : Uint256} :
    (if amount > 0 then s.safeTransferFrom X src dst amount else pure s) = .ok t ↔
      ∃ tokens, X.Moves s.views s.tokens (if amount > 0 then [.transferFrom src dst amount] else []) tokens ∧
        { s with tokens, calls := s.calls ++ if amount > 0 then [.transferFrom src dst amount] else [] } = t := by
  split
  · rw [safeTransferFrom_eq_ok]
    exact ⟨fun ⟨k, hk, ht⟩ => ⟨k, .single hk, ht⟩, fun ⟨k, hk, ht⟩ => ⟨k, hk.single_inv, ht⟩⟩
  · rw [pure_eq_ok]
    refine ⟨fun h => ⟨s.tokens, .nil _, by simpa using h⟩, fun ⟨k, hk, ht⟩ => ?_⟩
    obtain rfl := hk.eq_of_nil
    simpa using ht

/-! ### Math utils -/

theorem basisPoints_eq_ok {amount rate fee : Uint256} :
    basisPoints amount rate = .ok fee ↔
      amount.toNat * rate.toNat < 2 ^ 256 ∧ fee.toNat = amount.toNat * rate.toNat / 10000 := by
  simp only [basisPoints, bind_eq_ok, mulOr_eq_ok, divOr_eq_ok, bpsDenominator_toNat]
  constructor
  · rintro ⟨product, hproduct, -, hfee⟩
    exact ⟨hproduct ▸ product.isLt, hproduct ▸ hfee⟩
  · rintro ⟨hfits, hfee⟩
    obtain ⟨product, hproduct⟩ := exists_word hfits
    exact ⟨product, hproduct, by decide, hproduct ▸ hfee⟩

theorem basisPoints_inv {amount rate fee : Uint256} (h : basisPoints amount rate = .ok fee) :
    fee.toNat = amount.toNat * rate.toNat / 10000 := (basisPoints_eq_ok.mp h).2

/-- The amount that is scaled up fits when its product with `1e18` does. -/
theorem getMintAmountForPrice_eq_ok {depositAmt price rwaOwed : Uint256} :
    s.getMintAmountForPrice depositAmt price = .ok rwaOwed ↔
      depositAmt.toNat * s.decimalsMultiplier.toNat * 10 ^ 18 < 2 ^ 256 ∧ price ≠ 0 ∧
        rwaOwed.toNat = depositAmt.toNat * s.decimalsMultiplier.toNat * 10 ^ 18 / price.toNat := by
  simp only [getMintAmountForPrice, scaleUp, bind_eq_ok, mulOr_eq_ok, divOr_eq_ok, e18_toNat]
  constructor
  · rintro ⟨scaled, hscaled, amountE36, hamount, hprice, howed⟩
    rw [← hscaled, ← hamount]
    exact ⟨amountE36.isLt, hprice, howed⟩
  · rintro ⟨hfits, hprice, howed⟩
    obtain ⟨scaled, hscaled⟩ := exists_word (w := 256) (Nat.lt_of_le_of_lt (Nat.le_mul_of_pos_right _ (by decide)) hfits)
    obtain ⟨amountE36, hamount⟩ := exists_word hfits
    exact ⟨scaled, hscaled, amountE36, hscaled ▸ hamount, hprice, hamount ▸ howed⟩

theorem exists_getMintAmountForPrice {depositAmt price : Uint256} :
    (∃ rwaOwed, s.getMintAmountForPrice depositAmt price = .ok rwaOwed) ↔
      depositAmt.toNat * s.decimalsMultiplier.toNat * 10 ^ 18 < 2 ^ 256 ∧ price ≠ 0 := by
  simp only [getMintAmountForPrice_eq_ok, exists_and_left]
  refine and_congr_right fun hfits => and_iff_left_of_imp fun _ => ?_
  exact exists_word (Nat.lt_of_le_of_lt (Nat.div_le_self _ _) hfits)

theorem getMintAmountForPrice_inv {depositAmt price rwaOwed : Uint256}
    (h : s.getMintAmountForPrice depositAmt price = .ok rwaOwed) :
    price ≠ 0 ∧ rwaOwed.toNat = depositAmt.toNat * s.decimalsMultiplier.toNat * 10 ^ 18 / price.toNat :=
  (getMintAmountForPrice_eq_ok.mp h).2

theorem getRedemptionAmountForRwa_eq_ok {burned price due : Uint256} :
    s.getRedemptionAmountForRwa burned price = .ok due ↔
      burned.toNat * price.toNat < 2 ^ 256 ∧ s.decimalsMultiplier ≠ 0 ∧
        due.toNat = burned.toNat * price.toNat / 10 ^ 18 / s.decimalsMultiplier.toNat := by
  simp only [getRedemptionAmountForRwa, scaleDown, bind_eq_ok, mulOr_eq_ok, divOr_eq_ok, e18_toNat]
  constructor
  · rintro ⟨amountE36, hamount, amount, ⟨-, hdown⟩, hm, hdue⟩
    rw [← hamount, ← hdown]
    exact ⟨amountE36.isLt, hm, hdue⟩
  · rintro ⟨hfits, hm, hdue⟩
    obtain ⟨amountE36, hamount⟩ := exists_word hfits
    obtain ⟨amount, hdown⟩ := exists_word (w := 256) (Nat.lt_of_le_of_lt (Nat.div_le_self _ (10 ^ 18)) hfits)
    exact ⟨amountE36, hamount, amount, ⟨by decide, hamount ▸ hdown⟩, hm, hdown ▸ hdue⟩

theorem exists_getRedemptionAmountForRwa {burned price : Uint256} :
    (∃ due, s.getRedemptionAmountForRwa burned price = .ok due) ↔
      burned.toNat * price.toNat < 2 ^ 256 ∧ s.decimalsMultiplier ≠ 0 := by
  simp only [getRedemptionAmountForRwa_eq_ok, exists_and_left]
  refine and_congr_right fun hfits => and_iff_left_of_imp fun _ => ?_
  exact exists_word (Nat.lt_of_le_of_lt ((Nat.div_le_self _ _).trans (Nat.div_le_self _ _)) hfits)

theorem getRedemptionAmountForRwa_inv {burned price due : Uint256}
    (h : s.getRedemptionAmountForRwa burned price = .ok due) :
    due.toNat = burned.toNat * price.toNat / 10 ^ 18 / s.decimalsMultiplier.toNat :=
  (getRedemptionAmountForRwa_eq_ok.mp h).2.2

/-! ### Requests -/

/-- What the two requests for a redemption share. They ask for a pause, a minimum and a maximum of their own, only
    one of them records the redemption, and each has its event. -/
def redeem (token : TokenStep T) (caller : Address) (amount : Uint256) (paused : State T → Bool)
    (minimum maximum : State T → Uint256) (record : State T → Uint256 → State T) (event : State T → Event) :
    State T → Except Err (State T) :=
  nonReentrant fun s => do
    ifNotPaused (paused s)
    revertIf (amount < minimum s) .redemptionTooSmall
    revertIf (amount > maximum s) .redemptionTooLarge
    let counter ← addOr .arithmetic s.redemptionRequestCounter 1
    let u ← (record s counter).rwaBurnFrom token caller amount
    return u.emit (event s)

theorem redeem_inv {caller : Address} {amount : Uint256} {paused : State T → Bool} {minimum maximum : State T → Uint256}
    {record : State T → Uint256 → State T} {event : State T → Event}
    (h : redeem X caller amount paused minimum maximum record event s = .ok t) :
    ∃ (counter : Uint256) (tokens : T),
      let u := record { s with status := 2 } counter
      s.status ≠ 2 ∧ paused { s with status := 2 } = false ∧ ¬amount < minimum { s with status := 2 } ∧
      ¬amount > maximum { s with status := 2 } ∧ counter.toNat = s.redemptionRequestCounter.toNat + 1 ∧
      X.exec u.views u.tokens (.burnFrom caller amount) = some tokens ∧
      t = { u with
        status := 1
        tokens
        calls := u.calls ++ [.burnFrom caller amount]
        events := u.events ++ [⟨u.now, event { s with status := 2 }⟩] } := by
  simp only [redeem, nonReentrant_eq_ok] at h
  obtain ⟨hstatus, u, h, rfl⟩ := h
  simp only [bind_eq_ok, exists_unit_iff, revertIf_eq_ok, ifNotPaused_eq_ok, addOr_eq_ok] at h
  obtain ⟨hpaused, hmin, hmax, counter, hnext, v, hv, hu⟩ := h
  obtain ⟨tokens, hburn, rfl⟩ := rwaBurnFrom_eq_ok.mp hv
  obtain rfl := pure_eq_ok.mp hu
  exact ⟨counter, tokens, hstatus, hpaused, hmin, hmax, hnext, hburn, rfl⟩

namespace RWAHub

theorem requestRedemption_eq {token : TokenStep T} {caller : Address} {amount : Uint256} :
    requestRedemption token caller amount = redeem token caller amount (fun s => s.redemptionPaused)
      (fun s => s.minimumRedemptionAmount) (fun s => s.maximumRedemptionAmount)
      (fun s counter => { s with
        redemptionRequestCounter := counter
        redemptionIdToRedeemer := update s.redemptionIdToRedeemer s.redemptionRequestCounter ⟨caller, amount, 0⟩ })
      (fun s => .redemptionRequested caller s.redemptionRequestCounter amount) := rfl

theorem requestSubscription_inv {caller : Address} {amount : Uint256}
    (h : requestSubscription X caller amount s = .ok t) :
    ∃ (fee after counter : Uint256) (tokens : T) (moved : List TokenCall),
      s.status ≠ 2 ∧ s.subscriptionPaused = false ∧ s.checkRestrictions caller = .ok () ∧
      ¬amount < s.minimumDepositAmount ∧ ¬amount > s.maximumRedemptionAmount ∧
      fee.toNat = amount.toNat * s.mintFee.toNat / 10000 ∧ after.toNat + fee.toNat = amount.toNat ∧
      counter.toNat = s.subscriptionRequestCounter.toNat + 1 ∧
      moved = (if fee > 0 then [.transferFrom caller s.feeRecipient fee] else []) ++
        [.transferFrom caller s.assetRecipient after] ∧
      X.Moves s.views s.tokens moved tokens ∧
      t = { s with
        status := 1
        subscriptionRequestCounter := counter
        depositIdToDepositor := update s.depositIdToDepositor s.subscriptionRequestCounter ⟨caller, after, 0⟩
        tokens
        calls := s.calls ++ moved
        events := s.events ++ [⟨s.now, .mintRequested caller s.subscriptionRequestCounter amount after fee⟩] } := by
  simp only [requestSubscription, nonReentrant_eq_ok] at h
  obtain ⟨hstatus, u, h, rfl⟩ := h
  simp only [bind_eq_ok, exists_unit_iff, revertIf_eq_ok, ifNotPaused_eq_ok, subOr_eq_ok, addOr_eq_ok] at h
  obtain ⟨hpaused, hcheck, hmin, hmax, fee, hfee, after, hsplit, counter, hnext, v, hv, w, hw, hu⟩ := h
  obtain ⟨tokens, hmoved, rfl⟩ := transfer_if_positive_eq_ok.mp hv
  obtain ⟨tokens', hmove, rfl⟩ := safeTransferFrom_eq_ok.mp hw
  obtain rfl := pure_eq_ok.mp hu
  exact ⟨fee, after, counter, tokens', _, hstatus, hpaused, hcheck, hmin, hmax, basisPoints_inv hfee, hsplit, hnext,
    rfl, hmoved.snoc hmove, by simp [emit, List.append_assoc]⟩

theorem requestRedemption_inv {caller : Address} {amount : Uint256}
    (h : requestRedemption X caller amount s = .ok t) :
    ∃ (counter : Uint256) (tokens : T),
      s.status ≠ 2 ∧ s.redemptionPaused = false ∧ ¬amount < s.minimumRedemptionAmount ∧
      ¬amount > s.maximumRedemptionAmount ∧ counter.toNat = s.redemptionRequestCounter.toNat + 1 ∧
      X.exec s.views s.tokens (.burnFrom caller amount) = some tokens ∧
      t = { s with
        status := 1
        redemptionRequestCounter := counter
        redemptionIdToRedeemer := update s.redemptionIdToRedeemer s.redemptionRequestCounter ⟨caller, amount, 0⟩
        tokens
        calls := s.calls ++ [.burnFrom caller amount]
        events := s.events ++ [⟨s.now, .redemptionRequested caller s.redemptionRequestCounter amount⟩] } := by
  rw [requestRedemption_eq] at h
  exact redeem_inv h

end RWAHub

namespace RWAHubOffChainRedemptions

theorem requestRedemptionServicedOffchain_eq {token : TokenStep T} {caller : Address} {amount : Uint256}
    {offChainDestination : Bytes32} :
    requestRedemptionServicedOffchain token caller amount offChainDestination =
      redeem token caller amount (fun s => s.offChainRedemptionPaused) (fun s => s.minimumOffChainRedemptionAmount)
        (fun s => s.maximumOffChainRedemptionAmount) (fun s counter => { s with redemptionRequestCounter := counter })
        (fun s => .redemptionRequestedServicedOffChain caller s.redemptionRequestCounter amount offChainDestination) :=
  rfl

theorem requestRedemptionServicedOffchain_inv {caller : Address} {amount : Uint256} {offChainDestination : Bytes32}
    (h : requestRedemptionServicedOffchain X caller amount offChainDestination s = .ok t) :
    ∃ (counter : Uint256) (tokens : T),
      s.status ≠ 2 ∧ s.offChainRedemptionPaused = false ∧ ¬amount < s.minimumOffChainRedemptionAmount ∧
      ¬amount > s.maximumOffChainRedemptionAmount ∧ counter.toNat = s.redemptionRequestCounter.toNat + 1 ∧
      X.exec s.views s.tokens (.burnFrom caller amount) = some tokens ∧
      t = { s with
        status := 1
        redemptionRequestCounter := counter
        tokens
        calls := s.calls ++ [.burnFrom caller amount]
        events := s.events ++ [⟨s.now, .redemptionRequestedServicedOffChain caller s.redemptionRequestCounter amount
          offChainDestination⟩] } := by
  rw [requestRedemptionServicedOffchain_eq] at h
  exact redeem_inv h

theorem requestSubscriptionServicedOffchain_inv {caller user : Address} {amount : Uint256}
    {offChainDestination : Bytes32}
    (h : requestSubscriptionServicedOffchain caller user amount offChainDestination s = .ok t) :
    ∃ fee after : Uint256,
      s.status ≠ 2 ∧ s.hasRole .relayer caller = true ∧ s.offChainSubscriptionPaused = false ∧
      s.checkRestrictions user = .ok () ∧ (s.depositIdToDepositor offChainDestination).user = 0 ∧
      ¬amount < s.minimumOffChainSubscriptionAmount ∧ ¬amount > s.maximumOffChainRedemptionAmount ∧
      fee.toNat = amount.toNat * s.mintFee.toNat / 10000 ∧ after.toNat + fee.toNat = amount.toNat ∧
      t = { s with
        status := 1
        depositIdToDepositor := update s.depositIdToDepositor offChainDestination ⟨user, after, 0⟩
        events := s.events ++
          [⟨s.now, .subscriptionRequestedServicedOffChain user amount after fee offChainDestination⟩] } := by
  simp only [requestSubscriptionServicedOffchain, nonReentrant_eq_ok] at h
  obtain ⟨hstatus, u, h, rfl⟩ := h
  simp only [bind_eq_ok, exists_unit_iff, revertIf_eq_ok, ifNotPaused_eq_ok, onlyRole_eq_ok, subOr_eq_ok, not_not,
    ne_eq] at h
  obtain ⟨hrole, hpaused, hcheck, hfree, hmin, hmax, fee, hfee, after, hsplit, hu⟩ := h
  obtain rfl := pure_eq_ok.mp hu
  exact ⟨fee, after, hstatus, hrole, hpaused, hcheck, hfree, hmin, hmax, basisPoints_inv hfee, hsplit, rfl⟩

end RWAHubOffChainRedemptions

/-! ### Claims -/

namespace RWAHub

theorem claimMint_eq_ok {f : Bytes32 → State T → Except Err (State T)} {depositIds : List Bytes32} :
    claimMint f depositIds s = .ok t ↔
      ∃ u, s.status ≠ 2 ∧ s.subscriptionPaused = false ∧
        depositIds.foldlM (fun s depositId => f depositId s) { s with status := 2 } = .ok u ∧
        t = { u with status := 1 } := by
  simp only [claimMint, nonReentrant_eq_ok, bind_eq_ok, exists_unit_iff, ifNotPaused_eq_ok]
  constructor
  · rintro ⟨hstatus, u, ⟨hpaused, hu⟩, rfl⟩
    exact ⟨u, hstatus, hpaused, hu, rfl⟩
  · rintro ⟨u, hstatus, hpaused, hu, rfl⟩
    exact ⟨hstatus, u, ⟨hpaused, hu⟩, rfl⟩

theorem claimRedemption_eq_ok {redemptionIds : List Bytes32} :
    claimRedemption X redemptionIds s = .ok t ↔
      ∃ (u : State T) (fees : Uint256) (tokens : T) (moved : List TokenCall),
        s.status ≠ 2 ∧ s.redemptionPaused = false ∧
        redemptionIds.foldlM (settleRedemption X) ({ s with status := 2 }, 0) = .ok (u, fees) ∧
        moved = (if fees > 0 then [.transferFrom u.assetSender u.feeRecipient fees] else []) ∧
        X.Moves u.views u.tokens moved tokens ∧
        t = { u with status := 1, tokens, calls := u.calls ++ moved } := by
  simp only [claimRedemption, nonReentrant_eq_ok, bind_eq_ok, exists_unit_iff, ifNotPaused_eq_ok]
  constructor
  · rintro ⟨hstatus, v, ⟨hpaused, ⟨u, fees⟩, hu, hv⟩, rfl⟩
    obtain ⟨tokens, hmoved, rfl⟩ := transfer_if_positive_eq_ok.mp hv
    exact ⟨u, fees, tokens, _, hstatus, hpaused, hu, rfl, hmoved, rfl⟩
  · rintro ⟨u, fees, tokens, moved, hstatus, hpaused, hu, rfl, hmoved, rfl⟩
    exact ⟨hstatus, _, ⟨hpaused, (u, fees), hu, transfer_if_positive_eq_ok.mpr ⟨tokens, hmoved, rfl⟩⟩, rfl⟩

/-! ### Price ids, timestamps and overwrites -/

theorem setPriceIdForDeposit_eq_ok {depositId : Bytes32} {priceId : Uint256} :
    setPriceIdForDeposit s (depositId, priceId) = .ok t ↔
      (s.depositIdToDepositor depositId).user ≠ 0 ∧ (s.depositIdToDepositor depositId).priceId = 0 ∧
      { s with
        depositIdToDepositor :=
          update s.depositIdToDepositor depositId { s.depositIdToDepositor depositId with priceId }
        events := s.events ++ [⟨s.now, .priceIdSetForDeposit depositId priceId⟩] } = t := by
  simp only [setPriceIdForDeposit, bind_eq_ok, exists_unit_iff, revertIf_eq_ok, pure_eq_ok, ne_eq, not_not, emit]

theorem setPriceIdForRedemption_eq_ok {redemptionId : Bytes32} {priceId : Uint256} :
    setPriceIdForRedemption s (redemptionId, priceId) = .ok t ↔
      (s.redemptionIdToRedeemer redemptionId).priceId = 0 ∧
      { s with
        redemptionIdToRedeemer :=
          update s.redemptionIdToRedeemer redemptionId { s.redemptionIdToRedeemer redemptionId with priceId }
        events := s.events ++ [⟨s.now, .priceIdSetForRedemption redemptionId priceId⟩] } = t := by
  simp only [setPriceIdForRedemption, bind_eq_ok, exists_unit_iff, revertIf_eq_ok, pure_eq_ok, ne_eq, not_not, emit]

theorem setPriceIdForDeposits_inv {caller : Address} {depositIds : List Bytes32} {priceIds : List Uint256}
    (h : setPriceIdForDeposits caller depositIds priceIds s = .ok t) :
    s.hasRole .priceIdSetter caller = true ∧ depositIds.length = priceIds.length ∧
    (depositIds.zip priceIds).foldlM setPriceIdForDeposit s = .ok t := by
  simpa only [setPriceIdForDeposits, bind_eq_ok, exists_unit_iff, onlyRole_eq_ok, revertIf_eq_ok, ne_eq,
    not_not] using h

theorem setPriceIdForRedemptions_inv {caller : Address} {redemptionIds : List Bytes32} {priceIds : List Uint256}
    (h : setPriceIdForRedemptions caller redemptionIds priceIds s = .ok t) :
    s.hasRole .priceIdSetter caller = true ∧ redemptionIds.length = priceIds.length ∧
    (redemptionIds.zip priceIds).foldlM setPriceIdForRedemption s = .ok t := by
  simpa only [setPriceIdForRedemptions, bind_eq_ok, exists_unit_iff, onlyRole_eq_ok, revertIf_eq_ok, ne_eq,
    not_not] using h

theorem overwriteDepositor_inv {caller user : Address} {depositId : Bytes32} {amount priceId : Uint256}
    (h : overwriteDepositor caller depositId user amount priceId s = .ok t) :
    s.hasRole .managerAdmin caller = true ∧ s.checkRestrictions user = .ok () ∧
    t = { s with
      depositIdToDepositor := update s.depositIdToDepositor depositId ⟨user, amount, priceId⟩
      events := s.events ++ [⟨s.now, .depositorOverwritten depositId (s.depositIdToDepositor depositId).user user
        (s.depositIdToDepositor depositId).priceId priceId
        (s.depositIdToDepositor depositId).amountDepositedMinusFees amount⟩] } := by
  simp only [overwriteDepositor, bind_eq_ok, exists_unit_iff, onlyRole_eq_ok, pure_eq_ok] at h
  obtain ⟨hrole, hcheck, rfl⟩ := h
  exact ⟨hrole, hcheck, rfl⟩

theorem overwriteRedeemer_inv {caller user : Address} {redemptionId : Bytes32} {amount priceId : Uint256}
    (h : overwriteRedeemer caller redemptionId user amount priceId s = .ok t) :
    s.hasRole .managerAdmin caller = true ∧ s.checkRestrictions user = .ok () ∧
    t = { s with
      redemptionIdToRedeemer := update s.redemptionIdToRedeemer redemptionId ⟨user, amount, priceId⟩
      events := s.events ++ [⟨s.now, .redeemerOverwritten redemptionId (s.redemptionIdToRedeemer redemptionId).user
        user (s.redemptionIdToRedeemer redemptionId).priceId priceId
        (s.redemptionIdToRedeemer redemptionId).amountRwaTokenBurned amount⟩] } := by
  simp only [overwriteRedeemer, bind_eq_ok, exists_unit_iff, onlyRole_eq_ok, pure_eq_ok] at h
  obtain ⟨hrole, hcheck, rfl⟩ := h
  exact ⟨hrole, hcheck, rfl⟩

end RWAHub

theorem USDYManager.setClaimableTimestamp_inv {caller : Address} {claimTimestamp : Uint256} {depositIds : List Bytes32}
    (h : setClaimableTimestamp caller claimTimestamp depositIds s = .ok t) :
    s.hasRole .timestampSetter caller = true ∧ s.now ≤ claimTimestamp ∧
    t = depositIds.foldl (setClaimableTimestampOf claimTimestamp) s := by
  simp only [setClaimableTimestamp, bind_eq_ok, exists_unit_iff, onlyRole_eq_ok, revertIf_eq_ok, pure_eq_ok] at h
  obtain ⟨hrole, hlater, rfl⟩ := h
  exact ⟨hrole, by bv_omega, rfl⟩

/-! ### Admin functions and roles -/

theorem configure_eq_ok {caller : Address} {role : Role} {check : Except Err Unit} {config : Config} {event : Event} :
    configure s caller role check config event = .ok t ↔
      s.hasRole role caller = true ∧ check = .ok () ∧
      { s with toConfig := config, events := s.events ++ [⟨s.now, event⟩] } = t := by
  simp only [configure, bind_eq_ok, exists_unit_iff, onlyRole_eq_ok, pure_eq_ok, emit]

/-- Every admin call is an instance of `configure`. -/
theorem AdminCall.exec_inv {caller : Address} {call : AdminCall} (h : call.exec caller s = .ok t) :
    ∃ config event, t = { s with toConfig := config, events := s.events ++ [⟨s.now, event⟩] } ∧
      config.decimalsMultiplier = s.decimalsMultiplier ∧ event.posted = false := by
  cases call <;> obtain ⟨-, -, rfl⟩ := configure_eq_ok.mp h <;> exact ⟨_, _, rfl, rfl, rfl⟩

theorem grantRole_inv {caller account : Address} {role : Role} (h : grantRole caller role account s = .ok t) :
    s.hasRole (s.roleAdmin role) caller = true ∧ t = s.internalGrantRole role account caller := by
  simp only [grantRole, bind_eq_ok, exists_unit_iff, onlyRole_eq_ok, pure_eq_ok] at h
  exact ⟨h.1, h.2.symm⟩

theorem revokeRole_inv {caller account : Address} {role : Role} (h : revokeRole caller role account s = .ok t) :
    s.hasRole (s.roleAdmin role) caller = true ∧ t = s.internalRevokeRole role account caller := by
  simp only [revokeRole, bind_eq_ok, exists_unit_iff, onlyRole_eq_ok, pure_eq_ok] at h
  exact ⟨h.1, h.2.symm⟩

theorem renounceRole_inv {caller account : Address} {role : Role} (h : renounceRole caller role account s = .ok t) :
    account = caller ∧ t = s.internalRevokeRole role account caller := by
  simp only [renounceRole, bind_eq_ok, exists_unit_iff, revertIf_eq_ok, pure_eq_ok, ne_eq, not_not] at h
  exact ⟨h.1, h.2.symm⟩

/-- Granting and revoking write the roles and emit at most one event. -/
theorem internalGrantRole_inv (s : State T) (role : Role) (account sender : Address) :
    ∃ roles new, s.internalGrantRole role account sender =
        { s with toAccessControl := roles, events := s.events ++ new } ∧
      ∀ e ∈ new, e = ⟨s.now, .roleGranted role account sender⟩ := by
  unfold internalGrantRole
  split
  · exact ⟨s.toAccessControl, [], by simp, by simp⟩
  · exact ⟨_, _, rfl, fun e he => List.mem_singleton.mp he⟩

theorem internalRevokeRole_inv (s : State T) (role : Role) (account sender : Address) :
    ∃ roles new, s.internalRevokeRole role account sender =
        { s with toAccessControl := roles, events := s.events ++ new } ∧
      ∀ e ∈ new, e = ⟨s.now, .roleRevoked role account sender⟩ := by
  unfold internalRevokeRole
  split
  · exact ⟨_, _, rfl, fun e he => List.mem_singleton.mp he⟩
  · exact ⟨s.toAccessControl, [], by simp, by simp⟩

/-! ### Requests and their limits -/

namespace Side
variable {account : Address} {amount : Uint256} {side : Side}

theorem checkAndUpdateLimit_eq : side.checkAndUpdateLimit account amount s =
    if s.epochInterval = 0 ∨ side.maximum s.toConfig = 0 then .ok s else do
      let o ← USDYManager.checkAndUpdateLimit s (side.maximum s.toConfig) side.exceeds
        (side.operator s.toTrackers account) amount
      return { s with toTrackers := side.setOperator s.toTrackers account o } := by
  cases side <;> rfl

theorem checkAndUpdateTotalLimit_eq : side.checkAndUpdateTotalLimit amount s =
    if s.epochInterval = 0 ∨ side.totalMaximum s.toConfig = 0 then .ok s else do
      let o ← USDYManager.checkAndUpdateTotalLimit s (side.totalMaximum s.toConfig) side.totalExceeds
        (side.totalOperator s.toTrackers) amount
      return { s with toTrackers := side.setTotalOperator s.toTrackers o } := by
  cases side <;> rfl

theorem checkAndUpdateLimit_inv (h : side.checkAndUpdateLimit account amount s = .ok t) :
    ∃ trackers, t = { s with toTrackers := trackers } := by
  rw [checkAndUpdateLimit_eq] at h
  split at h
  · exact ⟨s.toTrackers, (pure_eq_ok.mp h).symm⟩
  · obtain ⟨o, -, h⟩ := bind_eq_ok.mp h
    exact ⟨_, (pure_eq_ok.mp h).symm⟩

theorem checkAndUpdateTotalLimit_inv (h : side.checkAndUpdateTotalLimit amount s = .ok t) :
    ∃ trackers, t = { s with toTrackers := trackers } := by
  rw [checkAndUpdateTotalLimit_eq] at h
  split at h
  · exact ⟨s.toTrackers, (pure_eq_ok.mp h).symm⟩
  · obtain ⟨o, -, h⟩ := bind_eq_ok.mp h
    exact ⟨_, (pure_eq_ok.mp h).symm⟩

theorem checkLimits_inv (h : side.checkLimits account amount s = .ok t) :
    ∃ trackers, t = { s with toTrackers := trackers } := by
  obtain ⟨u, hu, h⟩ := bind_eq_ok.mp h
  obtain ⟨_, rfl⟩ := checkAndUpdateTotalLimit_inv hu
  obtain ⟨trackers, rfl⟩ := checkAndUpdateLimit_inv h
  exact ⟨trackers, rfl⟩

end Side

/-- A request passes the limits of its side, which write trackers only, and is then served. -/
theorem execBy_request {token : TokenStep T} {caller : Address} {call : Call} {r : Request}
    (hr : call.request caller = some r) :
    execBy token caller call s = (r.side.checkLimits r.account r.amount s >>= call.serve token caller) := by
  cases call <;> simp only [Call.request, Option.some.injEq, reduceCtorEq] at hr <;> subst hr <;>
    simp only [Side.checkLimits, bind_assoc] <;> rfl

theorem exec_request {caller : Address} {call : Call} {r : Request} (hr : call.request caller = some r) :
    exec X caller call s = (r.side.checkLimits r.account r.amount s >>= call.serve X caller) := execBy_request hr

theorem exec_request_inv {caller : Address} {call : Call} {r : Request} (hr : call.request caller = some r)
    (h : exec X caller call s = .ok t) :
    ∃ trackers, r.side.checkLimits r.account r.amount s = .ok { s with toTrackers := trackers } ∧
      call.serve X caller { s with toTrackers := trackers } = .ok t := by
  rw [exec_request hr] at h
  obtain ⟨u, hu, h⟩ := bind_eq_ok.mp h
  obtain ⟨trackers, rfl⟩ := Side.checkLimits_inv hu
  exact ⟨trackers, hu, h⟩

end Usdy
