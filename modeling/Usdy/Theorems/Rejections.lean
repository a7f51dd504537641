import Usdy.Theorems.Inversion

/-! Which checks reject a request or a claim at its entry, because its feature is paused or its amount is out
    of range. Each of these errors is raised by the check that it names and by no other, so where that check
    passes the call does not fail with it, whatever else it does. -/

namespace Usdy
open Checked State

variable {T : Type} {X : Tokens T} {s t : State T} {caller account src dst user : Address} {call : Call}
  {amount price : Uint256} {e e' : Err}

/-- The errors of the checks of a pause flag or of an amount. -/
def Err.atEntry : Err → Bool
  | .featurePaused | .depositTooSmall | .depositTooLarge | .redemptionTooSmall | .redemptionTooLarge => true
  | _ => false

theorem Err.ne_of_atEntry (he : e.atEntry = true) (h : e'.atEntry = false) : e' ≠ e := by
  rintro rfl
  rw [he] at h
  cases h

/-! ### What never rejects at the entry -/

theorem ifNotPaused_avoids {feature : Bool} (h : e = .featurePaused → feature = false) :
    Avoids e (ifNotPaused feature) :=
  .revertIf_of fun heq => Bool.eq_false_iff.mp (h heq.symm)

theorem checkRestrictions_avoids (he : e.atEntry = true) : Avoids e (s.checkRestrictions account) :=
  .bind (.orFail (Err.ne_of_atEntry he rfl)) fun _ _ => .revertIf (Err.ne_of_atEntry he rfl)

theorem basisPoints_avoids (he : e.atEntry = true) {rate : Uint256} : Avoids e (basisPoints amount rate) :=
  .bind (.mulOr (Err.ne_of_atEntry he rfl)) fun _ _ => .divOr (Err.ne_of_atEntry he rfl)

theorem getMintAmountForPrice_avoids (he : e.atEntry = true) : Avoids e (s.getMintAmountForPrice amount price) :=
  .bind (.mulOr (Err.ne_of_atEntry he rfl)) fun _ _ => .bind (.mulOr (Err.ne_of_atEntry he rfl)) fun _ _ =>
    .divOr (Err.ne_of_atEntry he rfl)

theorem getRedemptionAmountForRwa_avoids (he : e.atEntry = true) :
    Avoids e (s.getRedemptionAmountForRwa amount price) :=
  .bind (.mulOr (Err.ne_of_atEntry he rfl)) fun _ _ => .bind (.divOr (Err.ne_of_atEntry he rfl)) fun _ _ =>
    .divOr (Err.ne_of_atEntry he rfl)

theorem rwaMint_avoids (he : e.atEntry = true) : Avoids e (s.rwaMint X dst amount) :=
  .bind (.orFail (Err.ne_of_atEntry he rfl)) fun _ _ => .ok

theorem rwaBurnFrom_avoids (he : e.atEntry = true) : Avoids e (s.rwaBurnFrom X src amount) :=
  .bind (.orFail (Err.ne_of_atEntry he rfl)) fun _ _ => .ok

theorem safeTransferFrom_avoids (he : e.atEntry = true) : Avoids e (s.safeTransferFrom X src dst amount) :=
  .bind (.orFail (Err.ne_of_atEntry he rfl)) fun _ _ => .ok

theorem transfer_if_positive_avoids (he : e.atEntry = true) :
    Avoids e (if amount > 0 then s.safeTransferFrom X src dst amount else pure s) := by
  split
  · exact safeTransferFrom_avoids he
  · exact .ok

theorem nonReentrant_avoids (he : e.atEntry = true) {body : State T → Except Err (State T)}
    (h : Avoids e (body { s with status := 2 })) : Avoids e (nonReentrant body s) :=
  .bind (.revertIf (Err.ne_of_atEntry he rfl)) fun _ _ => .bind h fun _ _ => .ok

theorem udpateEpoch_avoids (he : e.atEntry = true) : Avoids e (USDYManager.udpateEpoch s) := by
  unfold USDYManager.udpateEpoch
  split
  · exact .bind (.subOr (Err.ne_of_atEntry he rfl)) fun _ _ => .bind (.divOr (Err.ne_of_atEntry he rfl)) fun _ _ =>
      .mulOr (Err.ne_of_atEntry he rfl)
  · exact .ok

theorem Side.checkLimits_avoids (he : e.atEntry = true) {side : Side} : Avoids e (side.checkLimits account amount s) := by
  refine .bind ?_ fun u _ => ?_
  · rw [Side.checkAndUpdateTotalLimit_eq]
    split
    · exact .ok
    have herr : side.totalExceeds ≠ e := Err.ne_of_atEntry he (by cases side <;> rfl)
    refine .bind (.bind (udpateEpoch_avoids he) fun _ _ => ?_) fun _ _ => .ok
    dsimp only
    split
    · exact .bind (.addOr (Err.ne_of_atEntry he rfl)) fun _ _ => .bind (.revertIf herr) fun _ _ => .ok
    · exact .bind .ok fun _ _ => .bind (.revertIf herr) fun _ _ => .ok
  · rw [Side.checkAndUpdateLimit_eq]
    split
    · exact .ok
    have herr : side.exceeds ≠ e := Err.ne_of_atEntry he (by cases side <;> rfl)
    exact .bind (.bind (udpateEpoch_avoids he) fun _ _ => .bind (.addOr (Err.ne_of_atEntry he rfl)) fun _ _ =>
      .bind (.revertIf herr) fun _ _ => .ok) fun _ _ => .ok

theorem internalClaimMint_avoids (he : e.atEntry = true) {depositId : Bytes32} :
    Avoids e (USDYManager.internalClaimMint X depositId s) := by
  refine .bind (.revertIf (Err.ne_of_atEntry he rfl)) fun _ _ => .bind (.revertIf (Err.ne_of_atEntry he rfl))
    fun _ _ => .bind ?_ fun _ _ => .ok
  refine .bind (.revertIf (Err.ne_of_atEntry he rfl)) fun _ _ => .bind (.orFail (Err.ne_of_atEntry he rfl))
    fun _ _ => ?_
  exact .bind (getMintAmountForPrice_avoids he) fun _ _ => .bind (rwaMint_avoids he) fun _ _ => .ok

theorem settleRedemption_avoids (he : e.atEntry = true) {fees : Uint256} {redemptionId : Bytes32} :
    Avoids e (RWAHub.settleRedemption X (s, fees) redemptionId) := by
  refine .bind (checkRestrictions_avoids he) fun _ _ => .bind (.revertIf (Err.ne_of_atEntry he rfl)) fun _ _ => ?_
  refine .bind (.orFail (Err.ne_of_atEntry he rfl)) fun _ _ => .bind (getRedemptionAmountForRwa_avoids he) fun _ _ => ?_
  refine .bind (basisPoints_avoids he) fun _ _ => .bind (.subOr (Err.ne_of_atEntry he rfl)) fun _ _ => ?_
  exact .bind (.addOr (Err.ne_of_atEntry he rfl)) fun _ _ => .bind (safeTransferFrom_avoids he) fun _ _ => .ok

/-! ### Requests and claims -/

theorem RWAHub.requestSubscription_avoids (he : e.atEntry = true)
    (hpause : e = .featurePaused → s.subscriptionPaused = false)
    (hmin : e = .depositTooSmall → ¬amount < s.minimumDepositAmount)
    (hmax : e = .depositTooLarge → ¬amount > s.maximumRedemptionAmount) :
    Avoids e (RWAHub.requestSubscription X caller amount s) := by
  unfold RWAHub.requestSubscription
  refine nonReentrant_avoids he (.bind (ifNotPaused_avoids hpause) fun _ _ => ?_)
  refine .bind (checkRestrictions_avoids he) fun _ _ => .bind (.revertIf_of fun heq => hmin heq.symm) fun _ _ => ?_
  refine .bind (.revertIf_of fun heq => hmax heq.symm) fun _ _ => .bind (basisPoints_avoids he) fun _ _ => ?_
  refine .bind (.subOr (Err.ne_of_atEntry he rfl)) fun _ _ => .bind (.addOr (Err.ne_of_atEntry he rfl)) fun _ _ => ?_
  dsimp only
  split
  · exact .bind (safeTransferFrom_avoids he) fun _ _ => .bind (safeTransferFrom_avoids he) fun _ _ => .ok
  · exact .bind .ok fun _ _ => .bind (safeTransferFrom_avoids he) fun _ _ => .ok

theorem redeem_avoids (he : e.atEntry = true) {paused : State T → Bool} {minimum maximum : State T → Uint256}
    {record : State T → Uint256 → State T} {event : State T → Event}
    (hpause : e = .featurePaused → paused { s with status := 2 } = false)
    (hmin : e = .redemptionTooSmall → ¬amount < minimum { s with status := 2 })
    (hmax : e = .redemptionTooLarge → ¬amount > maximum { s with status := 2 }) :
    Avoids e (redeem X caller amount paused minimum maximum record event s) := by
  unfold redeem
  refine nonReentrant_avoids he (.bind (ifNotPaused_avoids hpause) fun _ _ => ?_)
  refine .bind (.revertIf_of fun heq => hmin heq.symm) fun _ _ => .bind (.revertIf_of fun heq => hmax heq.symm)
    fun _ _ => ?_
  exact .bind (.addOr (Err.ne_of_atEntry he rfl)) fun _ _ => .bind (rwaBurnFrom_avoids he) fun _ _ => .ok

theorem RWAHub.requestRedemption_avoids (he : e.atEntry = true)
    (hpause : e = .featurePaused → s.redemptionPaused = false)
    (hmin : e = .redemptionTooSmall → ¬amount < s.minimumRedemptionAmount)
    (hmax : e = .redemptionTooLarge → ¬amount > s.maximumRedemptionAmount) :
    Avoids e (RWAHub.requestRedemption X caller amount s) := by
  rw [RWAHub.requestRedemption_eq]
  exact redeem_avoids he hpause hmin hmax

namespace RWAHubOffChainRedemptions
variable {offChainDestination : Bytes32}

theorem requestRedemptionServicedOffchain_avoids (he : e.atEntry = true)
    (hpause : e = .featurePaused → s.offChainRedemptionPaused = false)
    (hmin : e = .redemptionTooSmall → ¬amount < s.minimumOffChainRedemptionAmount)
    (hmax : e = .redemptionTooLarge → ¬amount > s.maximumOffChainRedemptionAmount) :
    Avoids e (requestRedemptionServicedOffchain X caller amount offChainDestination s) := by
  rw [requestRedemptionServicedOffchain_eq]
  exact redeem_avoids he hpause hmin hmax

theorem requestSubscriptionServicedOffchain_avoids (he : e.atEntry = true)
    (hpause : e = .featurePaused → s.offChainSubscriptionPaused = false)
    (hmin : e = .depositTooSmall → ¬amount < s.minimumOffChainSubscriptionAmount)
    (hmax : e = .depositTooLarge → ¬amount > s.maximumOffChainRedemptionAmount) :
    Avoids e (requestSubscriptionServicedOffchain caller user amount offChainDestination s) := by
  unfold requestSubscriptionServicedOffchain
  refine nonReentrant_avoids he (.bind (.revertIf (Err.ne_of_atEntry he rfl)) fun _ _ => ?_)
  refine .bind (ifNotPaused_avoids hpause) fun _ _ => .bind (checkRestrictions_avoids he) fun _ _ => ?_
  refine .bind (.revertIf (Err.ne_of_atEntry he rfl)) fun _ _ => .bind (.revertIf_of fun heq => hmin heq.symm)
    fun _ _ => ?_
  refine .bind (.revertIf_of fun heq => hmax heq.symm) fun _ _ => .bind (basisPoints_avoids he) fun _ _ => ?_
  exact .bind (.subOr (Err.ne_of_atEntry he rfl)) fun _ _ => .ok

end RWAHubOffChainRedemptions

theorem claimMint_avoids (he : e.atEntry = true) {ids : List Bytes32}
    (hpause : e = .featurePaused → s.subscriptionPaused = false) : Avoids e (USDYManager.claimMint X ids s) := by
  unfold USDYManager.claimMint RWAHub.claimMint
  refine nonReentrant_avoids he (.bind (ifNotPaused_avoids hpause) fun _ _ => ?_)
  exact .foldlM fun _ _ => internalClaimMint_avoids he

theorem claimRedemption_avoids (he : e.atEntry = true) {ids : List Bytes32}
    (hpause : e = .featurePaused → s.redemptionPaused = false) : Avoids e (RWAHub.claimRedemption X ids s) := by
  unfold RWAHub.claimRedemption
  refine nonReentrant_avoids he (.bind (ifNotPaused_avoids hpause) fun _ _ => ?_)
  exact .bind (.foldlM fun _ _ => settleRedemption_avoids he) fun _ _ => transfer_if_positive_avoids he

/-- The epoch limits of a request come first, and leave the configuration as it is. -/
theorem exec_request_avoids (he : e.atEntry = true) {r : Request} (hr : call.request caller = some r)
    (h : ∀ trackers, Avoids e (call.serve X caller { s with toTrackers := trackers })) : Avoids e (exec X caller call s) := by
  rw [exec_request hr]
  refine (Side.checkLimits_avoids he).bind fun u hu => ?_
  obtain ⟨trackers, rfl⟩ := Side.checkLimits_inv hu
  exact h trackers

end Usdy
