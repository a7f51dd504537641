import Usdy.Theorems.Rejections

/-! The limits of a single request. Each of the four paths has a minimum and a maximum of its own; the two
    subscription paths check the maximum of the redemptions instead, and respect their limits for the
    amounts on which the two maxima agree. -/

namespace Usdy
open Checked

variable {T : Type} {X : Tokens T} {s t : State T} {caller : Address} {sender : Sender} {call : Call} {e : Err}

/-- The amount of a request, the limits of its path, and the maximum that the source compares it with. -/
structure AmountCheck where
  amount : Uint256
  minimum : Uint256
  maximum : Uint256
  compared : Uint256

/-- The check that a request makes. A subscription compares with the maximum of the redemptions of its kind. -/
def Call.amountCheck (c : Config) : Call → Option AmountCheck
  | .requestSubscription amount =>
    some ⟨amount, c.minimumDepositAmount, c.maximumDepositAmount, c.maximumRedemptionAmount⟩
  | .requestSubscriptionServicedOffchain _ amount _ =>
    some ⟨amount, c.minimumOffChainSubscriptionAmount, c.maximumOffChainSubscriptionAmount,
      c.maximumOffChainRedemptionAmount⟩
  | .requestRedemption amount =>
    some ⟨amount, c.minimumRedemptionAmount, c.maximumRedemptionAmount, c.maximumRedemptionAmount⟩
  | .requestRedemptionServicedOffchain amountRWATokenToRedeem _ =>
    some ⟨amountRWATokenToRedeem, c.minimumOffChainRedemptionAmount, c.maximumOffChainRedemptionAmount,
      c.maximumOffChainRedemptionAmount⟩
  | _ => none

/-- The amount is rejected as too small or too large. -/
def Err.outOfRange : Err → Bool
  | .depositTooSmall | .depositTooLarge | .redemptionTooSmall | .redemptionTooLarge => true
  | _ => false

theorem Err.outOfRange_atEntry (he : e.outOfRange = true) : e.atEntry = true := by
  cases e with
  | depositTooSmall | depositTooLarge | redemptionTooSmall | redemptionTooLarge => rfl
  | _ => cases he

/-- A request is accepted within the limits of its path only, and within them never rejected for its amount. -/
def RespectsLimits (X : Tokens T) (s : State T) (sender : Sender) (call : Call) : Prop :=
  ∀ l, call.amountCheck s.toConfig = some l →
    (∀ t, exec X sender.address call s = .ok t → l.minimum ≤ l.amount ∧ l.amount ≤ l.maximum) ∧
      (l.minimum ≤ l.amount → l.amount ≤ l.maximum → ∀ e, e.outOfRange = true → exec X sender.address call s ≠ .error e)

/-- The amount is below the minimum of its path, or on the same side of its maximum as of the one compared. -/
def OwnMaximum (c : Config) (call : Call) : Prop :=
  ∀ l, call.amountCheck c = some l → l.minimum ≤ l.amount → (l.amount ≤ l.maximum ↔ l.amount ≤ l.compared)

/-! ### What the checks decide -/

theorem exec_accepts {l : AmountCheck} (hl : call.amountCheck s.toConfig = some l)
    (h : exec X caller call s = .ok t) : l.minimum ≤ l.amount ∧ l.amount ≤ l.compared := by
  cases call with
  | requestSubscription amount =>
    cases hl
    obtain ⟨_, -, h⟩ := exec_request_inv rfl h
    obtain ⟨_, _, _, _, _, -, -, -, hmin, hmax, -⟩ := RWAHub.requestSubscription_inv h
    exact ⟨BitVec.not_lt.mp hmin, BitVec.not_lt.mp hmax⟩
  | requestSubscriptionServicedOffchain user amount destination =>
    cases hl
    obtain ⟨_, -, h⟩ := exec_request_inv rfl h
    obtain ⟨_, _, -, -, -, -, -, hmin, hmax, -⟩ := RWAHubOffChainRedemptions.requestSubscriptionServicedOffchain_inv h
    exact ⟨BitVec.not_lt.mp hmin, BitVec.not_lt.mp hmax⟩
  | requestRedemption amount =>
    cases hl
    obtain ⟨_, -, h⟩ := exec_request_inv rfl h
    obtain ⟨_, _, -, -, hmin, hmax, -⟩ := RWAHub.requestRedemption_inv h
    exact ⟨BitVec.not_lt.mp hmin, BitVec.not_lt.mp hmax⟩
  | requestRedemptionServicedOffchain amount destination =>
    cases hl
    obtain ⟨_, -, h⟩ := exec_request_inv rfl h
    obtain ⟨_, _, -, -, hmin, hmax, -⟩ := RWAHubOffChainRedemptions.requestRedemptionServicedOffchain_inv h
    exact ⟨BitVec.not_lt.mp hmin, BitVec.not_lt.mp hmax⟩
  | _ => cases hl

theorem exec_in_range {l : AmountCheck} (hl : call.amountCheck s.toConfig = some l) (hmin : l.minimum ≤ l.amount)
    (hmax : l.amount ≤ l.compared) (he : e.outOfRange = true) : Avoids e (exec X caller call s) := by
  have hentry := Err.outOfRange_atEntry he
  have hpause : ∀ {b : Bool}, e = .featurePaused → b = false := by
    rintro b rfl
    cases he
  cases call with
  | requestSubscription amount =>
    cases hl
    exact exec_request_avoids hentry rfl fun _ => RWAHub.requestSubscription_avoids hentry hpause
      (fun _ => BitVec.not_lt.mpr hmin) fun _ => BitVec.not_lt.mpr hmax
  | requestSubscriptionServicedOffchain user amount destination =>
    cases hl
    exact exec_request_avoids hentry rfl fun _ =>
      RWAHubOffChainRedemptions.requestSubscriptionServicedOffchain_avoids hentry hpause
        (fun _ => BitVec.not_lt.mpr hmin) fun _ => BitVec.not_lt.mpr hmax
  | requestRedemption amount =>
    cases hl
    exact exec_request_avoids hentry rfl fun _ => RWAHub.requestRedemption_avoids hentry hpause
      (fun _ => BitVec.not_lt.mpr hmin) fun _ => BitVec.not_lt.mpr hmax
  | requestRedemptionServicedOffchain amount destination =>
    cases hl
    exact exec_request_avoids hentry rfl fun _ =>
      RWAHubOffChainRedemptions.requestRedemptionServicedOffchain_avoids hentry hpause
        (fun _ => BitVec.not_lt.mpr hmin) fun _ => BitVec.not_lt.mpr hmax
  | _ => cases hl

/-- A request whose maxima agree on its amount respects the limits of its path, and where a request that was
    accepted or rejected for its amount respects them, the maxima agree. -/
theorem limits_respected (X : Tokens T) (s : State T) (sender : Sender) (call : Call) :
    (OwnMaximum s.toConfig call → RespectsLimits X s sender call) ∧
      ((∃ t, exec X sender.address call s = .ok t) ∨
          (∃ e, e.outOfRange = true ∧ exec X sender.address call s = .error e) →
        RespectsLimits X s sender call → OwnMaximum s.toConfig call) := by
  constructor
  · intro hown l hl
    refine ⟨fun t h => ?_, fun hmin hmax e he => ?_⟩
    · obtain ⟨hmin, hcompared⟩ := exec_accepts hl h
      exact ⟨hmin, (hown l hl hmin).mpr hcompared⟩
    · exact exec_in_range hl hmin ((hown l hl hmin).mp hmax) he
  · intro hdecided hrespects l hl hmin
    obtain ⟨haccepted, hrejected⟩ := hrespects l hl
    rcases hdecided with ⟨t, h⟩ | ⟨e, he, h⟩
    · exact iff_of_true (haccepted t h).2 (exec_accepts hl h).2
    · refine iff_of_false (fun hmax => hrejected hmin hmax e he h) fun hcompared => ?_
      exact exec_in_range hl hmin hcompared he h

/-- A deposit above the maximum is accepted, where the redemption maximum is higher. -/
theorem deposit_limit_crossed :
    ¬∀ s : State (Address → Nat), Reachable Sample.tokens Rules.any s → ∀ sender call,
      RespectsLimits Sample.tokens s sender call := by
  intro h
  let acts : List (Action (Address → Nat)) := [.call Sample.admin (.admin (.setMaximumDepositAmount 20000))]
  have hrun : Rules.any.AllowsAll Sample.tokens Sample.state acts := ⟨trivial, trivial⟩
  have hok : (exec Sample.tokens Sample.bob.address (.requestSubscription 30000)
      (run Sample.tokens Sample.state acts)).toOption.isSome = true := by
    decide +kernel
  have hmax := ((h _ ((Reachable.of_deployed Sample.state_deployed).run (run_path hrun)) Sample.bob
    (.requestSubscription 30000) _ rfl).1 _ (eq_ok_get hok)).2
  revert hmax
  decide +kernel

end Usdy
