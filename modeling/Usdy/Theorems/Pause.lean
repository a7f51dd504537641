import Usdy.Theorems.Log
import Usdy.Theorems.Rejections

/-! The pause switches. Four features, each with a flag that its operations read and two functions that
    should switch it. The functions of one feature write the flag of another: where they are not used,
    every feature obeys its own switch. -/

namespace Usdy
open Checked State

variable {T : Type} {X : Tokens T} {rules : Rules T} {s s₀ t : State T} {caller : Address} {call : Call}

/-- What can be paused. -/
inductive Feature
  | subscription
  | redemption
  | offChainSubscription
  | offChainRedemption
  deriving DecidableEq

namespace Feature

/-- The flag that the operations of the feature read. -/
def flag (c : Config) : Feature → Bool
  | subscription => c.subscriptionPaused
  | redemption => c.redemptionPaused
  | offChainSubscription => c.offChainSubscriptionPaused
  | offChainRedemption => c.offChainRedemptionPaused

/-- The call that is meant to pause the feature. -/
def pause : Feature → AdminCall
  | subscription => .pauseSubscription
  | redemption => .pauseRedemption
  | offChainSubscription => .pauseOffChainSubscription
  | offChainRedemption => .pauseOffChainRedemption

/-- The call that is meant to unpause it. -/
def unpause : Feature → AdminCall
  | subscription => .unpauseSubscription
  | redemption => .unpauseRedemption
  | offChainSubscription => .unpauseOffChainSubscription
  | offChainRedemption => .unpauseOffChainRedemption

/-- What a call that succeeds should do to the switch of the feature. -/
def switch (f : Feature) (b : Bool) : Call → Bool
  | .admin a => if a = f.pause then true else if a = f.unpause then false else b
  | _ => b

/-- Whether the last of the calls that is a pause or an unpause of the feature is the pause. -/
def paused (f : Feature) (calls : List Call) : Bool := calls.foldl f.switch false

end Feature

/-- The feature a call is an operation of. -/
def Call.feature : Call → Option Feature
  | .requestSubscription _ => some .subscription
  | .claimMint _ => some .subscription
  | .requestRedemption _ => some .redemption
  | .claimRedemption _ => some .redemption
  | .requestSubscriptionServicedOffchain _ _ _ => some .offChainSubscription
  | .requestRedemptionServicedOffchain _ _ => some .offChainRedemption
  | _ => none

/-- The call of an action, if it succeeds. -/
def success (X : Tokens T) (s : State T) : Action T → Option Call
  | .call sender call => if (exec X sender.address call s).toOption.isSome then some call else none
  | _ => none

/-- The calls of a run that succeed. -/
def successes (X : Tokens T) : State T → List (Action T) → List Call
  | _, [] => []
  | s, a :: acts => (success X s a).toList ++ successes X (step X s a) acts

theorem successes_append {acts acts' : List (Action T)} :
    successes X s (acts ++ acts') = successes X s acts ++ successes X (run X s acts) acts' := by
  induction acts generalizing s with
  | nil => rfl
  | cons a acts ih =>
    rw [List.cons_append, successes, successes, ih, List.append_assoc]
    rfl

theorem Run.successes_snoc {acts : List (Action T)} {a : Action T} (h : Run X rules s₀ acts s) :
    successes X s₀ (acts ++ [a]) = successes X s₀ acts ++ (success X s a).toList := by
  rw [successes_append, ← h.eq_run, successes, successes, List.append_nil]

/-! ### The flags decide -/

theorem exec_feature {f : Feature} (hf : call.feature = some f) (h : exec X caller call s = .ok t) :
    f.flag s.toConfig = false := by
  cases call with
  | requestSubscription amount =>
    cases hf
    obtain ⟨trackers, -, h⟩ := exec_request_inv rfl h
    obtain ⟨_, _, _, _, _, -, hflag, -⟩ := RWAHub.requestSubscription_inv h
    exact hflag
  | requestSubscriptionServicedOffchain user amount destination =>
    cases hf
    obtain ⟨trackers, -, h⟩ := exec_request_inv rfl h
    obtain ⟨_, _, -, -, hflag, -⟩ := RWAHubOffChainRedemptions.requestSubscriptionServicedOffchain_inv h
    exact hflag
  | requestRedemption amount =>
    cases hf
    obtain ⟨trackers, -, h⟩ := exec_request_inv rfl h
    obtain ⟨_, _, -, hflag, -⟩ := RWAHub.requestRedemption_inv h
    exact hflag
  | requestRedemptionServicedOffchain amount destination =>
    cases hf
    obtain ⟨trackers, -, h⟩ := exec_request_inv rfl h
    obtain ⟨_, _, -, hflag, -⟩ := RWAHubOffChainRedemptions.requestRedemptionServicedOffchain_inv h
    exact hflag
  | claimMint ids =>
    cases hf
    obtain ⟨_, -, hflag, -⟩ := RWAHub.claimMint_eq_ok.mp h
    exact hflag
  | claimRedemption ids =>
    cases hf
    obtain ⟨_, _, _, _, -, hflag, -⟩ := RWAHub.claimRedemption_eq_ok.mp h
    exact hflag
  | _ => cases hf

/-- Nothing but the check of its own flag rejects an operation as paused. -/
theorem exec_avoids {f : Feature} (hf : call.feature = some f) (hflag : f.flag s.toConfig = false) :
    Avoids .featurePaused (exec X caller call s) := by
  cases call with
  | requestSubscription amount =>
    cases hf
    exact exec_request_avoids rfl rfl fun _ => RWAHub.requestSubscription_avoids rfl (fun _ => hflag) nofun nofun
  | requestSubscriptionServicedOffchain user amount destination =>
    cases hf
    exact exec_request_avoids rfl rfl fun _ =>
      RWAHubOffChainRedemptions.requestSubscriptionServicedOffchain_avoids rfl (fun _ => hflag) nofun nofun
  | requestRedemption amount =>
    cases hf
    exact exec_request_avoids rfl rfl fun _ => RWAHub.requestRedemption_avoids rfl (fun _ => hflag) nofun nofun
  | requestRedemptionServicedOffchain amount destination =>
    cases hf
    exact exec_request_avoids rfl rfl fun _ =>
      RWAHubOffChainRedemptions.requestRedemptionServicedOffchain_avoids rfl (fun _ => hflag) nofun nofun
  | claimMint ids =>
    cases hf
    exact claimMint_avoids rfl fun _ => hflag
  | claimRedemption ids =>
    cases hf
    exact claimRedemption_avoids rfl fun _ => hflag
  | _ => cases hf

/-! ### Every feature has its own switch -/

/-- The off-chain subscription flag is never written, so it stays down. -/
theorem Reachable.offChainSubscription_running (h : Reachable X rules s) : s.offChainSubscriptionPaused = false := by
  refine h.invariant (I := fun s => s.offChainSubscriptionPaused = false) (fun s hs => ?_)
    (fun s t sender call _ ih _ hexec => ?_) (fun _ _ ih _ => ih) fun _ _ _ ih _ => ih
  · exact hs.fresh.offChainSubscriptionPaused
  · obtain ⟨a, rfl⟩ | hconfig := exec_config sender.ne_zero hexec
    · cases a <;> obtain ⟨-, -, rfl⟩ := configure_eq_ok.mp hexec <;> exact ih
    · exact (congrArg Config.offChainSubscriptionPaused hconfig).trans ih

/-- The off-chain subscriptions are not paused, and are unpaused only while off-chain redemptions are not
    paused: the functions that would do it write the flag of the redemptions. -/
def ownSwitches : Rules T where
  call s _ call :=
    match call with
    | .admin .pauseOffChainSubscription => False
    | .admin .unpauseOffChainSubscription => s.offChainRedemptionPaused = false
    | _ => True

/-- A call that keeps to the rules switches the flags as it should. -/
theorem exec_switch {sender : Sender} (hrule : (ownSwitches (T := T)).call s sender call)
    (hdown : s.offChainSubscriptionPaused = false) (h : exec X sender.address call s = .ok t) (f : Feature) :
    f.flag t.toConfig = f.switch (f.flag s.toConfig) call := by
  by_cases hadmin : ∃ a, call = .admin a
  · obtain ⟨a, rfl⟩ := hadmin
    cases a with
    | pauseOffChainSubscription => exact hrule.elim
    | unpauseOffChainSubscription =>
      have hup : s.offChainRedemptionPaused = false := hrule
      obtain ⟨-, -, rfl⟩ := configure_eq_ok.mp h
      cases f <;> simp [Feature.flag, Feature.switch, Feature.pause, Feature.unpause, hup, hdown]
    | _ =>
      obtain ⟨-, -, rfl⟩ := configure_eq_ok.mp h
      cases f <;> rfl
  · have hkept : f.switch (f.flag s.toConfig) call = f.flag s.toConfig := by
      cases call with
      | admin a => exact absurd ⟨a, rfl⟩ hadmin
      | _ => rfl
    rw [hkept, (exec_config sender.ne_zero h).resolve_left hadmin]

/-- The flag of a feature is up exactly when its switch was last used to pause it. -/
theorem Run.flag_eq {acts : List (Action T)} (h₀ : Deployed s₀) (h : Run X ownSwitches s₀ acts s) (f : Feature) :
    f.flag s.toConfig = f.paused (successes X s₀ acts) := by
  refine Trail.invariant (I := fun acts s => f.flag s.toConfig = f.paused (successes X s₀ acts)) h ?_
    fun acts s a t hrun ih hstep => ?_
  · obtain ⟨-, -, -, -, -, h₁, h₂, h₃, h₄, -⟩ := h₀.fresh
    cases f <;> assumption
  · rw [Run.successes_snoc hrun, Feature.paused, List.foldl_append, ← Feature.paused, ← ih]
    cases hstep with
    | call hexec allowed =>
      have hdown := ((Reachable.of_deployed h₀).run hrun).offChainSubscription_running
      rw [exec_switch allowed hdown hexec f, success, hexec]
      rfl
    | reverted hexec =>
      rw [success, hexec]
      rfl
    | block later => rfl
    | world allowed => rfl

/-- Where off-chain subscriptions are left alone, a feature whose last switch is a pause serves nothing,
    and one whose last switch is not a pause is never rejected as paused. -/
theorem pause_law {acts : List (Action T)} (h₀ : Deployed s₀) (h : Run X ownSwitches s₀ acts s) {f : Feature}
    {sender : Sender} {call : Call} (hf : call.feature = some f) :
    (f.paused (successes X s₀ acts) = true → ∃ e, exec X sender.address call s = .error e) ∧
      (f.paused (successes X s₀ acts) = false → exec X sender.address call s ≠ .error .featurePaused) := by
  rw [← Run.flag_eq h₀ h f]
  refine ⟨fun hup => ?_, fun hdown => exec_avoids hf hdown⟩
  cases hexec : exec X sender.address call s with
  | ok t =>
    have hdown := exec_feature hf hexec
    rw [hup] at hdown
    cases hdown
  | error e => exact ⟨e, rfl⟩

theorem pause_law_history :
    let acts : List (Action (Address → Nat)) :=
      [.call Sample.admin (.admin .pauseOffChainRedemption), .call Sample.admin (.admin .pauseSubscription),
       .call Sample.admin (.admin .unpauseOffChainRedemption),
       .call Sample.admin (.admin .unpauseOffChainSubscription)]
    let s := run Sample.tokens Sample.state acts
    (Feature.paused .subscription (successes Sample.tokens Sample.state acts) = true →
        ∃ e, exec Sample.tokens Sample.bob.address (.requestSubscription 500) s = .error e) ∧
      (Feature.paused .subscription (successes Sample.tokens Sample.state acts) = false →
        exec Sample.tokens Sample.bob.address (.requestSubscription 500) s ≠ .error .featurePaused) := by
  intro acts s
  have hrun : ownSwitches.AllowsAll Sample.tokens Sample.state acts := by
    refine ⟨trivial, trivial, trivial, ?_, trivial⟩
    unfold Rules.Allows ownSwitches
    decide +kernel
  exact pause_law Sample.state_deployed (run_path hrun) rfl

/-- The pause of off-chain subscriptions does not stop them: it stops off-chain redemptions. -/
theorem pause_crossed :
    ¬∀ (s₀ s : State (Address → Nat)) (acts : List (Action (Address → Nat))) (f : Feature) (sender : Sender)
        (call : Call), Deployed s₀ → Run Sample.tokens Rules.any s₀ acts s → call.feature = some f →
        (f.paused (successes Sample.tokens s₀ acts) = true → ∃ e, exec Sample.tokens sender.address call s = .error e) ∧
        (f.paused (successes Sample.tokens s₀ acts) = false →
          exec Sample.tokens sender.address call s ≠ .error .featurePaused) := by
  intro h
  let acts : List (Action (Address → Nat)) :=
    [.call Sample.admin (.grantRole .relayer Sample.admin.address),
     .call Sample.admin (.admin .pauseOffChainSubscription)]
  have hrun : Rules.any.AllowsAll Sample.tokens Sample.state acts := ⟨trivial, trivial, trivial⟩
  obtain ⟨hpaused, -⟩ := h Sample.state _ acts .offChainSubscription Sample.admin
    (.requestSubscriptionServicedOffchain Sample.alice.address 1000 5) Sample.state_deployed (run_path hrun) rfl
  obtain ⟨e, he⟩ := hpaused (by decide +kernel)
  have hok : (exec Sample.tokens Sample.admin.address
      (.requestSubscriptionServicedOffchain Sample.alice.address 1000 5)
      (run Sample.tokens Sample.state acts)).toOption.isSome = true := by
    decide +kernel
  rw [he] at hok
  cases hok

end Usdy
