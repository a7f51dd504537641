import Usdy.Theorems.Pause

/-! The settings of the manager in its log. Each setting has an event of its own, which tells its new value
    and, but for the pause flags, its old one. Three functions emit the event of another setting, or write
    another flag than they tell: where they change nothing, the log tells every setting. -/

namespace Usdy
open Checked State

variable {T : Type} {X : Tokens T} {rules : Rules T} {s t : State T} {caller : Address} {call : Call}

/-! ### Settings and their events -/

/-- The configuration variables that have an event. -/
inductive Setting
  | minimumDepositAmount
  | minimumRedemptionAmount
  | maximumDepositAmount
  | maximumRedemptionAmount
  | minimumOffChainRedemptionAmount
  | minimumOffChainSubscriptionAmount
  | mintFee
  | redemptionFee
  | maximumDepositAmountInEpoch
  | maximumRedemptionAmountInEpoch
  | epochStartTimestamp
  | epochInterval
  | totalMaximumDepositAmountInEpoch
  | totalMaximumRedemptionAmountInEpoch
  | pricer
  | feeRecipient
  | assetSender
  | assetRecipient
  | blocklist
  | subscriptionPaused
  | redemptionPaused
  | offChainSubscriptionPaused
  | offChainRedemptionPaused
  deriving DecidableEq

/-- What a setting is set to. -/
inductive Value
  | amount (amount : Uint256)
  | account (account : Address)
  | flag (flag : Bool)
  deriving DecidableEq

/-- The setting in a configuration. -/
def Setting.value (c : Config) : Setting → Value
  | minimumDepositAmount => .amount c.minimumDepositAmount
  | minimumRedemptionAmount => .amount c.minimumRedemptionAmount
  | maximumDepositAmount => .amount c.maximumDepositAmount
  | maximumRedemptionAmount => .amount c.maximumRedemptionAmount
  | minimumOffChainRedemptionAmount => .amount c.minimumOffChainRedemptionAmount
  | minimumOffChainSubscriptionAmount => .amount c.minimumOffChainSubscriptionAmount
  | mintFee => .amount c.mintFee
  | redemptionFee => .amount c.redemptionFee
  | maximumDepositAmountInEpoch => .amount c.maximumDepositAmountInEpoch
  | maximumRedemptionAmountInEpoch => .amount c.maximumRedemptionAmountInEpoch
  | epochStartTimestamp => .amount c.epochStartTimestamp
  | epochInterval => .amount c.epochInterval
  | totalMaximumDepositAmountInEpoch => .amount c.totalMaximumDepositAmountInEpoch
  | totalMaximumRedemptionAmountInEpoch => .amount c.totalMaximumRedemptionAmountInEpoch
  | pricer => .account c.pricer
  | feeRecipient => .account c.feeRecipient
  | assetSender => .account c.assetSender
  | assetRecipient => .account c.assetRecipient
  | blocklist => .account c.blocklist
  | subscriptionPaused => .flag c.subscriptionPaused
  | redemptionPaused => .flag c.redemptionPaused
  | offChainSubscriptionPaused => .flag c.offChainSubscriptionPaused
  | offChainRedemptionPaused => .flag c.offChainRedemptionPaused

/-- What an event tells about a setting. The events of the pause flags carry no old value. -/
structure Change where
  setting : Setting
  old : Option Value
  new : Value
  deriving DecidableEq

namespace Change

/-- An amount is set. -/
def amount (setting : Setting) (old new : Uint256) : Change := ⟨setting, some (.amount old), .amount new⟩

/-- An account is set. -/
def account (setting : Setting) (old new : Address) : Change := ⟨setting, some (.account old), .account new⟩

/-- A feature is paused or unpaused; the event does not tell what it was. -/
def flag (setting : Setting) (paused : Bool) : Change := ⟨setting, none, .flag paused⟩

end Change

namespace Event

/-- The change that an event tells. -/
def change : Event → Option Change
  | .minimumDepositAmountSet old new => some (.amount .minimumDepositAmount old new)
  | .minimumRedemptionAmountSet old new => some (.amount .minimumRedemptionAmount old new)
  | .maximumDepositAmountSet old new => some (.amount .maximumDepositAmount old new)
  | .maximumRedemptionAmountSet old new => some (.amount .maximumRedemptionAmount old new)
  | .offChainRedemptionMinimumSet old new => some (.amount .minimumOffChainRedemptionAmount old new)
  | .offChainSubscriptionMinimumSet old new => some (.amount .minimumOffChainSubscriptionAmount old new)
  | .mintFeeSet old new => some (.amount .mintFee old new)
  | .redemptionFeeSet old new => some (.amount .redemptionFee old new)
  | .maximumDepositAmountInEpochSet old new => some (.amount .maximumDepositAmountInEpoch old new)
  | .maximumRedemptionAmountInEpochSet old new => some (.amount .maximumRedemptionAmountInEpoch old new)
  | .epochStartTimestampSet old new => some (.amount .epochStartTimestamp old new)
  | .epochIntervalSet old new => some (.amount .epochInterval old new)
  | .totalMaximumDepositAmountInEpochSet old new => some (.amount .totalMaximumDepositAmountInEpoch old new)
  | .totalMaximumRedemptionAmountInEpochSet old new => some (.amount .totalMaximumRedemptionAmountInEpoch old new)
  | .newPricerSet old new => some (.account .pricer old new)
  | .feeRecipientSet old new => some (.account .feeRecipient old new)
  | .assetSenderSet old new => some (.account .assetSender old new)
  | .assetRecipientSet old new => some (.account .assetRecipient old new)
  | .blocklistSet old new => some (.account .blocklist old new)
  | .subscriptionPaused _ => some (.flag .subscriptionPaused true)
  | .subscriptionUnpaused _ => some (.flag .subscriptionPaused false)
  | .redemptionPaused _ => some (.flag .redemptionPaused true)
  | .redemptionUnpaused _ => some (.flag .redemptionPaused false)
  | .offChainSubscriptionPaused _ => some (.flag .offChainSubscriptionPaused true)
  | .offChainSubscriptionUnpaused _ => some (.flag .offChainSubscriptionPaused false)
  | .offChainRedemptionPaused _ => some (.flag .offChainRedemptionPaused true)
  | .offChainRedemptionUnpaused _ => some (.flag .offChainRedemptionPaused false)
  | _ => none

/-- The new value of a setting that an event tells. -/
def sets (v : Setting) (e : Event) : Option Value :=
  e.change.bind fun c => if c.setting = v then some c.new else none

end Event

/-- The value of a setting that the last of its events tells. -/
def lastSet (v : Setting) (log : List Entry) : Option Value := (log.filterMap (·.event.sets v)).getLast?

/-- Every setting that was ever told has the value that was told last. -/
def LogTells (s : State T) : Prop := ∀ v x, lastSet v s.events = some x → v.value s.toConfig = x

/-- The old values that the new events of `t` tell are those of `s`. -/
def OldTold (s t : State T) : Prop :=
  ∀ e ∈ t.events.drop s.events.length, ∀ c, e.event.change = some c → ∀ old, c.old = some old →
    c.setting.value s.toConfig = old

/-- The three functions whose event is about another variable than the one they write are used only where
    they change nothing; one of them always does. -/
def ownEvents : Rules T where
  call s _ call :=
    match call with
    | .admin .pauseOffChainSubscription => False
    | .admin .unpauseOffChainSubscription => s.offChainRedemptionPaused = false
    | .admin (.setTotalMaximumRedemptionAmountInEpoch maximum) =>
      maximum = s.totalMaximumDepositAmountInEpoch ∧
        s.totalMaximumRedemptionAmountInEpoch = s.totalMaximumDepositAmountInEpoch
    | _ => True

/-! ### The last event of a setting -/

theorem lastSet_append {v : Setting} {log new : List Entry} :
    lastSet v (log ++ new) = (lastSet v new).or (lastSet v log) := by
  rw [lastSet, List.filterMap_append, List.getLast?_append]
  rfl

theorem lastSet_single {v : Setting} {e : Entry} : lastSet v [e] = e.event.sets v := by
  rw [lastSet, List.filterMap_cons]
  cases e.event.sets v <;> rfl

theorem lastSet_eq_none {v : Setting} {log : List Entry} (h : ∀ e ∈ log, e.event.change = none) : lastSet v log = none := by
  rw [lastSet, List.filterMap_eq_nil_iff.mpr fun e he => ?_, List.getLast?_nil]
  rw [Event.sets, h e he, Option.bind_none]

theorem Event.sets_eq {v : Setting} {e : Event} {c : Change} (h : e.change = some c) :
    e.sets v = if c.setting = v then some c.new else none := by rw [Event.sets, h, Option.bind_some]

/-! ### What a call tells -/

theorem AdminCall.exec_told {call : AdminCall} {sender : Sender} (hrule : (ownEvents (T := T)).call s sender (.admin call))
    (hdown : s.offChainSubscriptionPaused = false) (h : call.exec caller s = .ok t) :
    ∃ event c, t.events = s.events ++ [⟨s.now, event⟩] ∧ event.change = some c ∧
      (∀ v : Setting, v.value t.toConfig = if c.setting = v then c.new else v.value s.toConfig) ∧
      ∀ old, c.old = some old → c.setting.value s.toConfig = old := by
  cases call with
  | pauseOffChainSubscription => exact hrule.elim
  | unpauseOffChainSubscription =>
    have hup : s.offChainRedemptionPaused = false := hrule
    obtain ⟨-, -, rfl⟩ := configure_eq_ok.mp h
    refine ⟨_, _, rfl, rfl, fun v => ?_, nofun⟩
    cases v <;> simp [Setting.value, Change.flag, hup, hdown]
  | setTotalMaximumRedemptionAmountInEpoch maximum =>
    obtain ⟨rfl, htotal⟩ := hrule
    obtain ⟨-, -, rfl⟩ := configure_eq_ok.mp h
    refine ⟨_, _, rfl, rfl, fun v => ?_, fun old hold => ?_⟩
    · cases v <;> simp [Setting.value, Change.amount, htotal]
    · cases hold
      exact congrArg Value.amount htotal.symm
  | pauseSubscription | pauseRedemption | pauseOffChainRedemption | unpauseSubscription | unpauseRedemption
  | unpauseOffChainRedemption =>
    obtain ⟨-, -, rfl⟩ := configure_eq_ok.mp h
    refine ⟨_, _, rfl, rfl, fun v => ?_, nofun⟩
    cases v <;> rfl
  | _ =>
    obtain ⟨-, -, rfl⟩ := configure_eq_ok.mp h
    refine ⟨_, _, rfl, rfl, fun v => ?_, fun old hold => ?_⟩
    · cases v <;> rfl
    · cases hold
      rfl

theorem Call.Emits.change {e : Event} (h : call.Emits caller e) (hadmin : ¬∃ a, call = .admin a) : e.change = none := by
  unfold Call.Emits at h
  split at h
  -- A change of a role is the event that the call names.
  case h_12 | h_13 | h_14 =>
    rw [h]
    rfl
  case h_15 => exact absurd ⟨_, rfl⟩ hadmin
  case h_16 => exact h.elim
  all_goals rfl

/-- A call that keeps to the rules tells every setting that it writes, and tells what it was. -/
theorem exec_told {sender : Sender} (hrule : (ownEvents (T := T)).call s sender call)
    (hdown : s.offChainSubscriptionPaused = false) (h : exec X sender.address call s = .ok t) :
    ∃ new, t.events = s.events ++ new ∧
      (∀ v : Setting, v.value t.toConfig = (lastSet v new).getD (v.value s.toConfig)) ∧ OldTold s t := by
  by_cases hadmin : ∃ a, call = .admin a
  · obtain ⟨a, rfl⟩ := hadmin
    obtain ⟨event, c, hevents, hchange, hvalue, hold⟩ := AdminCall.exec_told hrule hdown h
    refine ⟨_, hevents, fun v => ?_, fun e he c' hc' old hold' => ?_⟩
    · rw [hvalue, lastSet_single, Event.sets_eq hchange]
      split <;> rfl
    · rw [hevents, List.drop_left] at he
      obtain rfl := List.mem_singleton.mp he
      obtain rfl : c = c' := Option.some.inj (hchange.symm.trans hc')
      exact hold old hold'
  · obtain ⟨new, moved, heffect⟩ := exec_effect sender.ne_zero h
    have hnone : ∀ e ∈ new, e.event.change = none := fun e he => (heffect.emits e he).change hadmin
    refine ⟨new, heffect.events, fun v => ?_, fun e he c hc => ?_⟩
    · rw [lastSet_eq_none hnone, Option.getD_none, heffect.config.resolve_left hadmin]
    · rw [heffect.events, List.drop_left] at he
      rw [hnone e he] at hc
      cases hc

/-! ### Runs -/

/-- Every setting has the value told last or, where none was told, the one it started with. -/
def Told (s : State T) : Prop :=
  ∃ c₀ : Config, c₀.offChainRedemptionPaused = false ∧
    ∀ v : Setting, v.value s.toConfig = (lastSet v s.events).getD (v.value c₀)

theorem Told.log (h : Told s) : LogTells s := by
  obtain ⟨c₀, -, h⟩ := h
  intro v x hx
  rw [h v, hx, Option.getD_some]

/-- A pause of off-chain redemptions was told. -/
theorem Told.paused (h : Told s) (hup : s.offChainRedemptionPaused = true) :
    lastSet .offChainRedemptionPaused s.events = some (.flag true) := by
  obtain ⟨c₀, hdown, h⟩ := h
  have hvalue := h .offChainRedemptionPaused
  cases hlast : lastSet .offChainRedemptionPaused s.events with
  | none => simp [hlast, Setting.value, hup, hdown] at hvalue
  | some x =>
    rw [hlast, Option.getD_some] at hvalue
    rw [← hvalue, Setting.value, hup]

theorem internalGrantRole_change {role : Role} {account sender : Address} (h : ∀ e ∈ s.events, e.event.change = none) :
    ∀ e ∈ (s.internalGrantRole role account sender).events, e.event.change = none := by
  obtain ⟨roles, new, heq, hnew⟩ := internalGrantRole_inv s role account sender
  rw [heq]
  intro e he
  rcases List.mem_append.mp he with he | he
  · exact h e he
  · rw [hnew e he]
    rfl

theorem setRoleAdmin_change {role adminRole : Role} (h : ∀ e ∈ s.events, e.event.change = none) :
    ∀ e ∈ (s.setRoleAdmin role adminRole).events, e.event.change = none := by
  intro e he
  rcases List.mem_append.mp he with he | he
  · exact h e he
  · obtain rfl := List.mem_singleton.mp he
    rfl

/-- The constructor tells the blocklist, last of all, and no other setting. -/
theorem Deployed.told (h : Deployed s) : Told s := by
  refine ⟨s.toConfig, h.fresh.offChainRedemptionPaused, fun v => ?_⟩
  obtain ⟨d, now, views, tokens, h⟩ := h
  simp only [deploy, bind_eq_ok, exists_unit_iff, revertIf_eq_ok, pure_eq_ok] at h
  obtain ⟨-, -, -, -, -, -, -, decimalsMultiplier, -, -, rfl⟩ := h
  rw [emit, lastSet_append, lastSet_single, lastSet_eq_none ?_, Option.or_none]
  · cases v <;> rfl
  · refine setRoleAdmin_change (setRoleAdmin_change (setRoleAdmin_change (internalGrantRole_change
      (internalGrantRole_change (internalGrantRole_change ?_)))))
    simp

theorem Reachable.told (h : Reachable X ownEvents s) : Told s := by
  refine h.invariant (fun s hs => hs.told) (fun s t sender call hr ih hrule hexec => ?_) (fun _ _ ih _ => ih)
    fun _ _ _ ih _ => ih
  obtain ⟨c₀, hdown, hs⟩ := ih
  obtain ⟨new, hevents, hvalue, -⟩ := exec_told hrule hr.offChainSubscription_running hexec
  refine ⟨c₀, hdown, fun v => ?_⟩
  rw [hevents, lastSet_append, hvalue, hs]
  cases lastSet v new <;> rfl

/-- Where the log tells every setting after a call, the call keeps to the rules. -/
theorem Told.rule (hs : Told s) (hdown : s.offChainSubscriptionPaused = false) {sender : Sender}
    (h : exec X sender.address call s = .ok t) (hlog : LogTells t) (hold : OldTold s t) :
    (ownEvents (T := T)).call s sender call := by
  cases call with
  | admin a =>
    cases a with
    | pauseOffChainSubscription =>
      obtain ⟨-, -, rfl⟩ := configure_eq_ok.mp h
      have hvalue := hlog .offChainSubscriptionPaused (.flag true) (by rw [lastSet_append, lastSet_single]; rfl)
      rw [Setting.value, hdown] at hvalue
      cases hvalue
    | unpauseOffChainSubscription =>
      obtain ⟨-, -, rfl⟩ := configure_eq_ok.mp h
      refine Bool.eq_false_iff.mpr fun hup => ?_
      have hvalue := hlog .offChainRedemptionPaused (.flag true) ?_
      · cases hvalue
      · rw [lastSet_append, lastSet_single, hs.paused hup]
        rfl
    | setTotalMaximumRedemptionAmountInEpoch maximum =>
      obtain ⟨-, -, rfl⟩ := configure_eq_ok.mp h
      have hvalue := hlog .totalMaximumDepositAmountInEpoch (.amount maximum) (by rw [lastSet_append, lastSet_single]; rfl)
      have hbefore := hold _ (by rw [List.drop_left]; exact List.mem_singleton_self _) _ rfl _ rfl
      exact ⟨(Value.amount.inj hvalue).symm, (Value.amount.inj hbefore).symm⟩
    | _ => trivial
  | _ => trivial

/-- In a run that keeps to the rules the log tells every setting, and from there a call tells what it writes
    and what that was exactly when it keeps to the rules. -/
theorem log_tells_settings (h : Reachable X ownEvents s) :
    LogTells s ∧ ∀ (sender : Sender) (call : Call) (t : State T), exec X sender.address call s = .ok t →
      ((LogTells t ∧ OldTold s t) ↔ (ownEvents (T := T)).call s sender call) := by
  refine ⟨h.told.log, fun sender call t hexec => ⟨fun ⟨hlog, hold⟩ => ?_, fun hrule => ?_⟩⟩
  · exact h.told.rule h.offChainSubscription_running hexec hlog hold
  · obtain ⟨new, -, -, hold⟩ := exec_told hrule h.offChainSubscription_running hexec
    exact ⟨(h.step (.call hexec hrule)).told.log, hold⟩

namespace Sample

/-- The settings are changed, one of them twice, and off-chain redemptions paused and running again. -/
def settings : List (Action (Address → Nat)) :=
  [.call admin (.admin (.setMintFee 100)), .call admin (.admin (.setFeeRecipient 0xc7)),
   .call bob (.requestSubscription 500), .call admin (.admin .pauseOffChainRedemption),
   .call admin (.admin (.setMintFee 50)), .call admin (.admin .unpauseOffChainRedemption),
   .call admin (.admin .unpauseOffChainSubscription),
   .call admin (.admin (.setTotalMaximumRedemptionAmountInEpoch 0))]

end Sample

theorem log_tells_settings_history :
    let s := run Sample.tokens Sample.state Sample.settings
    LogTells s ∧ ∀ (sender : Sender) (call : Call) (t : State (Address → Nat)),
      exec Sample.tokens sender.address call s = .ok t →
        ((LogTells t ∧ OldTold s t) ↔ (ownEvents (T := Address → Nat)).call s sender call) := by
  have hrun : ownEvents.AllowsAll Sample.tokens Sample.state Sample.settings := by
    refine ⟨trivial, trivial, trivial, trivial, trivial, trivial, ?_, ?_, trivial⟩
    · unfold Rules.Allows ownEvents
      decide +kernel
    · unfold Rules.Allows ownEvents
      decide +kernel
  exact log_tells_settings ((Reachable.of_deployed Sample.state_deployed).run (run_path hrun))

/-- The setter of the total redemption maximum tells the deposit maximum instead. -/
theorem settings_crossed :
    ¬∀ s : State (Address → Nat), Reachable Sample.tokens Rules.any s → LogTells s := by
  intro h
  let acts : List (Action (Address → Nat)) :=
    [.call Sample.admin (.admin (.setTotalMaximumDepositAmountInEpoch 100)),
     .call Sample.admin (.admin (.setTotalMaximumRedemptionAmountInEpoch 5))]
  have hrun : Rules.any.AllowsAll Sample.tokens Sample.state acts := ⟨trivial, trivial, trivial⟩
  have hlog := h (run Sample.tokens Sample.state acts)
    ((Reachable.of_deployed Sample.state_deployed).run (run_path hrun)) .totalMaximumDepositAmountInEpoch (.amount 5)
    (by decide +kernel)
  revert hlog
  decide +kernel

end Usdy
