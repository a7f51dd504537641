import Usdy.Theorems.Limits

/-! Idle accounts and the epoch limits. A tracker is reset when the current offset passes the stored one,
    and both count from the start of the epochs. A later start or another interval may set the offsets
    back, and then an account may be held to a use of long ago. Where no such change happens, nobody who
    has been idle for an interval is locked out. -/

namespace Usdy
open Checked State

variable {T : Type} {X : Tokens T} {rules : Rules T} {s t : State T} {side : Side} {caller account : Address}
  {call : Call} {amount start interval : Uint256}

/-- Under the schedule, the tracker has run out at the first moment at which all the uses lie an interval
    back. -/
def UserOperator.RunsOut (start interval now : Uint256) (uses : List (Nat × Nat)) (o : UserOperator) : Prop :=
  Window.RunsOut start.toNat interval.toNat uses now.toNat o.amount.toNat o.epochTimestamp.toNat

/-- All the trackers have, where the schedule is on. -/
def State.RunsOut (s : State T) (start interval : Uint256) : Prop :=
  start ≠ 0 → interval ≠ 0 → ∀ side : Side,
    (∀ a, (side.operator s.toTrackers a).RunsOut start interval s.now (side.uses a s.events)) ∧
      (side.totalOperator s.toTrackers).RunsOut start interval s.now (side.allUses s.events)

/-- The schedule only changes to one under which the trackers run out. -/
def keepsRunningOut : Rules T where
  call s _ call :=
    match call with
    | .admin (.setEpochStartTime epochStartTime) => s.RunsOut epochStartTime s.epochInterval
    | .admin (.setEpochInterval epochInterval) => s.RunsOut s.epochStartTimestamp epochInterval
    | _ => True

/-! ### The start of the epochs -/

theorem AdminCall.exec_start {call : AdminCall} (hs : s.epochStartTimestamp ≤ s.now) (h : call.exec caller s = .ok t) :
    t.epochStartTimestamp ≤ t.now := by
  cases call with
  | setEpochStartTime epochStartTime =>
    obtain ⟨-, hcheck, rfl⟩ := configure_eq_ok.mp h
    exact BitVec.le_of_lt (BitVec.not_le.mp (revertIf_eq_ok.mp hcheck))
  | _ =>
    obtain ⟨-, -, rfl⟩ := configure_eq_ok.mp h
    exact hs

theorem Reachable.start_le (h : Reachable X rules s) : s.epochStartTimestamp ≤ s.now := by
  refine h.invariant (I := fun s => s.epochStartTimestamp ≤ s.now) (fun s hs => ?_)
    (fun s t sender call _ ih _ hexec => ?_) (fun _ _ ih hlater => BitVec.le_trans ih hlater) fun _ _ _ ih _ => ih
  · rw [hs.fresh.epochStartTimestamp]
    exact Nat.zero_le _
  · obtain ⟨new, moved, heffect⟩ := exec_effect sender.ne_zero hexec
    rcases heffect.config with ⟨a, rfl⟩ | hconfig
    · exact AdminCall.exec_start ih hexec
    · have hstart : t.epochStartTimestamp = s.epochStartTimestamp := congrArg Config.epochStartTimestamp hconfig
      rwa [heffect.now, hstart]

/-! ### What a step leaves of a tracker -/

theorem UserOperator.RunsOut.limited {maximum : Uint256} {uses : List (Nat × Nat)} {o o' : UserOperator}
    (h : o.RunsOut s.epochStartTimestamp s.epochInterval s.now uses) (hstart : s.epochStartTimestamp ≠ 0)
    (hinterval : s.epochInterval ≠ 0) (hpast : s.epochStartTimestamp ≤ s.now) (hl : o.Limited s maximum amount o') :
    o'.RunsOut s.epochStartTimestamp s.epochInterval s.now (uses ++ [(s.now.toNat, amount.toNat)]) := by
  obtain ⟨-, rfl⟩ | ⟨-, -, c, hc, ⟨-, hstamp⟩, -⟩ := hl
  · exact h.append
  · obtain ⟨c', hc', hoffset⟩ := udpateEpoch_ok hstart hinterval hpast
    obtain rfl := Except.ok.inj (hc.symm.trans hc')
    unfold UserOperator.RunsOut
    rw [hstamp, hoffset]
    exact .use (interval_pos hinterval) hpast

/-- A request that a tracker serves stamps it, or keeps it. -/
theorem UserOperator.RunsOut.serves {maximum : Uint256} {uses new : List (Nat × Nat)} {o o' : UserOperator}
    (h : o.RunsOut s.epochStartTimestamp s.epochInterval s.now uses) (hstart : s.epochStartTimestamp ≠ 0)
    (hinterval : s.epochInterval ≠ 0) (hpast : s.epochStartTimestamp ≤ s.now)
    (hserves : o.Serves s maximum amount new o') :
    o'.RunsOut s.epochStartTimestamp s.epochInterval s.now (uses ++ new) := by
  rcases hserves with ⟨rfl, rfl⟩ | ⟨hadded, rfl⟩
  · rwa [List.append_nil]
  · exact h.limited hstart hinterval hpast hadded

namespace State.RunsOut
variable {new : List Entry}

theorem append (h : s.RunsOut start interval) (htrackers : t.toTrackers = s.toTrackers) (hnow : t.now = s.now)
    (hevents : t.events = s.events ++ new) : t.RunsOut start interval := by
  intro hstart hinterval side
  obtain ⟨hop, htotal⟩ := h hstart hinterval side
  rw [htrackers, hnow, hevents, Side.allUses_append]
  refine ⟨fun a => ?_, htotal.append⟩
  rw [Side.uses_append]
  exact (hop a).append

/-- A request stamps the trackers that it adds to, and keeps the others. -/
theorem request {r : Request} {trackers : Trackers} {event : Event}
    (h : s.RunsOut s.epochStartTimestamp s.epochInterval) (hpast : s.epochStartTimestamp ≤ s.now)
    (hevent : event.request = some r)
    (hlimits : r.side.checkLimits r.account r.amount s = .ok { s with toTrackers := trackers })
    (htrackers : t.toTrackers = trackers) (hnow : t.now = s.now) (hevents : t.events = s.events ++ [⟨s.now, event⟩]) :
    t.RunsOut s.epochStartTimestamp s.epochInterval := by
  intro hstart hinterval side
  obtain ⟨hop, htotal⟩ := h hstart hinterval side
  rw [htrackers, hnow, hevents, Side.allUses_append]
  refine ⟨fun a => ?_, htotal.serves hstart hinterval hpast (totalOperator_serves hevent hlimits side)⟩
  rw [Side.uses_append]
  exact (hop a).serves hstart hinterval hpast (operator_serves hevent hlimits side a)

end State.RunsOut

/-- A change of the schedule that the rules allow is one under which the trackers run out; the other admin
    calls keep the schedule. -/
theorem AdminCall.exec_runsOut {call : AdminCall} {sender : Sender} (h : s.RunsOut s.epochStartTimestamp s.epochInterval)
    (hrule : (keepsRunningOut (T := T)).call s sender (.admin call)) (hexec : call.exec sender.address s = .ok t) :
    s.RunsOut t.epochStartTimestamp t.epochInterval := by
  cases call <;> obtain ⟨-, -, rfl⟩ := configure_eq_ok.mp hexec <;> first | exact h | exact hrule

/-- In every state of such a run the trackers have run out at the first idle moment. -/
theorem Reachable.runsOut (h : Reachable X keepsRunningOut s) : s.RunsOut s.epochStartTimestamp s.epochInterval := by
  refine h.invariant (I := fun s => s.RunsOut s.epochStartTimestamp s.epochInterval) (fun s hs hstart => ?_)
    (fun s t sender call hr ih hrule hexec => ?_) (fun s time ih hlater hstart hinterval side => ?_)
    fun _ _ _ ih _ => ih
  · exact absurd hs.fresh.epochStartTimestamp hstart
  · cases hreq : call.request sender.address with
    | some r =>
      obtain ⟨event, moved, trackers, hlimits, hk, hb, -, -, hevent⟩ := exec_request_booked sender.ne_zero hreq hexec
      rw [show t.toConfig = s.toConfig from hk.config]
      exact ih.request hr.start_le hevent hlimits hk.trackers hb.now hb.events
    | none =>
      obtain ⟨new, moved, heffect⟩ := exec_effect sender.ne_zero hexec
      have htrackers := heffect.trackers hreq
      rcases heffect.config with ⟨a, rfl⟩ | hconfig
      · exact (AdminCall.exec_runsOut ih hrule hexec).append htrackers heffect.now heffect.events
      · rw [hconfig]
        exact ih.append htrackers heffect.now heffect.events
  · obtain ⟨hop, htotal⟩ := ih hstart hinterval side
    exact ⟨fun a => (hop a).later hlater, htotal.later hlater⟩

/-! ### Idle accounts -/

/-- At an idle moment a tracker carries nothing over exactly when it has run out. -/
theorem UserOperator.carried_eq_zero_iff {uses : List (Nat × Nat)} {o : UserOperator} {c : Uint256}
    (hc : c.toNat = Window.epoch s.epochStartTimestamp.toNat s.epochInterval.toNat s.now.toNat * s.epochInterval.toNat)
    (hidle : ∀ u ∈ uses, u.1 + s.epochInterval.toNat ≤ s.now.toNat) :
    o.carried c = 0 ↔ o.RunsOut s.epochStartTimestamp s.epochInterval s.now uses := by
  unfold UserOperator.RunsOut
  rw [Window.RunsOut.idle_iff hidle, ← hc]
  unfold UserOperator.carried
  split
  · rename_i hlt
    exact ⟨fun _ => .inr hlt, fun _ => rfl⟩
  · rename_i hnot
    exact ⟨.inl, fun h => h.resolve_right hnot⟩

/-- An idle tracker lets its whole maximum pass exactly when it has run out. -/
theorem UserOperator.free_iff {maximum : Uint256} {uses : List (Nat × Nat)} {o : UserOperator}
    {check : Uint256 → Except Err (State T)} {write : UserOperator → State T}
    (hcheck : ∀ {amount t}, check amount = .ok t ↔ ∃ o', o.Limited s maximum amount o' ∧ write o' = t)
    (hinterval : s.epochInterval ≠ 0) (hstart : s.epochStartTimestamp ≠ 0) (hpast : s.epochStartTimestamp ≤ s.now)
    (hmax : maximum ≠ 0) (hidle : ∀ u ∈ uses, u.1 + s.epochInterval.toNat ≤ s.now.toNat) :
    (∀ amount ≤ maximum, ∃ t, check amount = .ok t) ↔ o.RunsOut s.epochStartTimestamp s.epochInterval s.now uses := by
  obtain ⟨c, hc, hoffset⟩ := udpateEpoch_ok hstart hinterval hpast
  rw [← UserOperator.carried_eq_zero_iff hoffset hidle, ← forall_limited_iff hinterval hmax hc]
  simp only [hcheck]
  refine forall₂_congr fun amount _ => ⟨?_, ?_⟩
  · rintro ⟨t, o', ho', -⟩
    exact ⟨o', ho'⟩
  · rintro ⟨o', ho'⟩
    exact ⟨_, o', ho', rfl⟩

/-- An idle account may use its whole maximum exactly when its tracker has run out. -/
theorem Side.free_iff (hinterval : s.epochInterval ≠ 0) (hstart : s.epochStartTimestamp ≠ 0)
    (hpast : s.epochStartTimestamp ≤ s.now) (hmax : side.maximum s.toConfig ≠ 0)
    (hidle : ∀ u ∈ side.uses account s.events, u.1 + s.epochInterval.toNat ≤ s.now.toNat) :
    (∀ amount ≤ side.maximum s.toConfig, ∃ t, side.checkAndUpdateLimit account amount s = .ok t) ↔
      (side.operator s.toTrackers account).RunsOut s.epochStartTimestamp s.epochInterval s.now
        (side.uses account s.events) :=
  UserOperator.free_iff Side.checkAndUpdateLimit_eq_ok hinterval hstart hpast hmax hidle

theorem Side.total_free_iff (hinterval : s.epochInterval ≠ 0) (hstart : s.epochStartTimestamp ≠ 0)
    (hpast : s.epochStartTimestamp ≤ s.now) (hmax : side.totalMaximum s.toConfig ≠ 0)
    (hidle : ∀ u ∈ side.allUses s.events, u.1 + s.epochInterval.toNat ≤ s.now.toNat) :
    (∀ amount ≤ side.totalMaximum s.toConfig, ∃ t, side.checkAndUpdateTotalLimit amount s = .ok t) ↔
      (side.totalOperator s.toTrackers).RunsOut s.epochStartTimestamp s.epochInterval s.now (side.allUses s.events) :=
  UserOperator.free_iff Side.checkAndUpdateTotalLimit_eq_ok hinterval hstart hpast hmax hidle

/-- A tracker that does not run out locks its account out at the first idle moment. -/
theorem Side.locked_of_not_runsOut (hinterval : s.epochInterval ≠ 0) (hstart : s.epochStartTimestamp ≠ 0)
    (hpast : s.epochStartTimestamp ≤ s.now) (hmax : side.maximum s.toConfig ≠ 0)
    (hnot : ¬(side.operator s.toTrackers account).RunsOut s.epochStartTimestamp s.epochInterval s.now
      (side.uses account s.events)) {time : Uint256}
    (htime : time.toNat = Window.idleFrom s.epochInterval.toNat s.now.toNat (side.uses account s.events)) :
    s.now ≤ time ∧ (∀ u ∈ side.uses account s.events, u.1 + s.epochInterval.toNat ≤ time.toNat) ∧
      ∃ amount ≤ side.maximum s.toConfig,
        ∀ t, side.checkAndUpdateLimit account amount { s with now := time } ≠ .ok t := by
  have hlater : s.now ≤ time := BitVec.le_def.mpr (htime ▸ Window.le_idleFrom.1)
  have hidle : ∀ u ∈ side.uses account s.events, u.1 + s.epochInterval.toNat ≤ time.toNat := htime ▸ Window.le_idleFrom.2
  refine ⟨hlater, hidle, ?_⟩
  by_contra hlocked
  refine hnot ?_
  have hfree : ∀ amount ≤ side.maximum s.toConfig,
      ∃ t, side.checkAndUpdateLimit account amount { s with now := time } = .ok t :=
    fun amount hle => by_contra fun hnone => hlocked ⟨amount, hle, fun t ht => hnone ⟨t, ht⟩⟩
  have hruns := (Side.free_iff (s := { s with now := time }) hinterval hstart (BitVec.le_trans hpast hlater) hmax
    hidle).mp hfree
  unfold UserOperator.RunsOut Window.RunsOut at hruns ⊢
  rwa [Window.idleFrom_eq hidle, htime] at hruns

/-- Whatever happened before, as long as the schedule only changed to ones under which the trackers run out:
    an account idle for an interval may use its whole maximum, and where everybody was idle the total
    maximum is free. -/
theorem idle_never_locked (h : Reachable X keepsRunningOut s) (hinterval : s.epochInterval ≠ 0)
    (hstart : s.epochStartTimestamp ≠ 0) (side : Side) :
    (side.maximum s.toConfig ≠ 0 → ∀ account,
      (∀ u ∈ side.uses account s.events, u.1 + s.epochInterval.toNat ≤ s.now.toNat) →
      ∀ amount ≤ side.maximum s.toConfig, ∃ t, side.checkAndUpdateLimit account amount s = .ok t) ∧
    (side.totalMaximum s.toConfig ≠ 0 →
      (∀ u ∈ side.allUses s.events, u.1 + s.epochInterval.toNat ≤ s.now.toNat) →
      ∀ amount ≤ side.totalMaximum s.toConfig, ∃ t, side.checkAndUpdateTotalLimit amount s = .ok t) := by
  obtain ⟨hop, htotal⟩ := h.runsOut hstart hinterval side
  refine ⟨fun hmax account hidle => ?_, fun hmax hidle => ?_⟩
  · exact (Side.free_iff hinterval hstart h.start_le hmax hidle).mpr (hop account)
  · exact (Side.total_free_iff hinterval hstart h.start_le hmax hidle).mpr htotal

theorem idle_never_locked_history :
    let s := run Sample.tokens Sample.state
      [.call Sample.admin (.admin (.setMaximumDepositAmountInEpoch 1000)),
       .call Sample.admin (.admin (.setEpochInterval 10)),
       .call Sample.admin (.admin (.setEpochStartTime 1)),
       .call Sample.bob (.requestSubscription 1000),
       .block 1010]
    ∀ amount ≤ Side.maximum s.toConfig .deposit,
      ∃ t, Side.deposit.checkAndUpdateLimit Sample.bob.address amount s = .ok t := by
  intro s
  have hnone : ∀ start interval, State.RunsOut (run Sample.tokens Sample.state
      [.call Sample.admin (.admin (.setMaximumDepositAmountInEpoch 1000))]) start interval :=
    fun start interval _ _ side => by cases side <;> exact ⟨fun a => .inl rfl, .inl rfl⟩
  have hrun : keepsRunningOut.AllowsAll Sample.tokens Sample.state
      [.call Sample.admin (.admin (.setMaximumDepositAmountInEpoch 1000)),
       .call Sample.admin (.admin (.setEpochInterval 10)),
       .call Sample.admin (.admin (.setEpochStartTime 1)),
       .call Sample.bob (.requestSubscription 1000),
       .block 1010] := by
    refine ⟨trivial, hnone _ _, ?_, trivial, ?_, trivial⟩
    · intro _ _ side
      cases side <;> exact ⟨fun a => .inl rfl, .inl rfl⟩
    · unfold Rules.Allows
      decide +kernel
  exact (idle_never_locked ((Reachable.of_deployed Sample.state_deployed).run (run_path hrun)) (by decide +kernel)
    (by decide +kernel) .deposit).1 (by decide +kernel) Sample.bob.address (by decide +kernel)

/-- A later start sets the offsets back: an account that has been idle for an interval is held to a deposit
    that it made under the old start. -/
theorem idle_locked :
    ¬∀ s : State (Address → Nat), Reachable Sample.tokens Rules.any s → s.epochInterval ≠ 0 →
      s.epochStartTimestamp ≠ 0 → ∀ side : Side, side.maximum s.toConfig ≠ 0 → ∀ account,
      (∀ u ∈ side.uses account s.events, u.1 + s.epochInterval.toNat ≤ s.now.toNat) →
      ∀ amount ≤ side.maximum s.toConfig, ∃ t, side.checkAndUpdateLimit account amount s = .ok t := by
  intro h
  let acts : List (Action (Address → Nat)) :=
    [.call Sample.admin (.admin (.setMaximumDepositAmountInEpoch 1000)),
     .call Sample.admin (.admin (.setEpochInterval 10)),
     .call Sample.admin (.admin (.setEpochStartTime 1)),
     .call Sample.bob (.requestSubscription 1000),
     .block 1010,
     .call Sample.admin (.admin (.setEpochStartTime 1000))]
  have hrun : Rules.any.AllowsAll Sample.tokens Sample.state acts := by
    refine ⟨trivial, trivial, trivial, trivial, ?_, trivial, trivial⟩
    unfold Rules.Allows
    decide +kernel
  obtain ⟨t, ht⟩ := h _ ((Reachable.of_deployed Sample.state_deployed).run (run_path hrun)) (by decide +kernel)
    (by decide +kernel) .deposit (by decide +kernel) Sample.bob.address (by decide +kernel) 1 (by decide +kernel)
  have hfails : (Side.deposit.checkAndUpdateLimit Sample.bob.address 1
      (run Sample.tokens Sample.state acts)).toOption.isSome = false := by
    decide +kernel
  rw [ht] at hfails
  cases hfails

end Usdy
