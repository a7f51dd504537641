import Usdy.Theorems.Limits

/-! What the epoch limits amount to for any stretch of time: a limit counts from the start of each epoch, so up to twice
    its maximum passes around the end of one, and never more than that within the length of an epoch. -/

namespace Usdy
open Checked Function State

variable {T : Type} {X : Tokens T} {s s₀ t : State T} {side : Side} {caller account : Address} {call : Call}
  {amount c : Uint256}

/-- No epoch exceeds a maximum. -/
structure Capped (side : Side) (s₀ s : State T) (log : List Entry) : Prop extends Windowed side s₀ s log where
  account : ∀ a k, Window.used s₀.epochStartTimestamp.toNat s₀.epochInterval.toNat (side.uses a log) k ≤
    (side.maximum s₀.toConfig).toNat
  all : ∀ k, Window.used s₀.epochStartTimestamp.toNat s₀.epochInterval.toNat (side.allUses log) k ≤
    (side.totalMaximum s₀.toConfig).toNat

/-- What passes a limit fits under the maximum with what was used in the epoch before. -/
theorem UserOperator.Limited.room {maximum : Uint256} {o o' : UserOperator} {start interval now : Nat}
    {uses : List (Nat × Nat)} (h : o.Limited s maximum amount o') (hon : s.epochInterval ≠ 0) (hmax : maximum ≠ 0)
    (ho : o.Tracks start interval now uses) (hinterval : 0 < interval) (hc : USDYManager.udpateEpoch s = .ok c)
    (hoffset : c.toNat = Window.epoch start interval now * interval) :
    Window.used start interval uses (Window.epoch start interval now) + amount.toNat ≤ maximum.toNat := by
  rw [← ho.carried_eq hinterval hoffset]
  exact (exists_limited hon hmax hc).mp ⟨o', h⟩

namespace Capped
variable {log : List Entry}

/-- A tracker serves a request only where no epoch comes to exceed its maximum. -/
theorem serves (hw : Capped side s₀ s log) {maximum : Uint256} {uses new : List (Nat × Nat)} {o o' : UserOperator}
    (ho : o.Tracks s.epochStartTimestamp.toNat s.epochInterval.toNat s.now.toNat uses) (hmax : maximum ≠ 0)
    (hle : ∀ k, Window.used s₀.epochStartTimestamp.toNat s₀.epochInterval.toNat uses k ≤ maximum.toNat)
    (h : o.Serves s maximum amount new o') (k : Nat) :
    Window.used s₀.epochStartTimestamp.toNat s₀.epochInterval.toNat (uses ++ new) k ≤ maximum.toNat := by
  rcases h with ⟨-, rfl⟩ | ⟨hlimited, rfl⟩
  · rw [List.append_nil]
    exact hle k
  · obtain ⟨c, hc, hoffset⟩ := hw.offset
    have hroom := hlimited.room hw.limiting.interval hmax ho (interval_pos hw.limiting.interval) hc hoffset
    rw [hw.settings.epochStartTimestamp, hw.settings.epochInterval] at hroom
    exact Window.used_snoc_le hle hroom k

theorem request (hw : Capped side s₀ s log) {r : Request} {trackers : Trackers} {event : Event}
    (hevent : event.request = some r)
    (hlimits : r.side.checkLimits r.account r.amount s = .ok { s with toTrackers := trackers })
    (ht : Windowed side s₀ t (log ++ [⟨s.now, event⟩])) : Capped side s₀ t (log ++ [⟨s.now, event⟩]) := by
  refine ⟨ht, fun a => ?_, ?_⟩
  · rw [Side.uses_append, ← hw.settings.maximum]
    exact hw.serves (hw.operator a) hw.limiting.maximum (hw.settings.maximum ▸ hw.account a)
      (operator_serves hevent hlimits side a)
  · rw [Side.allUses_append, ← hw.settings.totalMaximum]
    exact hw.serves hw.totalOperator hw.limiting.totalMaximum (hw.settings.totalMaximum ▸ hw.all)
      (totalOperator_serves hevent hlimits side)

theorem exec (hw : Capped side s₀ s log) (hcaller : caller ≠ 0) (h : exec X caller call s = .ok t)
    (hsame : side.SameLimits s.toConfig t.toConfig) : ∃ log, Capped side s₀ t log := by
  obtain ⟨log', ht⟩ := hw.toWindowed.exec hcaller h hsame
  cases hr : call.request caller with
  | none =>
    obtain ⟨new, moved, heffect⟩ := exec_effect hcaller h
    obtain rfl : log' = log ++ new := by
      have hevents := ht.events
      rw [heffect.events, hw.events, List.append_assoc] at hevents
      exact (List.append_cancel_left hevents).symm
    refine ⟨log ++ new, ht, fun a => ?_, ?_⟩
    · rw [Side.uses_append, Side.uses, heffect.requests_eq_nil hr, List.append_nil]
      exact hw.account a
    · rw [Side.allUses_append, Side.allUses, heffect.requests_eq_nil hr, List.append_nil]
      exact hw.all
  | some r =>
    obtain ⟨event, moved, trackers, hlimits, -, hbooked, -, -, hevent⟩ := exec_request_booked hcaller hr h
    obtain rfl : log' = log ++ [⟨s.now, event⟩] := by
      have hevents := ht.events
      rw [hbooked.events, hw.events, List.append_assoc] at hevents
      exact (List.append_cancel_left hevents).symm
    exact ⟨_, hw.request hevent hlimits ht⟩

end Capped

theorem Run.capped {acts : List (Action T)} (h : Run X (fixedLimits X side) s₀ acts s) (hempty : s₀.toTrackers = .empty)
    (hlimiting : side.Limiting s₀) : ∃ log, Capped side s₀ s log := by
  refine h.invariant (I := fun s => ∃ log, Capped side s₀ s log) ?_ (fun s t sender call ih hrule hexec => ?_)
    (fun s time ih hlater => ?_) fun s views tokens ih _ => ?_
  · have hnil : Run X (fixedLimits X side) s₀ [] s₀ := .nil s₀
    obtain ⟨log, hw⟩ := hnil.windowed hempty hlimiting
    obtain rfl : log = [] := List.append_right_eq_self.mp hw.events.symm
    exact ⟨[], hw, fun _ _ => Nat.zero_le _, fun _ => Nat.zero_le _⟩
  · obtain ⟨log, hw⟩ := ih
    exact hw.exec sender.ne_zero hexec (hrule t hexec)
  · obtain ⟨log, hw⟩ := ih
    exact ⟨log, hw.toWindowed.block hlater, hw.account, hw.all⟩
  · obtain ⟨log, hw⟩ := ih
    exact ⟨log, ⟨hw.events, hw.limiting.of_same ⟨rfl, rfl, rfl, rfl⟩ (BitVec.le_refl _), hw.settings, hw.operator,
      hw.totalOperator⟩, hw.account, hw.all⟩

/-- In a run from empty trackers whose limits are on and stay fixed, between any two times there pass, of an account and
    of all accounts together, no more than the maximum for each whole epoch interval in between and two more: at most
    twice the maximum within the length of an epoch. -/
theorem limits_stretch {acts : List (Action T)} (h : Run X (fixedLimits X side) s₀ acts s)
    (hempty : s₀.toTrackers = .empty) (hlimiting : side.Limiting s₀) {first last : Nat} (hle : first ≤ last) :
    let epochs := (last - first) / s₀.epochInterval.toNat + 2
    (∀ account, Window.usedBetween first last (side.uses account (since s₀ s)) ≤
        epochs * (side.maximum s₀.toConfig).toNat) ∧
      Window.usedBetween first last (side.allUses (since s₀ s)) ≤ epochs * (side.totalMaximum s₀.toConfig).toNat := by
  intro epochs
  obtain ⟨log, hw⟩ := h.capped hempty hlimiting
  have hlog : since s₀ s = log := by rw [since, hw.events, List.drop_left]
  rw [hlog]
  exact ⟨fun account => Window.usedBetween_le (hw.account account) hle, Window.usedBetween_le hw.all hle⟩

namespace Sample

/-- Limits of 500 for each account and for all, in epochs of 100 seconds from 950 on. -/
def limited : State (Address → Nat) := run tokens state
  [.call admin (.admin (.setMaximumDepositAmountInEpoch 500)),
   .call admin (.admin (.setTotalMaximumDepositAmountInEpoch 500)),
   .call admin (.admin (.setEpochInterval 100)),
   .call admin (.admin (.setEpochStartTime 950))]

-- In the last second of an epoch, and in the first of the next.
def edge : List (Action (Address → Nat)) :=
  [.block 1049, .call bob (.requestSubscription 500), .block 1050, .call bob (.requestSubscription 500)]

theorem edge_allowed : (fixedLimits tokens .deposit).AllowsAll tokens limited edge := by
  have hfirst : limited.now ≤ 1049 := by decide +kernel
  have hsecond : (run tokens limited (edge.take 2)).now ≤ 1050 := by decide +kernel
  exact ⟨hfirst, fixedLimits_of_not_admin nofun, hsecond, fixedLimits_of_not_admin nofun, trivial⟩

end Sample

/-- Twice the maximum passes within two seconds. -/
theorem limits_stretch_edge :
    let uses := Side.uses .deposit Sample.bob.address (since Sample.limited (run Sample.tokens Sample.limited Sample.edge))
    Window.usedBetween 1049 1050 uses = 2 * 500 ∧ Window.usedBetween 1049 1050 uses ≤ ((1050 - 1049) / 100 + 2) * 500 := by
  intro uses
  have hlimiting : Side.deposit.Limiting Sample.limited :=
    ⟨by decide +kernel, by decide +kernel, by decide +kernel, by decide +kernel, by decide +kernel⟩
  have hinterval : Sample.limited.epochInterval.toNat = 100 := by decide +kernel
  have hmax : (Side.maximum Sample.limited.toConfig .deposit).toNat = 500 := by decide +kernel
  have hle := (limits_stretch (run_path Sample.edge_allowed) rfl hlimiting (by decide : 1049 ≤ 1050)).1 Sample.bob.address
  rw [hinterval, hmax] at hle
  exact ⟨by decide +kernel, hle⟩

end Usdy
