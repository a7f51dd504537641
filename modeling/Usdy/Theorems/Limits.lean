import Usdy.Lib.Window
import Usdy.Theorems.Log

/-! The epoch limits are fixed windows. A tracker holds one amount and the offset of one epoch, and is not
    reset before it is used again; still it answers for every request accepted so far. -/

namespace Usdy
open Checked Function State

variable {T : Type} {X : Tokens T} {s s₀ t : State T} {side : Side} {caller account : Address} {call : Call}
  {amount c : Uint256}

/-! ### What the checks compute -/

/-- The offset of the current epoch; the start lies in the past, so computing it does not fail. -/
theorem udpateEpoch_ok (hstart : s.epochStartTimestamp ≠ 0) (hinterval : s.epochInterval ≠ 0)
    (hpast : s.epochStartTimestamp ≤ s.now) :
    ∃ c, USDYManager.udpateEpoch s = .ok c ∧
      c.toNat = Window.epoch s.epochStartTimestamp.toNat s.epochInterval.toNat s.now.toNat * s.epochInterval.toNat := by
  have hle : s.epochStartTimestamp.toNat ≤ s.now.toNat := hpast
  have hdiv := Nat.div_mul_le_self (s.now.toNat - s.epochStartTimestamp.toNat) s.epochInterval.toNat
  have hnow := s.now.isLt
  obtain ⟨elapsed, helapsed⟩ : ∃ c : Uint256, c.toNat = s.now.toNat - s.epochStartTimestamp.toNat :=
    exists_word (by omega)
  obtain ⟨epochs, hepochs⟩ : ∃ c : Uint256, c.toNat = elapsed.toNat / s.epochInterval.toNat :=
    exists_word (Nat.lt_of_le_of_lt (Nat.div_le_self _ _) elapsed.isLt)
  obtain ⟨c, hc⟩ : ∃ c : Uint256, c.toNat = epochs.toNat * s.epochInterval.toNat := by
    refine exists_word ?_
    rw [hepochs, helapsed]
    omega
  refine ⟨c, ?_, by rw [hc, hepochs, helapsed, Window.epoch]⟩
  rw [USDYManager.udpateEpoch, if_pos ⟨hinterval, hstart⟩]
  refine bind_eq_ok.mpr ⟨elapsed, subOr_eq_ok.mpr ?_, bind_eq_ok.mpr ⟨epochs, divOr_eq_ok.mpr ⟨hinterval, hepochs⟩,
    mulOr_eq_ok.mpr hc⟩⟩
  omega

/-- What a tracker brings to the epoch with offset `c`: nothing, once that is a later epoch. -/
def UserOperator.carried (o : UserOperator) (c : Uint256) : Nat := if o.epochTimestamp < c then 0 else o.amount.toNat

/-- A tracker after a use in the epoch with offset `c`. -/
structure UserOperator.Adds (o : UserOperator) (c amount : Uint256) (o' : UserOperator) : Prop where
  amount : o'.amount.toNat = o.carried c + amount.toNat
  epochTimestamp : o'.epochTimestamp = c

theorem UserOperator.carried_toNat (o : UserOperator) (c : Uint256) :
    (if c > o.epochTimestamp then (0 : Uint256) else o.amount).toNat = o.carried c := by
  unfold carried
  split <;> rfl

section Bodies
variable {maximum : Uint256} {exceeds : Err} {o o' : UserOperator}

theorem checkAndUpdateLimit_eq_ok :
    USDYManager.checkAndUpdateLimit s maximum exceeds o amount = .ok o' ↔
      ∃ c, USDYManager.udpateEpoch s = .ok c ∧ o.Adds c amount o' ∧ o'.amount.toNat ≤ maximum.toNat := by
  unfold USDYManager.checkAndUpdateLimit
  simp only [bind_eq_ok, addOr_eq_ok, revertIf_eq_ok, exists_unit_iff, pure_eq_ok, UserOperator.carried_toNat]
  refine exists_congr fun c => and_congr_right fun _ => ⟨?_, ?_⟩
  · rintro ⟨used, hused, hmax, rfl⟩
    exact ⟨⟨hused, rfl⟩, Nat.not_lt.mp hmax⟩
  · rintro ⟨⟨hamount, rfl⟩, hmax⟩
    exact ⟨o'.amount, hamount, Nat.not_lt.mpr hmax, rfl⟩

/-- The total limits test the other way round, and come to the same. -/
theorem checkAndUpdateTotalLimit_eq_ok :
    USDYManager.checkAndUpdateTotalLimit s maximum exceeds o amount = .ok o' ↔
      ∃ c, USDYManager.udpateEpoch s = .ok c ∧ o.Adds c amount o' ∧ o'.amount.toNat ≤ maximum.toNat := by
  unfold USDYManager.checkAndUpdateTotalLimit
  rw [bind_eq_ok]
  refine exists_congr fun c => and_congr_right fun _ => ?_
  dsimp only
  split
  · rename_i hle
    have hcarried : o.carried c = o.amount.toNat := if_neg (BitVec.not_lt.mpr hle)
    simp only [bind_eq_ok, addOr_eq_ok, revertIf_eq_ok, exists_unit_iff, pure_eq_ok]
    constructor
    · rintro ⟨total, htotal, hmax, rfl⟩
      exact ⟨⟨by rw [hcarried, htotal, Nat.add_comm], rfl⟩, Nat.not_lt.mp hmax⟩
    · rintro ⟨⟨hamount, rfl⟩, hmax⟩
      exact ⟨o'.amount, by rw [hamount, hcarried, Nat.add_comm], Nat.not_lt.mpr hmax, rfl⟩
  · rename_i hlt
    have hcarried : o.carried c = 0 := if_pos (BitVec.not_le.mp hlt)
    simp only [bind_eq_ok, revertIf_eq_ok, exists_unit_iff, pure_eq_ok, exists_eq_left']
    constructor
    · rintro ⟨hmax, rfl⟩
      exact ⟨⟨by rw [hcarried, Nat.zero_add], rfl⟩, Nat.not_lt.mp hmax⟩
    · rintro ⟨⟨hamount, rfl⟩, hmax⟩
      obtain rfl : o'.amount = amount := BitVec.eq_of_toNat_eq (by rw [hamount, hcarried, Nat.zero_add])
      exact ⟨Nat.not_lt.mpr hmax, rfl⟩

end Bodies

/-- What a limit does to its tracker: nothing where it is switched off, and else it adds the amount in the
    current epoch and stays under the maximum. -/
def UserOperator.Limited (s : State T) (maximum amount : Uint256) (o o' : UserOperator) : Prop :=
  (s.epochInterval = 0 ∨ maximum = 0) ∧ o' = o ∨
    s.epochInterval ≠ 0 ∧ maximum ≠ 0 ∧
      ∃ c, USDYManager.udpateEpoch s = .ok c ∧ o.Adds c amount o' ∧ o'.amount.toNat ≤ maximum.toNat

/-- What a request does to a tracker, and the uses it adds to it: it leaves the tracker alone and adds none, or
    it passes the limit and is the next use. -/
def UserOperator.Serves (s : State T) (maximum amount : Uint256) (uses : List (Nat × Nat)) (o o' : UserOperator) : Prop :=
  o' = o ∧ uses = [] ∨ o.Limited s maximum amount o' ∧ uses = [(s.now.toNat, amount.toNat)]

theorem limit_eq_ok {maximum : Uint256} {o : UserOperator} {body : Except Err UserOperator} {write : UserOperator → State T}
    (hself : write o = s)
    (hbody : ∀ o', body = .ok o' ↔
      ∃ c, USDYManager.udpateEpoch s = .ok c ∧ o.Adds c amount o' ∧ o'.amount.toNat ≤ maximum.toNat) :
    (if s.epochInterval = 0 ∨ maximum = 0 then .ok s else body >>= fun o' => pure (write o')) = .ok t ↔
      ∃ o', o.Limited s maximum amount o' ∧ write o' = t := by
  split
  · rename_i hoff
    constructor
    · intro h
      exact ⟨o, .inl ⟨hoff, rfl⟩, hself.trans (Except.ok.inj h)⟩
    · rintro ⟨o', ⟨-, rfl⟩ | ⟨hinterval, hmax, -⟩, rfl⟩
      · rw [hself]
      · exact absurd hoff (not_or.mpr ⟨hinterval, hmax⟩)
  · rename_i hon
    obtain ⟨hinterval, hmax⟩ := not_or.mp hon
    simp only [bind_eq_ok, pure_eq_ok, hbody]
    constructor
    · rintro ⟨o', ho, rfl⟩
      exact ⟨o', .inr ⟨hinterval, hmax, ho⟩, rfl⟩
    · rintro ⟨o', ⟨hoff, -⟩ | ⟨-, -, ho⟩, rfl⟩
      · exact absurd hoff hon
      · exact ⟨o', ho, rfl⟩

/-- An amount passes a limit exactly when it fits under the maximum with what is carried over. -/
theorem exists_limited {maximum : Uint256} {o : UserOperator} (hinterval : s.epochInterval ≠ 0) (hmax : maximum ≠ 0)
    (hc : USDYManager.udpateEpoch s = .ok c) :
    (∃ o', o.Limited s maximum amount o') ↔ o.carried c + amount.toNat ≤ maximum.toNat := by
  constructor
  · rintro ⟨o', ⟨hoff, -⟩ | ⟨-, -, c', hc', ⟨hamount, -⟩, hle⟩⟩
    · exact absurd hoff (not_or.mpr ⟨hinterval, hmax⟩)
    · rw [hc, Except.ok.injEq] at hc'
      subst hc'
      exact hamount ▸ hle
  · intro hle
    obtain ⟨used, hused⟩ : ∃ used : Uint256, used.toNat = o.carried c + amount.toNat :=
      exists_word (Nat.lt_of_le_of_lt hle maximum.isLt)
    exact ⟨⟨used, c⟩, .inr ⟨hinterval, hmax, c, hc, ⟨hused, rfl⟩, hused ▸ hle⟩⟩

/-- The whole maximum is free exactly when nothing is carried over. -/
theorem forall_limited_iff {maximum : Uint256} {o : UserOperator} (hinterval : s.epochInterval ≠ 0)
    (hmax : maximum ≠ 0) (hc : USDYManager.udpateEpoch s = .ok c) :
    (∀ amount ≤ maximum, ∃ o', o.Limited s maximum amount o') ↔ o.carried c = 0 := by
  simp only [exists_limited hinterval hmax hc]
  constructor
  · intro h
    have hle := h maximum (BitVec.le_refl _)
    omega
  · intro hzero amount hle
    rw [hzero, Nat.zero_add]
    exact hle

theorem UserOperator.Limited.adds {maximum : Uint256} {o o' : UserOperator} (h : o.Limited s maximum amount o')
    (hinterval : s.epochInterval ≠ 0) (hmax : maximum ≠ 0) (hc : USDYManager.udpateEpoch s = .ok c) :
    o.Adds c amount o' := by
  obtain ⟨hoff, -⟩ | ⟨-, -, c', hc', hadds, -⟩ := h
  · exact absurd hoff (not_or.mpr ⟨hinterval, hmax⟩)
  · rw [hc, Except.ok.injEq] at hc'
    exact hc' ▸ hadds

namespace Side
variable {r : Trackers} {o : UserOperator}

@[simp] theorem setOperator_self : side.setOperator r account (side.operator r account) = r := by
  cases side <;> simp [setOperator, operator]

@[simp] theorem setTotalOperator_self : side.setTotalOperator r (side.totalOperator r) = r := by
  cases side <;> rfl

@[simp] theorem operator_setOperator : side.operator (side.setOperator r account o) account = o := by
  cases side <;> simp [setOperator, operator]

theorem operator_setOperator_of_ne {a : Address} (h : a ≠ account) :
    side.operator (side.setOperator r account o) a = side.operator r a := by
  cases side <;> simp [setOperator, operator, h]

@[simp] theorem operator_setTotalOperator {a : Address} :
    side.operator (side.setTotalOperator r o) a = side.operator r a := by
  cases side <;> rfl

@[simp] theorem totalOperator_setOperator : side.totalOperator (side.setOperator r account o) = side.totalOperator r := by
  cases side <;> rfl

@[simp] theorem totalOperator_setTotalOperator : side.totalOperator (side.setTotalOperator r o) = o := by
  cases side <;> rfl

theorem checkAndUpdateLimit_eq_ok :
    side.checkAndUpdateLimit account amount s = .ok t ↔
      ∃ o, (side.operator s.toTrackers account).Limited s (side.maximum s.toConfig) amount o ∧
        { s with toTrackers := side.setOperator s.toTrackers account o } = t := by
  rw [checkAndUpdateLimit_eq]
  exact limit_eq_ok (by rw [setOperator_self]) fun _ => Usdy.checkAndUpdateLimit_eq_ok

theorem checkAndUpdateTotalLimit_eq_ok :
    side.checkAndUpdateTotalLimit amount s = .ok t ↔
      ∃ o, (side.totalOperator s.toTrackers).Limited s (side.totalMaximum s.toConfig) amount o ∧
        { s with toTrackers := side.setTotalOperator s.toTrackers o } = t := by
  rw [checkAndUpdateTotalLimit_eq]
  exact limit_eq_ok (by rw [setTotalOperator_self]) fun _ => Usdy.checkAndUpdateTotalLimit_eq_ok

theorem checkLimits_eq_ok :
    side.checkLimits account amount s = .ok t ↔
      ∃ total o, (side.totalOperator s.toTrackers).Limited s (side.totalMaximum s.toConfig) amount total ∧
        (side.operator s.toTrackers account).Limited s (side.maximum s.toConfig) amount o ∧
        { s with toTrackers := side.setOperator (side.setTotalOperator s.toTrackers total) account o } = t := by
  simp only [checkLimits, bind_eq_ok, checkAndUpdateTotalLimit_eq_ok]
  constructor
  · rintro ⟨u, ⟨total, htotal, rfl⟩, h⟩
    obtain ⟨o, ho, rfl⟩ := checkAndUpdateLimit_eq_ok.mp h
    rw [operator_setTotalOperator] at ho
    exact ⟨total, o, htotal, ho, rfl⟩
  · rintro ⟨total, o, htotal, ho, rfl⟩
    refine ⟨_, ⟨total, htotal, rfl⟩, checkAndUpdateLimit_eq_ok.mpr ⟨o, ?_, rfl⟩⟩
    rwa [operator_setTotalOperator]

/-- The trackers of one side are not touched by the other. -/
theorem checkLimits_other {other : Side} {trackers : Trackers} (hne : other ≠ side)
    (h : side.checkLimits account amount s = .ok { s with toTrackers := trackers }) :
    (∀ a, other.operator trackers a = other.operator s.toTrackers a) ∧
      other.totalOperator trackers = other.totalOperator s.toTrackers := by
  obtain ⟨total, o, -, -, h⟩ := checkLimits_eq_ok.mp h
  obtain rfl := congrArg State.toTrackers h
  cases side <;> cases other
  · exact absurd rfl hne
  · exact ⟨fun _ => rfl, rfl⟩
  · exact ⟨fun _ => rfl, rfl⟩
  · exact absurd rfl hne

end Side

/-! ### The requests a log tells -/

/-- The times and amounts of the requests in a log that satisfy `p`. -/
def requests (p : Request → Bool) (log : List Entry) : List (Nat × Nat) :=
  log.filterMap fun e => (e.event.request.filter p).map fun r => (e.time.toNat, r.amount.toNat)

/-- The requests of an account on a side. -/
def Side.uses (side : Side) (account : Address) : List Entry → List (Nat × Nat) :=
  requests fun r => r.side = side ∧ r.account = account

/-- The requests of all accounts on a side. -/
def Side.allUses (side : Side) : List Entry → List (Nat × Nat) := requests fun r => r.side = side

section Requests
variable {p : Request → Bool} {log new : List Entry} {r : Request} {event : Event}

theorem requests_append : requests p (log ++ new) = requests p log ++ requests p new := List.filterMap_append

theorem Side.uses_append : side.uses account (log ++ new) = side.uses account log ++ side.uses account new :=
  requests_append

theorem Side.allUses_append : side.allUses (log ++ new) = side.allUses log ++ side.allUses new := requests_append

theorem requests_eq_nil (h : ∀ e ∈ new, e.event.request = none) : requests p new = [] :=
  List.filterMap_eq_nil_iff.mpr fun e he => by rw [h e he]; rfl

theorem requests_single {now : Uint256} (h : event.request = some r) :
    requests p [⟨now, event⟩] = if p r then [(now.toNat, r.amount.toNat)] else [] := by
  simp only [requests, List.filterMap_cons, h, Option.filter_some, List.filterMap_nil]
  split <;> simp_all

/-- A call that is no request emits none. -/
theorem Call.Emits.request_eq_none (hr : call.request caller = none) (h : call.Emits caller event) :
    event.request = none := by
  cases call <;> cases event <;> simp_all [Call.Emits, Call.request, Event.request, Event.posted]

theorem Effect.requests_eq_nil {moved : List TokenCall} (h : Effect X caller call s t new moved)
    (hr : call.request caller = none) : requests p new = [] :=
  Usdy.requests_eq_nil fun e he => (h.emits e he).request_eq_none hr

/-- A request is limited by the tracker of its side and account, and no other such tracker notices. -/
theorem operator_serves {trackers : Trackers} (hevent : event.request = some r)
    (hlimits : r.side.checkLimits r.account r.amount s = .ok { s with toTrackers := trackers }) (side : Side)
    (a : Address) :
    (side.operator s.toTrackers a).Serves s (side.maximum s.toConfig) r.amount (side.uses a [⟨s.now, event⟩])
      (side.operator trackers a) := by
  rw [Side.uses, requests_single hevent]
  by_cases hside : r.side = side
  · subst hside
    obtain ⟨total, o, -, ho, heq⟩ := Side.checkLimits_eq_ok.mp hlimits
    obtain rfl := congrArg State.toTrackers heq
    by_cases ha : a = r.account
    · subst ha
      rw [Side.operator_setOperator]
      exact .inr ⟨ho, by simp⟩
    · rw [Side.operator_setOperator_of_ne ha, Side.operator_setTotalOperator]
      exact .inl ⟨rfl, by simpa using fun h => ha h.symm⟩
  · exact .inl ⟨(Side.checkLimits_other (fun h => hside h.symm) hlimits).1 a, by simp [hside]⟩

theorem totalOperator_serves {trackers : Trackers} (hevent : event.request = some r)
    (hlimits : r.side.checkLimits r.account r.amount s = .ok { s with toTrackers := trackers }) (side : Side) :
    (side.totalOperator s.toTrackers).Serves s (side.totalMaximum s.toConfig) r.amount (side.allUses [⟨s.now, event⟩])
      (side.totalOperator trackers) := by
  rw [Side.allUses, requests_single hevent]
  by_cases hside : r.side = side
  · subst hside
    obtain ⟨total, o, ho, -, heq⟩ := Side.checkLimits_eq_ok.mp hlimits
    obtain rfl := congrArg State.toTrackers heq
    rw [Side.totalOperator_setOperator, Side.totalOperator_setTotalOperator]
    exact .inr ⟨ho, by simp⟩
  · exact .inl ⟨(Side.checkLimits_other (fun h => hside h.symm) hlimits).2, by simp [hside]⟩

end Requests

/-! ### A tracker answers for the history -/

/-- The tracker holds the epoch of its last use and what was used in it. -/
def UserOperator.Tracks (start interval now : Nat) (uses : List (Nat × Nat)) (o : UserOperator) : Prop :=
  ∃ k, k ≤ Window.epoch start interval now ∧ o.epochTimestamp.toNat = k * interval ∧
    Window.Counts start interval uses o.amount.toNat k

namespace UserOperator.Tracks
variable {start interval now now' : Nat} {uses : List (Nat × Nat)} {o o' : UserOperator}

theorem nil : (0 : UserOperator).Tracks start interval now [] := ⟨0, Nat.zero_le _, by rw [Nat.zero_mul]; rfl, .nil 0⟩

theorem later (h : o.Tracks start interval now uses) (hle : now ≤ now') : o.Tracks start interval now' uses := by
  obtain ⟨k, hk, hstamp, hcounts⟩ := h
  exact ⟨k, Nat.le_trans hk (Window.epoch_mono hle), hstamp, hcounts⟩

theorem carried_eq (h : o.Tracks start interval now uses) (hinterval : 0 < interval)
    (hc : c.toNat = Window.epoch start interval now * interval) :
    o.carried c = Window.used start interval uses (Window.epoch start interval now) := by
  obtain ⟨k, hk, hstamp, hcounts⟩ := h
  have hlt : o.epochTimestamp < c ↔ k < Window.epoch start interval now := by
    rw [BitVec.lt_def, hstamp, hc]
    exact Nat.mul_lt_mul_right hinterval
  simp only [hcounts.used_eq hk, carried, hlt]

theorem adds (h : o.Tracks start interval now uses) (hinterval : 0 < interval)
    (hc : c.toNat = Window.epoch start interval now * interval) (hadds : o.Adds c amount o') :
    o'.Tracks start interval now (uses ++ [(now, amount.toNat)]) := by
  have hamount : o'.amount.toNat = _ := hadds.amount.trans (congrArg (· + amount.toNat) (h.carried_eq hinterval hc))
  obtain ⟨k, hk, -, hcounts⟩ := h
  refine ⟨_, Nat.le_refl _, by rw [hadds.epochTimestamp, hc], ?_⟩
  rw [hamount, hcounts.used_eq hk]
  exact hcounts.snoc hk

end UserOperator.Tracks

/-! ### Runs with fixed limits -/

/-- The limits of the side are the same in both configurations. -/
structure Side.SameLimits (side : Side) (a b : Config) : Prop where
  epochStartTimestamp : b.epochStartTimestamp = a.epochStartTimestamp
  epochInterval : b.epochInterval = a.epochInterval
  maximum : side.maximum b = side.maximum a
  totalMaximum : side.totalMaximum b = side.totalMaximum a

/-- No call that succeeds changes the limits of the side. -/
def fixedLimits (X : Tokens T) (side : Side) : Rules T where
  call s sender call := ∀ t, exec X sender.address call s = .ok t → side.SameLimits s.toConfig t.toConfig

/-- The limits of the side are on, and the start of the epochs is not in the future. -/
structure Side.Limiting (side : Side) (s : State T) : Prop where
  start : s.epochStartTimestamp ≠ 0
  past : s.epochStartTimestamp ≤ s.now
  interval : s.epochInterval ≠ 0
  maximum : side.maximum s.toConfig ≠ 0
  totalMaximum : side.totalMaximum s.toConfig ≠ 0

/-- The trackers of the side answer for the requests accepted since `s₀`, which the entries `log` tell. -/
structure Windowed (side : Side) (s₀ s : State T) (log : List Entry) : Prop where
  events : s.events = s₀.events ++ log
  limiting : side.Limiting s
  settings : side.SameLimits s₀.toConfig s.toConfig
  operator : ∀ a, (side.operator s.toTrackers a).Tracks s.epochStartTimestamp.toNat s.epochInterval.toNat s.now.toNat
    (side.uses a log)
  totalOperator : (side.totalOperator s.toTrackers).Tracks s.epochStartTimestamp.toNat s.epochInterval.toNat
    s.now.toNat (side.allUses log)

theorem Side.Limiting.of_same (h : side.Limiting s) (hsame : side.SameLimits s.toConfig t.toConfig)
    (hnow : s.now ≤ t.now) : side.Limiting t where
  start := hsame.epochStartTimestamp ▸ h.start
  past := hsame.epochStartTimestamp ▸ BitVec.le_trans h.past hnow
  interval := hsame.epochInterval ▸ h.interval
  maximum := hsame.maximum ▸ h.maximum
  totalMaximum := hsame.totalMaximum ▸ h.totalMaximum

theorem Side.SameLimits.trans {a b c : Config} (h : side.SameLimits a b) (h' : side.SameLimits b c) :
    side.SameLimits a c :=
  ⟨h'.epochStartTimestamp.trans h.epochStartTimestamp, h'.epochInterval.trans h.epochInterval,
    h'.maximum.trans h.maximum, h'.totalMaximum.trans h.totalMaximum⟩

theorem interval_pos (h : s.epochInterval ≠ 0) : 0 < s.epochInterval.toNat :=
  Nat.pos_of_ne_zero fun h0 => h (BitVec.eq_of_toNat_eq h0)

namespace Windowed
variable {log : List Entry}

theorem offset (hw : Windowed side s₀ s log) :
    ∃ c, USDYManager.udpateEpoch s = .ok c ∧
      c.toNat = Window.epoch s.epochStartTimestamp.toNat s.epochInterval.toNat s.now.toNat * s.epochInterval.toNat :=
  udpateEpoch_ok hw.limiting.start hw.limiting.interval hw.limiting.past

/-- A request that a tracker serves keeps it answering for the history. -/
theorem serves (hw : Windowed side s₀ s log) {maximum : Uint256} {uses new : List (Nat × Nat)} {o o' : UserOperator}
    (ho : o.Tracks s.epochStartTimestamp.toNat s.epochInterval.toNat s.now.toNat uses) (hmax : maximum ≠ 0)
    (h : o.Serves s maximum amount new o') :
    o'.Tracks s.epochStartTimestamp.toNat s.epochInterval.toNat s.now.toNat (uses ++ new) := by
  obtain ⟨c, hc, hoffset⟩ := hw.offset
  rcases h with ⟨rfl, rfl⟩ | ⟨hadded, rfl⟩
  · rwa [List.append_nil]
  · exact ho.adds (interval_pos hw.limiting.interval) hoffset (hadded.adds hw.limiting.interval hmax hc)

theorem exec (hw : Windowed side s₀ s log) (hc : caller ≠ 0) (h : exec X caller call s = .ok t)
    (hsame : side.SameLimits s.toConfig t.toConfig) : ∃ log, Windowed side s₀ t log := by
  obtain ⟨new, moved, heffect⟩ := exec_effect hc h
  have hlimiting := hw.limiting.of_same hsame (heffect.now ▸ BitVec.le_refl _)
  have hsettings := hw.settings.trans hsame
  cases hr : call.request caller with
  | none =>
    refine ⟨log ++ new, by rw [heffect.events, hw.events, List.append_assoc], hlimiting, hsettings, fun a => ?_, ?_⟩
    · rw [hsame.epochStartTimestamp, hsame.epochInterval, heffect.now, heffect.trackers hr, Side.uses_append, Side.uses,
        heffect.requests_eq_nil hr, List.append_nil]
      exact hw.operator a
    · rw [hsame.epochStartTimestamp, hsame.epochInterval, heffect.now, heffect.trackers hr, Side.allUses_append,
        Side.allUses, heffect.requests_eq_nil hr, List.append_nil]
      exact hw.totalOperator
  | some r =>
    obtain ⟨event, moved, trackers, hlimits, hk, hb, -, -, hevent⟩ := exec_request_booked hc hr h
    have htrackers : t.toTrackers = trackers := hk.trackers
    refine ⟨log ++ [⟨s.now, event⟩], by rw [hb.events, hw.events, List.append_assoc], hlimiting, hsettings,
      fun a => ?_, ?_⟩
    · rw [hsame.epochStartTimestamp, hsame.epochInterval, heffect.now, htrackers, Side.uses_append]
      exact hw.serves (hw.operator a) hw.limiting.maximum (operator_serves hevent hlimits side a)
    · rw [hsame.epochStartTimestamp, hsame.epochInterval, heffect.now, htrackers, Side.allUses_append]
      exact hw.serves hw.totalOperator hw.limiting.totalMaximum (totalOperator_serves hevent hlimits side)

theorem block (hw : Windowed side s₀ s log) {time : Uint256} (hlater : s.now ≤ time) :
    Windowed side s₀ { s with now := time } log where
  events := hw.events
  limiting := hw.limiting.of_same ⟨rfl, rfl, rfl, rfl⟩ hlater
  settings := hw.settings
  operator a := (hw.operator a).later hlater
  totalOperator := hw.totalOperator.later hlater

end Windowed

/-- From empty trackers on, the trackers answer for every request. -/
theorem Run.windowed {acts : List (Action T)} (h : Run X (fixedLimits X side) s₀ acts s) (hempty : s₀.toTrackers = .empty)
    (hlimiting : side.Limiting s₀) : ∃ log, Windowed side s₀ s log := by
  refine h.invariant (I := fun s => ∃ log, Windowed side s₀ s log) ?_ (fun s t sender call ih hrule hexec => ?_)
    (fun s time ih hlater => ?_) fun s views tokens ih _ => ?_
  · refine ⟨[], (List.append_nil _).symm, hlimiting, ⟨rfl, rfl, rfl, rfl⟩, fun a => ?_, ?_⟩
    · rw [hempty]
      cases side <;> exact .nil
    · rw [hempty]
      cases side <;> exact .nil
  · obtain ⟨log, hw⟩ := ih
    exact hw.exec sender.ne_zero hexec (hrule t hexec)
  · obtain ⟨log, hw⟩ := ih
    exact ⟨log, hw.block hlater⟩
  · obtain ⟨log, hw⟩ := ih
    exact ⟨log, hw.events, hw.limiting.of_same ⟨rfl, rfl, rfl, rfl⟩ (BitVec.le_refl _), hw.settings, hw.operator,
      hw.totalOperator⟩

/-- The entries emitted since `s₀`. -/
def since (s₀ s : State T) : List Entry := s.events.drop s₀.events.length

/-- In a run from empty trackers whose limits stay fixed, the epoch is always computed, and a request passes
    its limits exactly when, in the epoch of its block, what was accepted from the account and what was
    accepted from everybody leave room for its amount under the two maxima. -/
theorem limits_window {acts : List (Action T)} (h : Run X (fixedLimits X side) s₀ acts s)
    (hempty : s₀.toTrackers = .empty) (hstart : s₀.epochStartTimestamp ≠ 0) (hpast : s₀.epochStartTimestamp ≤ s₀.now)
    (hinterval : s₀.epochInterval ≠ 0) (hmax : side.maximum s₀.toConfig ≠ 0)
    (htotal : side.totalMaximum s₀.toConfig ≠ 0) :
    let start := s₀.epochStartTimestamp.toNat
    let interval := s₀.epochInterval.toNat
    let epoch := Window.epoch start interval s.now.toNat
    (∃ c, USDYManager.udpateEpoch s = .ok c ∧ c.toNat = epoch * interval) ∧
      ∀ account amount, (∃ t, side.checkLimits account amount s = .ok t) ↔
        Window.used start interval (side.uses account (since s₀ s)) epoch + amount.toNat ≤
            (side.maximum s₀.toConfig).toNat ∧
          Window.used start interval (side.allUses (since s₀ s)) epoch + amount.toNat ≤
            (side.totalMaximum s₀.toConfig).toNat := by
  intro start interval epoch
  obtain ⟨log, hw⟩ := h.windowed hempty ⟨hstart, hpast, hinterval, hmax, htotal⟩
  obtain ⟨c, hc, hoffset⟩ := hw.offset
  have hpos := interval_pos hw.limiting.interval
  have hlog : since s₀ s = log := by rw [since, hw.events, List.drop_left]
  have hcarried := fun a => (hw.operator a).carried_eq hpos hoffset
  have hcarriedTotal := hw.totalOperator.carried_eq hpos hoffset
  rw [hw.settings.epochStartTimestamp, hw.settings.epochInterval] at hcarried hcarriedTotal hoffset
  refine ⟨⟨c, hc, hoffset⟩, fun account amount => ?_⟩
  have hpasses : (∃ o, (side.operator s.toTrackers account).Limited s (side.maximum s.toConfig) amount o) ↔ _ :=
    exists_limited hw.limiting.interval hw.limiting.maximum hc
  have hpassesTotal : (∃ o, (side.totalOperator s.toTrackers).Limited s (side.totalMaximum s.toConfig) amount o) ↔ _ :=
    exists_limited hw.limiting.interval hw.limiting.totalMaximum hc
  rw [hcarried, hw.settings.maximum] at hpasses
  rw [hcarriedTotal, hw.settings.totalMaximum] at hpassesTotal
  rw [hlog, ← hpasses, ← hpassesTotal]
  simp only [Side.checkLimits_eq_ok, hw.settings.maximum, hw.settings.totalMaximum]
  constructor
  · rintro ⟨t, total, o, htotal, ho, -⟩
    exact ⟨⟨o, ho⟩, total, htotal⟩
  · rintro ⟨⟨o, ho⟩, total, htotal⟩
    exact ⟨_, total, o, htotal, ho, rfl⟩

theorem fixedLimits_of_not_admin {sender : Sender} (h : ∀ a, call ≠ .admin a) :
    (fixedLimits X side).call s sender call := by
  intro t hexec
  rcases exec_config sender.ne_zero hexec with ⟨a, rfl⟩ | hconfig
  · exact absurd rfl (h a)
  · rw [hconfig]
    exact ⟨rfl, rfl, rfl, rfl⟩

theorem limits_window_history :
    let s₀ := run Sample.tokens Sample.state
      [.call Sample.admin (.admin (.setMaximumDepositAmountInEpoch 1000)),
       .call Sample.admin (.admin (.setTotalMaximumDepositAmountInEpoch 1500)),
       .call Sample.admin (.admin (.setEpochInterval 100)),
       .call Sample.admin (.admin (.setEpochStartTime 900))]
    let s := run Sample.tokens s₀
      [.call Sample.bob (.requestSubscription 500), .call Sample.alice (.requestSubscription 700)]
    (∃ t, Side.checkLimits .deposit Sample.bob.address 300 s = .ok t) ↔
      Window.used 900 100 (Side.uses .deposit Sample.bob.address (since s₀ s)) 1 + 300 ≤ 1000 ∧
        Window.used 900 100 (Side.allUses .deposit (since s₀ s)) 1 + 300 ≤ 1500 := by
  intro s₀ s
  have hrun : (fixedLimits Sample.tokens .deposit).AllowsAll Sample.tokens s₀
      [.call Sample.bob (.requestSubscription 500), .call Sample.alice (.requestSubscription 700)] :=
    ⟨fixedLimits_of_not_admin nofun, fixedLimits_of_not_admin nofun, trivial⟩
  obtain ⟨-, hpasses⟩ := limits_window (run_path hrun) rfl (by decide +kernel) (by decide +kernel) (by decide +kernel)
    (by decide +kernel) (by decide +kernel)
  have hstart : s₀.epochStartTimestamp.toNat = 900 := by decide +kernel
  have hinterval : s₀.epochInterval.toNat = 100 := by decide +kernel
  have hepoch : Window.epoch 900 100 s.now.toNat = 1 := by decide +kernel
  have hmax : (Side.maximum s₀.toConfig .deposit).toNat = 1000 := by decide +kernel
  have htotal : (Side.totalMaximum s₀.toConfig .deposit).toNat = 1500 := by decide +kernel
  have hbob := hpasses Sample.bob.address 300
  rw [hstart, hinterval, hmax, htotal] at hbob
  rw [← hepoch]
  exact hbob

end Usdy
