import Usdy.Theorems.Booked

/-! The log of a run: from the deployment on it is a trail of postings from the empty ledgers, with entries
    in the order of their times. What the rules of a run exclude, its postings lack. -/

namespace Usdy
open Checked Function State

variable {T : Type} {X : Tokens T} {rules : Rules T} {s s₀ t : State T}

/-- A posting at some answer of the pricer. -/
def Posting (m : Uint256) (g : Ledgers) (e : Entry) (h : Ledgers) : Prop := ∃ quote, Posts m quote g e h

/-- No deposit is overwritten. -/
def noOverwriteDepositor : Rules T where
  call _ _ call :=
    match call with
    | .overwriteDepositor .. => False
    | _ => True

/-- No redemption is overwritten. -/
def noOverwriteRedeemer : Rules T where
  call _ _ call :=
    match call with
    | .overwriteRedeemer .. => False
    | _ => True

/-! ### The deployment -/

/-- The state after the constructor: no deposits, no redemptions, no fees, nothing paused. -/
structure Fresh (s : State T) : Prop where
  ledgers : s.toLedgers = .empty
  trackers : s.toTrackers = .empty
  status : s.status = 1
  mintFee : s.mintFee = 0
  redemptionFee : s.redemptionFee = 0
  subscriptionPaused : s.subscriptionPaused = false
  redemptionPaused : s.redemptionPaused = false
  offChainSubscriptionPaused : s.offChainSubscriptionPaused = false
  offChainRedemptionPaused : s.offChainRedemptionPaused = false
  epochStartTimestamp : s.epochStartTimestamp = 0
  calls : s.calls = []
  events : ∀ e ∈ s.events, e.time = s.now ∧
    ((∃ role account sender, e.event = .roleGranted role account sender) ∨
      (∃ role old new, e.event = .roleAdminChanged role old new) ∨ ∃ old new, e.event = .blocklistSet old new)

namespace Fresh

theorem internalGrantRole (h : Fresh s) (role : Role) (account sender : Address) :
    Fresh (s.internalGrantRole role account sender) := by
  obtain ⟨roles, new, heq, hnew⟩ := internalGrantRole_inv s role account sender
  rw [heq]
  refine ⟨h.ledgers, h.trackers, h.status, h.mintFee, h.redemptionFee, h.subscriptionPaused, h.redemptionPaused,
    h.offChainSubscriptionPaused, h.offChainRedemptionPaused, h.epochStartTimestamp, h.calls, fun e he => ?_⟩
  rcases List.mem_append.mp he with he | he
  · exact h.events e he
  · exact hnew e he ▸ ⟨rfl, .inl ⟨_, _, _, rfl⟩⟩

theorem setRoleAdmin (h : Fresh s) (role adminRole : Role) : Fresh (s.setRoleAdmin role adminRole) := by
  refine ⟨h.ledgers, h.trackers, h.status, h.mintFee, h.redemptionFee, h.subscriptionPaused, h.redemptionPaused,
    h.offChainSubscriptionPaused, h.offChainRedemptionPaused, h.epochStartTimestamp, h.calls, fun e he => ?_⟩
  rcases List.mem_append.mp he with he | he
  · exact h.events e he
  · exact List.mem_singleton.mp he ▸ ⟨rfl, .inr (.inl ⟨_, _, _, rfl⟩)⟩

end Fresh

theorem Deployed.fresh (h : Deployed s) : Fresh s := by
  obtain ⟨d, now, views, tokens, h⟩ := h
  simp only [deploy, bind_eq_ok, exists_unit_iff, revertIf_eq_ok, pure_eq_ok] at h
  obtain ⟨-, -, -, -, -, -, -, decimalsMultiplier, -, -, rfl⟩ := h
  have h₀ : Fresh (T := T)
      { toAccessControl := { hasRole := fun _ _ => false, roleAdmin := fun _ => .defaultAdmin }
        toConfig := d.config decimalsMultiplier
        toLedgers := .empty
        toTrackers := .empty
        status := 1, now, views, tokens, events := [], calls := [] } :=
    ⟨rfl, rfl, rfl, rfl, rfl, rfl, rfl, rfl, rfl, rfl, rfl, by simp⟩
  have h₁ := ((h₀.internalGrantRole .defaultAdmin d.managerAdmin d.sender).internalGrantRole .managerAdmin
    d.managerAdmin d.sender).internalGrantRole .pauserAdmin d.pauser d.sender
  have h₂ := ((h₁.setRoleAdmin .pauserAdmin .managerAdmin).setRoleAdmin .priceIdSetter .managerAdmin).setRoleAdmin
    .relayer .managerAdmin
  refine ⟨h₂.ledgers, h₂.trackers, h₂.status, h₂.mintFee, h₂.redemptionFee, h₂.subscriptionPaused,
    h₂.redemptionPaused, h₂.offChainSubscriptionPaused, h₂.offChainRedemptionPaused, h₂.epochStartTimestamp, h₂.calls,
    fun e he => ?_⟩
  rcases List.mem_append.mp he with he | he
  · exact h₂.events e he
  · exact List.mem_singleton.mp he ▸ ⟨rfl, .inr (.inr ⟨_, _, rfl⟩)⟩

theorem Fresh.posted (h : Fresh s) {e : Entry} (he : e ∈ s.events) : e.event.posted = false := by
  obtain ⟨-, ⟨_, _, _, h⟩ | ⟨_, _, _, h⟩ | ⟨_, _, h⟩⟩ := h.events e he <;> rw [h] <;> rfl

/-! ### Runs -/

/-- Every run extends the log, by postings from the ledgers it starts with. -/
theorem Reachable.posts_guarded {G : Ledgers → Entry → Prop} (hother : ∀ g e, e.event.posted = false → G g e)
    (hcall : ∀ s t sender call new moved, rules.call s sender call → exec X sender.address call s = .ok t →
      Booked X s t new moved → (∀ e ∈ new, call.Emits sender.address e.event) →
      Trail (fun g e h => Posting s.decimalsMultiplier g e h ∧ G g e) s.toLedgers new t.toLedgers)
    (h : Reachable X rules s) :
    Trail (fun g e h => Posting s.decimalsMultiplier g e h ∧ G g e) .empty s.events s.toLedgers := by
  refine h.invariant (I := fun s =>
    Trail (fun g e h => Posting s.decimalsMultiplier g e h ∧ G g e) .empty s.events s.toLedgers) (fun s hs => ?_)
    (fun s t sender call _ ih hrule hexec => ?_) (fun _ _ ih _ => ih) fun _ _ _ ih _ => ih
  · have hf := hs.fresh
    rw [hf.ledgers]
    exact Trail.of_forall fun e he => ⟨⟨fun _ => none, .other (hf.posted he)⟩, hother _ e (hf.posted he)⟩
  · obtain ⟨new, moved, hb, he⟩ := exec_booked sender.ne_zero hexec
    rw [hb.events, hb.decimalsMultiplier]
    exact ih.append (hcall s t sender call new moved hrule hexec hb he)

theorem Reachable.posts {G : Event → Prop} (hother : ∀ e : Event, e.posted = false → G e)
    (hemits : ∀ s sender call e, rules.call s sender call → call.Emits sender.address e → G e)
    (h : Reachable X rules s) :
    Trail (fun g e h => Posting s.decimalsMultiplier g e h ∧ G e.event) .empty s.events s.toLedgers := by
  refine h.posts_guarded (G := fun _ e => G e.event) (fun _ e => hother e.event) ?_
  intro s t sender call new moved hrule _ hb he
  exact hb.posts.mono fun g e h hmem hp => ⟨⟨_, hp⟩, hemits s sender call e.event hrule (he e hmem)⟩

/-- The entries of a log are in the order of their times, none after the present. -/
theorem Reachable.chronological (h : Reachable X rules s) :
    s.events.Pairwise (fun a b => a.time ≤ b.time) ∧ ∀ e ∈ s.events, e.time ≤ s.now := by
  refine h.invariant (I := fun s => s.events.Pairwise (fun a b => a.time ≤ b.time) ∧ ∀ e ∈ s.events, e.time ≤ s.now)
    (fun s hs => ?_) (fun s t sender call _ ih hrule hexec => ?_) (fun s time ih hlater => ?_) fun _ _ _ ih _ => ih
  · have ht : ∀ e ∈ s.events, e.time = s.now := fun e he => (hs.fresh.events e he).1
    refine ⟨List.pairwise_of_forall_mem_list fun a ha b hb => ?_, fun e he => ht e he ▸ BitVec.le_refl _⟩
    rw [ht a ha, ht b hb]
    exact BitVec.le_refl _
  · obtain ⟨new, moved, hb, -⟩ := exec_booked sender.ne_zero hexec
    rw [hb.events, hb.now]
    refine ⟨List.pairwise_append.mpr ⟨ih.1, List.pairwise_of_forall_mem_list fun a ha b hb' => ?_,
      fun a ha b hb' => ?_⟩, fun e he => ?_⟩
    · rw [hb.stamped a ha, hb.stamped b hb']
      exact BitVec.le_refl _
    · rw [hb.stamped b hb']
      exact ih.2 a ha
    · rcases List.mem_append.mp he with he | he
      · exact ih.2 e he
      · rw [hb.stamped e he]
        exact BitVec.le_refl _
  · exact ⟨ih.1, fun e he => BitVec.le_trans (ih.2 e he) hlater⟩

/-- The calls a run makes to the RWA token are the ones its log tells, in the same order. -/
theorem Reachable.rwaCalls (h : Reachable X rules s) :
    s.calls.filter TokenCall.isRwa = s.events.filterMap (·.event.rwaCall) := by
  refine h.invariant (I := fun s => s.calls.filter TokenCall.isRwa = s.events.filterMap (·.event.rwaCall))
    (fun s hs => ?_) (fun s t sender call _ ih _ hexec => ?_) (fun _ _ ih _ => ih) fun _ _ _ ih _ => ih
  · rw [hs.fresh.calls]
    refine (List.filterMap_eq_nil_iff.mpr fun e he => ?_).symm
    obtain ⟨-, ⟨_, _, _, h⟩ | ⟨_, _, _, h⟩ | ⟨_, _, h⟩⟩ := hs.fresh.events e he <;> rw [h] <;> rfl
  · obtain ⟨new, moved, hb, -⟩ := exec_booked sender.ne_zero hexec
    rw [hb.calls, hb.events, List.filter_append, List.filterMap_append, ih, hb.rwaCalls]

end Usdy
