import Usdy.Theorems.Passes

/-! Every call that succeeds posts the entries it adds to the log, and the calls it makes to the RWA
    token are the ones its entries tell. From the deployment on, the log of a run is therefore a trail of
    postings from the empty ledgers to the ledgers of the state reached. -/

namespace Usdy
open Function

variable {T : Type} {X : Tokens T} {s t u : State T} {new new' : List Entry} {moved moved' : List TokenCall}

/-- What the operations keep: requests, claims, price ids and timestamps write no configuration. A
    request writes trackers before it starts. -/
structure Kept (s t : State T) : Prop where
  roles : t.toAccessControl = s.toAccessControl
  config : t.toConfig = s.toConfig
  trackers : t.toTrackers = s.toTrackers

/-- What every call does: it adds `new` to the log and `moved` to the token calls, posts the one and
    executes the other. -/
structure Booked (X : Tokens T) (s t : State T) (new : List Entry) (moved : List TokenCall) : Prop where
  now : t.now = s.now
  views : t.views = s.views
  decimalsMultiplier : t.decimalsMultiplier = s.decimalsMultiplier
  events : t.events = s.events ++ new
  calls : t.calls = s.calls ++ moved
  stamped : ∀ e ∈ new, e.time = s.now
  posts : Trail (Posts s.decimalsMultiplier (s.views.getPrice s.pricer)) s.toLedgers new t.toLedgers
  moves : X.Moves s.views s.tokens moved t.tokens
  rwaCalls : moved.filter TokenCall.isRwa = new.filterMap (·.event.rwaCall)

theorem Kept.refl (s : State T) : Kept s s := ⟨rfl, rfl, rfl⟩

theorem Kept.trans (h : Kept s t) (h' : Kept t u) : Kept s u :=
  ⟨h'.roles.trans h.roles, h'.config.trans h.config, h'.trackers.trans h.trackers⟩

namespace Booked

theorem refl (s : State T) : Booked X s s [] [] where
  now := rfl
  views := rfl
  decimalsMultiplier := rfl
  events := (List.append_nil _).symm
  calls := (List.append_nil _).symm
  stamped := by simp
  posts := .nil _
  moves := .nil _
  rwaCalls := rfl

theorem trans (hk : Kept s t) (h : Booked X s t new moved) (h' : Booked X t u new' moved') :
    Booked X s u (new ++ new') (moved ++ moved') where
  now := h'.now.trans h.now
  views := h'.views.trans h.views
  decimalsMultiplier := h'.decimalsMultiplier.trans h.decimalsMultiplier
  events := by rw [h'.events, h.events, List.append_assoc]
  calls := by rw [h'.calls, h.calls, List.append_assoc]
  stamped := fun e he => by
    rcases List.mem_append.mp he with he | he
    · exact h.stamped e he
    · exact (h'.stamped e he).trans h.now
  posts := by
    have hpricer : t.pricer = s.pricer := congrArg Config.pricer hk.config
    have hp := h'.posts
    rw [h.decimalsMultiplier, h.views, hpricer] at hp
    exact h.posts.append hp
  moves := by
    have hm := h'.moves
    rw [h.views] at hm
    exact h.moves.append hm
  rwaCalls := by rw [List.filter_append, List.filterMap_append, h.rwaCalls, h'.rwaCalls]

theorem new_eq (h : Booked X s t new moved) (h' : Booked X s t new' moved') : new = new' :=
  List.append_cancel_left (h.events.symm.trans h'.events)

theorem of_status {a b : Uint256} (h : Booked X { s with status := a } t new moved) :
    Booked X s { t with status := b } new moved :=
  ⟨h.now, h.views, h.decimalsMultiplier, h.events, h.calls, h.stamped, h.posts, h.moves, h.rwaCalls⟩

theorem transfer {tokens : T} (h : Booked X s t new moved) (hm : X.Moves t.views t.tokens moved' tokens)
    (hrwa : moved'.filter TokenCall.isRwa = []) :
    Booked X s { t with tokens, calls := t.calls ++ moved' } new (moved ++ moved') where
  now := h.now
  views := h.views
  decimalsMultiplier := h.decimalsMultiplier
  events := h.events
  calls := by rw [h.calls, List.append_assoc]
  stamped := h.stamped
  posts := h.posts
  moves := by
    rw [h.views] at hm
    exact h.moves.append hm
  rwaCalls := by rw [List.filter_append, hrwa, List.append_nil, h.rwaCalls]

theorem of_trackers {trackers : Trackers} (h : Booked X { s with toTrackers := trackers } t new moved) :
    Booked X s t new moved :=
  ⟨h.now, h.views, h.decimalsMultiplier, h.events, h.calls, h.stamped, h.posts, h.moves, h.rwaCalls⟩

theorem single {event : Event} (now : t.now = s.now) (views : t.views = s.views)
    (multiplier : t.decimalsMultiplier = s.decimalsMultiplier) (tokens : t.tokens = s.tokens)
    (events : t.events = s.events ++ [⟨s.now, event⟩]) (calls : t.calls = s.calls) (hrwa : event.rwaCall = none)
    (posts : Posts s.decimalsMultiplier (s.views.getPrice s.pricer) s.toLedgers ⟨s.now, event⟩ t.toLedgers) :
    Booked X s t [⟨s.now, event⟩] [] where
  now := now
  views := views
  decimalsMultiplier := multiplier
  events := events
  calls := by rw [calls, List.append_nil]
  stamped := by simp
  posts := .single posts
  moves := tokens ▸ .nil _
  rwaCalls := by simp [hrwa]

end Booked

/-- No call moves collateral. -/
def OnlyRwa (moved : List TokenCall) : Prop := ∀ c ∈ moved, c.isRwa = true

theorem OnlyRwa.nil : OnlyRwa [] := by simp [OnlyRwa]

theorem OnlyRwa.single {c : TokenCall} (h : c.isRwa = true) : OnlyRwa [c] := by simpa [OnlyRwa] using h

theorem OnlyRwa.append (h : OnlyRwa moved) (h' : OnlyRwa moved') : OnlyRwa (moved ++ moved') := fun c hc =>
  (List.mem_append.mp hc).elim (h c) (h' c)

/-- A loop whose passes each post one entry, and move no collateral. -/
theorem foldlM_booked {α : Type} {f : State T → α → Except Err (State T)} {E : α → Event → Prop}
    (hf : ∀ s a t, f s a = .ok t →
      ∃ event moved, Kept s t ∧ Booked X s t [⟨s.now, event⟩] moved ∧ OnlyRwa moved ∧ E a event) :
    ∀ {l : List α} {s t : State T}, l.foldlM f s = .ok t →
      ∃ new moved, Kept s t ∧ Booked X s t new moved ∧ OnlyRwa moved ∧ ∀ e ∈ new, ∃ a ∈ l, E a e.event
  | [], s, t, h => by
    obtain rfl := Checked.pure_eq_ok.mp h
    exact ⟨[], [], .refl s, .refl s, .nil, by simp⟩
  | a :: l, s, t, h => by
    rw [List.foldlM_cons, Checked.bind_eq_ok] at h
    obtain ⟨u, hu, h⟩ := h
    obtain ⟨event, moved, hk, hb, hrwa, he⟩ := hf s a u hu
    obtain ⟨new, moved', hk', hb', hrwa', hes⟩ := foldlM_booked hf h
    refine ⟨_, _, hk.trans hk', hb.trans hk hb', hrwa.append hrwa', fun e hmem => ?_⟩
    rcases List.mem_cons.mp hmem with rfl | hmem
    · exact ⟨a, List.mem_cons_self, he⟩
    · obtain ⟨b, hb, he⟩ := hes e hmem
      exact ⟨b, List.mem_cons_of_mem a hb, he⟩

/-! ### Requests -/

section Requests
variable {caller user : Address} {amount : Uint256} {offChainDestination : Bytes32}

theorem requestSubscription_booked (hc : caller ≠ 0) (h : RWAHub.requestSubscription X caller amount s = .ok t) :
    ∃ id after fee moved, Kept s t ∧ Booked X s t [⟨s.now, .mintRequested caller id amount after fee⟩] moved := by
  obtain ⟨fee, after, counter, tokens, moved, -, -, -, -, -, -, hsplit, hnext, hmoved, hmoves, rfl⟩ :=
    RWAHub.requestSubscription_inv h
  refine ⟨s.subscriptionRequestCounter, after, fee, moved, ⟨rfl, rfl, rfl⟩, ⟨rfl, rfl, rfl, rfl, rfl, by simp,
    .single (.mintRequested hc hsplit hnext), hmoves, ?_⟩⟩
  rw [hmoved]
  split <;> rfl

theorem requestSubscriptionServicedOffchain_booked
    (h : RWAHubOffChainRedemptions.requestSubscriptionServicedOffchain caller user amount offChainDestination s =
      .ok t) :
    ∃ after fee, Kept s t ∧ Booked X s t
      [⟨s.now, .subscriptionRequestedServicedOffChain user amount after fee offChainDestination⟩] [] := by
  obtain ⟨fee, after, -, -, -, -, hfree, -, -, -, hsplit, rfl⟩ :=
    RWAHubOffChainRedemptions.requestSubscriptionServicedOffchain_inv h
  exact ⟨after, fee, ⟨rfl, rfl, rfl⟩, .single rfl rfl rfl rfl rfl rfl rfl
    (.subscriptionRequestedServicedOffChain hfree hsplit)⟩

theorem requestRedemption_booked (hc : caller ≠ 0) (h : RWAHub.requestRedemption X caller amount s = .ok t) :
    ∃ id, Kept s t ∧
      Booked X s t [⟨s.now, .redemptionRequested caller id amount⟩] [.burnFrom caller amount] := by
  obtain ⟨counter, tokens, -, -, -, -, hnext, hburn, rfl⟩ := RWAHub.requestRedemption_inv h
  exact ⟨s.redemptionRequestCounter, ⟨rfl, rfl, rfl⟩, ⟨rfl, rfl, rfl, rfl, rfl, by simp,
    .single (.redemptionRequested hc hnext), .single hburn, rfl⟩⟩

theorem requestRedemptionServicedOffchain_booked
    (h : RWAHubOffChainRedemptions.requestRedemptionServicedOffchain X caller amount offChainDestination s =
      .ok t) :
    ∃ id, Kept s t ∧ Booked X s t
      [⟨s.now, .redemptionRequestedServicedOffChain caller id amount offChainDestination⟩]
      [.burnFrom caller amount] := by
  obtain ⟨counter, tokens, -, -, -, -, hnext, hburn, rfl⟩ :=
    RWAHubOffChainRedemptions.requestRedemptionServicedOffchain_inv h
  exact ⟨s.redemptionRequestCounter, ⟨rfl, rfl, rfl⟩, ⟨rfl, rfl, rfl, rfl, rfl, by simp,
    .single (.redemptionRequestedServicedOffChain hnext), .single hburn, rfl⟩⟩

end Requests

/-! ### Claims -/

theorem internalClaimMint_booked {depositId : Bytes32} (h : USDYManager.internalClaimMint X depositId s = .ok t) :
    ∃ event moved, Kept s t ∧ Booked X s t [⟨s.now, event⟩] moved ∧ OnlyRwa moved ∧ event.Mints depositId := by
  obtain ⟨x, tokens, hx, hmint, rfl⟩ := USDYManager.internalClaimMint_eq_ok.mp h
  obtain ⟨hset, hpassed, hpriced, hquote, hpos, hout, hrecord⟩ := Minting.inv hx
  rw [hrecord] at hmint ⊢
  exact ⟨_, _, ⟨rfl, rfl, rfl⟩, ⟨rfl, rfl, rfl, rfl, rfl, by simp,
    .single (.mintCompleted hset hpassed hpriced hquote hpos hout), .single hmint, rfl⟩, .single rfl, rfl⟩

theorem claimMint_booked {ids : List Bytes32} (h : USDYManager.claimMint X ids s = .ok t) :
    ∃ new moved, Kept s t ∧ Booked X s t new moved ∧ OnlyRwa moved ∧ ∀ e ∈ new, ∃ id ∈ ids, e.event.Mints id := by
  obtain ⟨u, -, -, hu, rfl⟩ := RWAHub.claimMint_eq_ok.mp h
  obtain ⟨new, moved, hk, hb, hrwa, he⟩ :=
    foldlM_booked (E := fun id event => event.Mints id) (fun _ _ _ => internalClaimMint_booked) hu
  exact ⟨new, moved, ⟨hk.roles, hk.config, hk.trackers⟩, hb.of_status, hrwa, he⟩

namespace Settlement

/-- A settlement of a later state, where the record and all that the settlement reads are the same. -/
theorem Of.of_kept {x : Settlement} (hk : Kept s t) (hviews : t.views = s.views)
    (hrecord : t.redemptionIdToRedeemer x.redemptionId = s.redemptionIdToRedeemer x.redemptionId) (h : x.Of t) :
    x.Of s where
  user := hrecord ▸ h.user
  burned := hrecord ▸ h.burned
  priced := hrecord ▸ h.priced
  quoted := by
    have hq := h.quoted
    rwa [hrecord, hviews, show t.pricer = s.pricer from congrArg Config.pricer hk.config] at hq
  due := by
    have hd := h.due
    unfold State.getRedemptionAmountForRwa State.scaleDown at hd ⊢
    rwa [show t.decimalsMultiplier = s.decimalsMultiplier from congrArg Config.decimalsMultiplier hk.config] at hd
  fee := by
    have hf := h.fee
    rwa [show t.redemptionFee = s.redemptionFee from congrArg Config.redemptionFee hk.config] at hf
  paid := h.paid

end Settlement

theorem settleRedemption_booked {fees fees' : Uint256} {redemptionId : Bytes32}
    (h : RWAHub.settleRedemption X (s, fees) redemptionId = .ok (t, fees')) :
    ∃ x : Settlement, x.redemptionId = redemptionId ∧ x.Of s ∧ Kept s t ∧
      Booked X s t [⟨s.now, x.event⟩] [.transferFrom s.assetSender x.user x.paid] ∧
      fees'.toNat = fees.toNat + x.fee.toNat ∧
      t.redemptionIdToRedeemer = update s.redemptionIdToRedeemer redemptionId 0 := by
  obtain ⟨x, tokens, hx, hmove, hfees, rfl⟩ := RWAHub.settleRedemption_eq_ok.mp h
  obtain ⟨rfl, hof⟩ := Settlement.of_ok hx
  refine ⟨x, rfl, hof, ⟨rfl, rfl, rfl⟩, ⟨rfl, rfl, rfl, rfl, rfl, by simp, .single ?_, .single hmove, rfl⟩, hfees, rfl⟩
  have hdue := getRedemptionAmountForRwa_inv hof.due
  rw [hof.burned] at hdue
  rw [Settlement.event, hof.user, hof.burned]
  exact .redemptionCompleted hof.priced hof.quoted (Nat.le_trans (Nat.le.intro hof.paid) (Nat.le_of_eq hdue))

/-- The loop of `claimRedemption` settles every id of its list once: a repeated id would meet the record
    that its first settlement deleted. -/
theorem settleRedemptions_booked : ∀ {ids : List Bytes32} {s u : State T} {fees fees' : Uint256},
    ids.foldlM (RWAHub.settleRedemption X) (s, fees) = .ok (u, fees') →
    ∃ xs : List Settlement, xs.map (·.redemptionId) = ids ∧ ids.Nodup ∧ (∀ x ∈ xs, x.Of s) ∧ Kept s u ∧
      Booked X s u (xs.map fun x => ⟨s.now, x.event⟩) (xs.map fun x => .transferFrom s.assetSender x.user x.paid) ∧
      fees'.toNat = fees.toNat + (xs.map (·.fee.toNat)).sum
  | [], s, u, fees, fees', h => by
    rw [List.foldlM_nil, Checked.pure_eq_ok, Prod.mk.injEq] at h
    obtain ⟨rfl, rfl⟩ := h
    exact ⟨[], rfl, List.nodup_nil, by simp, .refl s, .refl s, rfl⟩
  | id :: ids, s, u, fees, fees', h => by
    rw [List.foldlM_cons, Checked.bind_eq_ok] at h
    obtain ⟨⟨t, fees₁⟩, ht, h⟩ := h
    obtain ⟨x, rfl, hx, hk, hb, hfees, hrecords⟩ := settleRedemption_booked ht
    obtain ⟨xs, rfl, hnodup, hxs, hk', hb', hfees'⟩ := settleRedemptions_booked h
    have hne : ∀ y ∈ xs, y.redemptionId ≠ x.redemptionId := fun y hy heq =>
      (hxs y hy).priced (by rw [hrecords, heq, update_self]; rfl)
    refine ⟨x :: xs, rfl, List.nodup_cons.mpr ⟨fun hmem => ?_, hnodup⟩, fun y hy => ?_, hk.trans hk', ?_, ?_⟩
    · obtain ⟨y, hy, heq⟩ := List.mem_map.mp hmem
      exact hne y hy heq
    · rcases List.mem_cons.mp hy with rfl | hy
      · exact hx
      · exact (hxs y hy).of_kept hk hb.views (by rw [hrecords, update_of_ne (hne y hy)])
    · have hb'' := hb.trans hk hb'
      rw [hb.now, show t.assetSender = s.assetSender from congrArg Config.assetSender hk.config] at hb''
      exact hb''
    · rw [hfees', hfees, List.map_cons, List.sum_cons, Nat.add_assoc]

/-- The token calls of `claimRedemption`: a payment to the owner of each redemption, and the fees. -/
def redemptionTransfers (s : State T) (xs : List Settlement) (fees : Uint256) : List TokenCall :=
  (xs.map fun x => .transferFrom s.assetSender x.user x.paid) ++
    if fees > 0 then [.transferFrom s.assetSender s.feeRecipient fees] else []

theorem claimRedemption_booked {ids : List Bytes32} (h : RWAHub.claimRedemption X ids s = .ok t) :
    ∃ (xs : List Settlement) (fees : Uint256), xs.map (·.redemptionId) = ids ∧ ids.Nodup ∧ (∀ x ∈ xs, x.Of s) ∧
      fees.toNat = (xs.map (·.fee.toNat)).sum ∧ Kept s t ∧
      Booked X s t (xs.map fun x => ⟨s.now, x.event⟩) (redemptionTransfers s xs fees) := by
  obtain ⟨u, fees, tokens, moved, -, -, hu, rfl, hmoves, rfl⟩ := RWAHub.claimRedemption_eq_ok.mp h
  obtain ⟨xs, hids, hnodup, hxs, hk, hb, hfees⟩ := settleRedemptions_booked hu
  have hsender : u.assetSender = s.assetSender := congrArg Config.assetSender hk.config
  have hrecipient : u.feeRecipient = s.feeRecipient := congrArg Config.feeRecipient hk.config
  rw [hsender, hrecipient] at hmoves ⊢
  refine ⟨xs, fees, hids, hnodup, fun x hx => ?_, by simpa using hfees, ⟨hk.roles, hk.config, hk.trackers⟩, ?_⟩
  · exact Settlement.Of.of_kept (t := { s with status := 2 }) ⟨rfl, rfl, rfl⟩ rfl rfl (hxs x hx)
  · exact (hb.transfer hmoves (by split <;> rfl)).of_status

/-! ### Price ids and timestamps -/

theorem setPriceIdForDeposit_booked {entry : Bytes32 × Uint256} (h : RWAHub.setPriceIdForDeposit s entry = .ok t) :
    Kept s t ∧ Booked X s t [⟨s.now, .priceIdSetForDeposit entry.1 entry.2⟩] [] := by
  obtain ⟨hknown, hunset, rfl⟩ := RWAHub.setPriceIdForDeposit_eq_ok.mp h
  exact ⟨⟨rfl, rfl, rfl⟩, .single rfl rfl rfl rfl rfl rfl rfl (.priceIdSetForDeposit hknown hunset)⟩

theorem setPriceIdForRedemption_booked {entry : Bytes32 × Uint256}
    (h : RWAHub.setPriceIdForRedemption s entry = .ok t) :
    Kept s t ∧ Booked X s t [⟨s.now, .priceIdSetForRedemption entry.1 entry.2⟩] [] := by
  obtain ⟨hunset, rfl⟩ := RWAHub.setPriceIdForRedemption_eq_ok.mp h
  exact ⟨⟨rfl, rfl, rfl⟩, .single rfl rfl rfl rfl rfl rfl rfl (.priceIdSetForRedemption hunset)⟩

theorem setPriceIdForDeposits_booked {entries : List (Bytes32 × Uint256)}
    (h : entries.foldlM RWAHub.setPriceIdForDeposit s = .ok t) :
    ∃ new moved, Kept s t ∧ Booked X s t new moved ∧ OnlyRwa moved ∧
      ∀ e ∈ new, ∃ entry ∈ entries, e.event = .priceIdSetForDeposit entry.1 entry.2 :=
  foldlM_booked (E := fun entry event => event = .priceIdSetForDeposit entry.1 entry.2) (fun _ _ _ h => by
    obtain ⟨hk, hb⟩ := setPriceIdForDeposit_booked (X := X) h
    exact ⟨_, _, hk, hb, .nil, rfl⟩) h

theorem setPriceIdForRedemptions_booked {entries : List (Bytes32 × Uint256)}
    (h : entries.foldlM RWAHub.setPriceIdForRedemption s = .ok t) :
    ∃ new moved, Kept s t ∧ Booked X s t new moved ∧ OnlyRwa moved ∧
      ∀ e ∈ new, ∃ entry ∈ entries, e.event = .priceIdSetForRedemption entry.1 entry.2 :=
  foldlM_booked (E := fun entry event => event = .priceIdSetForRedemption entry.1 entry.2) (fun _ _ _ h => by
    obtain ⟨hk, hb⟩ := setPriceIdForRedemption_booked (X := X) h
    exact ⟨_, _, hk, hb, .nil, rfl⟩) h

theorem setClaimableTimestamps_booked {claimTimestamp : Uint256} :
    ∀ (ids : List Bytes32) {s : State T}, s.now ≤ claimTimestamp →
      Kept s (ids.foldl (USDYManager.setClaimableTimestampOf claimTimestamp) s) ∧
      Booked X s (ids.foldl (USDYManager.setClaimableTimestampOf claimTimestamp) s)
        (ids.map fun id => ⟨s.now, .claimableTimestampSet claimTimestamp id⟩) []
  | [], s, _ => ⟨.refl s, .refl s⟩
  | id :: ids, s, hlater => by
    have hk : Kept s (USDYManager.setClaimableTimestampOf claimTimestamp s id) := ⟨rfl, rfl, rfl⟩
    have hb : Booked X s (USDYManager.setClaimableTimestampOf claimTimestamp s id)
        [⟨s.now, .claimableTimestampSet claimTimestamp id⟩] [] :=
      .single rfl rfl rfl rfl rfl rfl rfl (.claimableTimestampSet hlater)
    have ih := setClaimableTimestamps_booked ids (s := USDYManager.setClaimableTimestampOf claimTimestamp s id) hlater
    exact ⟨hk.trans ih.1, hb.trans hk ih.2⟩

/-! ### Admin calls and roles -/

theorem AdminCall.exec_booked {caller : Address} {call : AdminCall} (h : call.exec caller s = .ok t) :
    ∃ event, Booked X s t [⟨s.now, event⟩] [] ∧ event.posted = false := by
  obtain ⟨config, event, rfl, hm, hposted⟩ := AdminCall.exec_inv h
  have hrwa : event.rwaCall = none := by
    cases event <;> simp [Event.posted] at hposted <;> rfl
  exact ⟨event, .single rfl rfl hm rfl rfl rfl hrwa (.other hposted), hposted⟩

/-! ### Every call -/

/-- The events a call of the caller emits. -/
def Call.Emits (caller : Address) : Call → Event → Prop
  | .requestSubscription amount, .mintRequested user _ deposited _ _ => user = caller ∧ deposited = amount
  | .requestSubscriptionServicedOffchain user amount offChainDestination,
    .subscriptionRequestedServicedOffChain user' deposited _ _ destination =>
    user' = user ∧ deposited = amount ∧ destination = offChainDestination
  | .requestRedemption amount, .redemptionRequested user _ rwaAmountIn => user = caller ∧ rwaAmountIn = amount
  | .requestRedemptionServicedOffchain amount offChainDestination,
    .redemptionRequestedServicedOffChain user _ rwaTokenAmountIn destination =>
    user = caller ∧ rwaTokenAmountIn = amount ∧ destination = offChainDestination
  | .claimMint depositIds, .mintCompleted _ depositId _ _ _ _ => depositId ∈ depositIds
  | .claimRedemption redemptionIds, .redemptionCompleted _ redemptionId _ _ _ => redemptionId ∈ redemptionIds
  | .setClaimableTimestamp claimTimestamp depositIds, .claimableTimestampSet timestamp depositId =>
    timestamp = claimTimestamp ∧ depositId ∈ depositIds
  | .setPriceIdForDeposits depositIds priceIds, .priceIdSetForDeposit depositId priceId =>
    (depositId, priceId) ∈ depositIds.zip priceIds
  | .setPriceIdForRedemptions redemptionIds priceIds, .priceIdSetForRedemption redemptionId priceId =>
    (redemptionId, priceId) ∈ redemptionIds.zip priceIds
  | .overwriteDepositor depositId user amount priceId, .depositorOverwritten id _ newUser _ newPriceId _ newAmount =>
    id = depositId ∧ newUser = user ∧ newPriceId = priceId ∧ newAmount = amount
  | .overwriteRedeemer redemptionId user amount priceId, .redeemerOverwritten id _ newUser _ newPriceId _ newAmount =>
    id = redemptionId ∧ newUser = user ∧ newPriceId = priceId ∧ newAmount = amount
  | .grantRole role account, e => e = .roleGranted role account caller
  | .revokeRole role account, e => e = .roleRevoked role account caller
  | .renounceRole role account, e => e = .roleRevoked role account caller
  | .admin _, e => e.posted = false
  | _, _ => False

variable {caller : Address} {call : Call}

/-- The calls that move collateral. -/
def Call.paysCollateral : Call → Bool
  | .requestSubscription _ => true
  | .claimRedemption _ => true
  | _ => false

theorem serve_booked (hc : caller ≠ 0) {r : Request} (hr : call.request caller = some r)
    (h : call.serve X caller s = .ok t) :
    ∃ event moved, Kept s t ∧ Booked X s t [⟨s.now, event⟩] moved ∧
      (call.paysCollateral = false → OnlyRwa moved) ∧ call.Emits caller event ∧ event.request = some r := by
  cases call with
  | requestSubscription amount =>
    obtain ⟨id, after, fee, moved, hk, hb⟩ := requestSubscription_booked hc h
    exact ⟨_, moved, hk, hb, fun h => (by cases h), ⟨rfl, rfl⟩, hr⟩
  | requestSubscriptionServicedOffchain user amount destination =>
    obtain ⟨after, fee, hk, hb⟩ := requestSubscriptionServicedOffchain_booked h
    exact ⟨_, _, hk, hb, fun _ => .nil, ⟨rfl, rfl, rfl⟩, hr⟩
  | requestRedemption amount =>
    obtain ⟨id, hk, hb⟩ := requestRedemption_booked hc h
    exact ⟨_, _, hk, hb, fun _ => .single rfl, ⟨rfl, rfl⟩, hr⟩
  | requestRedemptionServicedOffchain amount destination =>
    obtain ⟨id, hk, hb⟩ := requestRedemptionServicedOffchain_booked h
    exact ⟨_, _, hk, hb, fun _ => .single rfl, ⟨rfl, rfl, rfl⟩, hr⟩
  | _ => cases hr

/-- A request that succeeds passed its limits, which wrote the trackers, and posted one entry. -/
theorem exec_request_booked (hc : caller ≠ 0) {r : Request} (hr : call.request caller = some r)
    (h : exec X caller call s = .ok t) :
    ∃ event moved trackers, r.side.checkLimits r.account r.amount s = .ok { s with toTrackers := trackers } ∧
      Kept { s with toTrackers := trackers } t ∧ Booked X s t [⟨s.now, event⟩] moved ∧
      (call.paysCollateral = false → OnlyRwa moved) ∧ call.Emits caller event ∧ event.request = some r := by
  obtain ⟨trackers, hlimits, h⟩ := exec_request_inv hr h
  obtain ⟨event, moved, hk, hb, hrwa, he, hr⟩ := serve_booked hc hr h
  exact ⟨event, moved, trackers, hlimits, hk, hb.of_trackers, hrwa, he, hr⟩

/-- What a successful call does: it books its entries, each one that it emits, and leaves the rest alone.
    Two kinds of calls move collateral, only requests write the trackers, and only admin calls write the
    configuration. -/
structure Effect (X : Tokens T) (caller : Address) (call : Call) (s t : State T) (new : List Entry)
    (moved : List TokenCall) : Prop extends Booked X s t new moved where
  emits : ∀ e ∈ new, call.Emits caller e.event
  onlyRwa : call.paysCollateral = false → OnlyRwa moved
  trackers : call.request caller = none → t.toTrackers = s.toTrackers
  config : (∃ a, call = .admin a) ∨ t.toConfig = s.toConfig

theorem Kept.effect (hk : Kept s t) (hb : Booked X s t new moved) (hrwa : call.paysCollateral = false → OnlyRwa moved)
    (he : ∀ e ∈ new, call.Emits caller e.event) : Effect X caller call s t new moved :=
  ⟨hb, he, hrwa, fun _ => hk.trackers, .inr hk.config⟩

theorem roles_effect {event : Event} (hposted : event.posted = false) (hrwa : event.rwaCall = none)
    (hemits : call.Emits caller event)
    (h : ∃ roles new, t = { s with toAccessControl := roles, events := s.events ++ new } ∧
      ∀ e ∈ new, e = ⟨s.now, event⟩) :
    ∃ new moved, Effect X caller call s t new moved := by
  obtain ⟨roles, new, rfl, hnew⟩ := h
  refine ⟨new, [], ⟨rfl, rfl, rfl, rfl, (List.append_nil _).symm, fun e he => hnew e he ▸ rfl, ?_, .nil _, ?_⟩,
    fun e he => hnew e he ▸ hemits, fun _ => .nil, fun _ => rfl, .inr rfl⟩
  · refine Trail.of_forall fun e he => .other ?_
    rw [hnew e he, hposted]
  · refine (List.filterMap_eq_nil_iff.mpr fun e he => ?_).symm
    rw [hnew e he, hrwa]

theorem exec_effect (hc : caller ≠ 0) (h : exec X caller call s = .ok t) :
    ∃ new moved, Effect X caller call s t new moved := by
  cases hr : call.request caller with
  | some r =>
    obtain ⟨event, moved, trackers, -, hk, hb, hrwa, he, -⟩ := exec_request_booked hc hr h
    exact ⟨_, moved, hb, by simpa using he, hrwa, fun hnone => (by rw [hr] at hnone; cases hnone), .inr hk.config⟩
  | none =>
    cases call with
    | claimMint ids =>
      obtain ⟨new, moved, hk, hb, hrwa, he⟩ := claimMint_booked h
      refine ⟨new, moved, hk.effect hb (fun _ => hrwa) fun e hmem => ?_⟩
      obtain ⟨id, hid, hmints⟩ := he e hmem
      obtain ⟨user, out, amount, price, priceId, hevent⟩ := hmints.eq
      rw [hevent]
      exact hid
    | claimRedemption ids =>
      obtain ⟨xs, fees, rfl, -, -, -, hk, hb⟩ := claimRedemption_booked h
      refine ⟨_, _, hk.effect hb (fun h => (by cases h)) fun e he => ?_⟩
      obtain ⟨x, hx, rfl⟩ := List.mem_map.mp he
      exact List.mem_map_of_mem hx
    | setClaimableTimestamp claimTimestamp ids =>
      obtain ⟨-, hlater, rfl⟩ := USDYManager.setClaimableTimestamp_inv h
      obtain ⟨hk, hb⟩ := setClaimableTimestamps_booked (X := X) ids hlater
      refine ⟨_, _, hk.effect hb (fun _ => .nil) fun e he => ?_⟩
      obtain ⟨id, hid, rfl⟩ := List.mem_map.mp he
      exact ⟨rfl, hid⟩
    | setPriceIdForDeposits ids priceIds =>
      obtain ⟨-, -, h⟩ := RWAHub.setPriceIdForDeposits_inv h
      obtain ⟨new, moved, hk, hb, hrwa, he⟩ := setPriceIdForDeposits_booked (X := X) h
      refine ⟨new, moved, hk.effect hb (fun _ => hrwa) fun e hmem => ?_⟩
      obtain ⟨entry, hentry, hevent⟩ := he e hmem
      rw [hevent]
      exact hentry
    | setPriceIdForRedemptions ids priceIds =>
      obtain ⟨-, -, h⟩ := RWAHub.setPriceIdForRedemptions_inv h
      obtain ⟨new, moved, hk, hb, hrwa, he⟩ := setPriceIdForRedemptions_booked (X := X) h
      refine ⟨new, moved, hk.effect hb (fun _ => hrwa) fun e hmem => ?_⟩
      obtain ⟨entry, hentry, hevent⟩ := he e hmem
      rw [hevent]
      exact hentry
    | overwriteDepositor id user amount priceId =>
      obtain ⟨-, -, rfl⟩ := RWAHub.overwriteDepositor_inv h
      refine ⟨_, _, .single rfl rfl rfl rfl rfl rfl rfl .depositorOverwritten, fun e he => ?_, fun _ => .nil, fun _ => rfl,
        .inr rfl⟩
      obtain rfl := List.mem_singleton.mp he
      exact ⟨rfl, rfl, rfl, rfl⟩
    | overwriteRedeemer id user amount priceId =>
      obtain ⟨-, -, rfl⟩ := RWAHub.overwriteRedeemer_inv h
      refine ⟨_, _, .single rfl rfl rfl rfl rfl rfl rfl .redeemerOverwritten, fun e he => ?_, fun _ => .nil, fun _ => rfl,
        .inr rfl⟩
      obtain rfl := List.mem_singleton.mp he
      exact ⟨rfl, rfl, rfl, rfl⟩
    | grantRole role account =>
      obtain ⟨-, rfl⟩ := grantRole_inv h
      exact roles_effect rfl rfl rfl (internalGrantRole_inv s role account caller)
    | revokeRole role account =>
      obtain ⟨-, rfl⟩ := revokeRole_inv h
      exact roles_effect rfl rfl rfl (internalRevokeRole_inv s role account caller)
    | renounceRole role account =>
      obtain ⟨-, rfl⟩ := renounceRole_inv h
      exact roles_effect rfl rfl rfl (internalRevokeRole_inv s role account caller)
    | admin call =>
      obtain ⟨event, hb, hposted⟩ := AdminCall.exec_booked (X := X) h
      obtain ⟨config, event', rfl, -⟩ := AdminCall.exec_inv h
      exact ⟨_, _, hb, fun e he => List.mem_singleton.mp he ▸ hposted, fun _ => .nil, fun _ => rfl, .inl ⟨call, rfl⟩⟩
    | _ => cases hr

theorem exec_booked (hc : caller ≠ 0) (h : exec X caller call s = .ok t) :
    ∃ new moved, Booked X s t new moved ∧ ∀ e ∈ new, call.Emits caller e.event := by
  obtain ⟨new, moved, heffect⟩ := exec_effect hc h
  exact ⟨new, moved, heffect.toBooked, heffect.emits⟩

theorem exec_config (hc : caller ≠ 0) (h : exec X caller call s = .ok t) :
    (∃ a, call = .admin a) ∨ t.toConfig = s.toConfig := by
  obtain ⟨new, moved, heffect⟩ := exec_effect hc h
  exact heffect.config

end Usdy
