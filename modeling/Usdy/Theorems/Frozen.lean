import Usdy.Joint
import Usdy.Theorems.Booked
import Usdy.Theorems.Compliance

/-! A blocked account is frozen in the manager and in USDY at once. Some functions of the manager check the
    blocklist themselves; the others mint to the account or burn from it, and fail in the hook of USDY. -/

namespace Usdy
open Checked Function

variable {C : Type} {manager blocklist account : Address}
  {transferFrom : Views → C → Address → Address → Uint256 → Option C} {s t : State (World C)}

/-- The account is blocked by the blocklist that both contracts ask. -/
structure Frozen (blocklist account : Address) (s : State (World C)) : Prop where
  manager : s.blocklist = blocklist
  token : s.tokens.token.blocklist = blocklist
  blocked : s.views.isBlocked blocklist account = some true

/-- Neither contract is pointed to another blocklist, and the account stays blocked. -/
def staysBlocked (blocklist account : Address) : Rules (World C) where
  call _ _ call := ∀ b, call = .admin (.setBlocklist b) → b = blocklist
  world s views w :=
    views.isBlocked blocklist account = some true ∧ tokenMove (fun call => ∀ b, call = .setBlocklist b → b = blocklist) s w

/-! ### USDY -/

theorem not_clear_of_blocked {views : Views} {w : World C} (hlist : w.token.blocklist = blocklist)
    (hblocked : views.isBlocked blocklist account = some true) : ¬USDY.Clear (w.lists views) w.token account := by
  intro h
  have hclear : views.isBlocked w.token.blocklist account = some false := h.1
  rw [hlist, hblocked] at hclear
  cases hclear

theorem World.exec_kept {views : Views} {w w' : World C} {caller : Address} {call : USDY.Call}
    (hcall : ∀ b, call = .setBlocklist b → b = blocklist) (h : w.exec views caller call = some w')
    (hlist : w.token.blocklist = blocklist) (hblocked : views.isBlocked blocklist account = some true) :
    w'.token.blocklist = blocklist ∧ w'.token.balances account = w.token.balances account := by
  obtain ⟨token, htoken, rfl⟩ := World.exec_eq_some.mp h
  refine ⟨?_, USDY.exec_balance htoken (not_clear_of_blocked hlist hblocked)⟩
  cases hm : call.movement caller with
  | some m => exact (USDY.exec_moved hm htoken).blocklist.trans hlist
  | none =>
    rcases (USDY.exec_kept hm htoken).2 with hset | hkept
    · exact hcall _ hset
    · exact hkept.trans hlist

theorem moves_kept {views : Views} {w w' : World C} {moved : List TokenCall}
    (h : (usdyTokens manager transferFrom).Moves views w moved w') (hlist : w.token.blocklist = blocklist)
    (hblocked : views.isBlocked blocklist account = some true) :
    w'.token.blocklist = blocklist ∧ w'.token.balances account = w.token.balances account := by
  refine Trail.preserves (I := fun w' : World C => w'.token.blocklist = blocklist ∧
    w'.token.balances account = w.token.balances account) h ⟨hlist, rfl⟩ fun u call v ih hexec => ?_
  cases call with
  | mint dst amount | burnFrom src amount =>
    obtain ⟨hlist, hbalance⟩ := World.exec_kept (fun b hb => (by cases hb)) hexec ih.1 hblocked
    exact ⟨hlist, hbalance.trans ih.2⟩
  | transferFrom src dst amount =>
    obtain ⟨collateral, -, rfl⟩ := Option.map_eq_some_iff.mp hexec
    exact ih

/-- USDY moves nothing to a blocked account and nothing from it. -/
theorem World.exec_fails {views : Views} {w w' : World C} {caller src dst : Address} {call : USDY.Call}
    (hm : call.movement caller = some (src, dst)) (hends : src = account ∨ dst = account) (ha : account ≠ 0)
    (hlist : w.token.blocklist = blocklist) (hblocked : views.isBlocked blocklist account = some true) :
    w.exec views caller call ≠ some w' := by
  intro h
  obtain ⟨token, htoken, -⟩ := World.exec_eq_some.mp h
  have hmoved := USDY.exec_moved hm htoken
  rcases hends with rfl | rfl
  · exact not_clear_of_blocked hlist hblocked (hmoved.cleared.src ha)
  · exact not_clear_of_blocked hlist hblocked (hmoved.cleared.dst ha)

/-! ### The manager -/

theorem Frozen.checkRestrictions_fails (hs : Frozen blocklist account s) {u : Unit} :
    s.checkRestrictions account ≠ .ok u := by
  intro h
  simp only [State.checkRestrictions, State.isBlocked, bind_eq_ok, orFail_eq_ok, revertIf_eq_ok, hs.manager,
    hs.blocked] at h
  obtain ⟨_, hblocked, h⟩ := h
  cases hblocked
  exact h rfl

theorem AdminCall.exec_blocklist {T : Type} {s t : State T} {caller : Address} {call : AdminCall}
    (h : call.exec caller s = .ok t) : call = .setBlocklist t.blocklist ∨ t.blocklist = s.blocklist := by
  cases call with
  | setBlocklist blocklist =>
    obtain ⟨-, -, rfl⟩ := configure_eq_ok.mp h
    exact .inl rfl
  | _ =>
    obtain ⟨-, -, rfl⟩ := configure_eq_ok.mp h
    exact .inr rfl

theorem exec_blocklist {T : Type} {X : Tokens T} {s t : State T} {sender : Sender} {call : Call}
    (h : exec X sender.address call s = .ok t) :
    call = .admin (.setBlocklist t.blocklist) ∨ t.blocklist = s.blocklist := by
  rcases exec_config sender.ne_zero h with ⟨a, rfl⟩ | hconfig
  · exact (AdminCall.exec_blocklist h).imp_left (congrArg Call.admin)
  · exact .inr (congrArg Config.blocklist hconfig)

theorem Frozen.exec (hs : Frozen blocklist account s) {sender : Sender} {call : Call}
    (hcall : ∀ b, call = .admin (.setBlocklist b) → b = blocklist)
    (h : Usdy.exec (usdyTokens manager transferFrom) sender.address call s = .ok t) :
    Frozen blocklist account t ∧ t.tokens.token.balances account = s.tokens.token.balances account := by
  obtain ⟨new, moved, hbooked, -⟩ := exec_booked sender.ne_zero h
  obtain ⟨hlist, hbalance⟩ := moves_kept hbooked.moves hs.token hs.blocked
  refine ⟨⟨?_, hlist, hbooked.views ▸ hs.blocked⟩, hbalance⟩
  rcases exec_blocklist h with hset | hkept
  · exact hcall _ hset
  · exact hkept.trans hs.manager

theorem Frozen.world (hs : Frozen blocklist account s) {views : Views} {w : World C}
    (hw : (staysBlocked blocklist account).world s views w) :
    Frozen blocklist account { s with views, tokens := w } ∧ w.token.balances account = s.tokens.token.balances account := by
  obtain ⟨hblocked, hsame | ⟨sender, call, u, hcall, hexec, hsame⟩⟩ := hw
  · exact ⟨⟨hs.manager, hsame ▸ hs.token, hblocked⟩, by rw [hsame]⟩
  · obtain ⟨hlist, hbalance⟩ := World.exec_kept hcall hexec hs.token hs.blocked
    exact ⟨⟨hs.manager, hsame ▸ hlist, hblocked⟩, hsame ▸ hbalance⟩

/-! ### What a frozen account cannot do -/

/-- The call is a request or an overwrite for the account, or claims an entry of the account. -/
def Call.serves (s : State (World C)) (account caller : Address) : Call → Prop
  | .requestSubscription _ | .requestRedemption _ | .requestRedemptionServicedOffchain .. => caller = account
  | .requestSubscriptionServicedOffchain user .. | .overwriteDepositor _ user .. | .overwriteRedeemer _ user .. =>
    user = account
  | .claimMint depositIds => ∃ d ∈ depositIds, (s.depositIdToDepositor d).user = account
  | .claimRedemption redemptionIds => ∃ d ∈ redemptionIds, (s.redemptionIdToRedeemer d).user = account
  | _ => False

theorem Frozen.of_status (hs : Frozen blocklist account s) {status : Uint256} :
    Frozen blocklist account { s with status } := ⟨hs.manager, hs.token, hs.blocked⟩

theorem Frozen.claimMint_fails (hs : Frozen blocklist account s) (ha : account ≠ 0) {ids : List Bytes32} {d : Bytes32}
    (hd : d ∈ ids) (huser : (s.depositIdToDepositor d).user = account) :
    USDYManager.claimMint (usdyTokens manager transferFrom) ids s ≠ .ok t := by
  intro h
  obtain ⟨u, -, -, hloop, -⟩ := RWAHub.claimMint_eq_ok.mp h
  have hfails : ∀ s t : State (World C), Frozen blocklist account s ∧ (s.depositIdToDepositor d).user = account →
      USDYManager.internalClaimMint (usdyTokens manager transferFrom) d s ≠ .ok t := by
    rintro s t ⟨hs, huser⟩ h
    obtain ⟨x, tokens, hx, hmint, -⟩ := USDYManager.internalClaimMint_eq_ok.mp h
    obtain ⟨-, -, -, -, -, -, hrecord⟩ := Minting.inv hx
    rw [hrecord] at hmint
    exact World.exec_fails rfl (.inr huser) ha hs.token hs.blocked hmint
  have hstart : Frozen blocklist account { s with status := 2 } := hs.of_status
  refine foldlM_ne_ok (I := fun s => Frozen blocklist account s ∧ (s.depositIdToDepositor d).user = account)
    (fun s e t hs h => ?_) hfails ⟨hstart, huser⟩ hd hloop
  by_cases hde : d = e
  · exact absurd h (hde ▸ hfails s t hs)
  · obtain ⟨x, tokens, -, hmint, rfl⟩ := USDYManager.internalClaimMint_eq_ok.mp h
    obtain ⟨hlist, -⟩ := moves_kept (.single hmint) hs.1.token hs.1.blocked
    have hkept : (s.toLedgers.minted e).depositIdToDepositor d = s.depositIdToDepositor d := update_of_ne hde ..
    exact ⟨⟨hs.1.manager, hlist, hs.1.blocked⟩, hkept ▸ hs.2⟩

theorem Frozen.claimRedemption_fails (hs : Frozen blocklist account s) {ids : List Bytes32} {d : Bytes32} (hd : d ∈ ids)
    (huser : (s.redemptionIdToRedeemer d).user = account) :
    RWAHub.claimRedemption (usdyTokens manager transferFrom) ids s ≠ .ok t := by
  intro h
  obtain ⟨u, fees, -, -, -, -, hloop, -⟩ := RWAHub.claimRedemption_eq_ok.mp h
  have hfails : ∀ x y : State (World C) × Uint256,
      Frozen blocklist account x.1 ∧ (x.1.redemptionIdToRedeemer d).user = account →
      RWAHub.settleRedemption (usdyTokens manager transferFrom) x d ≠ .ok y := by
    rintro ⟨s, fees⟩ ⟨t, fees'⟩ ⟨hs, huser⟩ h
    obtain ⟨x, tokens, hx, -⟩ := RWAHub.settleRedemption_eq_ok.mp h
    exact hs.checkRestrictions_fails (huser ▸ (Settlement.inv hx).1)
  have hstart : Frozen blocklist account { s with status := 2 } := hs.of_status
  refine foldlM_ne_ok (I := fun x : State (World C) × Uint256 =>
    Frozen blocklist account x.1 ∧ (x.1.redemptionIdToRedeemer d).user = account) (fun x e y hs h => ?_) hfails
    ⟨hstart, huser⟩ hd hloop
  by_cases hde : d = e
  · exact absurd h (hde ▸ hfails x y hs)
  · obtain ⟨s, fees⟩ := x
    obtain ⟨t, fees'⟩ := y
    obtain ⟨x, tokens, -, hmove, -, rfl⟩ := RWAHub.settleRedemption_eq_ok.mp h
    obtain ⟨hlist, -⟩ := moves_kept (.single hmove) hs.1.token hs.1.blocked
    have hkept := Ledgers.settled_of_ne (g := s.toLedgers) hde
    exact ⟨⟨hs.1.manager, hlist, hs.1.blocked⟩, hkept ▸ hs.2⟩

theorem Frozen.serves_fails (hs : Frozen blocklist account s) (ha : account ≠ 0) {sender : Sender} {call : Call}
    (hcall : call.serves s account sender.address) :
    Usdy.exec (usdyTokens manager transferFrom) sender.address call s ≠ .ok t := by
  intro h
  cases hr : call.request sender.address with
  | some r =>
    obtain ⟨trackers, -, h⟩ := exec_request_inv hr h
    have hs : Frozen blocklist account { s with toTrackers := trackers } := ⟨hs.manager, hs.token, hs.blocked⟩
    cases call with
    | requestSubscription amount =>
      obtain ⟨fee, after, counter, tokens, moved, -, -, hcheck, -⟩ := RWAHub.requestSubscription_inv h
      exact hs.checkRestrictions_fails (hcall ▸ hcheck)
    | requestSubscriptionServicedOffchain user amount destination =>
      obtain ⟨fee, after, -, -, -, hcheck, -⟩ := RWAHubOffChainRedemptions.requestSubscriptionServicedOffchain_inv h
      exact hs.checkRestrictions_fails (hcall ▸ hcheck)
    | requestRedemption amount =>
      obtain ⟨counter, tokens, -, -, -, -, -, hburn, -⟩ := RWAHub.requestRedemption_inv h
      exact World.exec_fails rfl (.inl hcall) ha hs.token hs.blocked hburn
    | requestRedemptionServicedOffchain amount destination =>
      obtain ⟨counter, tokens, -, -, -, -, -, hburn, -⟩ :=
        RWAHubOffChainRedemptions.requestRedemptionServicedOffchain_inv h
      exact World.exec_fails rfl (.inl hcall) ha hs.token hs.blocked hburn
    | _ => cases hr
  | none =>
    cases call with
    | overwriteDepositor d user amount priceId =>
      obtain ⟨-, hcheck, -⟩ := RWAHub.overwriteDepositor_inv h
      exact hs.checkRestrictions_fails (hcall ▸ hcheck)
    | overwriteRedeemer d user amount priceId =>
      obtain ⟨-, hcheck, -⟩ := RWAHub.overwriteRedeemer_inv h
      exact hs.checkRestrictions_fails (hcall ▸ hcheck)
    | claimMint ids =>
      obtain ⟨d, hd, huser⟩ := hcall
      exact hs.claimMint_fails ha hd huser h
    | claimRedemption ids =>
      obtain ⟨d, hd, huser⟩ := hcall
      exact hs.claimRedemption_fails hd huser h
    | requestSubscription | requestSubscriptionServicedOffchain | requestRedemption
    | requestRedemptionServicedOffchain => cases hr
    | _ => exact hcall.elim

/-- While an account is blocked by the blocklist of both contracts, in any run of the two: its USDY balance stays as
    it is, and no call of the manager that would serve it succeeds. -/
theorem blocked_frozen {acts : List (Action (World C))} (ha : account ≠ 0) (hs : Frozen blocklist account s)
    (h : Run (usdyTokens manager transferFrom) (staysBlocked blocklist account) s acts t) :
    t.tokens.token.balances account = s.tokens.token.balances account ∧
      ∀ (sender : Sender) (call : Call) (u : State (World C)), call.serves t account sender.address →
        exec (usdyTokens manager transferFrom) sender.address call t ≠ .ok u := by
  obtain ⟨hfrozen, hbalance⟩ := h.invariant (I := fun t => Frozen blocklist account t ∧
    t.tokens.token.balances account = s.tokens.token.balances account) ⟨hs, rfl⟩ (fun t u sender call ht hcall hexec => by
      obtain ⟨hfrozen, hbalance⟩ := ht.1.exec hcall hexec
      exact ⟨hfrozen, hbalance.trans ht.2⟩) (fun t time ht _ => ⟨⟨ht.1.manager, ht.1.token, ht.1.blocked⟩, ht.2⟩)
    fun t views w ht hw => by
      obtain ⟨hfrozen, hbalance⟩ := ht.1.world hw
      exact ⟨hfrozen, hbalance.trans ht.2⟩
  exact ⟨hbalance, fun sender call u hcall => hfrozen.serves_fails ha hcall⟩

namespace Sample

/-- The blocklist blocks alice and nobody else. -/
def aliceBlocked : Views := { views with isBlocked := fun _ a => some (decide (a = alice.address)) }

/-- USDY when alice holds 70 and bob 30, beside a collateral whose transfers all succeed. -/
def world : World Unit where
  token := (Machine.run USDY.act ⟨USDY.Sample.token, USDY.Sample.blocking 0⟩ USDY.Sample.before).token
  isAllowed _ _ := some true
  collateral := ()

/-- USDY, with a collateral whose transfers all succeed. -/
def usdy : Tokens (World Unit) := usdyTokens 0xda fun _ collateral _ _ _ => some collateral

theorem deployFrozen_isSome : (deploy deployment 1000 aliceBlocked world).toOption.isSome = true := by
  decide +kernel

/-- The manager deployed over USDY while alice is blocked. -/
def frozenState : State (World Unit) := (deploy deployment 1000 aliceBlocked world).toOption.get deployFrozen_isSome

theorem transfer_isSome : (world.exec aliceBlocked bob.address (.transfer admin.address 10)).isSome = true := by
  decide +kernel

/-- USDY after bob has moved 10 of his tokens. -/
def movedWorld : World Unit := (world.exec aliceBlocked bob.address (.transfer admin.address 10)).get transfer_isSome

-- Bob moves his tokens and subscribes; alice tries to transfer to him and to redeem.
def frozenHistory : List (Action (World Unit)) :=
  [.world aliceBlocked movedWorld, .call bob (.requestSubscription 500), .block 2000, .call alice (.requestRedemption 200)]

end Sample

theorem blocked_frozen_history :
    let t := run Sample.usdy Sample.frozenState Sample.frozenHistory
    (t.tokens.token.balances 0xb = 20 ∧ (t.depositIdToDepositor 1).user = 0xb) ∧ t.tokens.token.balances 0xa = 70 ∧
      ∀ u, exec Sample.usdy 0xa (.requestRedemption 200) t ≠ .ok u := by
  have hfrozen : Frozen 0xc5 Sample.alice.address Sample.frozenState :=
    ⟨by decide +kernel, by decide +kernel, by decide +kernel⟩
  have hallowed : (staysBlocked 0xc5 Sample.alice.address).AllowsAll Sample.usdy Sample.frozenState Sample.frozenHistory := by
    refine ⟨⟨by decide +kernel, .inr ⟨Sample.bob, .transfer Sample.admin.address 10, Sample.movedWorld, ?_, ?_, rfl⟩⟩, ?_,
      ?_, ?_, trivial⟩
    · exact fun b hb => by cases hb
    · exact (Option.some_get Sample.transfer_isSome).symm
    · exact fun b hb => by cases hb
    · unfold Rules.Allows
      decide +kernel
    · exact fun b hb => by cases hb
  obtain ⟨hbalance, hfails⟩ := blocked_frozen Sample.alice.ne_zero hfrozen (run_path hallowed)
  exact ⟨⟨by decide +kernel, by decide +kernel⟩, hbalance.trans (by decide +kernel), fun u =>
    hfails Sample.alice (.requestRedemption 200) u rfl⟩

end Usdy
