import Usdy.Theorems.Acceptance
import Usdy.Theorems.Roles

/-! What can still be finished. Whatever happened before, a holder of the default admin role can give itself the
    roles that pricing and unpausing need, and with them complete any deposit or redemption whose amounts the prices
    and the tokens allow. -/

namespace Usdy
open Checked Function State

variable {T : Type} {X : Tokens T} {rules : Rules T} {s t u : State T} {sender rescuer : Sender} {calls calls' : List Call}
  {id : Bytes32} {priceId : Uint256} {after : T}

/-- The calls of the sender succeed one after the other, and lead from one state to the other. -/
def Succeed (X : Tokens T) (sender : Sender) (calls : List Call) (s t : State T) : Prop :=
  calls.foldlM (fun s call => exec X sender.address call s) s = .ok t

namespace Succeed

theorem single {call : Call} (h : exec X sender.address call s = .ok t) : Succeed X sender [call] s t := by
  rw [Succeed, List.foldlM_cons, h]
  rfl

theorem append (h : Succeed X sender calls s u) (h' : Succeed X sender calls' u t) :
    Succeed X sender (calls ++ calls') s t := by
  rw [Succeed, List.foldlM_append, bind_eq_ok]
  exact ⟨u, h, h'⟩

theorem cons {call : Call} (h : exec X sender.address call s = .ok u) (h' : Succeed X sender calls u t) :
    Succeed X sender (call :: calls) s t := (single h).append h'

end Succeed

/-! ### The admin helps itself -/

theorem exec_grantRole (role : Role) (account : Address) (h : s.hasRole (s.roleAdmin role) sender.address = true) :
    ∃ events, exec X sender.address (.grantRole role account) s =
      .ok { s with toAccessControl := s.toAccessControl.setRole role account true, events } := by
  obtain ⟨roles, new, heq, -⟩ := internalGrantRole_inv s role account sender.address
  have hroles : roles = s.toAccessControl.setRole role account true :=
    (congrArg State.toAccessControl heq).symm.trans internalGrantRole_roles
  refine ⟨s.events ++ new, ?_⟩
  rw [← hroles, ← heq]
  simp only [exec, execBy, grantRole, onlyRole, revertIf, h, Bool.true_eq_false, if_false]
  rfl

/-- The roles that the default admin gives itself. -/
def AccessControl.manned (a : AccessControl) (admin : Address) : AccessControl :=
  ((a.setRole .managerAdmin admin true).setRole .priceIdSetter admin true).setRole .timestampSetter admin true

theorem AccessControl.manned_hasRole {a : AccessControl} {admin : Address} {role : Role}
    (h : role = .managerAdmin ∨ role = .priceIdSetter ∨ role = .timestampSetter) :
    (a.manned admin).hasRole role admin = true := by
  rcases h with rfl | rfl | rfl <;> simp [manned, setRole_hasRole]

theorem exists_manned (h : Reachable X rules s) (hadmin : s.hasRole .defaultAdmin rescuer.address = true) :
    ∃ events, Succeed X rescuer [.grantRole .managerAdmin rescuer.address, .grantRole .priceIdSetter rescuer.address,
      .grantRole .timestampSetter rescuer.address] s
      { s with toAccessControl := s.toAccessControl.manned rescuer.address, events } := by
  have hadmins := h.roleAdmin
  have hfirst : s.hasRole (s.roleAdmin .managerAdmin) rescuer.address = true := by rwa [hadmins]
  obtain ⟨events₁, h₁⟩ := exec_grantRole (X := X) .managerAdmin rescuer.address hfirst
  -- the manager admin is the admin of the role that sets price ids
  let s₁ : State T := { s with
    toAccessControl := s.toAccessControl.setRole .managerAdmin rescuer.address true
    events := events₁ }
  have hsecond : s₁.hasRole (s.roleAdmin .priceIdSetter) rescuer.address = true := by
    rw [hadmins, AccessControl.setRole_hasRole, if_pos ⟨rfl, rfl⟩]
  obtain ⟨events₂, h₂⟩ := exec_grantRole (X := X) .priceIdSetter rescuer.address hsecond
  let s₂ : State T := { s₁ with
    toAccessControl := s₁.toAccessControl.setRole .priceIdSetter rescuer.address true
    events := events₂ }
  have hthird : s₂.hasRole (s.roleAdmin .timestampSetter) rescuer.address = true := by
    rw [hadmins, AccessControl.setRole_hasRole, AccessControl.setRole_hasRole]
    simpa [adminOf] using hadmin
  obtain ⟨events₃, h₃⟩ := exec_grantRole (X := X) .timestampSetter rescuer.address hthird
  exact ⟨events₃, .cons h₁ (.cons h₂ (.single h₃))⟩

theorem exec_unpause (call : AdminCall) {config : Config} {event : Event}
    (heq : call.exec rescuer.address s = configure s rescuer.address .managerAdmin (.ok ()) config event)
    (h : s.hasRole .managerAdmin rescuer.address = true) :
    ∃ events, exec X rescuer.address (.admin call) s = .ok { s with toConfig := config, events } := by
  refine ⟨s.events ++ [⟨s.now, event⟩], ?_⟩
  show call.exec rescuer.address s = _
  rw [heq]
  exact configure_eq_ok.mpr ⟨h, rfl, rfl⟩

/-- One price id is set where its pass of the loop succeeds. -/
theorem priceId_single {pass : State T → Bytes32 × Uint256 → Except Err (State T)}
    (h : s.hasRole .priceIdSetter sender.address = true) (hpass : pass s (id, priceId) = .ok t) :
    (do s.onlyRole sender.address .priceIdSetter
        revertIf ([id].length ≠ [priceId].length) .arraySizeMismatch
        ([id].zip [priceId]).foldlM pass s) = .ok t := by
  simp only [bind_eq_ok, exists_unit_iff, onlyRole_eq_ok, revertIf_eq_ok]
  refine ⟨h, by simp, ?_⟩
  show [(id, priceId)].foldlM pass s = _
  rw [List.foldlM_cons, bind_eq_ok]
  exact ⟨t, hpass, rfl⟩

/-! ### Deposits -/

/-- The record gets the price id, unless it has it. -/
theorem exists_priced_deposit (h : s.hasRole .priceIdSetter rescuer.address = true)
    (huser : (s.depositIdToDepositor id).user ≠ 0)
    (hpriced : (s.depositIdToDepositor id).priceId = 0 ∨ (s.depositIdToDepositor id).priceId = priceId) :
    ∃ calls events, calls.length ≤ 1 ∧ Succeed X rescuer calls s { s with
      depositIdToDepositor := update s.depositIdToDepositor id { s.depositIdToDepositor id with priceId }
      events } := by
  rcases hpriced with hnone | rfl
  · exact ⟨[.setPriceIdForDeposits [id] [priceId]], s.events ++ [⟨s.now, .priceIdSetForDeposit id priceId⟩], le_rfl,
      .single (priceId_single h (RWAHub.setPriceIdForDeposit_eq_ok.mpr ⟨huser, hnone, rfl⟩))⟩
  · refine ⟨[], s.events, Nat.zero_le 1, ?_⟩
    rw [update_eq_self]
    rfl

theorem exec_setClaimableTimestamp (h : s.hasRole .timestampSetter rescuer.address = true) :
    exec X rescuer.address (.setClaimableTimestamp s.now [id]) s = .ok { s with
      depositIdToClaimableTimestamp := update s.depositIdToClaimableTimestamp id s.now
      events := s.events ++ [⟨s.now, .claimableTimestampSet s.now id⟩] } := by
  show USDYManager.setClaimableTimestamp rescuer.address s.now [id] s = _
  simp only [USDYManager.setClaimableTimestamp, bind_eq_ok, exists_unit_iff, onlyRole_eq_ok, revertIf_eq_ok]
  exact ⟨h, by simp, rfl⟩

theorem exec_claimMint_single {x : Minting} (hs : s.status ≠ 2) (hpaused : s.subscriptionPaused = false)
    (hx : s.minting id (s.toLedgers.deposit id) = .ok x)
    (hmint : X.mint s.views s.tokens x.user x.rwaOwed = some after) :
    exec X sender.address (.claimMint [id]) s = .ok { s with
      status := 1
      toLedgers := s.toLedgers.minted id
      tokens := after
      calls := s.calls ++ [.mint x.user x.rwaOwed]
      events := s.events ++ [⟨s.now, x.event⟩] } := by
  refine RWAHub.claimMint_eq_ok.mpr ⟨State.moved { s with status := 2 } (s.toLedgers.minted id) after
    (s.calls ++ [.mint x.user x.rwaOwed]) (s.events ++ [⟨s.now, x.event⟩]), hs, hpaused, ?_, rfl⟩
  rw [List.foldlM_cons, bind_eq_ok]
  exact ⟨_, USDYManager.internalClaimMint_eq_ok.mpr ⟨x, after, hx, hmint, rfl⟩, rfl⟩

/-- No deposit is stuck: from every reachable state a default admin can, in the same block and alone, have a deposit
    minted that the contract holds a record of, at the price id of the record or, if it has none, at any. What it takes
    is that the id has a price, that the amount fits, and that the token accepts the mint. -/
theorem deposit_mintable {x : Minting} (h : Reachable X rules s)
    (hadmin : s.hasRole .defaultAdmin rescuer.address = true) (huser : (s.depositIdToDepositor id).user ≠ 0)
    (hpriced : (s.depositIdToDepositor id).priceId = 0 ∨ (s.depositIdToDepositor id).priceId = priceId)
    (hx : s.minting id (s.now, { s.depositIdToDepositor id with priceId }) = .ok x)
    (hmint : X.mint s.views s.tokens x.user x.rwaOwed = some after) :
    ∃ calls t, calls.length ≤ 7 ∧ Succeed X rescuer calls s t ∧ t.toLedgers = s.toLedgers.minted id ∧ t.tokens = after ∧
      t.calls = s.calls ++ [.mint x.user x.rwaOwed] ∧ t.events.getLast? = some ⟨s.now, x.event⟩ := by
  obtain ⟨events₁, h₁⟩ := exists_manned (X := X) h hadmin
  let s₁ : State T := { s with toAccessControl := s.toAccessControl.manned rescuer.address, events := events₁ }
  obtain ⟨events₂, h₂⟩ := exec_unpause (X := X) (s := s₁) .unpauseSubscription rfl
    (AccessControl.manned_hasRole (.inl rfl))
  let s₂ : State T := { s₁ with subscriptionPaused := false, events := events₂ }
  have hpricer : s₂.hasRole .priceIdSetter rescuer.address = true := AccessControl.manned_hasRole (.inr (.inl rfl))
  obtain ⟨calls, events₃, hlength, h₃⟩ := exists_priced_deposit (X := X) hpricer huser hpriced
  let s₃ : State T := { s₂ with
    depositIdToDepositor := update s.depositIdToDepositor id { s.depositIdToDepositor id with priceId }
    events := events₃ }
  let s₄ : State T := { s₃ with
    depositIdToClaimableTimestamp := update s.depositIdToClaimableTimestamp id s.now
    events := events₃ ++ [⟨s.now, .claimableTimestampSet s.now id⟩] }
  have h₄ : exec X rescuer.address (.setClaimableTimestamp s.now [id]) s₃ = .ok s₄ :=
    exec_setClaimableTimestamp (AccessControl.manned_hasRole (.inr (.inr rfl)))
  have hdeposit : s₄.toLedgers.deposit id = (s.now, { s.depositIdToDepositor id with priceId }) :=
    Prod.ext (update_self ..) (update_self ..)
  have hx₄ : s₄.minting id (s₄.toLedgers.deposit id) = .ok x := by
    rw [hdeposit]
    exact hx
  have h₅ : exec X rescuer.address (.claimMint [id]) s₄ = .ok _ := exec_claimMint_single h.not_entered rfl hx₄ hmint
  refine ⟨_, _, ?_, h₁.append (.cons h₂ (h₃.append (.cons h₄ (.single h₅)))), ?_, rfl, rfl, ?_⟩
  · simp only [List.length_append, List.length_cons, List.length_nil]
    omega
  · simp only [Ledgers.minted, s₄, s₃, update_idem]
    rfl
  · exact List.getLast?_concat

namespace Sample

/-- Two deposits without a price, while subscriptions are paused. -/
def awaiting : State (Address → Nat) := run tokens state (history.take 7 ++ [.call admin (.admin .pauseSubscription)])

theorem awaiting_reachable : Reachable tokens .any awaiting :=
  (Reachable.of_deployed state_deployed).run (run_path ((history_allowed.take 7).append ⟨trivial, trivial⟩))

theorem awaiting_minting_isSome : (awaiting.minting 1
    (awaiting.now, { awaiting.depositIdToDepositor 1 with priceId := 1 })).toOption.isSome = true := by
  decide +kernel

end Sample

theorem deposit_mintable_unpriced :
    ∃ calls t, Succeed Sample.tokens Sample.admin calls Sample.awaiting t ∧
      t.toLedgers = Sample.awaiting.toLedgers.minted 1 := by
  have hadmin : Sample.awaiting.hasRole .defaultAdmin Sample.admin.address = true := by decide +kernel
  obtain ⟨calls, t, -, hcalls, hledgers, -⟩ := deposit_mintable Sample.awaiting_reachable hadmin (by decide +kernel)
    (.inl (by decide +kernel)) (eq_ok_get Sample.awaiting_minting_isSome) rfl
  exact ⟨calls, t, hcalls, hledgers⟩

/-! ### Redemptions -/

theorem exists_priced_redemption (h : s.hasRole .priceIdSetter rescuer.address = true)
    (hpriced : (s.redemptionIdToRedeemer id).priceId = 0 ∨ (s.redemptionIdToRedeemer id).priceId = priceId) :
    ∃ calls events, calls.length ≤ 1 ∧ Succeed X rescuer calls s { s with
      redemptionIdToRedeemer := update s.redemptionIdToRedeemer id { s.redemptionIdToRedeemer id with priceId }
      events } := by
  rcases hpriced with hnone | rfl
  · exact ⟨[.setPriceIdForRedemptions [id] [priceId]], s.events ++ [⟨s.now, .priceIdSetForRedemption id priceId⟩],
      le_rfl, .single (priceId_single h (RWAHub.setPriceIdForRedemption_eq_ok.mpr ⟨hnone, rfl⟩))⟩
  · refine ⟨[], s.events, Nat.zero_le 1, ?_⟩
    rw [update_eq_self]
    rfl

/-- What the payout of a single settlement moves: the payment, and the fee unless it is zero. -/
def Settlement.moves (s : State T) (x : Settlement) : List TokenCall :=
  .transferFrom s.assetSender x.user x.paid ::
    if x.fee > 0 then [.transferFrom s.assetSender s.feeRecipient x.fee] else []

theorem exec_claimRedemption_single {x : Settlement} (hs : s.status ≠ 2) (hpaused : s.redemptionPaused = false)
    (hx : s.settlement id (s.redemptionIdToRedeemer id) = .ok x) (hmoves : X.Moves s.views s.tokens (x.moves s) after) :
    exec X sender.address (.claimRedemption [id]) s = .ok { s with
      status := 1
      toLedgers := s.toLedgers.settled id
      tokens := after
      calls := s.calls ++ x.moves s
      events := s.events ++ [⟨s.now, x.event⟩] } := by
  obtain ⟨paid, hpaid, hfee⟩ := Trail.cons_iff.mp hmoves
  refine RWAHub.claimRedemption_eq_ok.mpr ⟨State.moved { s with status := 2 } (s.toLedgers.settled id) paid
    (s.calls ++ [.transferFrom s.assetSender x.user x.paid]) (s.events ++ [⟨s.now, x.event⟩]), x.fee, after, _, hs,
    hpaused, ?_, rfl, hfee, ?_⟩
  · rw [List.foldlM_cons, bind_eq_ok]
    exact ⟨_, RWAHub.settleRedemption_eq_ok.mpr ⟨x, paid, hx, hpaid, by simp, rfl⟩, rfl⟩
  · simp only [Settlement.moves, State.moved, List.append_assoc, List.singleton_append]

/-- The same for redemptions, which take no timestamp: a default admin can have any record settled, in the same block
    and alone, if the user is not blocked, the id has a price, the amounts fit, and the tokens accept the payment and
    the fee. -/
theorem redemption_settleable {x : Settlement} (h : Reachable X rules s)
    (hadmin : s.hasRole .defaultAdmin rescuer.address = true)
    (hpriced : (s.redemptionIdToRedeemer id).priceId = 0 ∨ (s.redemptionIdToRedeemer id).priceId = priceId)
    (hx : s.settlement id { s.redemptionIdToRedeemer id with priceId } = .ok x)
    (hmoves : X.Moves s.views s.tokens (x.moves s) after) :
    ∃ calls t, calls.length ≤ 6 ∧ Succeed X rescuer calls s t ∧ t.toLedgers = s.toLedgers.settled id ∧ t.tokens = after ∧
      t.calls = s.calls ++ x.moves s ∧ t.events.getLast? = some ⟨s.now, x.event⟩ := by
  obtain ⟨events₁, h₁⟩ := exists_manned (X := X) h hadmin
  let s₁ : State T := { s with toAccessControl := s.toAccessControl.manned rescuer.address, events := events₁ }
  obtain ⟨events₂, h₂⟩ := exec_unpause (X := X) (s := s₁) .unpauseRedemption rfl (AccessControl.manned_hasRole (.inl rfl))
  let s₂ : State T := { s₁ with redemptionPaused := false, events := events₂ }
  have hpricer : s₂.hasRole .priceIdSetter rescuer.address = true := AccessControl.manned_hasRole (.inr (.inl rfl))
  obtain ⟨calls, events₃, hlength, h₃⟩ := exists_priced_redemption (X := X) hpricer hpriced
  let s₃ : State T := { s₂ with
    redemptionIdToRedeemer := update s.redemptionIdToRedeemer id { s.redemptionIdToRedeemer id with priceId }
    events := events₃ }
  have hx₃ : s₃.settlement id (s₃.redemptionIdToRedeemer id) = .ok x := by
    have hrecord : s₃.redemptionIdToRedeemer id = { s.redemptionIdToRedeemer id with priceId } := update_self ..
    rw [hrecord]
    exact hx
  have h₄ : exec X rescuer.address (.claimRedemption [id]) s₃ = .ok _ :=
    exec_claimRedemption_single h.not_entered rfl hx₃ hmoves
  refine ⟨_, _, ?_, h₁.append (.cons h₂ (h₃.append (.single h₄))), ?_, rfl, rfl, ?_⟩
  · simp only [List.length_append, List.length_cons, List.length_nil]
    omega
  · simp only [Ledgers.settled, s₃, update_idem]
    rfl
  · exact List.getLast?_concat

namespace Sample

/-- A redemption without a price, while redemptions are paused. -/
def unsettled : State (Address → Nat) := run tokens state (history.take 12 ++ [.call admin (.admin .pauseRedemption)])

theorem unsettled_reachable : Reachable tokens .any unsettled :=
  (Reachable.of_deployed state_deployed).run (run_path ((history_allowed.take 12).append ⟨trivial, trivial⟩))

theorem unsettled_settlement_isSome : (unsettled.settlement 1
    { unsettled.redemptionIdToRedeemer 1 with priceId := 1 }).toOption.isSome = true := by
  decide +kernel

theorem tokens_moves (s : State (Address → Nat)) (x : Settlement) :
    Sample.tokens.Moves s.views s.tokens (x.moves s) s.tokens := by
  refine Trail.of_forall fun call hcall => ?_
  rcases List.mem_cons.mp hcall with rfl | hfee
  · rfl
  · split at hfee
    · obtain rfl := List.mem_singleton.mp hfee
      rfl
    · cases hfee

end Sample

theorem redemption_settleable_unsettled :
    ∃ calls t, Succeed Sample.tokens Sample.admin calls Sample.unsettled t ∧
      t.toLedgers = Sample.unsettled.toLedgers.settled 1 := by
  have hadmin : Sample.unsettled.hasRole .defaultAdmin Sample.admin.address = true := by decide +kernel
  obtain ⟨calls, t, -, hcalls, hledgers, -⟩ := redemption_settleable Sample.unsettled_reachable hadmin
    (.inl (by decide +kernel)) (eq_ok_get Sample.unsettled_settlement_isSome) (Sample.tokens_moves Sample.unsettled _)
  exact ⟨calls, t, hcalls, hledgers⟩

end Usdy
