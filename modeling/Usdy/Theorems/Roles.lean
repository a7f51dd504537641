import Usdy.Theorems.Booked

/-! The roles of the manager: which role a call demands of its sender, and what a call that succeeds does to the
    roles. Only grants, revocations and renunciations write them, and no call writes the admin of a role. -/

namespace Usdy
open Checked Function State

variable {T : Type} {X : Tokens T} {rules : Rules T} {s s₀ t : State T} {caller account sender : Address} {role : Role}
  {call : Call} {acts : List (Action T)}

/-! ### Writing a role -/

namespace AccessControl
variable {a : AccessControl} {granted : Bool}

theorem setRole_hasRole (r : Role) (b : Address) :
    (a.setRole role account granted).hasRole r b = if r = role ∧ b = account then granted else a.hasRole r b := by
  show update a.hasRole role (update (a.hasRole role) account granted) r b = _
  by_cases hr : r = role
  · subst hr
    rw [update_self]
    by_cases hb : b = account
    · subst hb
      rw [update_self, if_pos ⟨rfl, rfl⟩]
    · rw [update_of_ne hb, if_neg fun h => hb h.2]
  · rw [update_of_ne hr, if_neg fun h => hr h.1]

theorem setRole_of_eq (h : a.hasRole role account = granted) : a.setRole role account granted = a := by
  rw [setRole, ← h, update_eq_self, update_eq_self]

end AccessControl

theorem internalGrantRole_roles :
    (s.internalGrantRole role account sender).toAccessControl = s.toAccessControl.setRole role account true := by
  unfold internalGrantRole
  split
  · rename_i h
    exact (AccessControl.setRole_of_eq h).symm
  · rfl

theorem internalRevokeRole_roles :
    (s.internalRevokeRole role account sender).toAccessControl = s.toAccessControl.setRole role account false := by
  unfold internalRevokeRole
  split
  · rfl
  · rename_i h
    exact (AccessControl.setRole_of_eq (Bool.not_eq_true _ ▸ h)).symm

/-- What a call does to the roles when it succeeds. -/
def Call.setRoles (a : AccessControl) : Call → AccessControl
  | .grantRole role account => a.setRole role account true
  | .revokeRole role account => a.setRole role account false
  | .renounceRole role account => a.setRole role account false
  | _ => a

theorem exec_roles (hc : caller ≠ 0) (h : exec X caller call s = .ok t) :
    t.toAccessControl = call.setRoles s.toAccessControl := by
  cases hr : call.request caller with
  | some r =>
    obtain ⟨event, moved, trackers, -, hk, -⟩ := exec_request_booked hc hr h
    have hroles : t.toAccessControl = s.toAccessControl := hk.roles
    cases call <;> first | exact hroles | cases hr
  | none =>
    cases call with
    | claimMint ids =>
      obtain ⟨new, moved, hk, -⟩ := claimMint_booked h
      exact hk.roles
    | claimRedemption ids =>
      obtain ⟨xs, fees, -, -, -, -, hk, -⟩ := claimRedemption_booked h
      exact hk.roles
    | setClaimableTimestamp claimTimestamp ids =>
      obtain ⟨-, hlater, rfl⟩ := USDYManager.setClaimableTimestamp_inv h
      exact (setClaimableTimestamps_booked (X := X) ids hlater).1.roles
    | setPriceIdForDeposits ids priceIds =>
      obtain ⟨-, -, h⟩ := RWAHub.setPriceIdForDeposits_inv h
      obtain ⟨new, moved, hk, -⟩ := setPriceIdForDeposits_booked (X := X) h
      exact hk.roles
    | setPriceIdForRedemptions ids priceIds =>
      obtain ⟨-, -, h⟩ := RWAHub.setPriceIdForRedemptions_inv h
      obtain ⟨new, moved, hk, -⟩ := setPriceIdForRedemptions_booked (X := X) h
      exact hk.roles
    | overwriteDepositor id user amount priceId =>
      obtain ⟨-, -, rfl⟩ := RWAHub.overwriteDepositor_inv h
      rfl
    | overwriteRedeemer id user amount priceId =>
      obtain ⟨-, -, rfl⟩ := RWAHub.overwriteRedeemer_inv h
      rfl
    | grantRole role account =>
      obtain ⟨-, rfl⟩ := grantRole_inv h
      exact internalGrantRole_roles
    | revokeRole role account =>
      obtain ⟨-, rfl⟩ := revokeRole_inv h
      exact internalRevokeRole_roles
    | renounceRole role account =>
      obtain ⟨-, rfl⟩ := renounceRole_inv h
      exact internalRevokeRole_roles
    | admin call =>
      obtain ⟨config, event, rfl, -⟩ := AdminCall.exec_inv h
      rfl
    | _ => cases hr

/-! ### The role a call demands -/

/-- The role that a setter asks for. -/
def AdminCall.demanded : AdminCall → Role
  | .pauseSubscription | .pauseRedemption | .pauseOffChainRedemption | .pauseOffChainSubscription => .pauserAdmin
  | _ => .managerAdmin

/-- The role that a call asks for, when it asks for one. -/
def Call.demanded (a : AccessControl) : Call → Option Role
  | .requestSubscriptionServicedOffchain .. => some .relayer
  | .setClaimableTimestamp .. => some .timestampSetter
  | .setPriceIdForDeposits .. | .setPriceIdForRedemptions .. => some .priceIdSetter
  | .overwriteDepositor .. | .overwriteRedeemer .. => some .managerAdmin
  | .grantRole role _ | .revokeRole role _ => some (a.roleAdmin role)
  | .admin call => some call.demanded
  | _ => none

theorem exec_hasRole (h : exec X caller call s = .ok t) (hrole : call.demanded s.toAccessControl = some role) :
    s.hasRole role caller = true := by
  cases call with
  | requestSubscriptionServicedOffchain user amount destination =>
    cases hrole
    obtain ⟨trackers, -, h⟩ := exec_request_inv rfl h
    obtain ⟨fee, after, -, hrole, -⟩ := RWAHubOffChainRedemptions.requestSubscriptionServicedOffchain_inv h
    exact hrole
  | setClaimableTimestamp claimTimestamp ids =>
    cases hrole
    exact (USDYManager.setClaimableTimestamp_inv h).1
  | setPriceIdForDeposits ids priceIds =>
    cases hrole
    exact (RWAHub.setPriceIdForDeposits_inv h).1
  | setPriceIdForRedemptions ids priceIds =>
    cases hrole
    exact (RWAHub.setPriceIdForRedemptions_inv h).1
  | overwriteDepositor id user amount priceId =>
    cases hrole
    exact (RWAHub.overwriteDepositor_inv h).1
  | overwriteRedeemer id user amount priceId =>
    cases hrole
    exact (RWAHub.overwriteRedeemer_inv h).1
  | grantRole role account =>
    cases hrole
    exact (grantRole_inv h).1
  | revokeRole role account =>
    cases hrole
    exact (revokeRole_inv h).1
  | admin call =>
    cases hrole
    cases call <;> exact (configure_eq_ok.mp h).1
  | _ => cases hrole

/-! ### The admins of the roles -/

theorem exec_roleAdmin (hc : caller ≠ 0) (h : exec X caller call s = .ok t) : t.roleAdmin = s.roleAdmin := by
  have hroles : t.roleAdmin = (call.setRoles s.toAccessControl).roleAdmin := congrArg AccessControl.roleAdmin (exec_roles hc h)
  rw [hroles]
  cases call <;> rfl

/-- The admins of the roles are those that the constructor sets. -/
def adminOf : Role → Role
  | .pauserAdmin | .priceIdSetter | .relayer => .managerAdmin
  | _ => .defaultAdmin

theorem Deployed.roleAdmin (h : Deployed s) : s.roleAdmin = adminOf := by
  obtain ⟨d, now, views, tokens, h⟩ := h
  simp only [deploy, bind_eq_ok, exists_unit_iff, revertIf_eq_ok, pure_eq_ok] at h
  obtain ⟨-, -, -, -, -, -, -, decimalsMultiplier, -, -, rfl⟩ := h
  simp only [setRoleAdmin, emit, internalGrantRole_roles]
  funext role
  cases role <;> rfl

theorem Reachable.roleAdmin (h : Reachable X rules s) : s.roleAdmin = adminOf :=
  h.invariant (fun _ => Deployed.roleAdmin) (fun _ _ sender _ _ ih _ hexec => (exec_roleAdmin sender.ne_zero hexec).trans ih)
    (fun _ _ ih _ => ih) fun _ _ _ ih _ => ih

end Usdy
