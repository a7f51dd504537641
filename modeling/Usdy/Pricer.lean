import Usdy.Lib.Checked
import Usdy.Lib.Trail
import Usdy.State

/-! `Pricer`: prices under ids that a counter hands out. A price that was added is never 0 and is never
    removed, so the ids with a price are exactly those handed out. -/

namespace Usdy
open Checked Function

structure PriceInfo where
  price : Uint256
  timestamp : Uint256
  deriving DecidableEq

instance : Zero PriceInfo := ⟨⟨0, 0⟩⟩

structure Pricer extends AccessControl where
  prices : Uint256 → PriceInfo
  priceIds : List Uint256
  currentPriceId : Uint256
  latestPriceId : Uint256

namespace Pricer

def deploy (admin pricer : Address) : Pricer where
  toAccessControl :=
    (({ hasRole := fun _ _ => false, roleAdmin := fun _ => .defaultAdmin } : AccessControl).setRole .defaultAdmin admin
      true).setRole .priceUpdate pricer true
  prices := fun _ => 0
  priceIds := []
  currentPriceId := 0
  latestPriceId := 0

def onlyRole (P : Pricer) (caller : Address) (role : Role) : Except Err Unit :=
  revertIf (P.hasRole role caller = false) (.missingRole caller role)

def getLatestPrice (P : Pricer) : Uint256 := (P.prices P.latestPriceId).price

def getPrice (P : Pricer) (priceId : Uint256) : Uint256 := (P.prices priceId).price

def addPrice (caller : Address) (price timestamp : Uint256) (P : Pricer) : Except Err Pricer := do
  P.onlyRole caller .priceUpdate
  revertIf (price = 0) .invalidPrice
  let priceId ← addOr .arithmetic P.currentPriceId 1
  let P := { P with
    currentPriceId := priceId
    prices := update P.prices priceId ⟨price, timestamp⟩
    priceIds := P.priceIds ++ [priceId] }
  return if timestamp > (P.prices P.latestPriceId).timestamp then { P with latestPriceId := priceId } else P

def updatePrice (caller : Address) (priceId price : Uint256) (P : Pricer) : Except Err Pricer := do
  P.onlyRole caller .priceUpdate
  revertIf (price = 0) .invalidPrice
  revertIf ((P.prices priceId).price = 0) .priceIdDoesNotExist
  return { P with prices := update P.prices priceId ⟨price, (P.prices priceId).timestamp⟩ }

def grantRole (caller : Address) (role : Role) (account : Address) (P : Pricer) : Except Err Pricer := do
  P.onlyRole caller (P.roleAdmin role)
  return { P with toAccessControl := P.toAccessControl.setRole role account true }

def revokeRole (caller : Address) (role : Role) (account : Address) (P : Pricer) : Except Err Pricer := do
  P.onlyRole caller (P.roleAdmin role)
  return { P with toAccessControl := P.toAccessControl.setRole role account false }

def renounceRole (caller : Address) (role : Role) (account : Address) (P : Pricer) : Except Err Pricer := do
  revertIf (account ≠ caller) .renounceForOther
  return { P with toAccessControl := P.toAccessControl.setRole role account false }

inductive Call
  | addPrice (price timestamp : Uint256)
  | updatePrice (priceId price : Uint256)
  | grantRole (role : Role) (account : Address)
  | revokeRole (role : Role) (account : Address)
  | renounceRole (role : Role) (account : Address)

def exec (caller : Address) : Call → Pricer → Except Err Pricer
  | .addPrice price timestamp => Pricer.addPrice caller price timestamp
  | .updatePrice priceId price => Pricer.updatePrice caller priceId price
  | .grantRole role account => Pricer.grantRole caller role account
  | .revokeRole role account => Pricer.revokeRole caller role account
  | .renounceRole role account => Pricer.renounceRole caller role account

/-- A pricer that a run of calls leads to; a call that reverts changes nothing. -/
def Reachable (P : Pricer) : Prop :=
  ∃ admin pricer calls,
    Trail (fun P (call : Address × Call) Q => exec call.1 call.2 P = .ok Q) (deploy admin pricer) calls P

variable {P Q : Pricer}

theorem addPrice_inv {caller : Address} {price timestamp : Uint256} (h : addPrice caller price timestamp P = .ok Q) :
    P.hasRole .priceUpdate caller = true ∧ price ≠ 0 ∧ ∃ priceId latestPriceId,
      priceId.toNat = P.currentPriceId.toNat + 1 ∧
      Q = { P with
        currentPriceId := priceId
        prices := update P.prices priceId ⟨price, timestamp⟩
        priceIds := P.priceIds ++ [priceId]
        latestPriceId } := by
  simp only [addPrice, onlyRole, bind_eq_ok, exists_unit_iff, revertIf_eq_ok, addOr_eq_ok, pure_eq_ok,
    Bool.not_eq_false] at h
  obtain ⟨hrole, hprice, priceId, hid, rfl⟩ := h
  refine ⟨hrole, hprice, priceId, ?_⟩
  split
  · exact ⟨_, hid, rfl⟩
  · exact ⟨_, hid, rfl⟩

theorem updatePrice_inv {caller : Address} {priceId price : Uint256} (h : updatePrice caller priceId price P = .ok Q) :
    P.hasRole .priceUpdate caller = true ∧ price ≠ 0 ∧ P.getPrice priceId ≠ 0 ∧
      Q = { P with prices := update P.prices priceId ⟨price, (P.prices priceId).timestamp⟩ } := by
  simp only [updatePrice, onlyRole, bind_eq_ok, exists_unit_iff, revertIf_eq_ok, pure_eq_ok,
    Bool.not_eq_false] at h
  obtain ⟨hrole, hprice, hold, rfl⟩ := h
  exact ⟨hrole, hprice, hold, rfl⟩

/-- An id has a price exactly when the counter has handed it out. -/
def Priced (P : Pricer) : Prop :=
  ∀ priceId, P.getPrice priceId ≠ 0 ↔ 1 ≤ priceId.toNat ∧ priceId.toNat ≤ P.currentPriceId.toNat

theorem exec_priced {caller : Address} {call : Call} (hP : P.Priced) (h : exec caller call P = .ok Q) : Q.Priced := by
  cases call with
  | addPrice price timestamp =>
    obtain ⟨-, hprice, priceId, latestPriceId, hid, rfl⟩ := addPrice_inv h
    intro id
    by_cases heq : id = priceId
    · subst heq
      simp only [getPrice, update_self]
      exact ⟨fun _ => by omega, fun _ => hprice⟩
    · have hne : id.toNat ≠ priceId.toNat := fun h => heq (BitVec.eq_of_toNat_eq h)
      have := hP id
      simp only [getPrice, update_of_ne heq] at this ⊢
      rw [this]
      omega
  | updatePrice priceId price =>
    obtain ⟨-, hprice, hold, rfl⟩ := updatePrice_inv h
    intro id
    by_cases heq : id = priceId
    · subst heq
      rw [← hP id]
      simp only [getPrice, update_self]
      exact ⟨fun _ => hold, fun _ => hprice⟩
    · rw [← hP id]
      simp only [getPrice, update_of_ne heq]
  | grantRole role account | revokeRole role account =>
    obtain ⟨_, -, h⟩ := bind_eq_ok.mp h
    obtain rfl := pure_eq_ok.mp h
    exact hP
  | renounceRole role account =>
    obtain ⟨_, -, h⟩ := bind_eq_ok.mp h
    obtain rfl := pure_eq_ok.mp h
    exact hP

theorem Reachable.priced (h : P.Reachable) : P.Priced := by
  obtain ⟨admin, pricer, calls, h⟩ := h
  refine h.preserves (fun priceId => ?_) fun P call Q hP hcall => exec_priced hP hcall
  simp only [getPrice, deploy]
  constructor
  · exact fun h => absurd rfl h
  · intro h
    simp at h
    omega

end Pricer

end Usdy
