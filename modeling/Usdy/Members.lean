import Usdy.EnumerableSet
import Usdy.Step

/-! `AccessControlEnumerable`, as the manager inherits it: with each role goes the set of its members, which
    granting adds to and revoking removes from, also where neither changes the role. -/

namespace Usdy
open Checked Function

variable {T : Type}

/-- The manager's storage with `_roleMembers`. -/
structure Enumerable (T : Type) extends State T where
  roleMembers : Role → EnumerableSet Address

namespace Enumerable

inductive Err
  | manager (e : Usdy.Err)
  | enumerableSet (e : EnumerableSet.Err)
  deriving DecidableEq

def getRoleMember (role : Role) (index : Nat) (e : Enumerable T) : Except EnumerableSet.Err Address :=
  (e.roleMembers role).atIndex index

def getRoleMemberCount (role : Role) (e : Enumerable T) : Nat := (e.roleMembers role).length

/-- `_grantRole`. -/
def internalGrantRole (role : Role) (account sender : Address) (e : Enumerable T) : Enumerable T :=
  { toState := e.toState.internalGrantRole role account sender
    roleMembers := update e.roleMembers role ((e.roleMembers role).add account).1 }

/-- `_revokeRole`. -/
def internalRevokeRole (role : Role) (account sender : Address) (e : Enumerable T) : Except Err (Enumerable T) := do
  let (set, _) ← raise .enumerableSet ((e.roleMembers role).remove account)
  return { toState := e.toState.internalRevokeRole role account sender
           roleMembers := update e.roleMembers role set }

def grantRole (caller : Address) (role : Role) (account : Address) (e : Enumerable T) : Except Err (Enumerable T) := do
  raise .manager (e.onlyRole caller (e.roleAdmin role))
  return e.internalGrantRole role account caller

def revokeRole (caller : Address) (role : Role) (account : Address) (e : Enumerable T) : Except Err (Enumerable T) := do
  raise .manager (e.onlyRole caller (e.roleAdmin role))
  e.internalRevokeRole role account caller

def renounceRole (caller : Address) (role : Role) (account : Address) (e : Enumerable T) :
    Except Err (Enumerable T) := do
  raise .manager (revertIf (account ≠ caller) .renounceForOther)
  e.internalRevokeRole role account caller

/-- The constructor: the members of the three roles it grants. -/
def deploy (d : Deployment) (now : Uint256) (views : Views) (tokens : T) : Except Usdy.Err (Enumerable T) := do
  let s ← Usdy.deploy d now views tokens
  let roleMembers : Role → EnumerableSet Address := fun _ => .empty
  let roleMembers := update roleMembers .defaultAdmin ((roleMembers .defaultAdmin).add d.managerAdmin).1
  let roleMembers := update roleMembers .managerAdmin ((roleMembers .managerAdmin).add d.managerAdmin).1
  let roleMembers := update roleMembers .pauserAdmin ((roleMembers .pauserAdmin).add d.pauser).1
  return { toState := s, roleMembers }

variable (X : Tokens T)

def exec (caller : Address) (call : Call) (e : Enumerable T) : Except Err (Enumerable T) :=
  match call with
  | .grantRole role account => e.grantRole caller role account
  | .revokeRole role account => e.revokeRole caller role account
  | .renounceRole role account => e.renounceRole caller role account
  | call => do
    let s ← raise .manager (Usdy.exec X caller call e.toState)
    return { e with toState := s }

/-- The step an action takes, as `Usdy.step` says it for the manager without members. -/
def step (e : Enumerable T) : Action T → Enumerable T
  | .call sender call =>
    match exec X sender.address call e with
    | .ok t => t
    | .error _ => e
  | .block time => if e.now ≤ time then { e with now := time } else e
  | .world views tokens => { e with views, tokens }

def run (e : Enumerable T) (acts : List (Action T)) : Enumerable T := acts.foldl (step X) e

end Enumerable

end Usdy
