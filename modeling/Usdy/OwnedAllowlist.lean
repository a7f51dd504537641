import Usdy.Blocklist

/-! `Allowlist`: the accounts that an owner lets in. It is to the token what `AllowlistUpgradeable` is, with an owner in
    place of terms and signatures. -/

namespace Usdy
open Checked Function

namespace Allowlist

inductive Event
  | ownable (event : Ownable2Step.Event)
  | allowedAddressesAdded (accounts : List Address)
  | allowedAddressesRemoved (accounts : List Address)
  deriving DecidableEq

end Allowlist

structure Allowlist extends Ownable2Step where
  allowedAddresses : Address → Bool
  events : List Allowlist.Event

namespace Allowlist

inductive Call
  | addToAllowlist (accounts : List Address)
  | removeFromAllowlist (accounts : List Address)
  | ownable (call : Ownable2Step.Call)
  deriving DecidableEq

def deploy (sender : Address) : Allowlist where
  owner := sender
  pendingOwner := 0
  allowedAddresses := fun _ => false
  events := [.ownable (.ownershipTransferred 0 sender)]

def emit (s : Allowlist) (event : Event) : Allowlist := { s with events := s.events ++ [event] }

/-- What the loops over accounts do. -/
def setAllowed (accounts : List Address) (allowed : Bool) (s : Allowlist) : Allowlist :=
  { s with allowedAddresses := accounts.foldl (fun flags account => update flags account allowed) s.allowedAddresses }

def addToAllowlist (caller : Address) (accounts : List Address) (s : Allowlist) :
    Except Ownable2Step.Err Allowlist := do
  s.onlyOwner caller
  return (s.setAllowed accounts true).emit (.allowedAddressesAdded accounts)

def removeFromAllowlist (caller : Address) (accounts : List Address) (s : Allowlist) :
    Except Ownable2Step.Err Allowlist := do
  s.onlyOwner caller
  return (s.setAllowed accounts false).emit (.allowedAddressesRemoved accounts)

def isAllowed (addr : Address) (s : Allowlist) : Bool := s.allowedAddresses addr

def exec (caller : Address) (call : Call) (s : Allowlist) : Except Ownable2Step.Err Allowlist :=
  match call with
  | .addToAllowlist accounts => addToAllowlist caller accounts s
  | .removeFromAllowlist accounts => removeFromAllowlist caller accounts s
  | .ownable call => do
    let (owners, event) ← s.toOwnable2Step.exec caller call
    return { s with toOwnable2Step := owners }.emit (.ownable event)

/-- A call of a sender, as a step of the storage. -/
def act (s : Allowlist) (call : Address × Call) : Option Allowlist := (exec call.1 call.2 s).toOption

end Allowlist

/-- A call of a sender, as a step of the storage. -/
def Blocklist.act (s : Blocklist) (call : Address × Blocklist.Call) : Option Blocklist :=
  (Blocklist.exec call.1 call.2 s).toOption

end Usdy
