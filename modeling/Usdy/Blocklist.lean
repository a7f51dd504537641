import Usdy.Lib.Machine
import Usdy.Lib.Checked
import Usdy.Lib.Registry
import Usdy.State

/-! `Blocklist`: a set of accounts, behind an owner who hands over in two steps. `AggregatorBlocklist`: the
    union of the blocklists that are registered with it, behind an owner of the same kind. -/

namespace Usdy
open Checked Function

/-! ### The owner -/

structure Ownable2Step where
  owner : Address
  pendingOwner : Address

namespace Ownable2Step

inductive Err
  | callerIsNotTheOwner
  | callerIsNotTheNewOwner
  deriving DecidableEq

inductive Event
  | ownershipTransferred (previousOwner newOwner : Address)
  | ownershipTransferStarted (previousOwner newOwner : Address)
  deriving DecidableEq

inductive Call
  | transferOwnership (newOwner : Address)
  | acceptOwnership
  | renounceOwnership
  deriving DecidableEq

def onlyOwner (o : Ownable2Step) (caller : Address) : Except Err Unit := revertIf (o.owner ≠ caller) .callerIsNotTheOwner

/-- `_transferOwnership`. -/
def internalTransferOwnership (newOwner : Address) (o : Ownable2Step) : Ownable2Step × Event :=
  (⟨newOwner, 0⟩, .ownershipTransferred o.owner newOwner)

def exec (caller : Address) (call : Call) (o : Ownable2Step) : Except Err (Ownable2Step × Event) :=
  match call with
  | .transferOwnership newOwner => do
    o.onlyOwner caller
    return ({ o with pendingOwner := newOwner }, .ownershipTransferStarted o.owner newOwner)
  | .acceptOwnership => do
    revertIf (o.pendingOwner ≠ caller) .callerIsNotTheNewOwner
    return o.internalTransferOwnership caller
  | .renounceOwnership => do
    o.onlyOwner caller
    return o.internalTransferOwnership 0

end Ownable2Step

/-! ### The blocked accounts -/

namespace Blocklist

inductive Event
  | ownable (event : Ownable2Step.Event)
  | blockedAddressesAdded (accounts : List Address)
  | blockedAddressesRemoved (accounts : List Address)
  deriving DecidableEq

end Blocklist

structure Blocklist extends Ownable2Step where
  blockedAddresses : Address → Bool
  events : List Blocklist.Event

namespace Blocklist

inductive Call
  | addToBlocklist (accounts : List Address)
  | removeFromBlocklist (accounts : List Address)
  | ownable (call : Ownable2Step.Call)
  deriving DecidableEq

def deploy (sender : Address) : Blocklist where
  owner := sender
  pendingOwner := 0
  blockedAddresses := fun _ => false
  events := [.ownable (.ownershipTransferred 0 sender)]

def emit (s : Blocklist) (event : Event) : Blocklist := { s with events := s.events ++ [event] }

/-- What the loops over accounts do. -/
def setBlocked (accounts : List Address) (blocked : Bool) (s : Blocklist) : Blocklist :=
  { s with blockedAddresses := accounts.foldl (fun flags account => update flags account blocked) s.blockedAddresses }

def addToBlocklist (caller : Address) (accounts : List Address) (s : Blocklist) :
    Except Ownable2Step.Err Blocklist := do
  s.onlyOwner caller
  return (s.setBlocked accounts true).emit (.blockedAddressesAdded accounts)

def removeFromBlocklist (caller : Address) (accounts : List Address) (s : Blocklist) :
    Except Ownable2Step.Err Blocklist := do
  s.onlyOwner caller
  return (s.setBlocked accounts false).emit (.blockedAddressesRemoved accounts)

def isBlocked (addr : Address) (s : Blocklist) : Bool := s.blockedAddresses addr

def exec (caller : Address) (call : Call) (s : Blocklist) : Except Ownable2Step.Err Blocklist :=
  match call with
  | .addToBlocklist accounts => addToBlocklist caller accounts s
  | .removeFromBlocklist accounts => removeFromBlocklist caller accounts s
  | .ownable call => do
    let (owners, event) ← s.toOwnable2Step.exec caller call
    return { s with toOwnable2Step := owners }.emit (.ownable event)

end Blocklist

/-! ### The registered blocklists -/

namespace AggregatorBlocklist

inductive Err
  | ownable (e : Ownable2Step.Err)
  | invalidBlocklistAddress
  | blocklistAlreadyExists
  | blocklistDoesNotExist
  -- a registered blocklist reverted
  | externalCall
  deriving DecidableEq

inductive Event
  | ownable (event : Ownable2Step.Event)
  | blocklistAdded (blocklist : Address)
  | blocklistRemoved (blocklist : Address)
  deriving DecidableEq

end AggregatorBlocklist

structure AggregatorBlocklist extends Ownable2Step where
  blocklists : List Address
  blocklistExists : Address → Bool
  events : List AggregatorBlocklist.Event

namespace AggregatorBlocklist

inductive Call
  | addBlocklist (blocklist : Address)
  | removeBlocklist (blocklist : Address)
  | addToBlocklist (accounts : List Address)
  | removeFromBlocklist (accounts : List Address)
  | ownable (call : Ownable2Step.Call)
  deriving DecidableEq

def deploy (sender : Address) : AggregatorBlocklist where
  owner := sender
  pendingOwner := 0
  blocklists := []
  blocklistExists := fun _ => false
  events := [.ownable (.ownershipTransferred 0 sender)]

def emit (s : AggregatorBlocklist) (event : Event) : AggregatorBlocklist := { s with events := s.events ++ [event] }

def addBlocklist (caller blocklist : Address) (s : AggregatorBlocklist) : Except Err AggregatorBlocklist := do
  raise .ownable (s.onlyOwner caller)
  revertIf (blocklist = 0) .invalidBlocklistAddress
  revertIf (s.blocklistExists blocklist = true) .blocklistAlreadyExists
  let s := { s with
    blocklists := s.blocklists ++ [blocklist]
    blocklistExists := update s.blocklistExists blocklist true }
  return s.emit (.blocklistAdded blocklist)

/-- The loop stops at the first place that holds the blocklist; without one it does nothing. -/
def removeBlocklist (caller blocklist : Address) (s : AggregatorBlocklist) : Except Err AggregatorBlocklist := do
  raise .ownable (s.onlyOwner caller)
  revertIf (s.blocklistExists blocklist = false) .blocklistDoesNotExist
  match s.blocklists.findIdx? (· = blocklist) with
  | some i =>
    let s := { s with
      blocklists := Registry.swapPop s.blocklists i
      blocklistExists := update s.blocklistExists blocklist false }
    return s.emit (.blocklistRemoved blocklist)
  | none => return s

/-- Where `isBlocked` is what the registered blocklists answer at the moment. -/
def isBlocked (isBlocked : Address → Address → Option Bool) (addr : Address) (s : AggregatorBlocklist) : Except Err Bool :=
  s.blocklists.anyM fun blocklist => orFail .externalCall (isBlocked blocklist addr)

def exec (caller : Address) (call : Call) (s : AggregatorBlocklist) : Except Err AggregatorBlocklist :=
  match call with
  | .addBlocklist blocklist => addBlocklist caller blocklist s
  | .removeBlocklist blocklist => removeBlocklist caller blocklist s
  -- The aggregator has the functions of a blocklist, and they do nothing.
  | .addToBlocklist _ | .removeFromBlocklist _ => return s
  | .ownable call => do
    let (owners, event) ← raise .ownable (s.toOwnable2Step.exec caller call)
    return { s with toOwnable2Step := owners }.emit (.ownable event)

/-- A call of a sender, as a step of the storage. -/
def act (s : AggregatorBlocklist) (call : Address × Call) : Option AggregatorBlocklist :=
  (exec call.1 call.2 s).toOption

end AggregatorBlocklist

end Usdy
