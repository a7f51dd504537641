import Usdy.Lib.Machine
import Usdy.Access

/-! `AllowlistUpgradeable` behind its proxy: terms, the indexes of those that are valid, and for which of them
    an account is verified. -/

namespace Usdy
open Checked Function

/-- A `string` or `bytes` of the sources. -/
abbrev Bytes := List (BitVec 8)

/-- The hash function and the signature recovery that the EVM provides. -/
structure Crypto where
  keccak256 : Bytes → Bytes32
  ecrecover : Bytes32 → BitVec 8 → Bytes32 → Bytes32 → Address

/-! ### Signatures -/

namespace ECDSA

inductive Err
  | invalidSignature
  | invalidSignatureS
  deriving DecidableEq

def bytesOf (s : String) : Bytes := s.toList.map fun c => BitVec.ofNat 8 c.toNat

def toEthSignedMessageHash (C : Crypto) (message : Bytes) : Bytes32 :=
  C.keccak256 (bytesOf "\x19Ethereum Signed Message:\n" ++ bytesOf (toString message.length) ++ message)

/-- The signer of a hash; signatures in the upper half order are not accepted, and neither is the address
    zero, which stands for an invalid signature. -/
def recover (C : Crypto) (hash : Bytes32) (v : BitVec 8) (r s : Bytes32) : Except Err Address := do
  revertIf (s > 0x7FFFFFFFFFFFFFFFFFFFFFFFFFFFFFFF5D576E7357A4501DDFE92F46681B20A0) .invalidSignatureS
  let signer := C.ecrecover hash v r s
  revertIf (signer = 0) .invalidSignature
  return signer

end ECDSA

/-! ### The contract -/

namespace AllowlistUpgradeable

inductive Err
  | access (e : AccessErr)
  | ecdsa (e : ECDSA.Err)
  | alreadyInitialized
  | invalidTermIndex
  | invalidVSignature
  | alreadyVerified
  | invalidSigner
  -- the panics of arithmetic and of an array
  | arithmetic
  | indexOutOfBounds
  deriving DecidableEq

inductive Event
  | termAdded (hashedMessage : Bytes32) (termIndex : Uint256)
  | currentTermIndexSet (oldIndex newIndex : Uint256)
  | validTermIndexesSet (oldIndexes newIndexes : List Uint256)
  | accountStatusSetByAdmin (account : Address) (termIndex : Uint256) (status : Bool)
  | accountAddedSelf (account : Address) (termIndex : Uint256)
  | accountAddedFromSignature (account : Address) (termIndex : Uint256) (v : BitVec 8) (r s : Bytes32)
  | accountStatusSet (account : Address) (termIndex : Uint256) (status : Bool)
  deriving DecidableEq

end AllowlistUpgradeable

structure AllowlistUpgradeable extends AccessControl where
  initialized : Bool
  verifications : Address → Uint256 → Bool
  terms : List Bytes
  currentTermIndex : Uint256
  validIndexes : List Uint256
  events : List AllowlistUpgradeable.Event

namespace AllowlistUpgradeable

/-- The storage of a proxy that was not set up yet. -/
def blank : AllowlistUpgradeable where
  toAccessControl := .empty
  initialized := false
  verifications := fun _ _ => false
  terms := []
  currentTermIndex := 0
  validIndexes := []
  events := []

def emit (a : AllowlistUpgradeable) (event : Event) : AllowlistUpgradeable := { a with events := a.events ++ [event] }

/-- `initialize`. -/
def init (admin setter : Address) (a : AllowlistUpgradeable) : Except Err AllowlistUpgradeable := do
  revertIf (a.initialized = true) .alreadyInitialized
  return { a with
    initialized := true
    toAccessControl := ((a.toAccessControl.setRole .defaultAdmin admin true).setRole .allowlistAdmin admin
      true).setRole .allowlistSetter setter true }

/-! ### Terms -/

/-- `terms[termIndex]`, which panics beyond the end. -/
def term (a : AllowlistUpgradeable) (termIndex : Uint256) : Except Err Bytes :=
  orFail .indexOutOfBounds a.terms[termIndex.toNat]?

def getCurrentTerm (a : AllowlistUpgradeable) : Except Err Bytes := a.term a.currentTermIndex

def setCurrentTermIndex (caller : Address) (currentTermIndex : Uint256) (a : AllowlistUpgradeable) :
    Except Err AllowlistUpgradeable := do
  raise .access (a.onlyRole caller .allowlistAdmin)
  revertIf (currentTermIndex.toNat ≥ a.terms.length) .invalidTermIndex
  return { a with currentTermIndex }.emit (.currentTermIndexSet a.currentTermIndex currentTermIndex)

def addTerm (C : Crypto) (caller : Address) (term : Bytes) (a : AllowlistUpgradeable) :
    Except Err AllowlistUpgradeable := do
  raise .access (a.onlyRole caller .allowlistAdmin)
  -- The length of an array is a word.
  let length : Uint256 ← wordOr .arithmetic (a.terms.length + 1)
  let a := { a with terms := a.terms ++ [term] }
  let termIndex ← subOr .arithmetic length 1
  let a ← setCurrentTermIndex caller termIndex a
  return a.emit (.termAdded (C.keccak256 term) termIndex)

def setValidTermIndexes (caller : Address) (validIndexes : List Uint256) (a : AllowlistUpgradeable) :
    Except Err AllowlistUpgradeable := do
  raise .access (a.onlyRole caller .allowlistAdmin)
  validIndexes.forM fun i => revertIf (i.toNat ≥ a.terms.length) .invalidTermIndex
  return { a with validIndexes }.emit (.validTermIndexesSet a.validIndexes validIndexes)

/-! ### Accounts -/

/-- Where `isContract` tells the addresses that have code at the moment. -/
def isAllowed (isContract : Address → Bool) (account : Address) (a : AllowlistUpgradeable) : Bool :=
  if isContract account then true else a.validIndexes.any fun termIndex => a.verifications account termIndex

/-- `_setAccountStatus`. -/
def internalSetAccountStatus (account : Address) (termIndex : Uint256) (status : Bool) (a : AllowlistUpgradeable) :
    Except Err AllowlistUpgradeable := do
  revertIf (termIndex.toNat ≥ a.terms.length) .invalidTermIndex
  let a := { a with
    verifications := update a.verifications account (update (a.verifications account) termIndex status) }
  return a.emit (.accountStatusSet account termIndex status)

def addSelfToAllowlist (caller : Address) (termIndex : Uint256) (a : AllowlistUpgradeable) :
    Except Err AllowlistUpgradeable := do
  revertIf (a.verifications caller termIndex = true) .alreadyVerified
  let a ← a.internalSetAccountStatus caller termIndex true
  return a.emit (.accountAddedSelf caller termIndex)

def setAccountStatus (caller account : Address) (termIndex : Uint256) (status : Bool) (a : AllowlistUpgradeable) :
    Except Err AllowlistUpgradeable := do
  raise .access (a.onlyRole caller .allowlistSetter)
  let a ← a.internalSetAccountStatus account termIndex status
  return a.emit (.accountStatusSetByAdmin account termIndex status)

def addAccountToAllowlist (C : Crypto) (termIndex : Uint256) (account : Address) (v : BitVec 8) (r s : Bytes32)
    (a : AllowlistUpgradeable) : Except Err AllowlistUpgradeable := do
  revertIf (a.verifications account termIndex = true) .alreadyVerified
  revertIf (v ≠ 27 ∧ v ≠ 28) .invalidVSignature
  let term ← a.term termIndex
  let signer ← raise .ecdsa (ECDSA.recover C (ECDSA.toEthSignedMessageHash C term) v r s)
  revertIf (signer ≠ account) .invalidSigner
  let a ← a.internalSetAccountStatus account termIndex true
  return a.emit (.accountAddedFromSignature account termIndex v r s)

/-! ### Calls -/

inductive Call
  | init (admin setter : Address)
  | addTerm (term : Bytes)
  | setCurrentTermIndex (currentTermIndex : Uint256)
  | setValidTermIndexes (validIndexes : List Uint256)
  | addSelfToAllowlist (termIndex : Uint256)
  | setAccountStatus (account : Address) (termIndex : Uint256) (status : Bool)
  | addAccountToAllowlist (termIndex : Uint256) (account : Address) (v : BitVec 8) (r s : Bytes32)
  | role (call : RoleCall)
  deriving DecidableEq

def exec (C : Crypto) (caller : Address) (call : Call) (a : AllowlistUpgradeable) : Except Err AllowlistUpgradeable :=
  match call with
  | .init admin setter => init admin setter a
  | .addTerm term => addTerm C caller term a
  | .setCurrentTermIndex currentTermIndex => setCurrentTermIndex caller currentTermIndex a
  | .setValidTermIndexes validIndexes => setValidTermIndexes caller validIndexes a
  | .addSelfToAllowlist termIndex => addSelfToAllowlist caller termIndex a
  | .setAccountStatus account termIndex status => setAccountStatus caller account termIndex status a
  | .addAccountToAllowlist termIndex account v r s => addAccountToAllowlist C termIndex account v r s a
  | .role call => do
    let access ← raise .access (a.toAccessControl.exec caller call)
    return { a with toAccessControl := access }

def act (C : Crypto) (a : AllowlistUpgradeable) (call : Address × Call) : Option AllowlistUpgradeable :=
  (exec C call.1 call.2 a).toOption

end AllowlistUpgradeable

end Usdy
