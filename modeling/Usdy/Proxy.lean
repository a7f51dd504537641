import Usdy.Lib.Checked
import Usdy.Lib.Machine
import Usdy.Step

/-! `TransparentUpgradeableProxy` and `ProxyAdmin`. A proxy keeps the address of an implementation and of an admin in
    slots of their own, and runs the code of the implementation on the rest of its storage. The admin calls the
    functions of the proxy and nothing behind it; everybody else calls what is behind it and nothing of the proxy. -/

namespace Usdy
open Checked

variable {E S D : Type}

/-! ### Data and code -/

/-- What the data of a call selects: a function of a proxy, or a function `d` of a contract behind one. -/
inductive Data (D : Type)
  | empty
  | admin
  | implementation
  | changeAdmin (newAdmin : Address)
  | upgradeTo (newImplementation : Address)
  | upgradeToAndCall (newImplementation : Address) (data : Data D)
  | call (d : D)
  deriving DecidableEq

def Data.isEmpty : Data D → Bool
  | .empty => true
  | _ => false

/-- The code of a contract: what it does for a sender to a storage, where `E` is what other contracts answer. A
    delegated call runs it on the storage of the proxy. -/
abbrev Code (E S D : Type) := E → Address → Data D → S → Option S

/-! ### The proxy -/

/-- The two slots of the proxy, and the storage that the implementation reads and writes. -/
structure TransparentUpgradeableProxy (S : Type) where
  implementation : Address
  admin : Address
  storage : S

namespace TransparentUpgradeableProxy

inductive Err
  -- ERC1967Upgrade
  | newImplementationIsNotAContract
  | newAdminIsTheZeroAddress
  -- TransparentUpgradeableProxy
  | adminCannotFallbackToProxyTarget
  -- Address
  | delegateCallToNonContract
  -- the code that was called reverted
  | reverted
  deriving DecidableEq

/-- `_changeAdmin`. -/
def internalChangeAdmin (newAdmin : Address) (p : TransparentUpgradeableProxy S) :
    Except Err (TransparentUpgradeableProxy S) := do
  revertIf (newAdmin = 0) .newAdminIsTheZeroAddress
  return { p with admin := newAdmin }

section Code
variable (code : Address → Option (Code E S D)) (env : E)

/-- `_upgradeTo`. -/
def internalUpgradeTo (newImplementation : Address) (p : TransparentUpgradeableProxy S) :
    Except Err (TransparentUpgradeableProxy S) := do
  revertIf ((code newImplementation).isNone = true) .newImplementationIsNotAContract
  return { p with implementation := newImplementation }

def functionDelegateCall (caller target : Address) (data : Data D) (p : TransparentUpgradeableProxy S) :
    Except Err (TransparentUpgradeableProxy S) := do
  let run ← orFail .delegateCallToNonContract (code target)
  let storage ← orFail .reverted (run env caller data p.storage)
  return { p with storage }

/-- `_upgradeToAndCall`. -/
def internalUpgradeToAndCall (caller newImplementation : Address) (data : Data D) (forceCall : Bool)
    (p : TransparentUpgradeableProxy S) : Except Err (TransparentUpgradeableProxy S) := do
  let p ← internalUpgradeTo code newImplementation p
  if data.isEmpty = false ∨ forceCall = true then functionDelegateCall code env caller newImplementation data p
    else return p

/-- `_delegate` to the implementation. Where there is no code a delegated call does nothing, and succeeds. -/
def delegate (caller : Address) (data : Data D) (p : TransparentUpgradeableProxy S) :
    Except Err (TransparentUpgradeableProxy S) :=
  match code p.implementation with
  | some run => do
    let storage ← orFail .reverted (run env caller data p.storage)
    return { p with storage }
  | none => return p

/-- `_fallback`, after `_beforeFallback`. -/
def fallback (caller : Address) (data : Data D) (p : TransparentUpgradeableProxy S) :
    Except Err (TransparentUpgradeableProxy S) := do
  revertIf (caller = p.admin) .adminCannotFallbackToProxyTarget
  delegate code env caller data p

/-- The functions of the proxy are for the admin; a call of one by another sender goes to the implementation. -/
def exec (caller : Address) (data : Data D) (p : TransparentUpgradeableProxy S) :
    Except Err (TransparentUpgradeableProxy S) :=
  if caller = p.admin then
    match data with
    | .admin | .implementation => return p
    | .changeAdmin newAdmin => internalChangeAdmin newAdmin p
    | .upgradeTo newImplementation => internalUpgradeToAndCall code env caller newImplementation .empty false p
    | .upgradeToAndCall newImplementation data => internalUpgradeToAndCall code env caller newImplementation data true p
    | .empty | .call _ => fallback code env caller data p
  else fallback code env caller data p

/-- The constructor, on a storage where nothing is written yet. -/
def deploy (caller logic admin : Address) (data : Data D) (storage : S) :
    Except Err (TransparentUpgradeableProxy S) := do
  let p ← internalUpgradeToAndCall code env caller logic data false { implementation := 0, admin := 0, storage }
  internalChangeAdmin admin p

end Code

end TransparentUpgradeableProxy

/-! ### The contract that is the admin -/

/-- `ProxyAdmin`: the owner of `Ownable`. -/
structure ProxyAdmin where
  owner : Address

namespace ProxyAdmin

inductive Err
  | callerIsNotTheOwner
  | newOwnerIsTheZeroAddress
  -- the call to the proxy reverted
  | proxy (e : TransparentUpgradeableProxy.Err)
  deriving DecidableEq

inductive Call (D : Type)
  | renounceOwnership
  | transferOwnership (newOwner : Address)
  | changeProxyAdmin (proxy newAdmin : Address)
  | upgrade (proxy implementation : Address)
  | upgradeAndCall (proxy implementation : Address) (data : Data D)
  deriving DecidableEq

def deploy (sender : Address) : ProxyAdmin := ⟨sender⟩

def onlyOwner (a : ProxyAdmin) (caller : Address) : Except Err Unit := revertIf (a.owner ≠ caller) .callerIsNotTheOwner

def renounceOwnership (caller : Address) (a : ProxyAdmin) : Except Err ProxyAdmin := do
  a.onlyOwner caller
  return ⟨0⟩

def transferOwnership (caller newOwner : Address) (a : ProxyAdmin) : Except Err ProxyAdmin := do
  a.onlyOwner caller
  revertIf (newOwner = 0) .newOwnerIsTheZeroAddress
  return ⟨newOwner⟩

/-- The call that a function for the owner makes to a proxy. -/
def Call.forwarded : Call D → Option (Address × Data D)
  | .changeProxyAdmin proxy newAdmin => some (proxy, .changeAdmin newAdmin)
  | .upgrade proxy implementation => some (proxy, .upgradeTo implementation)
  | .upgradeAndCall proxy implementation data => some (proxy, .upgradeToAndCall implementation data)
  | _ => none

end ProxyAdmin

/-! ### A proxy with its admin contract -/

/-- One proxy and one `ProxyAdmin`, and what is around them: the code of every contract that is there, and what the
    other contracts answer. -/
structure Upgradeable (E S D : Type) where
  code : Address → Option (Code E S D)
  env : E
  proxyAddress : Address
  proxy : TransparentUpgradeableProxy S
  proxyAdminAddress : Address
  proxyAdmin : ProxyAdmin

namespace Upgradeable

/-- A transaction to one of the two contracts. -/
inductive Message (D : Type)
  | proxy (data : Data D)
  | proxyAdmin (call : ProxyAdmin.Call D)
  deriving DecidableEq

/-- Other proxies than the one of the system are not followed: a call to one of them leaves the system as it is. -/
def exec (caller : Address) (message : Message D) (s : Upgradeable E S D) :
    Except ProxyAdmin.Err (Upgradeable E S D) :=
  match message with
  | .proxy data => do
    let proxy ← raise .proxy (s.proxy.exec s.code s.env caller data)
    return { s with proxy }
  | .proxyAdmin .renounceOwnership => do
    let proxyAdmin ← s.proxyAdmin.renounceOwnership caller
    return { s with proxyAdmin }
  | .proxyAdmin (.transferOwnership newOwner) => do
    let proxyAdmin ← s.proxyAdmin.transferOwnership caller newOwner
    return { s with proxyAdmin }
  | .proxyAdmin call => do
    s.proxyAdmin.onlyOwner caller
    match call.forwarded with
    | some (proxy, data) =>
      if proxy = s.proxyAddress then do
        let proxy ← raise .proxy (s.proxy.exec s.code s.env s.proxyAdminAddress data)
        return { s with proxy }
      else return s
    | none => return s

/-- Somebody sends a transaction, other contracts come to answer otherwise, or code is deployed. -/
inductive Action (E S D : Type)
  | message (sender : Sender) (message : Message D)
  | env (env : E)
  | deployed (address : Address) (code : Code E S D)

/-- What an action does. The two contracts send what their own code makes them send, and nothing else; the code of
    a contract that is there does not change. -/
def act (s : Upgradeable E S D) : Action E S D → Option (Upgradeable E S D)
  | .message sender message =>
    if sender.address = s.proxyAdminAddress ∨ sender.address = s.proxyAddress then none
      else (exec sender.address message s).toOption
  | .env env => some { s with env }
  | .deployed address code =>
    if (s.code address).isNone = true then some { s with code := Function.update s.code address (some code) } else none

end Upgradeable

end Usdy
