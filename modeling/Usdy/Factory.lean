import Usdy.Allowlist
import Usdy.Instance

/-! `USDYFactory` and `AllowlistFactory`. One call of the guardian creates an implementation, a proxy of it and the
    admin contract of the proxy, initializes the contract behind the proxy, and hands over what the factory holds. -/

namespace Usdy
open Checked

variable {E S D : Type}

/-- The addresses of the contracts that a deployment creates. -/
structure Created where
  implementation : Address
  proxyAdmin : Address
  proxy : Address

/-- The storage of a factory. -/
structure Factory extends Created where
  guardian : Address

namespace Factory

inductive Err
  | youAreNotTheGuardian
  | callFailed
  -- creating the proxy reverted
  | create (e : TransparentUpgradeableProxy.Err)
  -- a call to what was created reverted
  | call (e : ProxyAdmin.Err)
  | assertion
  deriving DecidableEq

def onlyGuardian (f : Factory) (caller : Address) : Except Err Unit :=
  revertIf (caller ≠ f.guardian) .youAreNotTheGuardian

/-- The three contracts, where `around` is the code that is there already. The factory owns the admin contract, and
    the constructor of the proxy is called with no data. -/
def create (self : Address) (around : Address → Option (Code E S D)) (env : E) (code : Code E S D) (storage : S)
    (created : Created) : Except Err (Upgradeable E S D) := do
  let code := Function.update around created.implementation (some code)
  let proxy ← raise .create (TransparentUpgradeableProxy.deploy code env self created.implementation created.proxyAdmin
    .empty storage)
  return {
    code, env, proxy
    proxyAddress := created.proxy
    proxyAdminAddress := created.proxyAdmin
    proxyAdmin := .deploy self }

/-- A call of the factory to what is behind the proxy. -/
def call (self : Address) (d : D) (s : Upgradeable E S D) : Except Err (Upgradeable E S D) :=
  raise .call (s.exec self (.proxy (.call d)))

/-- The last steps of a deployment. -/
def transferOwnership (self : Address) (f : Factory) (s : Upgradeable E S D) : Except Err (Upgradeable E S D) := do
  let s ← raise .call (s.exec self (.proxyAdmin (.transferOwnership f.guardian)))
  revertIf (s.proxyAdmin.owner ≠ f.guardian) .assertion
  return s

/-- `multiexcall`, where the targets are the proxy and its admin contract. -/
def multiexcall (self caller : Address) (messages : List (Upgradeable.Message D)) (f : Factory)
    (s : Upgradeable E S D) : Except Err (Upgradeable E S D) := do
  f.onlyGuardian caller
  messages.foldlM (fun s message => raise (fun _ => .callFailed) (s.exec self message)) s

end Factory

/-! ### USDY -/

/-- USDY behind its proxy. -/
abbrev UsdyProxy := Upgradeable Lists USDY.Instance USDY.Instance.Call

namespace USDYFactory
open Factory

/-- `deployUSDY`. The constructor of the implementation writes to the storage of the implementation, where it runs
    `USDY.Instance.deploy`. -/
def deployUSDY (self caller : Address) (around : Address → Option (Code Lists USDY.Instance USDY.Instance.Call))
    (lists : Lists) (created : Created) (name ticker : String) (blocklist allowlist : Address) (f : Factory) :
    Except Factory.Err (Factory × UsdyProxy) := do
  f.onlyGuardian caller
  let f := { f with toCreated := created }
  let s ← create self around lists USDY.Instance.code .empty created
  let s ← call self (.initializeUSDY name ticker blocklist allowlist) s
  let s ← call self (.token (.role (.grantRole .defaultAdmin f.guardian))) s
  let s ← call self (.token (.role (.grantRole .pauser f.guardian))) s
  let s ← call self (.token (.role (.revokeRole .minter self))) s
  let s ← call self (.token (.role (.revokeRole .pauser self))) s
  let s ← call self (.token (.role (.revokeRole .defaultAdmin self))) s
  let s ← f.transferOwnership self s
  return (f, s)

end USDYFactory

/-! ### Allowlist -/

/-- The allowlist behind its proxy. -/
abbrev AllowlistProxy := Upgradeable Unit AllowlistUpgradeable AllowlistUpgradeable.Call

/-- The code of `AllowlistUpgradeable`. What it does to its storage does not depend on other contracts. -/
def AllowlistUpgradeable.code (C : Crypto) : Code Unit AllowlistUpgradeable AllowlistUpgradeable.Call :=
  fun _ caller data s =>
    match data with
    | .call call => act C s (caller, call)
    | _ => none

namespace AllowlistFactory
open Factory

/-- `deployAllowlist`. -/
def deployAllowlist (C : Crypto) (self caller : Address)
    (around : Address → Option (Code Unit AllowlistUpgradeable AllowlistUpgradeable.Call)) (created : Created)
    (admin setter : Address) (f : Factory) : Except Factory.Err (Factory × AllowlistProxy) := do
  f.onlyGuardian caller
  let f := { f with toCreated := created }
  let s ← create self around () (AllowlistUpgradeable.code C) .blank created
  let s ← call self (.init admin setter) s
  let s ← f.transferOwnership self s
  return (f, s)

end AllowlistFactory

end Usdy
