import Usdy.Proxy
import Usdy.Token

/-! `Initializable`, and `USDY` with what it keeps there: the code behind the proxy of the token. A constructor locks
    the implementation; on the storage of a proxy `initialize` takes the place of a constructor. -/

namespace Usdy
open Checked

/-! ### Initializable -/

/-- The version a contract was initialized to, zero before, and whether that is going on. -/
structure Initializable where
  initialized : BitVec 8
  initializing : Bool

inductive Initializable.Err
  | alreadyInitialized
  | notInitializing
  | initializing
  deriving DecidableEq

namespace USDY

/-- All that a `USDY` keeps in storage. -/
structure Instance extends Initializable, USDY where
  name : String
  symbol : String

namespace Instance

inductive Err
  | initializable (e : Initializable.Err)
  | token (e : USDY.Err)
  deriving DecidableEq

/-- A storage where nothing is written yet. -/
def empty : Instance where
  initialized := 0
  initializing := false
  toAccessControl := .empty
  balances := fun _ => 0
  allowances := fun _ _ => 0
  totalSupply := 0
  paused := false
  blocklist := 0
  allowlist := 0
  events := []
  name := ""
  symbol := ""

/-- The modifier `initializer` around the body of a function, where `isContract` tells whether there is code at the
    address already: not before a constructor ends. -/
def initializer (isContract : Bool) (body : Instance → Except Err Instance) (s : Instance) : Except Err Instance := do
  let isTopLevelCall := !s.initializing
  revertIf (¬((isTopLevelCall = true ∧ s.initialized < 1) ∨ (isContract = false ∧ s.initialized = 1)))
    (.initializable .alreadyInitialized)
  let s := { s with initialized := 1, initializing := if isTopLevelCall then true else s.initializing }
  let s ← body s
  return { s with initializing := if isTopLevelCall then false else s.initializing }

def onlyInitializing (s : Instance) : Except Err Unit :=
  revertIf (s.initializing = false) (.initializable .notInitializing)

/-- `_disableInitializers`. -/
def disableInitializers (s : Instance) : Except Err Instance := do
  revertIf (s.initializing = true) (.initializable .initializing)
  if s.initialized < 255 then return { s with initialized := 255 } else return s

/-- The constructor. -/
def deploy : Except Err Instance := disableInitializers .empty

/-! ### Initializers of the contracts it inherits from -/

/-- `__ERC20_init_unchained`. -/
def erc20Init (name symbol : String) (s : Instance) : Except Err Instance := do
  s.onlyInitializing
  return { s with name, symbol }

/-- `__Pausable_init_unchained`. -/
def pausableInit (s : Instance) : Except Err Instance := do
  s.onlyInitializing
  return { s with paused := false }

/-- `__ERC20PresetMinterPauser_init_unchained`. -/
def erc20PresetMinterPauserInitUnchained (caller : Address) (s : Instance) : Except Err Instance := do
  s.onlyInitializing
  return { s with
    toAccessControl := ((s.setRole .defaultAdmin caller true).setRole .minter caller true).setRole .pauser caller true }

/-- `__ERC20PresetMinterPauser_init`. -/
def erc20PresetMinterPauserInit (caller : Address) (name symbol : String) (s : Instance) : Except Err Instance := do
  s.onlyInitializing
  let s ← erc20Init name symbol s
  let s ← pausableInit s
  erc20PresetMinterPauserInitUnchained caller s

/-- `__BlocklistClientInitializable_init`. -/
def blocklistClientInit (blocklist : Address) (s : Instance) : Except Err Instance := do
  s.onlyInitializing
  let token ← raise .token (s.internalSetBlocklist blocklist)
  return { s with toUSDY := token }

/-- `__AllowlistClientInitializable_init`. -/
def allowlistClientInit (allowlist : Address) (s : Instance) : Except Err Instance := do
  s.onlyInitializing
  let token ← raise .token (s.internalSetAllowlist allowlist)
  return { s with toUSDY := token }

/-! ### Calls -/

/-- `initialize` of `USDY`. -/
def initializeUSDY (caller : Address) (name symbol : String) (blocklist allowlist : Address) (s : Instance) :
    Except Err Instance :=
  initializer true (fun s => do
    let s ← erc20PresetMinterPauserInit caller name symbol s
    let s ← blocklistClientInit blocklist s
    allowlistClientInit allowlist s) s

/-- `initialize` of `ERC20PresetMinterPauserUpgradeable`, which `USDY` inherits next to its own. -/
def initializePreset (caller : Address) (name symbol : String) (s : Instance) : Except Err Instance :=
  initializer true (erc20PresetMinterPauserInit caller name symbol) s

inductive Call
  | initializeUSDY (name symbol : String) (blocklist allowlist : Address)
  | initializePreset (name symbol : String)
  | token (call : USDY.Call)
  deriving DecidableEq

def exec (lists : Lists) (caller : Address) (call : Call) (s : Instance) : Except Err Instance :=
  match call with
  | .initializeUSDY name symbol blocklist allowlist => initializeUSDY caller name symbol blocklist allowlist s
  | .initializePreset name symbol => initializePreset caller name symbol s
  | .token call => do
    let token ← raise .token (USDY.exec lists caller call s.toUSDY)
    return { s with toUSDY := token }

/-- The code of `USDY`, which has none of the functions of a proxy, and no `receive` or `fallback`. -/
def code : Code Lists Instance Call := fun lists caller data s =>
  match data with
  | .call call => (exec lists caller call s).toOption
  | _ => none

end Instance

end USDY

end Usdy
