import Usdy.Lib.Machine
import Usdy.Access
import Usdy.Step

/-! `USDY`: an ERC20 token whose every movement passes one hook, which asks a blocklist and an allowlist. The two
    lists are other contracts: what they answer may change between calls. -/

namespace Usdy
open Checked Function

/-- What the contracts that serve as lists answer at the moment about an account; a call to an address that
    holds no such contract reverts. -/
structure Lists where
  isBlocked : Address → Address → Option Bool
  isAllowed : Address → Address → Option Bool

namespace USDY

inductive Err
  -- USDY
  | senderBlocked
  | senderNotAllowed
  | fromBlocked
  | fromNotAllowed
  | toBlocked
  | toNotAllowed
  -- IBlocklistClient and IAllowlistClient
  | blocklistZeroAddress
  | allowlistZeroAddress
  -- ERC20
  | transferFromZeroAddress
  | transferToZeroAddress
  | transferExceedsBalance
  | mintToZeroAddress
  | burnFromZeroAddress
  | burnExceedsBalance
  | approveFromZeroAddress
  | approveToZeroAddress
  | insufficientAllowance
  | decreasedAllowanceBelowZero
  -- ERC20Pausable, Pausable and ERC20PresetMinterPauser
  | transferWhilePaused
  | paused
  | notPaused
  | mustHaveMinterRole
  | mustHavePauserRoleToPause
  | mustHavePauserRoleToUnpause
  | access (e : AccessErr)
  | arithmetic
  -- a call to a list reverted
  | externalCall
  deriving DecidableEq

inductive Event
  | transfer (src dst : Address) (value : Uint256)
  | approval (owner spender : Address) (value : Uint256)
  | paused (account : Address)
  | unpaused (account : Address)
  | blocklistSet (oldBlocklist newBlocklist : Address)
  | allowlistSet (oldAllowlist newAllowlist : Address)
  deriving DecidableEq

end USDY

structure USDY extends AccessControl where
  balances : Address → Uint256
  allowances : Address → Address → Uint256
  totalSupply : Uint256
  paused : Bool
  blocklist : Address
  allowlist : Address
  events : List USDY.Event

namespace USDY

def emit (s : USDY) (event : Event) : USDY := { s with events := s.events ++ [event] }

/-! ### List clients -/

/-- `_setBlocklist`. -/
def internalSetBlocklist (blocklist : Address) (s : USDY) : Except Err USDY := do
  revertIf (blocklist = 0) .blocklistZeroAddress
  return { s with blocklist }.emit (.blocklistSet s.blocklist blocklist)

/-- `_setAllowlist`. -/
def internalSetAllowlist (allowlist : Address) (s : USDY) : Except Err USDY := do
  revertIf (allowlist = 0) .allowlistZeroAddress
  return { s with allowlist }.emit (.allowlistSet s.allowlist allowlist)

/-- The two checks the hook makes of an account, with the errors it fails with. -/
def checkLists (lists : Lists) (s : USDY) (account : Address) (blocked notAllowed : Err) : Except Err Unit := do
  let isBlocked ← orFail .externalCall (lists.isBlocked s.blocklist account)
  revertIf (isBlocked = true) blocked
  let isAllowed ← orFail .externalCall (lists.isAllowed s.allowlist account)
  revertIf (isAllowed = false) notAllowed

/-- `_beforeTokenTransfer`: USDY's after that of `ERC20Pausable`. -/
def beforeTokenTransfer (lists : Lists) (caller src dst : Address) (s : USDY) : Except Err Unit := do
  revertIf (s.paused = true) .transferWhilePaused
  let _ ← (if src ≠ caller ∧ dst ≠ caller then s.checkLists lists caller .senderBlocked .senderNotAllowed else pure ())
  let _ ← (if src ≠ 0 then s.checkLists lists src .fromBlocked .fromNotAllowed else pure ())
  if dst ≠ 0 then s.checkLists lists dst .toBlocked .toNotAllowed else pure ()

/-! ### ERC20 -/

section ERC20
variable (lists : Lists)

/-- `_transfer`. -/
def internalTransfer (caller src dst : Address) (amount : Uint256) (s : USDY) : Except Err USDY := do
  revertIf (src = 0) .transferFromZeroAddress
  revertIf (dst = 0) .transferToZeroAddress
  s.beforeTokenTransfer lists caller src dst
  let fromBalance ← subOr .transferExceedsBalance (s.balances src) amount
  let balances := update s.balances src fromBalance
  let toBalance ← addOr .arithmetic (balances dst) amount
  return { s with balances := update balances dst toBalance }.emit (.transfer src dst amount)

/-- `_mint`. -/
def internalMint (caller account : Address) (amount : Uint256) (s : USDY) : Except Err USDY := do
  revertIf (account = 0) .mintToZeroAddress
  s.beforeTokenTransfer lists caller 0 account
  let totalSupply ← addOr .arithmetic s.totalSupply amount
  let balance ← addOr .arithmetic (s.balances account) amount
  return { s with totalSupply, balances := update s.balances account balance }.emit (.transfer 0 account amount)

/-- `_burn`. -/
def internalBurn (caller account : Address) (amount : Uint256) (s : USDY) : Except Err USDY := do
  revertIf (account = 0) .burnFromZeroAddress
  s.beforeTokenTransfer lists caller account 0
  let balance ← subOr .burnExceedsBalance (s.balances account) amount
  let totalSupply ← subOr .arithmetic s.totalSupply amount
  return { s with totalSupply, balances := update s.balances account balance }.emit (.transfer account 0 amount)

/-- `_approve`. -/
def internalApprove (owner spender : Address) (amount : Uint256) (s : USDY) : Except Err USDY := do
  revertIf (owner = 0) .approveFromZeroAddress
  revertIf (spender = 0) .approveToZeroAddress
  return { s with allowances := update s.allowances owner (update (s.allowances owner) spender amount) }.emit
    (.approval owner spender amount)

/-- `_spendAllowance`: the largest allowance is never spent. -/
def spendAllowance (owner spender : Address) (amount : Uint256) (s : USDY) : Except Err USDY :=
  if s.allowances owner spender ≠ BitVec.allOnes 256 then do
    let allowance ← subOr .insufficientAllowance (s.allowances owner spender) amount
    internalApprove owner spender allowance s
  else
    return s

def transfer (caller dst : Address) (amount : Uint256) (s : USDY) : Except Err USDY :=
  internalTransfer lists caller caller dst amount s

def approve (caller spender : Address) (amount : Uint256) (s : USDY) : Except Err USDY :=
  internalApprove caller spender amount s

def transferFrom (caller src dst : Address) (amount : Uint256) (s : USDY) : Except Err USDY := do
  let s ← spendAllowance src caller amount s
  internalTransfer lists caller src dst amount s

def increaseAllowance (caller spender : Address) (addedValue : Uint256) (s : USDY) : Except Err USDY := do
  let allowance ← addOr .arithmetic (s.allowances caller spender) addedValue
  internalApprove caller spender allowance s

def decreaseAllowance (caller spender : Address) (subtractedValue : Uint256) (s : USDY) : Except Err USDY := do
  let allowance ← subOr .decreasedAllowanceBelowZero (s.allowances caller spender) subtractedValue
  internalApprove caller spender allowance s

/-- `burn(amount)`. -/
def burn (caller : Address) (amount : Uint256) (s : USDY) : Except Err USDY :=
  internalBurn lists caller caller amount s

def burnFrom (caller account : Address) (amount : Uint256) (s : USDY) : Except Err USDY := do
  let s ← spendAllowance account caller amount s
  internalBurn lists caller account amount s

end ERC20

/-! ### Roles -/

section Roles
variable (lists : Lists)

def mint (caller dst : Address) (amount : Uint256) (s : USDY) : Except Err USDY := do
  revertIf (s.hasRole .minter caller = false) .mustHaveMinterRole
  internalMint lists caller dst amount s

/-- `burn(from, amount)`. -/
def adminBurn (caller src : Address) (amount : Uint256) (s : USDY) : Except Err USDY := do
  raise .access (s.onlyRole caller .burner)
  internalBurn lists caller src amount s

def pause (caller : Address) (s : USDY) : Except Err USDY := do
  revertIf (s.hasRole .pauser caller = false) .mustHavePauserRoleToPause
  revertIf (s.paused = true) .paused
  return { s with paused := true }.emit (.paused caller)

def unpause (caller : Address) (s : USDY) : Except Err USDY := do
  revertIf (s.hasRole .pauser caller = false) .mustHavePauserRoleToUnpause
  revertIf (s.paused = false) .notPaused
  return { s with paused := false }.emit (.unpaused caller)

def setBlocklist (caller blocklist : Address) (s : USDY) : Except Err USDY := do
  raise .access (s.onlyRole caller .listConfigurer)
  internalSetBlocklist blocklist s

def setAllowlist (caller allowlist : Address) (s : USDY) : Except Err USDY := do
  raise .access (s.onlyRole caller .listConfigurer)
  internalSetAllowlist allowlist s

end Roles

/-- `initialize`, which `caller` calls once, on empty storage. -/
def init (caller blocklist allowlist : Address) : Except Err USDY := do
  let s : USDY := {
    toAccessControl := ((AccessControl.empty.setRole .defaultAdmin caller true).setRole .minter caller true).setRole
      .pauser caller true
    balances := fun _ => 0
    allowances := fun _ _ => 0
    totalSupply := 0
    paused := false
    blocklist := 0
    allowlist := 0
    events := [] }
  let s ← internalSetBlocklist blocklist s
  internalSetAllowlist allowlist s

inductive Call
  | transfer (dst : Address) (amount : Uint256)
  | approve (spender : Address) (amount : Uint256)
  | transferFrom (src dst : Address) (amount : Uint256)
  | increaseAllowance (spender : Address) (addedValue : Uint256)
  | decreaseAllowance (spender : Address) (subtractedValue : Uint256)
  | mint (dst : Address) (amount : Uint256)
  | burn (amount : Uint256)
  | burnFrom (account : Address) (amount : Uint256)
  | adminBurn (src : Address) (amount : Uint256)
  | pause
  | unpause
  | setBlocklist (blocklist : Address)
  | setAllowlist (allowlist : Address)
  | role (call : RoleCall)
  deriving DecidableEq

def exec (lists : Lists) (caller : Address) (call : Call) (s : USDY) : Except Err USDY :=
  match call with
  | .transfer dst amount => transfer lists caller dst amount s
  | .approve spender amount => approve caller spender amount s
  | .transferFrom src dst amount => transferFrom lists caller src dst amount s
  | .increaseAllowance spender addedValue => increaseAllowance caller spender addedValue s
  | .decreaseAllowance spender subtractedValue => decreaseAllowance caller spender subtractedValue s
  | .mint dst amount => mint lists caller dst amount s
  | .burn amount => burn lists caller amount s
  | .burnFrom account amount => burnFrom lists caller account amount s
  | .adminBurn src amount => adminBurn lists caller src amount s
  | .pause => pause caller s
  | .unpause => unpause caller s
  | .setBlocklist blocklist => setBlocklist caller blocklist s
  | .setAllowlist allowlist => setAllowlist caller allowlist s
  | .role call => do
    let access ← raise .access (s.toAccessControl.exec caller call)
    return { s with toAccessControl := access }

/-! ### What a movement passes -/

/-- Not blocked, and on the allowlist. -/
def Clear (lists : Lists) (s : USDY) (account : Address) : Prop :=
  lists.isBlocked s.blocklist account = some false ∧ lists.isAllowed s.allowlist account = some true

instance {lists : Lists} {s : USDY} {account : Address} : Decidable (Clear lists s account) :=
  inferInstanceAs (Decidable (_ ∧ _))

/-- What the hook demands of a movement from `src` to `dst`, where zero stands for a mint or a burn. -/
structure Cleared (lists : Lists) (caller src dst : Address) (s : USDY) : Prop where
  unpaused : s.paused = false
  sender : src ≠ caller → dst ≠ caller → Clear lists s caller
  src : src ≠ 0 → Clear lists s src
  dst : dst ≠ 0 → Clear lists s dst

variable {lists : Lists} {s t : USDY} {caller src dst account : Address} {amount : Uint256}

theorem checkLists_eq_ok {blocked notAllowed : Err} {u : Unit} :
    s.checkLists lists account blocked notAllowed = .ok u ↔ Clear lists s account := by
  simp only [checkLists, bind_eq_ok, exists_unit_iff, orFail_eq_ok, revertIf_eq_ok, Clear, Bool.not_eq_true,
    Bool.not_eq_false]
  constructor
  · rintro ⟨_, hblocked, rfl, _, hallowed, rfl⟩
    exact ⟨hblocked, hallowed⟩
  · rintro ⟨hblocked, hallowed⟩
    exact ⟨_, hblocked, rfl, _, hallowed, rfl⟩

theorem ite_checkLists_eq_ok {c : Prop} [Decidable c] {blocked notAllowed : Err} {u : Unit} :
    (if c then s.checkLists lists account blocked notAllowed else pure ()) = .ok u ↔ (c → Clear lists s account) := by
  split
  · rename_i hc
    rw [checkLists_eq_ok]
    exact ⟨fun h _ => h, fun h => h hc⟩
  · rename_i hc
    exact ⟨fun _ h => absurd h hc, fun _ => rfl⟩

theorem beforeTokenTransfer_eq_ok {u : Unit} :
    s.beforeTokenTransfer lists caller src dst = .ok u ↔ Cleared lists caller src dst s := by
  simp only [beforeTokenTransfer, bind_eq_ok, exists_unit_iff, revertIf_eq_ok, ite_checkLists_eq_ok, Bool.not_eq_true,
    and_imp]
  constructor
  · rintro ⟨hpaused, hsender, hsrc, hdst⟩
    exact ⟨hpaused, hsender, hsrc, hdst⟩
  · intro h
    exact ⟨h.unpaused, h.sender, h.src, h.dst⟩

theorem Cleared.clear_caller (h : Cleared lists caller src dst s) (hc : caller ≠ 0) : Clear lists s caller := by
  by_cases hsrc : src = caller
  · exact hsrc ▸ h.src (hsrc ▸ hc)
  · by_cases hdst : dst = caller
    · exact hdst ▸ h.dst (hdst ▸ hc)
    · exact h.sender hsrc hdst

/-- What a movement does: it passes the hook, it changes the balances of its two accounts only, and it leaves
    what the hook reads as it was. -/
structure Moved (lists : Lists) (caller src dst : Address) (s t : USDY) : Prop where
  cleared : Cleared lists caller src dst s
  frame : ∀ account, t.balances account ≠ s.balances account → account ≠ 0 ∧ (account = src ∨ account = dst)
  blocklist : t.blocklist = s.blocklist
  allowlist : t.allowlist = s.allowlist

theorem internalTransfer_moved (h : internalTransfer lists caller src dst amount s = .ok t) :
    Moved lists caller src dst s t := by
  simp only [internalTransfer, bind_eq_ok, exists_unit_iff, revertIf_eq_ok, beforeTokenTransfer_eq_ok, pure_eq_ok] at h
  obtain ⟨hsrc, hdst, hcleared, fromBalance, -, toBalance, -, rfl⟩ := h
  refine ⟨hcleared, fun account hne => ?_, rfl, rfl⟩
  by_cases hto : account = dst
  · exact ⟨hto ▸ hdst, .inr hto⟩
  · by_cases hfrom : account = src
    · exact ⟨hfrom ▸ hsrc, .inl hfrom⟩
    · simp only [emit, update_of_ne hto, update_of_ne hfrom, ne_eq, not_true_eq_false] at hne

/-- A mint and a burn change the balance of one account. -/
theorem Cleared.moved {balance totalSupply : Uint256} {events : List Event} (h : Cleared lists caller src dst s)
    (hne : account ≠ 0) (hends : account = src ∨ account = dst) :
    Moved lists caller src dst s { s with totalSupply, balances := update s.balances account balance, events } := by
  refine ⟨h, fun a ha => ?_, rfl, rfl⟩
  by_cases heq : a = account
  · exact heq ▸ ⟨hne, hends⟩
  · exact absurd (update_of_ne heq ..) ha

theorem internalMint_moved (h : internalMint lists caller account amount s = .ok t) :
    Moved lists caller 0 account s t := by
  simp only [internalMint, bind_eq_ok, exists_unit_iff, revertIf_eq_ok, beforeTokenTransfer_eq_ok, pure_eq_ok] at h
  obtain ⟨hne, hcleared, totalSupply, -, balance, -, rfl⟩ := h
  exact hcleared.moved hne (.inr rfl)

theorem internalBurn_moved (h : internalBurn lists caller account amount s = .ok t) :
    Moved lists caller account 0 s t := by
  simp only [internalBurn, bind_eq_ok, exists_unit_iff, revertIf_eq_ok, beforeTokenTransfer_eq_ok, pure_eq_ok] at h
  obtain ⟨hne, hcleared, balance, -, totalSupply, -, rfl⟩ := h
  exact hcleared.moved hne (.inl rfl)

theorem internalApprove_inv {owner spender : Address} (h : internalApprove owner spender amount s = .ok t) :
    ∃ allowances events, t = { s with allowances, events } := by
  simp only [internalApprove, bind_eq_ok, exists_unit_iff, revertIf_eq_ok, pure_eq_ok] at h
  obtain ⟨-, -, rfl⟩ := h
  exact ⟨_, _, rfl⟩

theorem spendAllowance_inv {owner spender : Address} (h : spendAllowance owner spender amount s = .ok t) :
    ∃ allowances events, t = { s with allowances, events } := by
  unfold spendAllowance at h
  split at h
  · obtain ⟨allowance, -, h⟩ := bind_eq_ok.mp h
    exact internalApprove_inv h
  · obtain rfl := pure_eq_ok.mp h
    exact ⟨s.allowances, s.events, rfl⟩

/-- Neither allowances nor events matter to a movement. -/
theorem Moved.of_spent {allowances : Address → Address → Uint256} {events : List Event}
    (h : Moved lists caller src dst { s with allowances, events } t) : Moved lists caller src dst s t :=
  ⟨⟨h.cleared.unpaused, h.cleared.sender, h.cleared.src, h.cleared.dst⟩, h.frame, h.blocklist, h.allowlist⟩

/-- The accounts a call moves tokens from and to, as the hook sees them. -/
def Call.movement (caller : Address) : Call → Option (Address × Address)
  | .transfer dst _ => some (caller, dst)
  | .transferFrom src dst _ => some (src, dst)
  | .mint dst _ => some (0, dst)
  | .burn _ => some (caller, 0)
  | .burnFrom account _ => some (account, 0)
  | .adminBurn src _ => some (src, 0)
  | _ => none

theorem exec_moved {call : Call} {m : Address × Address} (hm : call.movement caller = some m)
    (h : exec lists caller call s = .ok t) : Moved lists caller m.1 m.2 s t := by
  cases call with
  | transfer dst amount =>
    cases hm
    exact internalTransfer_moved h
  | transferFrom src dst amount =>
    cases hm
    obtain ⟨u, hu, h⟩ := bind_eq_ok.mp h
    obtain ⟨allowances, events, rfl⟩ := spendAllowance_inv hu
    exact (internalTransfer_moved h).of_spent
  | mint dst amount =>
    cases hm
    obtain ⟨_, -, h⟩ := bind_eq_ok.mp h
    exact internalMint_moved h
  | burn amount =>
    cases hm
    exact internalBurn_moved h
  | burnFrom account amount =>
    cases hm
    obtain ⟨u, hu, h⟩ := bind_eq_ok.mp h
    obtain ⟨allowances, events, rfl⟩ := spendAllowance_inv hu
    exact (internalBurn_moved h).of_spent
  | adminBurn src amount =>
    cases hm
    obtain ⟨_, -, h⟩ := bind_eq_ok.mp h
    exact internalBurn_moved h
  | _ => cases hm

/-- A call that moves no tokens leaves the balances alone; only `setBlocklist` writes the blocklist. -/
theorem exec_kept {call : Call} (hm : call.movement caller = none) (h : exec lists caller call s = .ok t) :
    t.balances = s.balances ∧ (call = .setBlocklist t.blocklist ∨ t.blocklist = s.blocklist) := by
  cases call with
  | approve spender amount =>
    obtain ⟨allowances, events, rfl⟩ := internalApprove_inv h
    exact ⟨rfl, .inr rfl⟩
  | increaseAllowance spender value | decreaseAllowance spender value =>
    obtain ⟨_, -, h⟩ := bind_eq_ok.mp h
    obtain ⟨allowances, events, rfl⟩ := internalApprove_inv h
    exact ⟨rfl, .inr rfl⟩
  | pause | unpause =>
    obtain ⟨_, -, h⟩ := bind_eq_ok.mp h
    obtain ⟨_, -, h⟩ := bind_eq_ok.mp h
    obtain rfl := pure_eq_ok.mp h
    exact ⟨rfl, .inr rfl⟩
  | setBlocklist blocklist =>
    obtain ⟨_, -, h⟩ := bind_eq_ok.mp h
    obtain ⟨_, -, h⟩ := bind_eq_ok.mp h
    obtain rfl := pure_eq_ok.mp h
    exact ⟨rfl, .inl rfl⟩
  | setAllowlist allowlist =>
    obtain ⟨_, -, h⟩ := bind_eq_ok.mp h
    obtain ⟨_, -, h⟩ := bind_eq_ok.mp h
    obtain rfl := pure_eq_ok.mp h
    exact ⟨rfl, .inr rfl⟩
  | role call =>
    obtain ⟨access, -, h⟩ := bind_eq_ok.mp h
    obtain rfl := pure_eq_ok.mp h
    exact ⟨rfl, .inr rfl⟩
  | _ => cases hm

/-! ### Runs -/

/-- USDY and what the lists answer. -/
structure System where
  token : USDY
  lists : Lists

/-- Somebody calls USDY, or the lists come to answer otherwise. -/
inductive Action
  | call (sender : Sender) (call : Call)
  | lists (lists : Lists)

def act (s : System) : Action → Option System
  | .call sender call => (exec s.lists sender.address call s.token).toOption.map fun token => { s with token }
  | .lists lists => some { s with lists }

end USDY

end Usdy
