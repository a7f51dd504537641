import Usdy.State

/-! The functions of `AccessControl` that a contract inherits, and the roles of the contracts around the
    manager. -/

namespace Usdy
open Checked

abbrev Int256 := BitVec 256

namespace Role

-- The ids are the hashes of the names of the constants.

/-- `SETTER_ROLE`. -/
abbrev setter : Role := .other 0x61c92169ef077349011ff0b1383c894d86c5f0b41d986366b58a6cf31e93beda

/-- `MINTER_ROLE`. -/
abbrev minter : Role := .other 0x9f2df0fed2c77648de5860a4cc508cd0818c85b8b8a1ab4ceeef8d981c8956a6

/-- `PAUSER_ROLE`. -/
abbrev pauser : Role := .other 0x65d7a28e3265b37a6474929f336521b332c1681b933f6cb9f3376673440d862a

/-- `BURNER_ROLE`. -/
abbrev burner : Role := .other 0x3c11d16cbaffd01df69ce1c404f6340ee057498f5f00246190ea54220576a848

/-- `LIST_CONFIGURER_ROLE`. -/
abbrev listConfigurer : Role := .other 0xa74faf88a584437bd0449f37007060732f2e252b1607e7286651c9b6c1a74cba

/-- `ALLOWLIST_ADMIN`. -/
abbrev allowlistAdmin : Role := .other 0x0d5ac11ce98a7539557343d2c66c127dd8d0e8fb181c5ec16cb674ddf827d109

/-- `ALLOWLIST_SETTER`. -/
abbrev allowlistSetter : Role := .other 0x0c24059e922be4fa5a047081cbfa54efdf798eaf1522ed3f9b731a560ea8e28a

end Role

inductive AccessErr
  | missingRole (account : Address) (role : Role)
  | renounceForOther
  deriving DecidableEq

inductive RoleCall
  | grantRole (role : Role) (account : Address)
  | revokeRole (role : Role) (account : Address)
  | renounceRole (role : Role) (account : Address)
  deriving DecidableEq

namespace AccessControl

/-- Before a constructor grants anything. -/
def empty : AccessControl where
  hasRole := fun _ _ => false
  roleAdmin := fun _ => .defaultAdmin

def onlyRole (a : AccessControl) (caller : Address) (role : Role) : Except AccessErr Unit :=
  revertIf (a.hasRole role caller = false) (.missingRole caller role)

def exec (caller : Address) (call : RoleCall) (a : AccessControl) : Except AccessErr AccessControl :=
  match call with
  | .grantRole role account => do
    a.onlyRole caller (a.roleAdmin role)
    return a.setRole role account true
  | .revokeRole role account => do
    a.onlyRole caller (a.roleAdmin role)
    return a.setRole role account false
  | .renounceRole role account => do
    revertIf (account ≠ caller) .renounceForOther
    return a.setRole role account false

variable {a : AccessControl} {caller account : Address} {role : Role}

theorem onlyRole_eq_ok {u : Unit} : a.onlyRole caller role = .ok u ↔ a.hasRole role caller = true := by
  rw [onlyRole, revertIf_eq_ok, Bool.not_eq_false]

end AccessControl

end Usdy
