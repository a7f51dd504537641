import Usdy.Token
import Usdy.Books

/-! USDYManager over USDY: the RWA token that the manager mints and burns is `USDY`, which takes these calls from
    the manager's address as it takes any other. The collateral may be any token. -/

namespace Usdy
open Checked

variable {C : Type}

/-- What the manager's tokens are: USDY, what the allowlists answer, and the state of the collateral. -/
structure World (C : Type) where
  token : USDY
  isAllowed : Address → Address → Option Bool
  collateral : C

/-- The lists as USDY sees them: the blocklists are those that the manager asks. -/
def World.lists (w : World C) (views : Views) : Lists := ⟨views.isBlocked, w.isAllowed⟩

/-- A call that somebody makes to USDY. -/
def World.exec (views : Views) (caller : Address) (call : USDY.Call) (w : World C) : Option (World C) :=
  (w.token.exec (w.lists views) caller call).toOption.map fun token => { w with token }

def usdyTokens (manager : Address) (transferFrom : Views → C → Address → Address → Uint256 → Option C) :
    Tokens (World C) where
  mint views w dst amount := w.exec views manager (.mint dst amount)
  burnFrom views w src amount := w.exec views manager (.burnFrom src amount)
  transferFrom views w src dst amount :=
    (transferFrom views w.collateral src dst amount).map fun collateral => { w with collateral }

/-- A move of the other contracts: anybody calls USDY, or USDY stays as it is; allowlists, collateral and what
    the lists answer may change in any way. -/
def tokenMove (allowed : USDY.Call → Prop) (s : State (World C)) (w : World C) : Prop :=
  w.token = s.tokens.token ∨ ∃ (sender : Sender) (call : USDY.Call) (u : World C),
    allowed call ∧ s.tokens.exec s.views sender.address call = some u ∧ w.token = u.token

variable {views : Views} {w w' : World C} {caller : Address} {call : USDY.Call}

theorem World.exec_eq_some :
    w.exec views caller call = some w' ↔ ∃ token, w.token.exec (w.lists views) caller call = .ok token ∧
      w' = { w with token } := by
  simp only [World.exec, map_toOption_eq_some, eq_comm (b := w')]

end Usdy
