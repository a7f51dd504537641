import Usdy.Step

/-! The manager when its tokens call back. A token that the manager calls may call the manager again before it
    returns, through a hook of the receiver for instance, and so on, up to the call depth of the EVM. -/

namespace Usdy
open Checked Function State

variable {T : Type}

/-! ### Tokens that call back -/

/-- What a token does when it is called: it returns with the tokens' new state, it reverts, or it first calls the
    manager. It goes on with the tokens as they are then, and with whether the call succeeded. -/
inductive Reaction (T : Type)
  | done (tokens : T)
  | revert
  | call (tokens : T) (sender : Sender) (callback : Call) (next : T → Bool → Reaction T)

/-- A call to a token where the manager executes calls with `execute`. A callback that reverts changes nothing. -/
def Reaction.run (execute : Address → Call → State T → Except Err (State T)) : Reaction T → State T →
    Except Err (State T)
  | .done tokens, s => .ok { s with tokens }
  | .revert, _ => .error .externalCall
  | .call tokens sender callback next, s =>
    match execute sender.address callback { s with tokens } with
    | .ok t => (next t.tokens true).run execute t
    | .error _ => (next tokens false).run execute { s with tokens }

/-- What the tokens do at a call, which may depend on the other contracts and on their own state. -/
abbrev Reactions (T : Type) := Views → T → TokenCall → Reaction T

/-- A token that calls back, where calls to the manager are executed with `execute`. -/
def Reactions.step (react : Reactions T) (execute : Address → Call → State T → Except Err (State T)) : TokenStep T :=
  fun s call => do
    let s ← (react s.views s.tokens call).run execute s
    return { s with calls := s.calls ++ [call] }

namespace Reentry

/-- A call to the manager with callbacks, where `depth` calls may be open at once. -/
def execute (react : Reactions T) : Nat → Address → Call → State T → Except Err (State T)
  | 0 => execBy fun _ _ => .error .externalCall
  | depth + 1 => execBy (react.step (execute react depth))

/-- The step of an action when the tokens call back. -/
def step (react : Reactions T) (depth : Nat) (s : State T) (a : Action T) : State T := stepBy (execute react depth) s a

def run (react : Reactions T) (depth : Nat) (s : State T) (acts : List (Action T)) : State T :=
  acts.foldl (step react depth) s

end Reentry

end Usdy
