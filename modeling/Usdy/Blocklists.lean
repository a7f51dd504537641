import Mathlib.Logic.Relation
import Usdy.Blocklist

/-! Blocklists and aggregators together, each at its own address: any of them may be registered with an
    aggregator, and `isBlocked` of an aggregator calls `isBlocked` of what is registered with it. -/

namespace Usdy
open Function

/-- A contract that a chain of blocklists may hold. -/
inductive Contract
  | blocklist (s : Blocklist)
  | aggregator (s : AggregatorBlocklist)

/-- What is deployed, and by whom. -/
inductive Contract.Deployment
  | blocklist (sender : Address)
  | aggregator (sender : Address)

/-- What is at the addresses; where there is nothing, a call fails. -/
abbrev Chain := Address → Option Contract

namespace Contract

def deploy : Deployment → Contract
  | .blocklist sender => .blocklist (.deploy sender)
  | .aggregator sender => .aggregator (.deploy sender)

/-- A call of a sender. The functions that only an aggregator has fail on a blocklist. -/
def exec (caller : Address) (call : AggregatorBlocklist.Call) : Contract → Option Contract
  | .aggregator s => (s.exec caller call).toOption.map .aggregator
  | .blocklist s =>
    match call with
    | .addToBlocklist accounts => (s.exec caller (.addToBlocklist accounts)).toOption.map .blocklist
    | .removeFromBlocklist accounts => (s.exec caller (.removeFromBlocklist accounts)).toOption.map .blocklist
    | .ownable call => (s.exec caller (.ownable call)).toOption.map .blocklist
    | .addBlocklist _ | .removeBlocklist _ => none

/-- What is registered with a contract. -/
def blocklists : Contract → List Address
  | .blocklist _ => []
  | .aggregator s => s.blocklists

end Contract

/-- A call by somebody to one of the contracts. -/
structure Message where
  sender : Address
  target : Address
  call : AggregatorBlocklist.Call
  deriving DecidableEq

namespace Chain

def deploy (contracts : Address → Option Contract.Deployment) : Chain := fun a => (contracts a).map .deploy

def act (chain : Chain) (m : Message) : Option Chain := do
  let c ← chain m.target
  let c ← c.exec m.sender m.call
  return update chain m.target (some c)

/-- A blocklist is registered with an aggregator. -/
def Registers (chain : Chain) (aggregator blocklist : Address) : Prop :=
  ∃ c, chain aggregator = some c ∧ blocklist ∈ c.blocklists

/-- `isBlocked` of the contract at `target`, where calls go no deeper than `depth`. -/
def isBlocked (chain : Chain) : Nat → Address → Address → Option Bool
  | 0, _, _ => none
  | depth + 1, target, addr =>
    match chain target with
    | some (.blocklist s) => some (s.isBlocked addr)
    | some (.aggregator s) => (s.isBlocked (isBlocked chain depth) addr).toOption
    | none => none

end Chain

end Usdy
