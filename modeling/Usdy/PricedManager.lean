import Usdy.PricerWithOracle
import Usdy.Step

/-! `USDYManager` wired to a `PricerWithOracle` and its oracle: one chain, whose calls to the manager read the prices
    from the pricer, at the time of the block. -/

namespace Usdy

/-- The manager over the pricer and the oracle of this repository. -/
structure PricedManager (T : Type) where
  manager : State T
  prices : PricerWithOracle.System
  -- what the other contracts answer at the moment
  isBlocked : Address → Address → Option Bool
  otherPrice : Address → Uint256 → Option Uint256

namespace PricedManager

variable {T : Type}

/-- What the manager reads of the other contracts. -/
def views (w : PricedManager T) : Views where
  isBlocked := w.isBlocked
  getPrice pricer priceId :=
    if pricer = w.prices.address then some (w.prices.pricer.getPrice priceId) else w.otherPrice pricer priceId

theorem views_getPrice (w : PricedManager T) (priceId : Uint256) :
    w.views.getPrice w.prices.address priceId = some (w.prices.pricer.getPrice priceId) := if_pos rfl

/-- The manager at the time of the block, with the other contracts as they are. -/
def seen (w : PricedManager T) : State T := { w.manager with now := w.prices.now, views := w.views }

/-- Somebody calls the manager, the prices take a step, or the other contracts do. -/
inductive Action (T : Type)
  | manager (sender : Sender) (call : Call)
  | prices (action : PricerWithOracle.Action)
  | world (isBlocked : Address → Address → Option Bool) (otherPrice : Address → Uint256 → Option Uint256) (tokens : T)

def act (X : Tokens T) (w : PricedManager T) : Action T → Option (PricedManager T)
  | .manager sender call => (exec X sender.address call w.seen).toOption.map fun manager => { w with manager }
  | .prices action => (PricerWithOracle.act w.prices action).map fun prices => { w with prices }
  | .world isBlocked otherPrice tokens =>
    some { w with isBlocked, otherPrice, manager := { w.manager with tokens } }

end PricedManager

end Usdy
