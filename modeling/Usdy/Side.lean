import Usdy.Step

/-! The two sides of the manager. Subscriptions and redemptions keep the same kind of epoch limits, each
    with trackers and maxima of its own, and every request passes the two limits of its side before
    anything else. -/

namespace Usdy
open Function

variable {T : Type}

/-- Subscriptions or redemptions. -/
inductive Side
  | deposit
  | redemption
  deriving DecidableEq

namespace Side

def maximum (c : Config) : Side → Uint256
  | deposit => c.maximumDepositAmountInEpoch
  | redemption => c.maximumRedemptionAmountInEpoch

def totalMaximum (c : Config) : Side → Uint256
  | deposit => c.totalMaximumDepositAmountInEpoch
  | redemption => c.totalMaximumRedemptionAmountInEpoch

def exceeds : Side → Err
  | deposit => .depositAmountExceedEpochMaximum
  | redemption => .redemptionAmountExceedEpochMaximum

def totalExceeds : Side → Err
  | deposit => .depositAmountExceedEpochTotalMaximum
  | redemption => .redemptionAmountExceedEpochTotalMaximum

def operator (r : Trackers) (account : Address) : Side → UserOperator
  | deposit => r.depositEpochUserOperator account
  | redemption => r.redemptionEpochUserOperator account

def totalOperator (r : Trackers) : Side → UserOperator
  | deposit => r.totalDepositEpochOperater
  | redemption => r.totalRedemptionEpochOperator

def setOperator (r : Trackers) (account : Address) (o : UserOperator) : Side → Trackers
  | deposit => { r with depositEpochUserOperator := update r.depositEpochUserOperator account o }
  | redemption => { r with redemptionEpochUserOperator := update r.redemptionEpochUserOperator account o }

def setTotalOperator (r : Trackers) (o : UserOperator) : Side → Trackers
  | deposit => { r with totalDepositEpochOperater := o }
  | redemption => { r with totalRedemptionEpochOperator := o }

/-- `_checkAndUpdateDepositLimit` and `_checkAndUpdateRedemptionLimit`. -/
def checkAndUpdateLimit (account : Address) (amount : Uint256) : Side → State T → Except Err (State T)
  | deposit => USDYManager.checkAndUpdateDepositLimit account amount
  | redemption => USDYManager.checkAndUpdateRedemptionLimit account amount

/-- `_checkAndUpdateTotalDepositLimit` and `_checkAndUpdateTotalRedemptionLimit`. -/
def checkAndUpdateTotalLimit (amount : Uint256) : Side → State T → Except Err (State T)
  | deposit => USDYManager.checkAndUpdateTotalDepositLimit amount
  | redemption => USDYManager.checkAndUpdateTotalRedemptionLimit amount

def checkLimits (side : Side) (account : Address) (amount : Uint256) (s : State T) : Except Err (State T) := do
  let s ← side.checkAndUpdateTotalLimit amount s
  side.checkAndUpdateLimit account amount s

end Side

/-- A request as the epoch limits see it: its side, the account it counts for, and its amount. -/
structure Request where
  side : Side
  account : Address
  amount : Uint256
  deriving DecidableEq

def Call.request (caller : Address) : Call → Option Request
  | .requestSubscription amount => some ⟨.deposit, caller, amount⟩
  | .requestSubscriptionServicedOffchain user amount _ => some ⟨.deposit, user, amount⟩
  | .requestRedemption amount => some ⟨.redemption, caller, amount⟩
  | .requestRedemptionServicedOffchain amountRWATokenToRedeem _ => some ⟨.redemption, caller, amountRWATokenToRedeem⟩
  | _ => none

/-- The request an event tells was accepted. -/
def Event.request : Event → Option Request
  | .mintRequested user _ collateralAmountDeposited _ _ => some ⟨.deposit, user, collateralAmountDeposited⟩
  | .subscriptionRequestedServicedOffChain user collateralAmountDeposited _ _ _ =>
    some ⟨.deposit, user, collateralAmountDeposited⟩
  | .redemptionRequested user _ rwaAmountIn => some ⟨.redemption, user, rwaAmountIn⟩
  | .redemptionRequestedServicedOffChain user _ rwaTokenAmountIn _ => some ⟨.redemption, user, rwaTokenAmountIn⟩
  | _ => none

/-- What a request does once its limits are checked. -/
def Call.serve (token : TokenStep T) (caller : Address) : Call → State T → Except Err (State T)
  | .requestSubscription amount => RWAHub.requestSubscription token caller amount
  | .requestSubscriptionServicedOffchain user amount offChainDestination =>
    RWAHubOffChainRedemptions.requestSubscriptionServicedOffchain caller user amount offChainDestination
  | .requestRedemption amount => RWAHub.requestRedemption token caller amount
  | .requestRedemptionServicedOffchain amountRWATokenToRedeem offChainDestination =>
    RWAHubOffChainRedemptions.requestRedemptionServicedOffchain token caller amountRWATokenToRedeem offChainDestination
  | call => execBy token caller call

end Usdy
