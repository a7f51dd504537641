import Usdy.State

/-! `RWAHub` and `RWAHubOffChainRedemptions`: requests, claims, price ids, admin functions and fees.

    A function takes the state and returns the state it leaves, or the error it reverts with; the
    caller of a reverted call keeps the state from before. Functions that the contracts override take
    the overriding function as an argument. -/

namespace Usdy
open Checked Function

variable {T : Type}

/-- How a call that the manager makes to a token goes. -/
abbrev TokenStep (T : Type) := State T → TokenCall → Except Err (State T)

/-- A token that only returns or reverts. -/
def Tokens.step (X : Tokens T) : TokenStep T := fun s call => do
  let tokens ← orFail .externalCall (X.exec s.views s.tokens call)
  return { s with tokens, calls := s.calls ++ [call] }

instance : Coe (Tokens T) (TokenStep T) := ⟨Tokens.step⟩

namespace State

def emit (s : State T) (event : Event) : State T := { s with events := s.events ++ [⟨s.now, event⟩] }

/-! ### Calls to the tokens -/

variable (token : TokenStep T)

def rwaMint (s : State T) (dst : Address) (amount : Uint256) : Except Err (State T) := token s (.mint dst amount)

def rwaBurnFrom (s : State T) (src : Address) (amount : Uint256) : Except Err (State T) :=
  token s (.burnFrom src amount)

def safeTransferFrom (s : State T) (src dst : Address) (amount : Uint256) : Except Err (State T) :=
  token s (.transferFrom src dst amount)

/-! ### Modifiers and views -/

/-- The modifier `nonReentrant` around the body of a function. -/
def nonReentrant (body : State T → Except Err (State T)) (s : State T) : Except Err (State T) := do
  revertIf (s.status = 2) .reentrantCall
  let t ← body { s with status := 2 }
  return { t with status := 1 }

def onlyRole (s : State T) (caller : Address) (role : Role) : Except Err Unit :=
  revertIf (s.hasRole role caller = false) (.missingRole caller role)

def ifNotPaused (feature : Bool) : Except Err Unit := revertIf (feature = true) .featurePaused

def isBlocked (s : State T) (account : Address) : Except Err Bool :=
  orFail .externalCall (s.views.isBlocked s.blocklist account)

/-- `_checkRestrictions`, as USDYManager overrides it. -/
def checkRestrictions (s : State T) (account : Address) : Except Err Unit := do
  let blocked ← s.isBlocked account
  revertIf (blocked = true) .blockedAccount

def getPrice (s : State T) (priceId : Uint256) : Except Err Uint256 :=
  orFail .externalCall (s.views.getPrice s.pricer priceId)

/-! ### Math utils -/

/-- The share of an amount that `rate` basis points make: the body of the two fee functions. -/
def basisPoints (collateralAmount rate : Uint256) : Except Err Uint256 := do
  let product ← mulOr .arithmetic collateralAmount rate
  divOr .divisionByZero product bpsDenominator

def getMintFees (s : State T) (collateralAmount : Uint256) : Except Err Uint256 :=
  basisPoints collateralAmount s.mintFee

def getRedemptionFees (s : State T) (collateralAmount : Uint256) : Except Err Uint256 :=
  basisPoints collateralAmount s.redemptionFee

def scaleUp (s : State T) (amount : Uint256) : Except Err Uint256 :=
  mulOr .arithmetic amount s.decimalsMultiplier

def scaleDown (s : State T) (amount : Uint256) : Except Err Uint256 :=
  divOr .divisionByZero amount s.decimalsMultiplier

/-- Reverts with a division by zero when no price is defined for the price id. -/
def getMintAmountForPrice (s : State T) (depositAmt price : Uint256) : Except Err Uint256 := do
  let scaled ← s.scaleUp depositAmt
  let amountE36 ← mulOr .arithmetic scaled e18
  divOr .divisionByZero amountE36 price

def getRedemptionAmountForRwa (s : State T) (rwaTokenAmountBurned price : Uint256) : Except Err Uint256 := do
  let amountE36 ← mulOr .arithmetic rwaTokenAmountBurned price
  let amount ← divOr .divisionByZero amountE36 e18
  s.scaleDown amount

end State

open State

/-! ### Subscriptions and redemptions -/

namespace RWAHub
variable (token : TokenStep T)

def requestSubscription (caller : Address) (amount : Uint256) : State T → Except Err (State T) :=
  nonReentrant fun s => do
    ifNotPaused s.subscriptionPaused
    s.checkRestrictions caller
    revertIf (amount < s.minimumDepositAmount) .depositTooSmall
    -- The source compares with the redemption maximum here.
    revertIf (amount > s.maximumRedemptionAmount) .depositTooLarge
    let feesInCollateral ← s.getMintFees amount
    let depositAmountAfterFee ← subOr .arithmetic amount feesInCollateral
    let depositId : Bytes32 := s.subscriptionRequestCounter
    let counter ← addOr .arithmetic s.subscriptionRequestCounter 1
    let s := { s with
      subscriptionRequestCounter := counter
      depositIdToDepositor := update s.depositIdToDepositor depositId ⟨caller, depositAmountAfterFee, 0⟩ }
    let s ← (if feesInCollateral > 0 then s.safeTransferFrom token caller s.feeRecipient feesInCollateral else pure s)
    let s ← s.safeTransferFrom token caller s.assetRecipient depositAmountAfterFee
    return s.emit (.mintRequested caller depositId amount depositAmountAfterFee feesInCollateral)

/-- `_claimMint`. -/
def internalClaimMint (depositId : Bytes32) (s : State T) : Except Err (State T) := do
  let depositor := s.depositIdToDepositor depositId
  revertIf (depositor.priceId = 0) .priceIdNotSet
  let price ← s.getPrice depositor.priceId
  let rwaOwed ← s.getMintAmountForPrice depositor.amountDepositedMinusFees price
  let s := { s with depositIdToDepositor := update s.depositIdToDepositor depositId 0 }
  let s ← s.rwaMint token depositor.user rwaOwed
  return s.emit (.mintCompleted depositor.user depositId rwaOwed depositor.amountDepositedMinusFees price
    depositor.priceId)

def claimMint (internalClaimMint : Bytes32 → State T → Except Err (State T)) (depositIds : List Bytes32) :
    State T → Except Err (State T) :=
  nonReentrant fun s => do
    ifNotPaused s.subscriptionPaused
    depositIds.foldlM (fun s depositId => internalClaimMint depositId s) s

def requestRedemption (caller : Address) (amount : Uint256) : State T → Except Err (State T) :=
  nonReentrant fun s => do
    ifNotPaused s.redemptionPaused
    revertIf (amount < s.minimumRedemptionAmount) .redemptionTooSmall
    revertIf (amount > s.maximumRedemptionAmount) .redemptionTooLarge
    let redemptionId : Bytes32 := s.redemptionRequestCounter
    let counter ← addOr .arithmetic s.redemptionRequestCounter 1
    let s := { s with
      redemptionRequestCounter := counter
      redemptionIdToRedeemer := update s.redemptionIdToRedeemer redemptionId ⟨caller, amount, 0⟩ }
    let s ← s.rwaBurnFrom token caller amount
    return s.emit (.redemptionRequested caller redemptionId amount)

/-- One pass of the loop of `claimRedemption`, with the fees collected so far. -/
def settleRedemption (acc : State T × Uint256) (redemptionId : Bytes32) : Except Err (State T × Uint256) := do
  let s := acc.1
  let member := s.redemptionIdToRedeemer redemptionId
  s.checkRestrictions member.user
  revertIf (member.priceId = 0) .priceIdNotSet
  let price ← s.getPrice member.priceId
  let collateralDue ← s.getRedemptionAmountForRwa member.amountRwaTokenBurned price
  let fee ← s.getRedemptionFees collateralDue
  let collateralDuePostFees ← subOr .arithmetic collateralDue fee
  let fees ← addOr .arithmetic acc.2 fee
  let s := { s with redemptionIdToRedeemer := update s.redemptionIdToRedeemer redemptionId 0 }
  let s ← s.safeTransferFrom token s.assetSender member.user collateralDuePostFees
  return (s.emit (.redemptionCompleted member.user redemptionId member.amountRwaTokenBurned
    collateralDuePostFees price), fees)

def claimRedemption (redemptionIds : List Bytes32) : State T → Except Err (State T) :=
  nonReentrant fun s => do
    ifNotPaused s.redemptionPaused
    let acc ← redemptionIds.foldlM (settleRedemption token) (s, 0)
    if acc.2 > 0 then acc.1.safeTransferFrom token acc.1.assetSender acc.1.feeRecipient acc.2 else pure acc.1

/-! ### Price ids -/

/-- One pass of the loop of `setPriceIdForDeposits`. -/
def setPriceIdForDeposit (s : State T) (entry : Bytes32 × Uint256) : Except Err (State T) := do
  let depositor := s.depositIdToDepositor entry.1
  revertIf (depositor.user = 0) .depositorNull
  revertIf (depositor.priceId ≠ 0) .priceIdAlreadySet
  let s := { s with
    depositIdToDepositor := update s.depositIdToDepositor entry.1 { depositor with priceId := entry.2 } }
  return s.emit (.priceIdSetForDeposit entry.1 entry.2)

def setPriceIdForDeposits (caller : Address) (depositIds : List Bytes32) (priceIds : List Uint256) (s : State T) :
    Except Err (State T) := do
  s.onlyRole caller .priceIdSetter
  revertIf (depositIds.length ≠ priceIds.length) .arraySizeMismatch
  (depositIds.zip priceIds).foldlM setPriceIdForDeposit s

/-- One pass of the loop of `setPriceIdForRedemptions`, which does not check the user. -/
def setPriceIdForRedemption (s : State T) (entry : Bytes32 × Uint256) : Except Err (State T) := do
  let redeemer := s.redemptionIdToRedeemer entry.1
  revertIf (redeemer.priceId ≠ 0) .priceIdAlreadySet
  let s := { s with
    redemptionIdToRedeemer := update s.redemptionIdToRedeemer entry.1 { redeemer with priceId := entry.2 } }
  return s.emit (.priceIdSetForRedemption entry.1 entry.2)

def setPriceIdForRedemptions (caller : Address) (redemptionIds : List Bytes32) (priceIds : List Uint256)
    (s : State T) : Except Err (State T) := do
  s.onlyRole caller .priceIdSetter
  revertIf (redemptionIds.length ≠ priceIds.length) .arraySizeMismatch
  (redemptionIds.zip priceIds).foldlM setPriceIdForRedemption s

/-! ### Admin setters -/

def overwriteDepositor (caller : Address) (depositIdToOverwrite : Bytes32) (user : Address)
    (depositAmountAfterFee priceId : Uint256) (s : State T) : Except Err (State T) := do
  s.onlyRole caller .managerAdmin
  s.checkRestrictions user
  let oldDepositor := s.depositIdToDepositor depositIdToOverwrite
  let s := { s with
    depositIdToDepositor :=
      update s.depositIdToDepositor depositIdToOverwrite ⟨user, depositAmountAfterFee, priceId⟩ }
  return s.emit (.depositorOverwritten depositIdToOverwrite oldDepositor.user user oldDepositor.priceId priceId
    oldDepositor.amountDepositedMinusFees depositAmountAfterFee)

def overwriteRedeemer (caller : Address) (redemptionIdToOverwrite : Bytes32) (user : Address)
    (rwaTokenAmountBurned priceId : Uint256) (s : State T) : Except Err (State T) := do
  s.onlyRole caller .managerAdmin
  s.checkRestrictions user
  let oldRedeemer := s.redemptionIdToRedeemer redemptionIdToOverwrite
  let s := { s with
    redemptionIdToRedeemer :=
      update s.redemptionIdToRedeemer redemptionIdToOverwrite ⟨user, rwaTokenAmountBurned, priceId⟩ }
  return s.emit (.redeemerOverwritten redemptionIdToOverwrite oldRedeemer.user user oldRedeemer.priceId priceId
    oldRedeemer.amountRwaTokenBurned rwaTokenAmountBurned)

end RWAHub

/-- An admin function that, after its checks, writes the configuration and emits one event. -/
def configure (s : State T) (caller : Address) (role : Role) (check : Except Err Unit) (config : Config)
    (event : Event) : Except Err (State T) := do
  s.onlyRole caller role
  check
  return { s with toConfig := config }.emit event

namespace RWAHub

def setMinimumRedemptionAmount (caller : Address) (minimum : Uint256) (s : State T) : Except Err (State T) :=
  configure s caller .managerAdmin (revertIf (minimum < bpsDenominator) .amountTooSmall)
    { s.toConfig with minimumRedemptionAmount := minimum }
    (.minimumRedemptionAmountSet s.minimumRedemptionAmount minimum)

def setMinimumDepositAmount (caller : Address) (minimum : Uint256) (s : State T) : Except Err (State T) :=
  configure s caller .managerAdmin (revertIf (minimum < bpsDenominator) .amountTooSmall)
    { s.toConfig with minimumDepositAmount := minimum }
    (.minimumDepositAmountSet s.minimumDepositAmount minimum)

def setMaximumRedemptionAmount (caller : Address) (maximum : Uint256) (s : State T) : Except Err (State T) :=
  configure s caller .managerAdmin (revertIf (maximum < bpsDenominator) .amountTooSmall)
    { s.toConfig with maximumRedemptionAmount := maximum }
    (.maximumRedemptionAmountSet s.maximumRedemptionAmount maximum)

def setMaximumDepositAmount (caller : Address) (maximum : Uint256) (s : State T) : Except Err (State T) :=
  configure s caller .managerAdmin (revertIf (maximum < bpsDenominator) .amountTooSmall)
    { s.toConfig with maximumDepositAmount := maximum }
    (.maximumDepositAmountSet s.maximumDepositAmount maximum)

def setMintFee (caller : Address) (mintFee : Uint256) (s : State T) : Except Err (State T) :=
  configure s caller .managerAdmin (revertIf (mintFee > bpsDenominator) .feeTooLarge)
    { s.toConfig with mintFee := mintFee } (.mintFeeSet s.mintFee mintFee)

def setRedemptionFee (caller : Address) (redemptionFee : Uint256) (s : State T) : Except Err (State T) :=
  configure s caller .managerAdmin (revertIf (redemptionFee > bpsDenominator) .feeTooLarge)
    { s.toConfig with redemptionFee := redemptionFee } (.redemptionFeeSet s.redemptionFee redemptionFee)

def setPricer (caller newPricer : Address) (s : State T) : Except Err (State T) :=
  configure s caller .managerAdmin (.ok ()) { s.toConfig with pricer := newPricer } (.newPricerSet s.pricer newPricer)

def setFeeRecipient (caller newFeeRecipient : Address) (s : State T) : Except Err (State T) :=
  configure s caller .managerAdmin (.ok ()) { s.toConfig with feeRecipient := newFeeRecipient }
    (.feeRecipientSet s.feeRecipient newFeeRecipient)

def setAssetSender (caller newAssetSender : Address) (s : State T) : Except Err (State T) :=
  configure s caller .managerAdmin (.ok ()) { s.toConfig with assetSender := newAssetSender }
    (.assetSenderSet s.assetSender newAssetSender)

def setAssetRecipient (caller newAssetRecipient : Address) (s : State T) : Except Err (State T) :=
  configure s caller .managerAdmin (.ok ()) { s.toConfig with assetRecipient := newAssetRecipient }
    (.assetRecipientSet s.assetRecipient newAssetRecipient)

def pauseSubscription (caller : Address) (s : State T) : Except Err (State T) :=
  configure s caller .pauserAdmin (.ok ()) { s.toConfig with subscriptionPaused := true } (.subscriptionPaused caller)

def pauseRedemption (caller : Address) (s : State T) : Except Err (State T) :=
  configure s caller .pauserAdmin (.ok ()) { s.toConfig with redemptionPaused := true } (.redemptionPaused caller)

def unpauseSubscription (caller : Address) (s : State T) : Except Err (State T) :=
  configure s caller .managerAdmin (.ok ()) { s.toConfig with subscriptionPaused := false }
    (.subscriptionUnpaused caller)

def unpauseRedemption (caller : Address) (s : State T) : Except Err (State T) :=
  configure s caller .managerAdmin (.ok ()) { s.toConfig with redemptionPaused := false } (.redemptionUnpaused caller)

end RWAHub

/-! ### Requests serviced off chain -/

namespace RWAHubOffChainRedemptions
variable (token : TokenStep T)

def requestRedemptionServicedOffchain (caller : Address) (amountRWATokenToRedeem : Uint256)
    (offChainDestination : Bytes32) : State T → Except Err (State T) :=
  nonReentrant fun s => do
    ifNotPaused s.offChainRedemptionPaused
    revertIf (amountRWATokenToRedeem < s.minimumOffChainRedemptionAmount) .redemptionTooSmall
    revertIf (amountRWATokenToRedeem > s.maximumOffChainRedemptionAmount) .redemptionTooLarge
    let redemptionId : Bytes32 := s.redemptionRequestCounter
    let counter ← addOr .arithmetic s.redemptionRequestCounter 1
    let s := { s with redemptionRequestCounter := counter }
    let s ← s.rwaBurnFrom token caller amountRWATokenToRedeem
    return s.emit (.redemptionRequestedServicedOffChain caller redemptionId amountRWATokenToRedeem
      offChainDestination)

def requestSubscriptionServicedOffchain (caller user : Address) (amount : Uint256) (offChainDestination : Bytes32) :
    State T → Except Err (State T) :=
  nonReentrant fun s => do
    s.onlyRole caller .relayer
    ifNotPaused s.offChainSubscriptionPaused
    s.checkRestrictions user
    revertIf ((s.depositIdToDepositor offChainDestination).user ≠ 0) .depositProofAlreadyExists
    revertIf (amount < s.minimumOffChainSubscriptionAmount) .depositTooSmall
    -- The source compares with the redemption maximum here.
    revertIf (amount > s.maximumOffChainRedemptionAmount) .depositTooLarge
    let feesInCollateral ← s.getMintFees amount
    let depositAmountAfterFee ← subOr .arithmetic amount feesInCollateral
    let s := { s with
      depositIdToDepositor :=
        update s.depositIdToDepositor offChainDestination ⟨user, depositAmountAfterFee, 0⟩ }
    return s.emit (.subscriptionRequestedServicedOffChain user amount depositAmountAfterFee feesInCollateral
      offChainDestination)

def pauseOffChainRedemption (caller : Address) (s : State T) : Except Err (State T) :=
  configure s caller .pauserAdmin (.ok ()) { s.toConfig with offChainRedemptionPaused := true }
    (.offChainRedemptionPaused caller)

def unpauseOffChainRedemption (caller : Address) (s : State T) : Except Err (State T) :=
  configure s caller .managerAdmin (.ok ()) { s.toConfig with offChainRedemptionPaused := false }
    (.offChainRedemptionUnpaused caller)

def setOffChainRedemptionMinimum (caller : Address) (minimum : Uint256) (s : State T) : Except Err (State T) :=
  configure s caller .managerAdmin (.ok ()) { s.toConfig with minimumOffChainRedemptionAmount := minimum }
    (.offChainRedemptionMinimumSet s.minimumOffChainRedemptionAmount minimum)

-- The source writes the redemption flag in the next two functions.

def pauseOffChainSubscription (caller : Address) (s : State T) : Except Err (State T) :=
  configure s caller .pauserAdmin (.ok ()) { s.toConfig with offChainRedemptionPaused := true }
    (.offChainSubscriptionPaused caller)

def unpauseOffChainSubscription (caller : Address) (s : State T) : Except Err (State T) :=
  configure s caller .managerAdmin (.ok ()) { s.toConfig with offChainRedemptionPaused := false }
    (.offChainSubscriptionUnpaused caller)

def setOffChainSubscriptionMinimum (caller : Address) (minimum : Uint256) (s : State T) : Except Err (State T) :=
  configure s caller .managerAdmin (.ok ()) { s.toConfig with minimumOffChainSubscriptionAmount := minimum }
    (.offChainSubscriptionMinimumSet s.minimumOffChainSubscriptionAmount minimum)

end RWAHubOffChainRedemptions

end Usdy
