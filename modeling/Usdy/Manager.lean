import Usdy.Hub

/-! `USDYManager`: the epoch limits, the claimable timestamps, the overridden requests, its setters,
    the roles, and the constructor. -/

namespace Usdy
open Checked Function

variable {T : Type}

namespace USDYManager

/-! ### Epoch limits -/

/-- `_udpateEpoch`: the offset of the current epoch from the epoch start. -/
def udpateEpoch (s : State T) : Except Err Uint256 :=
  if s.epochInterval ≠ 0 ∧ s.epochStartTimestamp ≠ 0 then do
    let elapsed ← subOr .arithmetic s.now s.epochStartTimestamp
    let epochs ← divOr .divisionByZero elapsed s.epochInterval
    mulOr .arithmetic epochs s.epochInterval
  else
    return 0

/-- The body that the two limits of an account share: reset when the current epoch is later, then add. -/
def checkAndUpdateLimit (s : State T) (maximum : Uint256) (exceeds : Err) (operator : UserOperator)
    (amount : Uint256) : Except Err UserOperator := do
  let currentEpochTimestamp ← udpateEpoch s
  let used := if currentEpochTimestamp > operator.epochTimestamp then 0 else operator.amount
  let used ← addOr .arithmetic used amount
  revertIf (used > maximum) exceeds
  return ⟨used, currentEpochTimestamp⟩

/-- The body that the two total limits share: add the total when the current epoch is not later. -/
def checkAndUpdateTotalLimit (s : State T) (maximum : Uint256) (exceeds : Err) (operator : UserOperator)
    (amount : Uint256) : Except Err UserOperator := do
  let currentEpochTimestamp ← udpateEpoch s
  let totalAmount ←
    if currentEpochTimestamp ≤ operator.epochTimestamp then addOr .arithmetic amount operator.amount else pure amount
  revertIf (totalAmount > maximum) exceeds
  return ⟨totalAmount, currentEpochTimestamp⟩

def checkAndUpdateDepositLimit (account : Address) (amount : Uint256) (s : State T) : Except Err (State T) :=
  if s.epochInterval = 0 ∨ s.maximumDepositAmountInEpoch = 0 then return s else do
    let operator ← checkAndUpdateLimit s s.maximumDepositAmountInEpoch .depositAmountExceedEpochMaximum
      (s.depositEpochUserOperator account) amount
    return { s with depositEpochUserOperator := update s.depositEpochUserOperator account operator }

def checkAndUpdateRedemptionLimit (account : Address) (amount : Uint256) (s : State T) : Except Err (State T) :=
  if s.epochInterval = 0 ∨ s.maximumRedemptionAmountInEpoch = 0 then return s else do
    let operator ← checkAndUpdateLimit s s.maximumRedemptionAmountInEpoch .redemptionAmountExceedEpochMaximum
      (s.redemptionEpochUserOperator account) amount
    return { s with redemptionEpochUserOperator := update s.redemptionEpochUserOperator account operator }

def checkAndUpdateTotalDepositLimit (amount : Uint256) (s : State T) : Except Err (State T) :=
  if s.epochInterval = 0 ∨ s.totalMaximumDepositAmountInEpoch = 0 then return s else do
    let operator ← checkAndUpdateTotalLimit s s.totalMaximumDepositAmountInEpoch
      .depositAmountExceedEpochTotalMaximum s.totalDepositEpochOperater amount
    return { s with totalDepositEpochOperater := operator }

def checkAndUpdateTotalRedemptionLimit (amount : Uint256) (s : State T) : Except Err (State T) :=
  if s.epochInterval = 0 ∨ s.totalMaximumRedemptionAmountInEpoch = 0 then return s else do
    let operator ← checkAndUpdateTotalLimit s s.totalMaximumRedemptionAmountInEpoch
      .redemptionAmountExceedEpochTotalMaximum s.totalRedemptionEpochOperator amount
    return { s with totalRedemptionEpochOperator := operator }

/-! ### Requests and claims -/

section Requests
variable (token : TokenStep T)

def requestSubscription (caller : Address) (amount : Uint256) (s : State T) : Except Err (State T) := do
  let s ← checkAndUpdateTotalDepositLimit amount s
  let s ← checkAndUpdateDepositLimit caller amount s
  RWAHub.requestSubscription token caller amount s

def requestRedemption (caller : Address) (amount : Uint256) (s : State T) : Except Err (State T) := do
  let s ← checkAndUpdateTotalRedemptionLimit amount s
  let s ← checkAndUpdateRedemptionLimit caller amount s
  RWAHub.requestRedemption token caller amount s

def requestRedemptionServicedOffchain (caller : Address) (amountRWATokenToRedeem : Uint256)
    (offChainDestination : Bytes32) (s : State T) : Except Err (State T) := do
  let s ← checkAndUpdateTotalRedemptionLimit amountRWATokenToRedeem s
  let s ← checkAndUpdateRedemptionLimit caller amountRWATokenToRedeem s
  RWAHubOffChainRedemptions.requestRedemptionServicedOffchain token caller amountRWATokenToRedeem offChainDestination s

def requestSubscriptionServicedOffchain (caller user : Address) (amount : Uint256) (offChainDestination : Bytes32)
    (s : State T) : Except Err (State T) := do
  let s ← checkAndUpdateTotalDepositLimit amount s
  let s ← checkAndUpdateDepositLimit user amount s
  RWAHubOffChainRedemptions.requestSubscriptionServicedOffchain caller user amount offChainDestination s

/-- `_claimMint`. -/
def internalClaimMint (depositId : Bytes32) (s : State T) : Except Err (State T) := do
  revertIf (s.depositIdToClaimableTimestamp depositId = 0) .claimableTimestampNotSet
  revertIf (s.depositIdToClaimableTimestamp depositId > s.now) .mintNotYetClaimable
  let s ← RWAHub.internalClaimMint token depositId s
  return { s with depositIdToClaimableTimestamp := update s.depositIdToClaimableTimestamp depositId 0 }

def claimMint (depositIds : List Bytes32) : State T → Except Err (State T) :=
  RWAHub.claimMint (internalClaimMint token) depositIds

end Requests

/-- One pass of the loop of `setClaimableTimestamp`. -/
def setClaimableTimestampOf (claimTimestamp : Uint256) (s : State T) (depositId : Bytes32) : State T :=
  { s with
    depositIdToClaimableTimestamp := update s.depositIdToClaimableTimestamp depositId claimTimestamp }.emit
      (.claimableTimestampSet claimTimestamp depositId)

def setClaimableTimestamp (caller : Address) (claimTimestamp : Uint256) (depositIds : List Bytes32) (s : State T) :
    Except Err (State T) := do
  s.onlyRole caller .timestampSetter
  revertIf (claimTimestamp < s.now) .claimableTimestampInPast
  return depositIds.foldl (setClaimableTimestampOf claimTimestamp) s

/-! ### Setters -/

def setBlocklist (caller blocklist : Address) (s : State T) : Except Err (State T) :=
  configure s caller .managerAdmin (revertIf (blocklist = 0) .blocklistZeroAddress)
    { s.toConfig with blocklist } (.blocklistSet s.blocklist blocklist)

def setMaximumDepositAmountInEpoch (caller : Address) (maximum : Uint256) (s : State T) : Except Err (State T) :=
  configure s caller .managerAdmin (.ok ()) { s.toConfig with maximumDepositAmountInEpoch := maximum }
    (.maximumDepositAmountInEpochSet s.maximumDepositAmountInEpoch maximum)

def setMaximumRedemptionAmountInEpoch (caller : Address) (maximum : Uint256) (s : State T) : Except Err (State T) :=
  configure s caller .managerAdmin (.ok ()) { s.toConfig with maximumRedemptionAmountInEpoch := maximum }
    (.maximumRedemptionAmountInEpochSet s.maximumRedemptionAmountInEpoch maximum)

def setEpochStartTime (caller : Address) (epochStartTime : Uint256) (s : State T) : Except Err (State T) :=
  configure s caller .managerAdmin (revertIf (epochStartTime ≥ s.now) .epochStartTimestampNotPast)
    { s.toConfig with epochStartTimestamp := epochStartTime }
    (.epochStartTimestampSet s.epochStartTimestamp epochStartTime)

def setEpochInterval (caller : Address) (epochInterval : Uint256) (s : State T) : Except Err (State T) :=
  configure s caller .managerAdmin (.ok ()) { s.toConfig with epochInterval }
    (.epochIntervalSet s.epochInterval epochInterval)

def setTotalMaximumDepositAmountInEpoch (caller : Address) (maximum : Uint256) (s : State T) :
    Except Err (State T) :=
  configure s caller .managerAdmin (.ok ()) { s.toConfig with totalMaximumDepositAmountInEpoch := maximum }
    (.totalMaximumDepositAmountInEpochSet s.totalMaximumDepositAmountInEpoch maximum)

/-- The source emits the deposit event here. -/
def setTotalMaximumRedemptionAmountInEpoch (caller : Address) (maximum : Uint256) (s : State T) :
    Except Err (State T) :=
  configure s caller .managerAdmin (.ok ()) { s.toConfig with totalMaximumRedemptionAmountInEpoch := maximum }
    (.totalMaximumDepositAmountInEpochSet s.totalMaximumRedemptionAmountInEpoch maximum)

end USDYManager

/-! ### Roles -/

namespace State

/-- `_grantRole`. -/
def internalGrantRole (s : State T) (role : Role) (account sender : Address) : State T :=
  if s.hasRole role account then s
  else { s with toAccessControl := s.toAccessControl.setRole role account true }.emit (.roleGranted role account sender)

/-- `_revokeRole`. -/
def internalRevokeRole (s : State T) (role : Role) (account sender : Address) : State T :=
  if s.hasRole role account then
    { s with toAccessControl := s.toAccessControl.setRole role account false }.emit (.roleRevoked role account sender)
  else s

def setRoleAdmin (s : State T) (role adminRole : Role) : State T :=
  { s with roleAdmin := update s.roleAdmin role adminRole }.emit
    (.roleAdminChanged role (s.roleAdmin role) adminRole)

def grantRole (caller : Address) (role : Role) (account : Address) (s : State T) : Except Err (State T) := do
  s.onlyRole caller (s.roleAdmin role)
  return s.internalGrantRole role account caller

def revokeRole (caller : Address) (role : Role) (account : Address) (s : State T) : Except Err (State T) := do
  s.onlyRole caller (s.roleAdmin role)
  return s.internalRevokeRole role account caller

def renounceRole (caller : Address) (role : Role) (account : Address) (s : State T) : Except Err (State T) := do
  revertIf (account ≠ caller) .renounceForOther
  return s.internalRevokeRole role account caller

end State

/-! ### Deployment -/

/-- The arguments of the constructor, its sender, and the `decimals()` of the two tokens. -/
structure Deployment where
  sender : Address
  collateral : Address
  rwa : Address
  managerAdmin : Address
  pauser : Address
  assetSender : Address
  feeRecipient : Address
  assetRecipient : Address
  minimumDepositAmount : Uint256
  minimumRedemptionAmount : Uint256
  maximumDepositAmount : Uint256
  maximumRedemptionAmount : Uint256
  blocklist : Address
  rwaDecimals : BitVec 8
  collateralDecimals : BitVec 8

/-- The storage the constructors of `RWAHub` and `RWAHubOffChainRedemptions` write. -/
def Deployment.config (d : Deployment) (decimalsMultiplier : Uint256) : Config where
  pricer := 0
  assetRecipient := d.assetRecipient
  assetSender := d.assetSender
  feeRecipient := d.feeRecipient
  minimumDepositAmount := d.minimumDepositAmount
  minimumRedemptionAmount := d.minimumRedemptionAmount
  maximumDepositAmount := d.maximumDepositAmount
  maximumRedemptionAmount := d.maximumRedemptionAmount
  mintFee := 0
  redemptionFee := 0
  decimalsMultiplier
  redemptionPaused := false
  subscriptionPaused := false
  offChainRedemptionPaused := false
  offChainSubscriptionPaused := false
  minimumOffChainRedemptionAmount := d.minimumRedemptionAmount
  minimumOffChainSubscriptionAmount := d.minimumDepositAmount
  maximumOffChainRedemptionAmount := d.maximumRedemptionAmount
  maximumOffChainSubscriptionAmount := d.maximumDepositAmount
  maximumDepositAmountInEpoch := 0
  maximumRedemptionAmountInEpoch := 0
  epochStartTimestamp := 0
  epochInterval := 0
  totalMaximumDepositAmountInEpoch := 0
  totalMaximumRedemptionAmountInEpoch := 0
  blocklist := 0

def Ledgers.empty : Ledgers where
  depositIdToDepositor := fun _ => 0
  redemptionIdToRedeemer := fun _ => 0
  depositIdToClaimableTimestamp := fun _ => 0
  subscriptionRequestCounter := 1
  redemptionRequestCounter := 1

def Trackers.empty : Trackers where
  depositEpochUserOperator := fun _ => 0
  redemptionEpochUserOperator := fun _ => 0
  totalDepositEpochOperater := 0
  totalRedemptionEpochOperator := 0

/-- The constructor, run in a chain that stands at `now`, `views` and `tokens`. -/
def deploy (d : Deployment) (now : Uint256) (views : Views) (tokens : T) : Except Err (State T) := do
  revertIf (d.collateral = 0) .collateralCannotBeZero
  revertIf (d.rwa = 0) .rwaCannotBeZero
  revertIf (d.assetSender = 0) .assetSenderCannotBeZero
  revertIf (d.feeRecipient = 0) .feeRecipientCannotBeZero
  revertIf (d.assetRecipient = 0) .assetRecipientCannotBeZero
  let decimals ← subOr .arithmetic d.rwaDecimals d.collateralDecimals
  let decimalsMultiplier ← powOr .arithmetic 10 decimals.toNat
  revertIf (d.blocklist = 0) .blocklistZeroAddress
  let s : State T :=
    { toAccessControl := { hasRole := fun _ _ => false, roleAdmin := fun _ => .defaultAdmin }
      toConfig := d.config decimalsMultiplier
      toLedgers := .empty
      toTrackers := .empty
      status := 1, now, views, tokens, events := [], calls := [] }
  let s := s.internalGrantRole .defaultAdmin d.managerAdmin d.sender
  let s := s.internalGrantRole .managerAdmin d.managerAdmin d.sender
  let s := s.internalGrantRole .pauserAdmin d.pauser d.sender
  let s := s.setRoleAdmin .pauserAdmin .managerAdmin
  let s := s.setRoleAdmin .priceIdSetter .managerAdmin
  let s := s.setRoleAdmin .relayer .managerAdmin
  return { s with blocklist := d.blocklist }.emit (.blocklistSet 0 d.blocklist)

end Usdy
