import Usdy.Lib.Checked
import Mathlib.Logic.Function.Basic

/-! The storage of USDYManager and what surrounds it: the words and records of the contracts, the
    roles, errors and events, and the other contracts the manager calls. -/

namespace Usdy

abbrev Uint256 := BitVec 256
abbrev Bytes32 := BitVec 256
abbrev Address := BitVec 160

/-- The roles of `AccessControl`: the constants of the contracts, whose hashes are distinct, and every
    other `bytes32`. -/
inductive Role
  | defaultAdmin
  | managerAdmin
  | pauserAdmin
  | priceIdSetter
  | relayer
  | timestampSetter
  | priceUpdate
  | other (id : Bytes32)
  deriving DecidableEq

/-- Why a call reverts. -/
inductive Err
  -- IRWAHub
  | priceIdNotSet
  | arraySizeMismatch
  | depositTooSmall
  | redemptionTooSmall
  | depositTooLarge
  | redemptionTooLarge
  | collateralCannotBeZero
  | rwaCannotBeZero
  | assetSenderCannotBeZero
  | feeRecipientCannotBeZero
  | assetRecipientCannotBeZero
  | feeTooLarge
  | amountTooSmall
  | depositorNull
  | depositProofAlreadyExists
  | featurePaused
  | priceIdAlreadySet
  -- IUSDYManager
  | mintNotYetClaimable
  | claimableTimestampInPast
  | claimableTimestampNotSet
  | epochStartTimestampNotPast
  | depositAmountExceedEpochMaximum
  | redemptionAmountExceedEpochMaximum
  | depositAmountExceedEpochTotalMaximum
  | redemptionAmountExceedEpochTotalMaximum
  -- IBlocklistClient
  | blocklistZeroAddress
  | blockedAccount
  -- Pricer
  | invalidPrice
  | priceIdDoesNotExist
  -- ReentrancyGuard and AccessControl
  | reentrantCall
  | missingRole (account : Address) (role : Role)
  | renounceForOther
  -- the panics of checked arithmetic
  | arithmetic
  | divisionByZero
  -- a contract the manager calls reverted
  | externalCall
  deriving DecidableEq

structure Depositor where
  user : Address
  amountDepositedMinusFees : Uint256
  priceId : Uint256
  deriving DecidableEq

structure Redeemer where
  user : Address
  amountRwaTokenBurned : Uint256
  priceId : Uint256
  deriving DecidableEq

/-- The amount used in an epoch, and the offset of that epoch from the epoch start. -/
structure UserOperator where
  amount : Uint256
  epochTimestamp : Uint256
  deriving DecidableEq

-- An unset slot of a mapping, and a deleted one, holds zeros.
instance : Zero Depositor := ⟨⟨0, 0, 0⟩⟩
instance : Zero Redeemer := ⟨⟨0, 0, 0⟩⟩
instance : Zero UserOperator := ⟨⟨0, 0⟩⟩

inductive Event
  -- IRWAHub
  | feeRecipientSet (oldFeeRecipient newFeeRecipient : Address)
  | assetSenderSet (oldAssetSender newAssetSender : Address)
  | assetRecipientSet (oldAssetRecipient newAssetRecipient : Address)
  | minimumDepositAmountSet (oldMinimum newMinimum : Uint256)
  | minimumRedemptionAmountSet (oldRedemptionMin newRedemptionMin : Uint256)
  | maximumDepositAmountSet (oldMaximum newMaximum : Uint256)
  | maximumRedemptionAmountSet (oldRedemptionMax newRedemptionMax : Uint256)
  | mintFeeSet (oldFee newFee : Uint256)
  | redemptionFeeSet (oldFee newFee : Uint256)
  | redemptionRequested (user : Address) (redemptionId : Bytes32) (rwaAmountIn : Uint256)
  | mintRequested (user : Address) (depositId : Bytes32)
      (collateralAmountDeposited depositAmountAfterFee feeAmount : Uint256)
  | redemptionCompleted (user : Address) (redemptionId : Bytes32)
      (rwaAmountRequested collateralAmountReturned price : Uint256)
  | mintCompleted (user : Address) (depositId : Bytes32)
      (rwaAmountOut collateralAmountDeposited price priceId : Uint256)
  | priceIdSetForDeposit (depositIdSet : Bytes32) (priceIdSet : Uint256)
  | priceIdSetForRedemption (redemptionIdSet : Bytes32) (priceIdSet : Uint256)
  | newPricerSet (oldPricer newPricer : Address)
  | subscriptionPaused (caller : Address)
  | redemptionPaused (caller : Address)
  | subscriptionUnpaused (caller : Address)
  | redemptionUnpaused (caller : Address)
  | depositorOverwritten (depositId : Bytes32) (oldDepositor newDepositor : Address)
      (oldPriceId newPriceId oldDepositAmount newDepositAmount : Uint256)
  | redeemerOverwritten (redemptionId : Bytes32) (oldRedeemer newRedeemer : Address)
      (oldPriceId newPriceId oldRWATokenAmountBurned newRWATokenAmountBurned : Uint256)
  -- IRWAHubOffChainRedemptions
  | redemptionRequestedServicedOffChain (user : Address) (redemptionId : Bytes32)
      (rwaTokenAmountIn : Uint256) (offChainDestination : Bytes32)
  | offChainRedemptionPaused (caller : Address)
  | offChainRedemptionUnpaused (caller : Address)
  | offChainRedemptionMinimumSet (oldMinimum newMinimum : Uint256)
  -- IRWAHubOffChainSubscriptions
  | subscriptionRequestedServicedOffChain (user : Address)
      (collateralAmountDeposited depositAmountAfterFee feeAmount : Uint256) (offChainDestination : Bytes32)
  | offChainSubscriptionPaused (caller : Address)
  | offChainSubscriptionUnpaused (caller : Address)
  | offChainSubscriptionMinimumSet (oldMinimum newMinimum : Uint256)
  -- IUSDYManager
  | claimableTimestampSet (claimTimestamp : Uint256) (depositId : Bytes32)
  | maximumDepositAmountInEpochSet (oldEpochDepositMaximum newEpochDepositMaximum : Uint256)
  | maximumRedemptionAmountInEpochSet (oldEpochRedemptionMaximum newEpochRedemptionMaximum : Uint256)
  | epochStartTimestampSet (oldEpochStartTime newEpochStartTime : Uint256)
  | epochIntervalSet (oldEpochInterval newEpochInterval : Uint256)
  | totalMaximumDepositAmountInEpochSet (oldTotalEpochDepositMaximum newTotalEpochDepositMaximum : Uint256)
  | totalMaximumRedemptionAmountInEpochSet (oldTotalEpochRedemptionMaximum newTotalEpochRedemptionMaximum : Uint256)
  -- IBlocklistClient and IAccessControl
  | blocklistSet (oldBlocklist newBlocklist : Address)
  | roleGranted (role : Role) (account sender : Address)
  | roleRevoked (role : Role) (account sender : Address)
  | roleAdminChanged (role previousAdminRole newAdminRole : Role)
  deriving DecidableEq

/-- A log entry of the chain: the event and the time of the block it was emitted in. -/
structure Entry where
  time : Uint256
  event : Event
  deriving DecidableEq

/-- A call the manager made to the RWA token (`mint`, `burnFrom`) or to the collateral
    (`transferFrom`), and that succeeded. -/
inductive TokenCall
  | mint (dst : Address) (amount : Uint256)
  | burnFrom (src : Address) (amount : Uint256)
  | transferFrom (src dst : Address) (amount : Uint256)
  deriving DecidableEq

/-- What the contracts the manager only reads answer at the moment: a blocklist about an account, a
    pricer about a price id. A call to an address that holds no such contract reverts. -/
structure Views where
  isBlocked : Address → Address → Option Bool
  getPrice : Address → Uint256 → Option Uint256

/-- The two tokens the manager calls, over their own state `T`: the RWA token and the collateral. A
    call may revert, and does not call the manager back. -/
structure Tokens (T : Type) where
  mint : Views → T → Address → Uint256 → Option T
  burnFrom : Views → T → Address → Uint256 → Option T
  transferFrom : Views → T → Address → Address → Uint256 → Option T

def Tokens.exec {T : Type} (X : Tokens T) (views : Views) (tokens : T) : TokenCall → Option T
  | .mint dst amount => X.mint views tokens dst amount
  | .burnFrom src amount => X.burnFrom views tokens src amount
  | .transferFrom src dst amount => X.transferFrom views tokens src dst amount

/-! ### Storage -/

/-- Who has which role, and which role administers which. -/
structure AccessControl where
  hasRole : Role → Address → Bool
  roleAdmin : Role → Role

/-- The role is given to the account, or taken from it. -/
def AccessControl.setRole (a : AccessControl) (role : Role) (account : Address) (granted : Bool) : AccessControl :=
  { a with hasRole := Function.update a.hasRole role (Function.update (a.hasRole role) account granted) }

/-- The storage that admin functions write and that requests and claims only read, and the immutable
    `decimalsMultiplier`. -/
structure Config where
  -- RWAHub
  pricer : Address
  assetRecipient : Address
  assetSender : Address
  feeRecipient : Address
  minimumDepositAmount : Uint256
  minimumRedemptionAmount : Uint256
  maximumDepositAmount : Uint256
  maximumRedemptionAmount : Uint256
  mintFee : Uint256
  redemptionFee : Uint256
  decimalsMultiplier : Uint256
  redemptionPaused : Bool
  subscriptionPaused : Bool
  -- RWAHubOffChainRedemptions
  offChainRedemptionPaused : Bool
  offChainSubscriptionPaused : Bool
  minimumOffChainRedemptionAmount : Uint256
  minimumOffChainSubscriptionAmount : Uint256
  maximumOffChainRedemptionAmount : Uint256
  maximumOffChainSubscriptionAmount : Uint256
  -- USDYManager
  maximumDepositAmountInEpoch : Uint256
  maximumRedemptionAmountInEpoch : Uint256
  epochStartTimestamp : Uint256
  epochInterval : Uint256
  totalMaximumDepositAmountInEpoch : Uint256
  totalMaximumRedemptionAmountInEpoch : Uint256
  -- BlocklistClient
  blocklist : Address

/-- The deposits and redemptions, and the counters their ids come from. -/
structure Ledgers where
  depositIdToDepositor : Bytes32 → Depositor
  redemptionIdToRedeemer : Bytes32 → Redeemer
  depositIdToClaimableTimestamp : Bytes32 → Uint256
  subscriptionRequestCounter : Uint256
  redemptionRequestCounter : Uint256

/-- The amounts the epoch limits count. -/
structure Trackers where
  depositEpochUserOperator : Address → UserOperator
  redemptionEpochUserOperator : Address → UserOperator
  totalDepositEpochOperater : UserOperator
  totalRedemptionEpochOperator : UserOperator

/-- The manager's storage, and the chain around it: the time of the current block, the contracts the
    manager calls, the log of its events and the calls it made to the tokens. -/
structure State (T : Type) extends AccessControl, Config, Ledgers, Trackers where
  /-- `_status` of `ReentrancyGuard`: 1 is not entered, 2 is entered. -/
  status : Uint256
  now : Uint256
  views : Views
  tokens : T
  events : List Entry
  calls : List TokenCall

def bpsDenominator : Uint256 := 10000

/-- The literal `1e18` of the sources. -/
def e18 : Uint256 := 1000000000000000000

@[simp] theorem bpsDenominator_toNat : bpsDenominator.toNat = 10000 := rfl

@[simp] theorem e18_toNat : e18.toNat = 10 ^ 18 := rfl

end Usdy
