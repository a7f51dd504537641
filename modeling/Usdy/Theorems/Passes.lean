import Usdy.Theorems.Inversion

/-! One pass of the loops of `claimRedemption` and `claimMint`: what it settles of the record under an id, and
    the state it leaves. What is settled depends on the record and on nothing else that a pass writes. -/

namespace Usdy
open Checked Function State

variable {T : Type} {X : Tokens T} {s t : State T}

/-- The state with other ledgers, tokens and logs. -/
def State.moved (s : State T) (g : Ledgers) (tokens : T) (calls : List TokenCall) (events : List Entry) : State T :=
  { s with toLedgers := g, tokens, calls, events }

/-! ### Redemptions -/

/-- What `claimRedemption` settles under one id of its list. -/
structure Settlement where
  redemptionId : Bytes32
  user : Address
  burned : Uint256
  price : Uint256
  due : Uint256
  fee : Uint256
  paid : Uint256

/-- What a pass of `claimRedemption` settles of the record under the id, before it moves anything. -/
def State.settlement (s : State T) (redemptionId : Bytes32) (member : Redeemer) : Except Err Settlement := do
  s.checkRestrictions member.user
  revertIf (member.priceId = 0) .priceIdNotSet
  let price ← s.getPrice member.priceId
  let collateralDue ← s.getRedemptionAmountForRwa member.amountRwaTokenBurned price
  let fee ← s.getRedemptionFees collateralDue
  let collateralDuePostFees ← subOr .arithmetic collateralDue fee
  return ⟨redemptionId, member.user, member.amountRwaTokenBurned, price, collateralDue, fee, collateralDuePostFees⟩

namespace Ledgers
variable {g : Ledgers} {id redemptionId : Bytes32}

/-- The record under the id is deleted. -/
def settled (g : Ledgers) (redemptionId : Bytes32) : Ledgers :=
  { g with redemptionIdToRedeemer := update g.redemptionIdToRedeemer redemptionId 0 }

theorem settled_self : (g.settled redemptionId).redemptionIdToRedeemer redemptionId = 0 := update_self ..

theorem settled_of_ne (h : id ≠ redemptionId) :
    (g.settled redemptionId).redemptionIdToRedeemer id = g.redemptionIdToRedeemer id := update_of_ne h ..

end Ledgers

namespace Settlement
variable {redemptionId : Bytes32} {member : Redeemer} {x : Settlement}

/-- The event that the settlement emits. -/
def event (x : Settlement) : Event := .redemptionCompleted x.user x.redemptionId x.burned x.paid x.price

/-- The settlement is the one the state calls for: of the record under its id, at the price of that
    record, with the due amount split into a fee and a payment. -/
structure Of (s : State T) (x : Settlement) : Prop where
  user : x.user = (s.redemptionIdToRedeemer x.redemptionId).user
  burned : x.burned = (s.redemptionIdToRedeemer x.redemptionId).amountRwaTokenBurned
  priced : (s.redemptionIdToRedeemer x.redemptionId).priceId ≠ 0
  quoted : s.views.getPrice s.pricer (s.redemptionIdToRedeemer x.redemptionId).priceId = some x.price
  due : s.getRedemptionAmountForRwa x.burned x.price = .ok x.due
  fee : x.fee.toNat = x.due.toNat * s.redemptionFee.toNat / 10000
  paid : x.paid.toNat + x.fee.toNat = x.due.toNat

theorem inv (h : s.settlement redemptionId member = .ok x) :
    s.checkRestrictions member.user = .ok () ∧ x.user = member.user ∧ member.priceId ≠ 0 := by
  simp only [settlement, bind_eq_ok, exists_unit_iff, revertIf_eq_ok, pure_eq_ok] at h
  obtain ⟨hcheck, hpriced, price, -, due, -, fee, -, paid, -, rfl⟩ := h
  exact ⟨hcheck, rfl, hpriced⟩

theorem of_ok (h : s.settlement redemptionId (s.redemptionIdToRedeemer redemptionId) = .ok x) :
    x.redemptionId = redemptionId ∧ x.Of s := by
  simp only [settlement, bind_eq_ok, exists_unit_iff, revertIf_eq_ok, getPrice_eq_ok, subOr_eq_ok, pure_eq_ok] at h
  obtain ⟨-, hpriced, price, hprice, due, hdue, fee, hfee, paid, hpaid, rfl⟩ := h
  exact ⟨rfl, rfl, rfl, hpriced, hprice, hdue, basisPoints_inv hfee, hpaid⟩

end Settlement

theorem RWAHub.settleRedemption_eq_ok {fees fees' : Uint256} {redemptionId : Bytes32} :
    settleRedemption X (s, fees) redemptionId = .ok (t, fees') ↔
      ∃ x tokens, s.settlement redemptionId (s.redemptionIdToRedeemer redemptionId) = .ok x ∧
        X.exec s.views s.tokens (.transferFrom s.assetSender x.user x.paid) = some tokens ∧
        fees'.toNat = fees.toNat + x.fee.toNat ∧
        t = s.moved (s.toLedgers.settled redemptionId) tokens
          (s.calls ++ [.transferFrom s.assetSender x.user x.paid]) (s.events ++ [⟨s.now, x.event⟩]) := by
  simp only [settleRedemption, settlement, bind_eq_ok, exists_unit_iff, pure_eq_ok, addOr_eq_ok,
    safeTransferFrom_eq_ok]
  constructor
  · rintro ⟨hcheck, hpriced, price, hprice, due, hdue, fee, hfee, paid, hpaid, _, htotal, _, ⟨tokens, hmove, rfl⟩, h⟩
    rw [Prod.mk.injEq] at h
    obtain ⟨rfl, rfl⟩ := h
    exact ⟨_, tokens, ⟨hcheck, hpriced, price, hprice, due, hdue, fee, hfee, paid, hpaid, rfl⟩, hmove, htotal, rfl⟩
  · rintro ⟨x, tokens, ⟨hcheck, hpriced, price, hprice, due, hdue, fee, hfee, paid, hpaid, rfl⟩, hmove, htotal, rfl⟩
    exact ⟨hcheck, hpriced, price, hprice, due, hdue, fee, hfee, paid, hpaid, fees', htotal, _, ⟨tokens, hmove, rfl⟩,
      rfl⟩

/-! ### Mints -/

/-- What `claimMint` mints under one id of its list. -/
structure Minting where
  depositId : Bytes32
  user : Address
  rwaOwed : Uint256
  deposited : Uint256
  price : Uint256
  priceId : Uint256

/-- What a pass of `claimMint` mints against the record under the id, before it calls the token. The record
    has two parts: the claimable timestamp, and the depositor. -/
def State.minting (s : State T) (depositId : Bytes32) (deposit : Uint256 × Depositor) : Except Err Minting := do
  revertIf (deposit.1 = 0) .claimableTimestampNotSet
  revertIf (deposit.1 > s.now) .mintNotYetClaimable
  revertIf (deposit.2.priceId = 0) .priceIdNotSet
  let price ← s.getPrice deposit.2.priceId
  let rwaOwed ← s.getMintAmountForPrice deposit.2.amountDepositedMinusFees price
  return ⟨depositId, deposit.2.user, rwaOwed, deposit.2.amountDepositedMinusFees, price, deposit.2.priceId⟩

namespace Ledgers
variable {g : Ledgers} {id depositId : Bytes32}

/-- The two parts of the record of a deposit. -/
def deposit (g : Ledgers) (depositId : Bytes32) : Uint256 × Depositor :=
  (g.depositIdToClaimableTimestamp depositId, g.depositIdToDepositor depositId)

/-- The record of the deposit is deleted. -/
def minted (g : Ledgers) (depositId : Bytes32) : Ledgers :=
  { g with
    depositIdToDepositor := update g.depositIdToDepositor depositId 0
    depositIdToClaimableTimestamp := update g.depositIdToClaimableTimestamp depositId 0 }

theorem minted_self : (g.minted depositId).deposit depositId = (0, 0) := Prod.ext (update_self ..) (update_self ..)

theorem minted_of_ne (h : id ≠ depositId) : (g.minted depositId).deposit id = g.deposit id :=
  Prod.ext (update_of_ne h ..) (update_of_ne h ..)

end Ledgers

namespace Minting
variable {depositId : Bytes32} {deposit : Uint256 × Depositor} {x : Minting}

/-- The event that the mint emits. -/
def event (x : Minting) : Event := .mintCompleted x.user x.depositId x.rwaOwed x.deposited x.price x.priceId

/-- The claim was due, and mints what the deposit is worth at the price of its record. -/
theorem inv (h : s.minting depositId deposit = .ok x) :
    deposit.1 ≠ 0 ∧ deposit.1 ≤ s.now ∧ deposit.2.priceId ≠ 0 ∧
      s.views.getPrice s.pricer deposit.2.priceId = some x.price ∧ x.price ≠ 0 ∧
      x.rwaOwed.toNat =
        deposit.2.amountDepositedMinusFees.toNat * s.decimalsMultiplier.toNat * 10 ^ 18 / x.price.toNat ∧
      x = ⟨depositId, deposit.2.user, x.rwaOwed, deposit.2.amountDepositedMinusFees, x.price, deposit.2.priceId⟩ := by
  simp only [minting, bind_eq_ok, exists_unit_iff, revertIf_eq_ok, getPrice_eq_ok, pure_eq_ok] at h
  obtain ⟨hset, hpassed, hpriced, price, hprice, out, hout, rfl⟩ := h
  obtain ⟨hpos, hout⟩ := getMintAmountForPrice_inv hout
  exact ⟨hset, by bv_omega, hpriced, hprice, hpos, hout, rfl⟩

end Minting

theorem USDYManager.internalClaimMint_eq_ok {depositId : Bytes32} :
    internalClaimMint X depositId s = .ok t ↔
      ∃ x tokens, s.minting depositId (s.toLedgers.deposit depositId) = .ok x ∧
        X.exec s.views s.tokens (.mint x.user x.rwaOwed) = some tokens ∧
        t = s.moved (s.toLedgers.minted depositId) tokens (s.calls ++ [.mint x.user x.rwaOwed])
          (s.events ++ [⟨s.now, x.event⟩]) := by
  simp only [internalClaimMint, RWAHub.internalClaimMint, minting, Ledgers.deposit, bind_eq_ok, exists_unit_iff,
    pure_eq_ok, rwaMint_eq_ok]
  constructor
  · rintro ⟨hset, hpassed, u, ⟨hpriced, price, hprice, out, hout, v, ⟨tokens, hmint, rfl⟩, rfl⟩, rfl⟩
    exact ⟨_, tokens, ⟨hset, hpassed, hpriced, price, hprice, out, hout, rfl⟩, hmint, rfl⟩
  · rintro ⟨x, tokens, ⟨hset, hpassed, hpriced, price, hprice, out, hout, rfl⟩, hmint, rfl⟩
    exact ⟨hset, hpassed, _, ⟨hpriced, price, hprice, out, hout, _, ⟨tokens, hmint, rfl⟩, rfl⟩, rfl⟩

end Usdy
