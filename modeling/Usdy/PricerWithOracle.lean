import Usdy.Pricer
import Usdy.RateCheck

/-! `PricerWithOracle` over an `RWAOracleRateCheck`: a pricer that sends its latest price on to the oracle.
    The two contracts are one system, in which anybody may also call the oracle directly. -/

namespace Usdy
open Checked Function

namespace PricerWithOracle

inductive Err
  | latestPriceMismatch
  | pricesAlreadyMatch
  | pricer (e : Usdy.Err)
  -- the call to the oracle reverted
  | oracle (e : RWAOracleRateCheck.Err)
  deriving DecidableEq

/-- The pricer, its oracle and the time. -/
structure System where
  /-- Where the `PricerWithOracle` is deployed. -/
  address : Address
  pricer : Pricer
  rwaOracle : RWAOracleRateCheck
  now : Uint256

/-- The lines that store a price under the next id, as each function that adds one has them. -/
def setPriceInfo (price timestamp : Uint256) (P : Pricer) : Except Err (Uint256 × Pricer) := do
  let priceId ← addOr (.pricer .arithmetic) P.currentPriceId 1
  return (priceId, { P with
    currentPriceId := priceId
    prices := update P.prices priceId ⟨price, timestamp⟩
    priceIds := P.priceIds ++ [priceId] })

def construct (address admin pricer : Address) (oracle : RWAOracleRateCheck.System) : Except Err System := do
  let (latestOraclePrice, timestamp) := oracle.oracle.getPriceData
  let (priceId, P) ← setPriceInfo latestOraclePrice timestamp (Pricer.deploy admin pricer)
  return { address, pricer := { P with latestPriceId := priceId }, rwaOracle := oracle.oracle, now := oracle.now }

/-- `_updateOraclePrice`; the cast to `int256` keeps the bits. -/
def updateOraclePrice (price latestPriceId : Uint256) (s : System) : Except Err System := do
  revertIf ((s.pricer.prices latestPriceId).price ≠ s.rwaOracle.getPriceData.1) .latestPriceMismatch
  let rwaOracle ← raise .oracle (s.rwaOracle.setPrice s.address price s.now)
  return { s with rwaOracle }

def addPrice (caller : Address) (price timestamp : Uint256) (s : System) : Except Err System := do
  raise .pricer (s.pricer.onlyRole caller .priceUpdate)
  revertIf (price = 0) (.pricer .invalidPrice)
  let (priceId, P) ← setPriceInfo price timestamp s.pricer
  if timestamp > (P.prices P.latestPriceId).timestamp then
    let s ← updateOraclePrice price P.latestPriceId { s with pricer := P }
    return { s with pricer := { s.pricer with latestPriceId := priceId } }
  else return { s with pricer := P }

def addLatestOraclePrice (caller : Address) (s : System) : Except Err System := do
  raise .pricer (s.pricer.onlyRole caller .priceUpdate)
  let (latestOraclePrice, latestOraclePriceTimestamp) := s.rwaOracle.getPriceData
  let latestPriceInfo := s.pricer.prices s.pricer.latestPriceId
  revertIf (latestPriceInfo.price = latestOraclePrice ∧ latestPriceInfo.timestamp = latestOraclePriceTimestamp)
    .pricesAlreadyMatch
  let (priceId, P) ← setPriceInfo latestOraclePrice latestOraclePriceTimestamp s.pricer
  return { s with pricer := { P with latestPriceId := priceId } }

/-- A function that `PricerWithOracle` inherits from `Pricer` as it is. -/
def inherited (f : Pricer → Except Usdy.Err Pricer) (s : System) : Except Err System := do
  let pricer ← raise .pricer (f s.pricer)
  return { s with pricer }

inductive Call
  | addPrice (price timestamp : Uint256)
  | addLatestOraclePrice
  | updatePrice (priceId price : Uint256)
  | grantRole (role : Role) (account : Address)
  | revokeRole (role : Role) (account : Address)
  | renounceRole (role : Role) (account : Address)
  deriving DecidableEq

def exec (caller : Address) : Call → System → Except Err System
  | .addPrice price timestamp => addPrice caller price timestamp
  | .addLatestOraclePrice => addLatestOraclePrice caller
  | .updatePrice priceId price => inherited (Pricer.updatePrice caller priceId price)
  | .grantRole role account => inherited (Pricer.grantRole caller role account)
  | .revokeRole role account => inherited (Pricer.revokeRole caller role account)
  | .renounceRole role account => inherited (Pricer.renounceRole caller role account)

/-- Somebody calls the pricer or the oracle, or time passes. -/
inductive Action
  | call (sender : Address) (call : Call)
  | oracle (sender : Address) (call : RWAOracleRateCheck.Call)
  | block (time : Uint256)
  deriving DecidableEq

def act (s : System) : Action → Option System
  | .call sender call => (exec sender call s).toOption
  | .oracle sender call => (s.rwaOracle.exec sender s.now call).toOption.map fun rwaOracle => { s with rwaOracle }
  | .block time => if s.now ≤ time then some { s with now := time } else none

/-- A pair as its constructors leave it: the oracle is deployed first, and may be used before the pricer is. -/
def Constructed (s : System) : Prop :=
  ∃ setterAdmin setter p₀ t₀ o acts address admin pricer,
    RWAOracleRateCheck.deploy setterAdmin setter p₀ t₀ = .ok o ∧
      construct address admin pricer (Machine.run RWAOracleRateCheck.act ⟨o, t₀⟩ acts) = .ok s

def System.latest (s : System) : PriceInfo := s.pricer.prices s.pricer.latestPriceId

/-! ### What a step does -/

/-- A price was stored under the next id. -/
structure Added (s : System) (price timestamp : Uint256) (t : System) : Prop where
  next : t.pricer.currentPriceId.toNat = s.pricer.currentPriceId.toNat + 1
  prices : t.pricer.prices = update s.pricer.prices t.pricer.currentPriceId ⟨price, timestamp⟩
  now : t.now = s.now

/-- A call that is about prices, to either contract. -/
def Action.isPrice : Action → Bool
  | .call _ (.addPrice ..) | .call _ .addLatestOraclePrice | .call _ (.updatePrice ..) | .oracle _ (.setPrice _) => true
  | _ => false

/-- Neither a stored price nor that of the oracle changed. -/
structure Kept (s t : System) : Prop where
  prices : t.pricer.prices = s.pricer.prices
  currentPriceId : t.pricer.currentPriceId = s.pricer.currentPriceId
  latestPriceId : t.pricer.latestPriceId = s.pricer.latestPriceId
  rwaPrice : t.rwaOracle.rwaPrice = s.rwaOracle.rwaPrice
  priceTimestamp : t.rwaOracle.priceTimestamp = s.rwaOracle.priceTimestamp

/-- What a successful action does to the pricer and the oracle. -/
inductive Effect (s : System) : Action → System → Prop
  | addNewer {sender : Address} {price timestamp : Uint256} {t : System} (hadded : Added s price timestamp t)
      (hlatest : t.pricer.latestPriceId = t.pricer.currentPriceId) (hlt : s.latest.timestamp < timestamp)
      (hsync : s.latest.price = s.rwaOracle.rwaPrice)
      (hset : s.rwaOracle.setPrice s.address price s.now = .ok t.rwaOracle) :
      Effect s (.call sender (.addPrice price timestamp)) t
  | addOlder {sender : Address} {price timestamp : Uint256} {t : System} (hadded : Added s price timestamp t)
      (hlatest : t.pricer.latestPriceId = s.pricer.latestPriceId) (hle : timestamp ≤ s.latest.timestamp)
      (horacle : t.rwaOracle = s.rwaOracle) : Effect s (.call sender (.addPrice price timestamp)) t
  | addOracle {sender : Address} {t : System} (hadded : Added s s.rwaOracle.rwaPrice s.rwaOracle.priceTimestamp t)
      (hlatest : t.pricer.latestPriceId = t.pricer.currentPriceId) (horacle : t.rwaOracle = s.rwaOracle) :
      Effect s (.call sender .addLatestOraclePrice) t
  | update {sender : Address} {priceId price : Uint256} :
      Effect s (.call sender (.updatePrice priceId price)) { s with
        pricer := { s.pricer with
          prices := Function.update s.pricer.prices priceId ⟨price, (s.pricer.prices priceId).timestamp⟩ } }
  | setOracle {sender : Address} {newPrice : Int256} {o : RWAOracleRateCheck}
      (hset : s.rwaOracle.setPrice sender newPrice s.now = .ok o) :
      Effect s (.oracle sender (.setPrice newPrice)) { s with rwaOracle := o }
  | other {a : Action} {t : System} (hother : a.isPrice = false) (hkept : Kept s t) : Effect s a t

variable {s t : System} {caller : Address} {price timestamp : Uint256} {a : Action}

theorem setPriceInfo_eq_ok {P Q : Pricer} {priceId : Uint256} :
    setPriceInfo price timestamp P = .ok (priceId, Q) ↔
      priceId.toNat = P.currentPriceId.toNat + 1 ∧ Q = { P with
        currentPriceId := priceId
        prices := Function.update P.prices priceId ⟨price, timestamp⟩
        priceIds := P.priceIds ++ [priceId] } := by
  simp only [setPriceInfo, bind_eq_ok, addOr_eq_ok, pure_eq_ok, Prod.mk.injEq]
  constructor
  · rintro ⟨id, hid, rfl, rfl⟩
    exact ⟨hid, rfl⟩
  · rintro ⟨hid, rfl⟩
    exact ⟨priceId, hid, rfl, rfl⟩

theorem ne_of_next {P : Pricer} {priceId : Uint256} (hle : P.latestPriceId.toNat ≤ P.currentPriceId.toNat)
    (hnext : priceId.toNat = P.currentPriceId.toNat + 1) : P.latestPriceId ≠ priceId := by
  rintro rfl
  omega

theorem addPrice_effect (hle : s.pricer.latestPriceId.toNat ≤ s.pricer.currentPriceId.toNat)
    (h : addPrice caller price timestamp s = .ok t) : Effect s (.call caller (.addPrice price timestamp)) t := by
  simp only [addPrice, bind_eq_ok, exists_unit_iff, Prod.exists, setPriceInfo_eq_ok] at h
  obtain ⟨-, -, priceId, P, ⟨hnext, rfl⟩, h⟩ := h
  have hold := update_of_ne (ne_of_next hle hnext) (⟨price, timestamp⟩ : PriceInfo) s.pricer.prices
  simp only [hold] at h
  split at h
  · rename_i hlt
    simp only [updateOraclePrice, bind_eq_ok, exists_unit_iff, revertIf_eq_ok, raise_eq_ok, pure_eq_ok, hold, not_not] at h
    obtain ⟨_, ⟨hsync, o, ho, rfl⟩, rfl⟩ := h
    exact .addNewer ⟨hnext, rfl, rfl⟩ rfl hlt hsync ho
  · rename_i hle
    obtain rfl := pure_eq_ok.mp h
    exact .addOlder ⟨hnext, rfl, rfl⟩ rfl (BitVec.not_lt.mp hle) rfl

theorem addLatestOraclePrice_effect (h : addLatestOraclePrice caller s = .ok t) :
    Effect s (.call caller .addLatestOraclePrice) t := by
  simp only [addLatestOraclePrice, bind_eq_ok, exists_unit_iff, Prod.exists, setPriceInfo_eq_ok, pure_eq_ok] at h
  obtain ⟨-, -, priceId, P, ⟨hnext, rfl⟩, rfl⟩ := h
  exact .addOracle ⟨hnext, rfl, rfl⟩ rfl rfl

theorem inherited_eq_ok {f : Pricer → Except Usdy.Err Pricer} :
    inherited f s = .ok t ↔ ∃ P, f s.pricer = .ok P ∧ { s with pricer := P } = t := by
  simp only [inherited, bind_eq_ok, raise_eq_ok, pure_eq_ok]

theorem act_effect (hle : s.pricer.latestPriceId.toNat ≤ s.pricer.currentPriceId.toNat) (h : act s a = some t) :
    Effect s a t := by
  cases a with
  | call sender call =>
    have h := toOption_eq_some.mp h
    cases call with
    | addPrice price timestamp => exact addPrice_effect hle h
    | addLatestOraclePrice => exact addLatestOraclePrice_effect h
    | updatePrice priceId price =>
      obtain ⟨P, hP, rfl⟩ := inherited_eq_ok.mp h
      obtain ⟨-, -, -, rfl⟩ := Pricer.updatePrice_inv hP
      exact .update
    | grantRole role account | revokeRole role account | renounceRole role account =>
      obtain ⟨P, hP, rfl⟩ := inherited_eq_ok.mp h
      obtain ⟨_, -, hP⟩ := bind_eq_ok.mp hP
      obtain rfl := pure_eq_ok.mp hP
      exact .other rfl ⟨rfl, rfl, rfl, rfl, rfl⟩
  | oracle sender call =>
    obtain ⟨o, ho, rfl⟩ := map_toOption_eq_some.mp h
    cases call with
    | setPrice newPrice => exact .setOracle ho
    | role call =>
      obtain ⟨access, -, ho⟩ := bind_eq_ok.mp ho
      obtain rfl := pure_eq_ok.mp ho
      exact .other rfl ⟨rfl, rfl, rfl, rfl, rfl⟩
  | block time =>
    simp only [act, Option.ite_none_right_eq_some, Option.some.injEq] at h
    obtain ⟨-, rfl⟩ := h
    exact .other rfl ⟨rfl, rfl, rfl, rfl, rfl⟩

end PricerWithOracle

end Usdy
