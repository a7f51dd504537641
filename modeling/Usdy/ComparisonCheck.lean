import Usdy.Lib.Machine
import Usdy.Access
import Mathlib.Algebra.Order.Ring.Int
import Mathlib.Algebra.Order.Group.Abs

/-! `RWAOracleExternalComparisonCheck`: a price whose changes are compared with those of a Chainlink price.
    The answers of the Chainlink oracle are those of another contract: they may be anything, at any time. -/

namespace Usdy
open Checked

namespace RWAOracleExternalComparisonCheck

structure ChainlinkRoundData where
  roundId : BitVec 80
  answer : Int256
  startedAt : Uint256
  updatedAt : Uint256
  answeredInRound : BitVec 80
  deriving DecidableEq

/-- What `chainlinkOracle` answers at the moment; a call may revert. -/
structure ChainlinkOracle where
  decimals : Option (BitVec 8)
  latestRoundData : Option ChainlinkRoundData
  deriving DecidableEq

inductive Err
  | corruptedChainlinkResponse
  | chainlinkOraclePriceStale
  | deltaDifferenceConstraintViolation
  | absoluteDifferenceConstraintViolated
  | priceUpdateWindowViolation
  | invalidRWAPrice
  | chainlinkRoundNotUpdated
  | invalidAddress
  | access (e : AccessErr)
  | arithmetic
  | divisionByZero
  | externalCall
  deriving DecidableEq

inductive Event
  | rwaExternalComparisonCheckPriceSet (oldChainlinkPrice : Int256) (oldRoundId : BitVec 80)
      (newChainlinkPrice : Int256) (newRoundId : BitVec 80) (oldRWAPrice newRWAPrice : Int256)
  | chainlinkPriceIgnored (oldChainlinkPrice : Int256) (oldRoundId : BitVec 80) (newChainlinkPrice : Int256)
      (newRoundId : BitVec 80)
  deriving DecidableEq

end RWAOracleExternalComparisonCheck

structure RWAOracleExternalComparisonCheck extends AccessControl where
  rwaPrice : Int256
  priceTimestamp : Uint256
  lastSetRound : RWAOracleExternalComparisonCheck.ChainlinkRoundData
  events : List RWAOracleExternalComparisonCheck.Event

namespace RWAOracleExternalComparisonCheck

def maxClWindow : Uint256 := 90000
def bpsDenominator : Int256 := 10000
def maxChangeDiffBps : Uint256 := 74
def maxAbsoluteDiffBps : Uint256 := 200
def minPriceUpdateWindow : Uint256 := 82800

def getLatestChainlinkRoundData (chainlinkOracle : ChainlinkOracle) (now : Uint256) : Except Err ChainlinkRoundData := do
  let round ← orFail .externalCall chainlinkOracle.latestRoundData
  revertIf (round.answer.toInt < 0 ∨ round.roundId ≠ round.answeredInRound ∨ round.roundId = 0 ∨
    round.updatedAt = 0 ∨ round.updatedAt > now) .corruptedChainlinkResponse
  return round

/-- A round of Chainlink that passed the checks and is at most 25 hours old. -/
def getRecentChainlinkRoundData (chainlinkOracle : ChainlinkOracle) (now : Uint256) : Except Err ChainlinkRoundData := do
  let round ← getLatestChainlinkRoundData chainlinkOracle now
  let staleAfter ← addOr .arithmetic round.updatedAt maxClWindow
  revertIf (now > staleAfter) .chainlinkOraclePriceStale
  return round

def deploy (initialPrice : Int256) (admin setter : Address) (chainlinkOracle : ChainlinkOracle) (now : Uint256) :
    Except Err RWAOracleExternalComparisonCheck := do
  revertIf (admin = 0 ∨ setter = 0) .invalidAddress
  let decimals ← orFail .externalCall chainlinkOracle.decimals
  revertIf (decimals ≠ 8) .corruptedChainlinkResponse
  let round ← getRecentChainlinkRoundData chainlinkOracle now
  return {
    toAccessControl := (AccessControl.empty.setRole .defaultAdmin admin true).setRole .setter setter true
    rwaPrice := initialPrice
    priceTimestamp := now
    lastSetRound := round
    events := [] }

-- The cast to `uint256` keeps the bits.
def getPriceData (o : RWAOracleExternalComparisonCheck) : Uint256 × Uint256 := (o.rwaPrice, o.priceTimestamp)

def getPriceChangeBps (previousPrice newPrice : Int256) : Except Err Int256 := do
  let change ← subIntOr .arithmetic newPrice previousPrice
  let scaled ← mulIntOr .arithmetic change bpsDenominator
  divIntOr .divisionByZero .arithmetic scaled previousPrice

def absUnsigned (x : Int256) : Except Err Uint256 := if x.toInt ≥ 0 then .ok x else negIntOr .arithmetic x

/-- Compares the two changes, unless that of Chainlink is too large to be sane. -/
def checkChange (rwaPriceChangeBps chainlinkPriceChangeBps : Int256) (ignored : Event) : Except Err (List Event) := do
  let chainlinkAbs ← absUnsigned chainlinkPriceChangeBps
  if chainlinkAbs ≤ maxAbsoluteDiffBps + maxChangeDiffBps then
    let difference ← subIntOr .arithmetic rwaPriceChangeBps chainlinkPriceChangeBps
    let changeDifferenceBps ← absUnsigned difference
    revertIf (changeDifferenceBps > maxChangeDiffBps) .deltaDifferenceConstraintViolation
    return []
  else return [ignored]

def setPrice (caller : Address) (newPrice : Int256) (chainlinkOracle : ChainlinkOracle) (now : Uint256)
    (o : RWAOracleExternalComparisonCheck) : Except Err RWAOracleExternalComparisonCheck := do
  raise .access (o.onlyRole caller .setter)
  revertIf (newPrice.toInt ≤ 0) .invalidRWAPrice
  let round ← getRecentChainlinkRoundData chainlinkOracle now
  revertIf (round.roundId = o.lastSetRound.roundId) .chainlinkRoundNotUpdated
  let windowEnd ← addOr .arithmetic o.priceTimestamp minPriceUpdateWindow
  revertIf (now < windowEnd) .priceUpdateWindowViolation
  let rwaPriceChangeBps ← getPriceChangeBps o.rwaPrice newPrice
  let rwaAbs ← absUnsigned rwaPriceChangeBps
  revertIf (rwaAbs > maxAbsoluteDiffBps) .absoluteDifferenceConstraintViolated
  let chainlinkPriceChangeBps ← getPriceChangeBps o.lastSetRound.answer round.answer
  let ignored ← checkChange rwaPriceChangeBps chainlinkPriceChangeBps
    (.chainlinkPriceIgnored o.lastSetRound.answer o.lastSetRound.roundId round.answer round.roundId)
  return { o with
    rwaPrice := newPrice
    priceTimestamp := now
    lastSetRound := round
    events := o.events ++ ignored ++ [.rwaExternalComparisonCheckPriceSet o.lastSetRound.answer o.lastSetRound.roundId
      round.answer round.roundId o.rwaPrice newPrice] }

inductive Call
  | setPrice (newPrice : Int256)
  | role (call : RoleCall)
  deriving DecidableEq

def exec (caller : Address) (chainlinkOracle : ChainlinkOracle) (now : Uint256) (call : Call)
    (o : RWAOracleExternalComparisonCheck) : Except Err RWAOracleExternalComparisonCheck :=
  match call with
  | .setPrice newPrice => setPrice caller newPrice chainlinkOracle now o
  | .role call => do
    let access ← raise .access (o.toAccessControl.exec caller call)
    return { o with toAccessControl := access }

/-! ### What an accepted price satisfies -/

/-- What the contract checks of a round in a block of time `now`. -/
structure Usable (round : ChainlinkRoundData) (now : Uint256) : Prop where
  answer : 0 ≤ round.answer.toInt
  answered : round.roundId = round.answeredInRound
  roundId : round.roundId ≠ 0
  updated : round.updatedAt ≠ 0
  past : round.updatedAt ≤ now
  fits : round.updatedAt.toNat + 90000 < 2 ^ 256
  recent : now.toNat ≤ round.updatedAt.toNat + 90000

variable {o o' : RWAOracleExternalComparisonCheck} {chainlinkOracle : ChainlinkOracle} {round : ChainlinkRoundData}
  {now : Uint256} {previousPrice newPrice : Int256}

theorem getRecentChainlinkRoundData_eq_ok :
    getRecentChainlinkRoundData chainlinkOracle now = .ok round ↔
      chainlinkOracle.latestRoundData = some round ∧ Usable round now := by
  simp only [getRecentChainlinkRoundData, getLatestChainlinkRoundData, bind_eq_ok, exists_unit_iff, orFail_eq_ok,
    revertIf_eq_ok, addOr_eq_ok, pure_eq_ok, not_or, not_not, BitVec.not_lt]
  constructor
  · rintro ⟨_, ⟨round, hround, ⟨hanswer, hanswered, hid, hupdated, hpast⟩, rfl⟩, staleAfter, hstale, hrecent, rfl⟩
    have hwindow : staleAfter.toNat = round.updatedAt.toNat + 90000 := hstale
    have hrecent : now.toNat ≤ staleAfter.toNat := hrecent
    exact ⟨hround, by omega, hanswered, hid, hupdated, hpast, hwindow ▸ staleAfter.isLt, hwindow ▸ hrecent⟩
  · rintro ⟨hround, h⟩
    obtain ⟨staleAfter, hstale⟩ := exists_word h.fits
    have hanswer := h.answer
    refine ⟨round, ⟨round, hround, ⟨by omega, h.answered, h.roundId, h.updated, h.past⟩, rfl⟩, staleAfter, hstale, ?_, rfl⟩
    exact BitVec.le_def.mpr (hstale ▸ h.recent)

theorem getPriceChangeBps_inv {changeBps : Int256} (h : getPriceChangeBps previousPrice newPrice = .ok changeBps) :
    previousPrice ≠ 0 ∧
      changeBps.toInt = ((newPrice.toInt - previousPrice.toInt) * 10000).tdiv previousPrice.toInt := by
  simp only [getPriceChangeBps, bind_eq_ok, subIntOr_eq_ok, mulIntOr_eq_ok, divIntOr_eq_ok] at h
  obtain ⟨change, hchange, scaled, hscaled, hne, hbps⟩ := h
  rw [hchange] at hscaled
  exact ⟨hne, hscaled ▸ hbps⟩

theorem absUnsigned_inv {x : Int256} {u : Uint256} (h : absUnsigned x = .ok u) : (u.toNat : Int) = |x.toInt| := by
  unfold absUnsigned at h
  split at h
  · rename_i hx
    cases h
    rw [abs_of_nonneg hx, toNat_eq_toInt hx]
  · rename_i hx
    have hu := negIntOr_eq_ok.mp h
    rw [abs_of_neg (by omega), ← hu, toNat_eq_toInt (by omega)]

/-- A change of at most 200 basis points, rounded toward zero, is less than 201. -/
theorem change_bounds {p q c : Int} (hp : 0 < p) (hc : c = ((q - p) * 10000).tdiv p) (hmax : |c| ≤ 200) :
    9799 * p ≤ 10000 * q ∧ 10000 * q ≤ 10201 * p := by
  obtain ⟨hlo, hhi⟩ := abs_le.mp hmax
  have hup := Int.lt_tdiv_add_one_mul_self ((q - p) * 10000) hp
  have hdown := Int.lt_tdiv_add_one_mul_self (-((q - p) * 10000)) hp
  rw [Int.neg_tdiv] at hdown
  rw [← hc] at hup hdown
  have hup' : (c + 1) * p ≤ 201 * p := Int.mul_le_mul_of_nonneg_right (by omega) hp.le
  have hdown' : (-c + 1) * p ≤ 201 * p := Int.mul_le_mul_of_nonneg_right (by omega) hp.le
  constructor <;> omega

theorem setPrice_inv {caller : Address} (h : setPrice caller newPrice chainlinkOracle now o = .ok o') :
    o.hasRole .setter caller = true ∧ 0 < newPrice.toInt ∧ ∃ round events,
      chainlinkOracle.latestRoundData = some round ∧ Usable round now ∧ round.roundId ≠ o.lastSetRound.roundId ∧
      o.priceTimestamp.toNat + 82800 ≤ now.toNat ∧ o.lastSetRound.answer ≠ 0 ∧
      (0 < o.rwaPrice.toInt →
        9799 * o.rwaPrice.toInt ≤ 10000 * newPrice.toInt ∧ 10000 * newPrice.toInt ≤ 10201 * o.rwaPrice.toInt) ∧
      o' = { o with rwaPrice := newPrice, priceTimestamp := now, lastSetRound := round, events } := by
  simp only [setPrice, bind_eq_ok, exists_unit_iff, raise_eq_ok, AccessControl.onlyRole_eq_ok, revertIf_eq_ok,
    getRecentChainlinkRoundData_eq_ok, addOr_eq_ok, pure_eq_ok] at h
  obtain ⟨hrole, hpos, round, ⟨hround, husable⟩, hid, windowEnd, hend, hwindow, rwaBps, hrwa, rwaAbs, habs, hmax,
    chainlinkBps, hchainlink, ignored, -, rfl⟩ := h
  have hend : windowEnd.toNat = o.priceTimestamp.toNat + 82800 := hend
  have hwindow : windowEnd.toNat ≤ now.toNat := BitVec.not_lt.mp hwindow
  have hmax : rwaAbs.toNat ≤ 200 := BitVec.not_lt.mp hmax
  refine ⟨hrole, by omega, round, _, hround, husable, hid, by omega, (getPriceChangeBps_inv hchainlink).1,
    fun hprev => ?_, rfl⟩
  refine change_bounds hprev (getPriceChangeBps_inv hrwa).2 ?_
  rw [← absUnsigned_inv habs]
  omega

theorem deploy_inv {initialPrice : Int256} {admin setter : Address}
    (h : deploy initialPrice admin setter chainlinkOracle now = .ok o) :
    o.rwaPrice = initialPrice ∧ o.priceTimestamp = now ∧ o.hasRole .setter setter = true ∧
      chainlinkOracle.latestRoundData = some o.lastSetRound ∧ Usable o.lastSetRound now := by
  simp only [deploy, bind_eq_ok, exists_unit_iff, revertIf_eq_ok, getRecentChainlinkRoundData_eq_ok, pure_eq_ok] at h
  obtain ⟨-, _, -, -, round, ⟨hround, husable⟩, rfl⟩ := h
  exact ⟨rfl, rfl, by simp [AccessControl.setRole], hround, husable⟩

/-! ### Runs -/

/-- The oracle, with the feed it compares with and the time. -/
structure System where
  oracle : RWAOracleExternalComparisonCheck
  chainlinkOracle : ChainlinkOracle
  now : Uint256

/-- Somebody calls the oracle, time passes, or the feed comes to answer otherwise. -/
inductive Action
  | call (sender : Address) (call : Call)
  | block (time : Uint256)
  | answer (chainlinkOracle : ChainlinkOracle)
  deriving DecidableEq

def act (s : System) : Action → Option System
  | .call sender call =>
    (exec sender s.chainlinkOracle s.now call s.oracle).toOption.map fun oracle => { s with oracle }
  | .block time => if s.now ≤ time then some { s with now := time } else none
  | .answer chainlinkOracle => some { s with chainlinkOracle }

def Action.isUpdate : Action → Bool
  | .call _ (.setPrice _) => true
  | _ => false

/-- The accepted `setPrice` calls of a run, in order. -/
def updates (s : System) (acts : List Action) : List (Machine.Success System Action) :=
  (Machine.successes act s acts).filter (·.action.isUpdate)

/-- The part of the storage that only `setPrice` writes, besides the log. -/
structure Stored where
  rwaPrice : Int256
  priceTimestamp : Uint256
  lastSetRound : ChainlinkRoundData
  deriving DecidableEq

def stored (o : RWAOracleExternalComparisonCheck) : Stored := ⟨o.rwaPrice, o.priceTimestamp, o.lastSetRound⟩

variable {s t : System} {a : Action}

theorem act_call {sender : Address} {call : Call} :
    act s (.call sender call) = some t ↔
      ∃ o, exec sender s.chainlinkOracle s.now call s.oracle = .ok o ∧ t = { s with oracle := o } := by
  simp only [act, map_toOption_eq_some, eq_comm (b := t)]

theorem act_inv (h : act s a = some t) :
    (∃ sender newPrice o, a = .call sender (.setPrice newPrice) ∧
      setPrice sender newPrice s.chainlinkOracle s.now s.oracle = .ok o ∧ t = { s with oracle := o }) ∨
    a.isUpdate = false ∧ t.oracle.stored = s.oracle.stored := by
  cases a with
  | call sender call =>
    obtain ⟨o, ho, rfl⟩ := act_call.mp h
    cases call with
    | setPrice newPrice => exact .inl ⟨sender, newPrice, o, rfl, ho, rfl⟩
    | role call =>
      obtain ⟨access, -, ho⟩ := bind_eq_ok.mp ho
      obtain rfl := pure_eq_ok.mp ho
      exact .inr ⟨rfl, rfl⟩
  | block time =>
    simp only [act, Option.ite_none_right_eq_some, Option.some.injEq] at h
    obtain ⟨-, rfl⟩ := h
    exact .inr ⟨rfl, rfl⟩
  | answer chainlinkOracle =>
    cases h
    exact .inr ⟨rfl, rfl⟩

end RWAOracleExternalComparisonCheck

end Usdy
