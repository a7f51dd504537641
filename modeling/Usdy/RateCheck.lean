import Usdy.Lib.Evm
import Usdy.Lib.Machine
import Usdy.Access
import Mathlib.Algebra.Order.Group.Unbundled.Abs

/-! `RWAOracleRateCheck`: a price that moves by at most 1% and at most once in 23 hours. -/

namespace Usdy
open Checked

namespace RWAOracleRateCheck

inductive Err
  | invalidPrice
  | priceUpdateWindowViolation
  | deltaDifferenceConstraintViolation
  -- `revert(0, 0)` in `mulDivUp`
  | mulDivUp
  | access (e : AccessErr)
  | arithmetic
  deriving DecidableEq

inductive Event
  | rwaPriceSet (oldPrice newPrice : Int256) (timestamp : Uint256)
  deriving DecidableEq

end RWAOracleRateCheck

structure RWAOracleRateCheck extends AccessControl where
  rwaPrice : Int256
  priceTimestamp : Uint256
  events : List RWAOracleRateCheck.Event

namespace RWAOracleRateCheck

def minPriceUpdateWindow : Uint256 := 82800
def bpsDenominator : Uint256 := 10000
def maxChangeDiffBps : Uint256 := 100
def maxUint256 : Uint256 := BitVec.allOnes 256

/-- The constructor, in a block of time `now`. -/
def deploy (admin setter : Address) (initialprice : Int256) (now : Uint256) : Except Err RWAOracleRateCheck := do
  revertIf (initialprice.toInt ≤ 0) .invalidPrice
  return {
    toAccessControl := (AccessControl.empty.setRole .defaultAdmin admin true).setRole .setter setter true
    rwaPrice := initialprice
    priceTimestamp := now
    events := [.rwaPriceSet 0 initialprice now] }

-- The cast to `uint256` keeps the bits.
def getPriceData (o : RWAOracleRateCheck) : Uint256 × Uint256 := (o.rwaPrice, o.priceTimestamp)

def mulDivUp (x y denominator : Uint256) : Except Err Uint256 := do
  revertIf (Evm.iszero (Evm.mul denominator (Evm.iszero (Evm.mul y (Evm.gt x (Evm.div maxUint256 y))))) ≠ 0) .mulDivUp
  return Evm.add (Evm.gt (Evm.mod (Evm.mul x y) denominator) 0) (Evm.div (Evm.mul x y) denominator)

def getPriceChangeBps (previousPrice newPrice : Int256) : Except Err Uint256 := do
  let change ← (if newPrice.toInt > previousPrice.toInt then subIntOr .arithmetic newPrice previousPrice
    else subIntOr .arithmetic previousPrice newPrice)
  mulDivUp change bpsDenominator previousPrice

def setPrice (caller : Address) (newPrice : Int256) (now : Uint256) (o : RWAOracleRateCheck) :
    Except Err RWAOracleRateCheck := do
  raise .access (o.onlyRole caller .setter)
  revertIf (newPrice.toInt ≤ 0) .invalidPrice
  let elapsed ← subOr .arithmetic now o.priceTimestamp
  revertIf (elapsed < minPriceUpdateWindow) .priceUpdateWindowViolation
  let changeBps ← getPriceChangeBps o.rwaPrice newPrice
  revertIf (changeBps > maxChangeDiffBps) .deltaDifferenceConstraintViolation
  return { o with
    rwaPrice := newPrice
    priceTimestamp := now
    events := o.events ++ [.rwaPriceSet o.rwaPrice newPrice now] }

inductive Call
  | setPrice (newPrice : Int256)
  | role (call : RoleCall)
  deriving DecidableEq

def exec (caller : Address) (now : Uint256) (call : Call) (o : RWAOracleRateCheck) : Except Err RWAOracleRateCheck :=
  match call with
  | .setPrice newPrice => setPrice caller newPrice now o
  | .role call => do
    let access ← raise .access (o.toAccessControl.exec caller call)
    return { o with toAccessControl := access }

/-! ### What an accepted price satisfies -/

theorem mulDivUp_eq_ok {x y denominator z : Uint256} :
    mulDivUp x y denominator = .ok z ↔
      denominator ≠ 0 ∧ x.toNat * y.toNat < 2 ^ 256 ∧ z.toNat = (x.toNat * y.toNat) ⌈/⌉ denominator.toNat := by
  rw [mulDivUp, bind_eq_ok, exists_unit_iff, revertIf_eq_ok, pure_eq_ok, not_not, Evm.iszero_eq_zero, Ne,
    Evm.iszero, Evm.mul_eq_zero_iff_of_bit, not_or, not_not, maxUint256, Evm.mul_gt_div_eq_zero, and_assoc]
  refine and_congr_right fun hd => and_congr_right fun hxy => ?_
  rw [← BitVec.toNat_inj, Evm.toNat_ceilDiv hd hxy, eq_comm]

/-- The change is rounded up, so 100 basis points of it are at most 1%. -/
theorem getPriceChangeBps_inv {previousPrice newPrice : Int256} {changeBps : Uint256} (hprev : 0 < previousPrice.toInt)
    (h : getPriceChangeBps previousPrice newPrice = .ok changeBps) (hmax : changeBps ≤ maxChangeDiffBps) :
    |newPrice.toInt - previousPrice.toInt| * 100 ≤ previousPrice.toInt := by
  obtain ⟨change, hchange, hbps⟩ := bind_eq_ok.mp h
  have habs : change.toInt = |newPrice.toInt - previousPrice.toInt| := by
    split at hchange
    · rename_i hlt
      rw [subIntOr_eq_ok.mp hchange, abs_of_pos (by omega)]
    · rename_i hlt
      rw [subIntOr_eq_ok.mp hchange, abs_of_nonpos (by omega), neg_sub]
  obtain ⟨hne, -, hceil⟩ := mulDivUp_eq_ok.mp hbps
  have hle : changeBps.toNat ≤ 100 := hmax
  rw [hceil, ceilDiv_le_iff_le_mul (Evm.toNat_pos hne)] at hle
  have hchange := toNat_eq_toInt (habs ▸ abs_nonneg _)
  have hprev := toNat_eq_toInt hprev.le
  rw [← habs, ← hchange, ← hprev]
  have hden : bpsDenominator.toNat = 10000 := rfl
  rw [hden] at hle
  omega

variable {o o' : RWAOracleRateCheck} {caller : Address} {newPrice : Int256} {now : Uint256}

theorem setPrice_inv (h : setPrice caller newPrice now o = .ok o') :
    o.hasRole .setter caller = true ∧ 0 < newPrice.toInt ∧ o.priceTimestamp.toNat + 82800 ≤ now.toNat ∧
      (0 < o.rwaPrice.toInt → |newPrice.toInt - o.rwaPrice.toInt| * 100 ≤ o.rwaPrice.toInt) ∧
      o' = { o with
        rwaPrice := newPrice
        priceTimestamp := now
        events := o.events ++ [.rwaPriceSet o.rwaPrice newPrice now] } := by
  simp only [setPrice, bind_eq_ok, exists_unit_iff, raise_eq_ok, AccessControl.onlyRole_eq_ok, revertIf_eq_ok,
    subOr_eq_ok, pure_eq_ok] at h
  obtain ⟨hrole, hpos, elapsed, helapsed, hwindow, changeBps, hchange, hmax, rfl⟩ := h
  have hwindow : ¬elapsed.toNat < 82800 := hwindow
  refine ⟨hrole, by omega, by omega, fun hprev => ?_, rfl⟩
  exact getPriceChangeBps_inv hprev hchange (BitVec.not_lt.mp hmax)

theorem deploy_inv {admin setter : Address} {initialprice : Int256} (h : deploy admin setter initialprice now = .ok o) :
    0 < initialprice.toInt ∧ o.rwaPrice = initialprice ∧ o.priceTimestamp = now := by
  simp only [deploy, bind_eq_ok, exists_unit_iff, revertIf_eq_ok, pure_eq_ok] at h
  obtain ⟨hpos, rfl⟩ := h
  exact ⟨by omega, rfl, rfl⟩

/-! ### Runs -/

/-- The oracle and the time. -/
structure System where
  oracle : RWAOracleRateCheck
  now : Uint256

/-- Somebody calls the oracle, or time passes. -/
inductive Action
  | call (sender : Address) (call : Call)
  | block (time : Uint256)
  deriving DecidableEq

def act (s : System) : Action → Option System
  | .call sender call => (exec sender s.now call s.oracle).toOption.map fun oracle => { s with oracle }
  | .block time => if s.now ≤ time then some { s with now := time } else none

def Action.isUpdate : Action → Bool
  | .call _ (.setPrice _) => true
  | _ => false

/-- The accepted `setPrice` calls of a run, in order. -/
def updates (s : System) (acts : List Action) : List (Machine.Success System Action) :=
  (Machine.successes act s acts).filter (·.action.isUpdate)

variable {s t : System} {a : Action}

theorem act_call {sender : Address} {call : Call} :
    act s (.call sender call) = some t ↔ ∃ o, exec sender s.now call s.oracle = .ok o ∧ t = { s with oracle := o } := by
  simp only [act, map_toOption_eq_some, eq_comm (b := t)]

theorem act_inv (h : act s a = some t) :
    (∃ sender newPrice o, a = .call sender (.setPrice newPrice) ∧ setPrice sender newPrice s.now s.oracle = .ok o ∧
      t = { s with oracle := o }) ∨
    a.isUpdate = false ∧ t.oracle.rwaPrice = s.oracle.rwaPrice ∧ t.oracle.priceTimestamp = s.oracle.priceTimestamp := by
  cases a with
  | call sender call =>
    obtain ⟨o, ho, rfl⟩ := act_call.mp h
    cases call with
    | setPrice newPrice => exact .inl ⟨sender, newPrice, o, rfl, ho, rfl⟩
    | role call =>
      obtain ⟨access, -, ho⟩ := bind_eq_ok.mp ho
      obtain rfl := pure_eq_ok.mp ho
      exact .inr ⟨rfl, rfl, rfl⟩
  | block time =>
    simp only [act, Option.ite_none_right_eq_some, Option.some.injEq] at h
    obtain ⟨-, rfl⟩ := h
    exact .inr ⟨rfl, rfl, rfl⟩

end RWAOracleRateCheck

end Usdy
