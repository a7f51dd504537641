import Usdy.Lib.Drift
import Usdy.RateCheck
import Mathlib.Algebra.Order.Ring.Int
import Mathlib.Algebra.Order.Group.Abs

/-! How far the price of `RWAOracleRateCheck` drifts over any run, and how often it changes; and the division
    that measures a change. -/

namespace Usdy
open Checked

namespace RWAOracleRateCheck

/-! ### The division -/

theorem mulDivUp_eq_error {x y denominator : Uint256} {e : Err} :
    mulDivUp x y denominator = .error e ↔
      (denominator = 0 ∨ 2 ^ 256 ≤ x.toNat * y.toNat) ∧ .mulDivUp = e := by
  -- once the check passes, nothing is left that could fail
  rw [mulDivUp, bind_eq_error, or_iff_left (by simp [pure, Except.pure]), revertIf_eq_error, ne_eq,
    Evm.iszero_eq_zero, not_not, Evm.iszero, Evm.mul_eq_zero_iff_of_bit, maxUint256, Evm.mul_gt_div_eq_zero, Nat.not_lt]

/-- `mulDivUp` reverts exactly for a zero denominator or a product that does not fit, returns the product over
    the denominator, rounded up, for all other words, and adds the rounding without wrapping around. -/
theorem mulDivUp_exact (x y denominator : Uint256) :
    (mulDivUp x y denominator = .error .mulDivUp ↔ denominator = 0 ∨ 2 ^ 256 ≤ x.toNat * y.toNat) ∧
    ((∃ z, mulDivUp x y denominator = .ok z ∧ z.toNat = (x.toNat * y.toNat) ⌈/⌉ denominator.toNat) ↔
      ¬(denominator = 0 ∨ 2 ^ 256 ≤ x.toNat * y.toNat)) ∧
    (Evm.gt (Evm.mod (Evm.mul x y) denominator) 0).toNat + (Evm.div (Evm.mul x y) denominator).toNat < 2 ^ 256 := by
  refine ⟨by simp [mulDivUp_eq_error], ?_, Evm.round_up_lt _ _⟩
  rw [not_or, Nat.not_le]
  constructor
  · rintro ⟨z, hz, -⟩
    obtain ⟨hd, hxy, -⟩ := mulDivUp_eq_ok.mp hz
    exact ⟨hd, hxy⟩
  · rintro ⟨hd, hxy⟩
    exact ⟨_, mulDivUp_eq_ok.mpr ⟨hd, hxy, Evm.toNat_ceilDiv hd hxy⟩, Evm.toNat_ceilDiv hd hxy⟩

/-! ### Updates -/

/-- What an accepted update, in a block of time `now`, does to the price and to its time. -/
structure Moves (v : Int256 × Uint256) (now : Uint256) (w : Int256 × Uint256) : Prop where
  pos : 0 < w.1.toInt
  change : |w.1.toInt - v.1.toInt| * 100 ≤ v.1.toInt
  window : v.2.toNat + 82800 ≤ w.2.toNat
  time : w.2 = now

theorem act_pos {s t : System} {a : Action} (hpos : 0 < s.oracle.rwaPrice.toInt) (h : act s a = some t) :
    0 < t.oracle.rwaPrice.toInt := by
  rcases act_inv h with ⟨sender, newPrice, o, -, ho, rfl⟩ | ⟨-, hprice, -⟩
  · obtain ⟨-, hnew, -, -, rfl⟩ := setPrice_inv ho
    exact hnew
  · exact hprice ▸ hpos

theorem act_moves {s t : System} {a : Action} (hpos : 0 < s.oracle.rwaPrice.toInt) (h : act s a = some t)
    (ha : a.isUpdate = true) :
    Moves (s.oracle.rwaPrice, s.oracle.priceTimestamp) s.now (t.oracle.rwaPrice, t.oracle.priceTimestamp) := by
  rcases act_inv h with ⟨sender, newPrice, o, -, ho, rfl⟩ | ⟨hother, -⟩
  · obtain ⟨-, hnew, hwindow, hchange, rfl⟩ := setPrice_inv ho
    exact ⟨hnew, hchange hpos, hwindow, rfl⟩
  · rw [ha] at hother
    cases hother

theorem updates_trail {s : System} (hpos : 0 < s.oracle.rwaPrice.toInt) (acts : List Action) :
    let t := Machine.run act s acts
    0 < t.oracle.rwaPrice.toInt ∧
      Trail (fun v (x : Machine.Success System Action) w => Moves v x.before.now w)
        (s.oracle.rwaPrice, s.oracle.priceTimestamp) (updates s acts) (t.oracle.rwaPrice, t.oracle.priceTimestamp) := by
  refine Machine.shown_trail (I := fun s : System => 0 < s.oracle.rwaPrice.toInt) (p := Action.isUpdate)
    (f := fun s : System => (s.oracle.rwaPrice, s.oracle.priceTimestamp)) hpos ?_ ?_ ?_
  · intro s a t hs h
    exact act_pos hs h
  · intro s a t h ha
    rcases act_inv h with ⟨sender, newPrice, o, rfl, -⟩ | ⟨-, hprice, htime⟩
    · cases ha
    · exact Prod.ext hprice htime
  · intro s a t hs h ha
    exact act_moves hs h ha

theorem price_drift_bounded {admin setter : Address} {p₀ : Int256} {t₀ : Uint256} {o : RWAOracleRateCheck}
    (h : deploy admin setter p₀ t₀ = .ok o) (acts : List Action) :
    let p := (Machine.run act ⟨o, t₀⟩ acts).oracle.rwaPrice.toInt
    let accepted := updates ⟨o, t₀⟩ acts
    let n := accepted.length
    0 < p ∧ 99 ^ n * p₀.toInt ≤ 100 ^ n * p ∧ 100 ^ n * p ≤ 101 ^ n * p₀.toInt ∧
      ∀ i x, accepted[i]? = some x → t₀.toNat + (i + 1) * 82800 ≤ x.before.now.toNat := by
  obtain ⟨hp₀, rfl, rfl⟩ := deploy_inv h
  intro p accepted n
  obtain ⟨hpos, htrail⟩ := updates_trail (s := ⟨o, o.priceTimestamp⟩) hp₀ acts
  refine ⟨hpos, ?_, ?_, fun i x hi => ?_⟩
  · refine htrail.pow_mul_le (f := fun v => v.1.toInt) (by decide : (0 : Int) ≤ 99) (by decide : (0 : Int) ≤ 100)
      fun v x w hstep => ?_
    have hfall := neg_abs_le (w.1.toInt - v.1.toInt)
    have hchange := hstep.change
    omega
  · refine htrail.pow_mul_ge (f := fun v => v.1.toInt) (by decide : (0 : Int) ≤ 101) (by decide : (0 : Int) ≤ 100)
      fun v x w hstep => ?_
    have hrise := le_abs_self (w.1.toInt - v.1.toInt)
    have hchange := hstep.change
    omega
  · obtain ⟨v, w, hstep, htime⟩ := htrail.spaced_at (f := fun v => v.2.toNat) (fun v x w hstep => hstep.window) hi
    exact hstep.time ▸ htime

namespace Sample

/-- An oracle deployed with the price 10000 at time 1000. -/
def oracle : RWAOracleRateCheck where
  toAccessControl := (AccessControl.empty.setRole .defaultAdmin 1 true).setRole .setter 2 true
  rwaPrice := 10000
  priceTimestamp := 1000
  events := [.rwaPriceSet 0 10000 1000]

-- Two updates are accepted; those too early, too large or by another account are not.
def history : List Action :=
  [.call 2 (.setPrice 10001), .block 83800, .call 2 (.setPrice 10100), .call 2 (.setPrice 10101), .block 166600,
    .call 2 (.setPrice 10202), .call 9 (.setPrice 10000), .call 2 (.setPrice 10000)]

theorem oracle_deployed : deploy 1 2 10000 1000 = .ok oracle := rfl

end Sample

theorem price_drift_bounded_history :
    let p := (Machine.run act ⟨Sample.oracle, 1000⟩ Sample.history).oracle.rwaPrice.toInt
    let accepted := updates ⟨Sample.oracle, 1000⟩ Sample.history
    accepted.map (·.before.now) = [83800, 166600] ∧ 0 < p ∧ 99 ^ 2 * 10000 ≤ 100 ^ 2 * p ∧ 100 ^ 2 * p ≤ 101 ^ 2 * 10000 := by
  have hlen : (updates ⟨Sample.oracle, 1000⟩ Sample.history).length = 2 := by decide +kernel
  obtain ⟨hpos, hlo, hhi, -⟩ := price_drift_bounded Sample.oracle_deployed Sample.history
  rw [hlen] at hlo hhi
  exact ⟨by decide +kernel, hpos, hlo, hhi⟩

end RWAOracleRateCheck
end Usdy
