import Usdy.Lib.Drift
import Usdy.ComparisonCheck

/-! How far the price of `RWAOracleExternalComparisonCheck` drifts over any run, whatever Chainlink answers. -/

namespace Usdy
namespace RWAOracleExternalComparisonCheck

/-- What an accepted update in the state `s` does to what the previous one stored. -/
structure Moves (v : Stored) (s : System) (w : Stored) : Prop where
  pos : 0 < w.rwaPrice.toInt
  fall : 9799 * v.rwaPrice.toInt ≤ 10000 * w.rwaPrice.toInt
  rise : 10000 * w.rwaPrice.toInt ≤ 10201 * v.rwaPrice.toInt
  window : v.priceTimestamp.toNat + 82800 ≤ w.priceTimestamp.toNat
  time : w.priceTimestamp = s.now
  answer : s.chainlinkOracle.latestRoundData = some w.lastSetRound
  newRound : w.lastSetRound.roundId ≠ v.lastSetRound.roundId
  past : w.lastSetRound.updatedAt ≤ s.now
  recent : s.now.toNat ≤ w.lastSetRound.updatedAt.toNat + 90000

theorem act_pos {s t : System} {a : Action} (hpos : 0 < s.oracle.rwaPrice.toInt) (h : act s a = some t) :
    0 < t.oracle.rwaPrice.toInt := by
  rcases act_inv h with ⟨sender, newPrice, o, -, ho, rfl⟩ | ⟨-, hstored⟩
  · obtain ⟨-, hnew, _, _, -, -, -, -, -, -, rfl⟩ := setPrice_inv ho
    exact hnew
  · have hprice : t.oracle.rwaPrice = s.oracle.rwaPrice := congrArg Stored.rwaPrice hstored
    exact hprice ▸ hpos

theorem act_moves {s t : System} {a : Action} (hpos : 0 < s.oracle.rwaPrice.toInt) (h : act s a = some t)
    (ha : a.isUpdate = true) : Moves s.oracle.stored s t.oracle.stored := by
  rcases act_inv h with ⟨sender, newPrice, o, -, ho, rfl⟩ | ⟨hother, -⟩
  · obtain ⟨-, hnew, round, events, hround, husable, hid, hwindow, -, hchange, rfl⟩ := setPrice_inv ho
    exact ⟨hnew, (hchange hpos).1, (hchange hpos).2, hwindow, rfl, hround, hid, husable.past, husable.recent⟩
  · rw [ha] at hother
    cases hother

theorem updates_trail {s : System} (hpos : 0 < s.oracle.rwaPrice.toInt) (acts : List Action) :
    0 < (Machine.run act s acts).oracle.rwaPrice.toInt ∧
      Trail (fun v (x : Machine.Success System Action) w => Moves v x.before w) s.oracle.stored (updates s acts)
        (Machine.run act s acts).oracle.stored := by
  refine Machine.shown_trail (I := fun s : System => 0 < s.oracle.rwaPrice.toInt) (p := Action.isUpdate)
    (f := fun s : System => s.oracle.stored) hpos ?_ ?_ ?_
  · intro s a t hs h
    exact act_pos hs h
  · intro s a t h ha
    rcases act_inv h with ⟨sender, newPrice, o, rfl, -⟩ | ⟨-, hstored⟩
    · cases ha
    · exact hstored
  · intro s a t hs h ha
    exact act_moves hs h ha

/-- From the deployment on, each accepted update moves what the one before it stored; so the price stays in
    its envelope and the updates are 23 hours apart. -/
theorem price_envelope {p₀ : Int256} {admin setter : Address} {chainlinkOracle : ChainlinkOracle} {t₀ : Uint256}
    {o : RWAOracleExternalComparisonCheck} (h : deploy p₀ admin setter chainlinkOracle t₀ = .ok o)
    (hp₀ : 0 < p₀.toInt) (acts : List Action) :
    let s := Machine.run act ⟨o, chainlinkOracle, t₀⟩ acts
    let p := s.oracle.rwaPrice.toInt
    let accepted := updates ⟨o, chainlinkOracle, t₀⟩ acts
    let n := accepted.length
    0 < p ∧ 9799 ^ n * p₀.toInt ≤ 10000 ^ n * p ∧ 10000 ^ n * p ≤ 10201 ^ n * p₀.toInt ∧
      t₀.toNat + n * 82800 ≤ s.oracle.priceTimestamp.toNat ∧
      Trail (fun v (x : Machine.Success System Action) w => Moves v x.before w) o.stored accepted s.oracle.stored := by
  obtain ⟨rfl, rfl, -⟩ := deploy_inv h
  obtain ⟨hpos, htrail⟩ := updates_trail (s := ⟨o, chainlinkOracle, o.priceTimestamp⟩) hp₀ acts
  refine ⟨hpos, ?_, ?_, ?_, htrail⟩
  · exact htrail.pow_mul_le (f := fun v => v.rwaPrice.toInt) (by decide : (0 : Int) ≤ 9799)
      (by decide : (0 : Int) ≤ 10000) fun v x w hstep => hstep.fall
  · exact htrail.pow_mul_ge (f := fun v => v.rwaPrice.toInt) (by decide : (0 : Int) ≤ 10201)
      (by decide : (0 : Int) ≤ 10000) fun v x w hstep => hstep.rise
  · exact htrail.spaced (f := fun v => v.priceTimestamp.toNat) fun v x w hstep => hstep.window

namespace Sample

/-- A feed that answers with one finished round. -/
def chainlinkAnswer (roundId : BitVec 80) (answer : Int256) (updatedAt : Uint256) : ChainlinkOracle where
  decimals := some 8
  latestRoundData := some ⟨roundId, answer, updatedAt, updatedAt, roundId⟩

/-- An oracle deployed with the price 10000 at time 1000, when Chainlink answers 5000. -/
def oracle : RWAOracleExternalComparisonCheck where
  toAccessControl := (AccessControl.empty.setRole .defaultAdmin 1 true).setRole .setter 2 true
  rwaPrice := 10000
  priceTimestamp := 1000
  lastSetRound := ⟨7, 5000, 900, 900, 7⟩
  events := []

theorem oracle_deployed : deploy 10000 1 2 (chainlinkAnswer 7 5000 900) 1000 = .ok oracle := rfl

-- The first update follows Chainlink; the second comes too early; for the third Chainlink is ignored.
def history : List Action :=
  [.block 83800, .answer (chainlinkAnswer 8 5050 83000), .call 2 (.setPrice 10100), .call 2 (.setPrice 10101),
    .block 166600, .answer (chainlinkAnswer 9 9000 166000), .call 2 (.setPrice 10302)]

end Sample

theorem price_envelope_history :
    let s := Machine.run act ⟨Sample.oracle, Sample.chainlinkAnswer 7 5000 900, 1000⟩ Sample.history
    let accepted := updates ⟨Sample.oracle, Sample.chainlinkAnswer 7 5000 900, 1000⟩ Sample.history
    accepted.map (·.before.now) = [83800, 166600] ∧ 0 < s.oracle.rwaPrice.toInt ∧
      9799 ^ 2 * 10000 ≤ 10000 ^ 2 * s.oracle.rwaPrice.toInt ∧
      10000 ^ 2 * s.oracle.rwaPrice.toInt ≤ 10201 ^ 2 * 10000 ∧ 1000 + 2 * 82800 ≤ s.oracle.priceTimestamp.toNat := by
  have hlen : (updates ⟨Sample.oracle, Sample.chainlinkAnswer 7 5000 900, 1000⟩ Sample.history).length = 2 := by
    decide +kernel
  obtain ⟨hpos, hlo, hhi, htime, -⟩ := price_envelope Sample.oracle_deployed (by decide) Sample.history
  rw [hlen] at hlo hhi htime
  exact ⟨by decide +kernel, hpos, hlo, hhi, htime⟩

end RWAOracleExternalComparisonCheck
end Usdy
