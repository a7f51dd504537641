import Usdy.Lib.Truncation
import Usdy.Theorems.ComparisonDrift

/-! The documented tolerances of `RWAOracleExternalComparisonCheck`, in exact numbers. The contract compares
    changes in whole basis points, rounded toward zero, so a price beyond a tolerance by less than a basis
    point, or two, is accepted: what the divisions drop decides whether the tolerances hold. -/

namespace Usdy
open Checked

namespace RWAOracleExternalComparisonCheck
variable {o o' : RWAOracleExternalComparisonCheck} {sender : Address} {newPrice : Int256}
  {chainlinkOracle : ChainlinkOracle} {round : ChainlinkRoundData} {now : Uint256}

/-- A change in basis points of the previous value. -/
def changeBps (previous new : Int) : ℚ := (((new - previous) * 10000 : Int) : ℚ) / previous

/-- The whole basis points of a change. -/
def wholeBps (previous new : Int) : Int := ((new - previous) * 10000).tdiv previous

/-- The part of a basis point that is left of a change. -/
def droppedBps (previous new : Int) : ℚ := Truncation.dropped ((new - previous) * 10000) previous

/-- The price moves by at most 200 basis points and, where Chainlink moves by at most 274, apart from it by
    at most 74. -/
structure WithinTolerances (rwaPrice newPrice lastAnswer answer : Int) : Prop where
  absolute : |newPrice - rwaPrice| * 10000 ≤ 200 * rwaPrice
  relative : |answer - lastAnswer| * 10000 ≤ 274 * lastAnswer →
    |changeBps rwaPrice newPrice - changeBps lastAnswer answer| ≤ 74

/-- At the edge of a tolerance the divisions drop nothing that is beyond it. -/
structure DropsNothingBeyond (rwaPrice newPrice lastAnswer answer : Int) : Prop where
  absolute : |wholeBps rwaPrice newPrice| = 200 → droppedBps rwaPrice newPrice = 0
  relative : |answer - lastAnswer| * 10000 ≤ 274 * lastAnswer →
    ((wholeBps rwaPrice newPrice - wholeBps lastAnswer answer = 74 →
        droppedBps rwaPrice newPrice - droppedBps lastAnswer answer ≤ 0) ∧
      (wholeBps rwaPrice newPrice - wholeBps lastAnswer answer = 73 →
        droppedBps rwaPrice newPrice - droppedBps lastAnswer answer ≤ 1)) ∧
    (wholeBps lastAnswer answer - wholeBps rwaPrice newPrice = 74 →
        droppedBps lastAnswer answer - droppedBps rwaPrice newPrice ≤ 0) ∧
      (wholeBps lastAnswer answer - wholeBps rwaPrice newPrice = 73 →
        droppedBps lastAnswer answer - droppedBps rwaPrice newPrice ≤ 1)

/-! ### What `setPrice` checks -/

theorem checkChange_inv {rwaBps chainlinkBps : Int256} {ignored : Event} {events : List Event}
    (h : checkChange rwaBps chainlinkBps ignored = .ok events) (hsane : |chainlinkBps.toInt| ≤ 274) :
    |rwaBps.toInt - chainlinkBps.toInt| ≤ 74 := by
  obtain ⟨chainlinkAbs, habs, h⟩ := bind_eq_ok.mp h
  have habs := absUnsigned_inv habs
  have hle : chainlinkAbs ≤ maxAbsoluteDiffBps + maxChangeDiffBps := by
    have hnat : chainlinkAbs.toNat ≤ 274 := by omega
    exact hnat
  rw [if_pos hle] at h
  simp only [bind_eq_ok, exists_unit_iff, subIntOr_eq_ok, revertIf_eq_ok] at h
  obtain ⟨difference, hdifference, u, hu, hmax, -⟩ := h
  have hmax : u.toNat ≤ 74 := BitVec.not_lt.mp hmax
  rw [← hdifference, ← absUnsigned_inv hu]
  omega

/-- An accepted price is within the tolerances in whole basis points. -/
theorem setPrice_wholeBps (h : setPrice sender newPrice chainlinkOracle now o = .ok o')
    (hround : chainlinkOracle.latestRoundData = some round) :
    |wholeBps o.rwaPrice.toInt newPrice.toInt| ≤ 200 ∧
      (|wholeBps o.lastSetRound.answer.toInt round.answer.toInt| ≤ 274 →
        |wholeBps o.rwaPrice.toInt newPrice.toInt - wholeBps o.lastSetRound.answer.toInt round.answer.toInt| ≤ 74) := by
  simp only [setPrice, bind_eq_ok, exists_unit_iff, revertIf_eq_ok, getRecentChainlinkRoundData_eq_ok] at h
  obtain ⟨-, -, round', ⟨hround', -⟩, -, -, -, -, rwaBps, hrwa, rwaAbs, habs, hmax, chainlinkBps, hchainlink, ignored,
    hcheck, -⟩ := h
  obtain rfl : round' = round := Option.some.inj (hround'.symm.trans hround)
  have hmax : rwaAbs.toNat ≤ 200 := BitVec.not_lt.mp hmax
  rw [wholeBps, wholeBps, ← (getPriceChangeBps_inv hrwa).2, ← (getPriceChangeBps_inv hchainlink).2]
  refine ⟨?_, checkChange_inv hcheck⟩
  rw [← absUnsigned_inv habs]
  omega

/-! ### The exact changes -/

theorem abs_change_le_iff {previous new n : Int} (hprevious : 0 < previous) :
    |new - previous| * 10000 ≤ n * previous ↔
      |wholeBps previous new| ≤ n ∧ (|wholeBps previous new| = n → droppedBps previous new = 0) := by
  have hpos : (0 : ℚ) < previous := Int.cast_pos.mpr hprevious
  rw [wholeBps, droppedBps, ← Truncation.abs_div_le_iff hprevious, abs_div, abs_of_pos hpos, div_le_iff₀ hpos,
    ← Int.cast_abs, ← Int.cast_mul, Int.cast_le, abs_mul, abs_of_nonneg (by decide : (0 : Int) ≤ 10000)]

/-- An accepted price is within the tolerances exactly when the divisions drop nothing beyond them. -/
theorem tolerances_iff (h : setPrice sender newPrice chainlinkOracle now o = .ok o')
    (hround : chainlinkOracle.latestRoundData = some round) (hprice : 0 < o.rwaPrice.toInt)
    (hanswer : 0 < o.lastSetRound.answer.toInt) :
    WithinTolerances o.rwaPrice.toInt newPrice.toInt o.lastSetRound.answer.toInt round.answer.toInt ↔
      DropsNothingBeyond o.rwaPrice.toInt newPrice.toInt o.lastSetRound.answer.toInt round.answer.toInt := by
  obtain ⟨habsolute, hrelative⟩ := setPrice_wholeBps h hround
  have hchange : |round.answer.toInt - o.lastSetRound.answer.toInt| * 10000 ≤ 274 * o.lastSetRound.answer.toInt →
      |wholeBps o.rwaPrice.toInt newPrice.toInt - wholeBps o.lastSetRound.answer.toInt round.answer.toInt| ≤ 74 :=
    fun hsane => hrelative ((abs_change_le_iff hanswer).mp hsane).1
  constructor
  · rintro ⟨hmax, hdiff⟩
    refine ⟨((abs_change_le_iff hprice).mp hmax).2, fun hsane => ?_⟩
    exact (Truncation.abs_div_sub_div_le_iff (n := 74) hprice hanswer (hchange hsane)).mp (hdiff hsane)
  · rintro ⟨hmax, hdiff⟩
    refine ⟨(abs_change_le_iff hprice).mpr ⟨habsolute, hmax⟩, fun hsane => ?_⟩
    exact (Truncation.abs_div_sub_div_le_iff (n := 74) hprice hanswer (hchange hsane)).mpr (hdiff hsane)

theorem tolerances_iff_update : WithinTolerances 10000 10100 5000 5050 ↔ DropsNothingBeyond 10000 10100 5000 5050 := by
  have hok : (setPrice 2 10100 (Sample.chainlinkAnswer 8 5050 83000) 83800 Sample.oracle).toOption.isSome = true := by
    decide +kernel
  exact tolerances_iff (eq_ok_get hok) rfl (by decide) (by decide)

namespace Sample

/-- An oracle deployed with the price 15000 at time 1000, when Chainlink answers 5000. -/
def roundedOracle : RWAOracleExternalComparisonCheck := { oracle with rwaPrice := 15000 }

theorem roundedOracle_deployed : deploy 15000 1 2 (chainlinkAnswer 7 5000 900) 1000 = .ok roundedOracle := rfl

/-- Chainlink moves by 200 basis points. -/
def moved : List Action := [.block 83800, .answer (chainlinkAnswer 8 5100 83000)]

theorem rounded_isSome :
    let s := Machine.run act ⟨roundedOracle, chainlinkAnswer 7 5000 900, 1000⟩ moved
    (setPrice 2 15301 s.chainlinkOracle s.now s.oracle).toOption.isSome = true := by
  decide +kernel

end Sample

/-- A price that rises by two thirds of a basis point more than 200 is accepted. -/
theorem tolerances_exceeded :
    ¬∀ (p₀ : Int256) (admin setter : Address) (chainlinkOracle : ChainlinkOracle) (t₀ : Uint256)
        (o : RWAOracleExternalComparisonCheck), deploy p₀ admin setter chainlinkOracle t₀ = .ok o →
      ∀ acts : List Action, let s := Machine.run act ⟨o, chainlinkOracle, t₀⟩ acts
        0 < s.oracle.rwaPrice.toInt → 0 < s.oracle.lastSetRound.answer.toInt →
          ∀ sender newPrice o' round, setPrice sender newPrice s.chainlinkOracle s.now s.oracle = .ok o' →
            s.chainlinkOracle.latestRoundData = some round →
              WithinTolerances s.oracle.rwaPrice.toInt newPrice.toInt s.oracle.lastSetRound.answer.toInt
                round.answer.toInt := by
  intro h
  have hwithin := h 15000 1 2 _ 1000 _ Sample.roundedOracle_deployed Sample.moved (by decide +kernel) (by decide +kernel) 2
    15301 _ _ (eq_ok_get Sample.rounded_isSome) rfl
  have habsolute := hwithin.absolute
  revert habsolute
  decide +kernel

end RWAOracleExternalComparisonCheck

end Usdy
