import Usdy.Theorems.ComparisonDrift

/-! When `RWAOracleExternalComparisonCheck` can be updated again. A Chainlink answer of 0 passes the checks,
    and every later change is computed relative to it. -/

namespace Usdy
open Checked

namespace RWAOracleExternalComparisonCheck

/-- A Chainlink round that is in order at `time`, and new. -/
structure WellFormed (o : RWAOracleExternalComparisonCheck) (time : Uint256) (round : ChainlinkRoundData) : Prop where
  answer : 0 < round.answer.toInt
  newRound : round.roundId ≠ o.lastSetRound.roundId
  roundId : round.roundId ≠ 0
  answered : round.roundId = round.answeredInRound
  past : round.updatedAt ≤ time
  recent : time.toNat ≤ round.updatedAt.toNat + 90000

/-- At `time` Chainlink may answer so that some positive price is accepted. -/
def Updatable (o : RWAOracleExternalComparisonCheck) (caller : Address) (time : Uint256) : Prop :=
  ∃ chainlinkOracle round newPrice o', chainlinkOracle.latestRoundData = some round ∧ WellFormed o time round ∧
    0 < newPrice.toInt ∧ setPrice caller newPrice chainlinkOracle time o = .ok o'

variable {o : RWAOracleExternalComparisonCheck} {caller : Address} {time now : Uint256}

theorem getPriceChangeBps_self {price : Int256} (h : price ≠ 0) : getPriceChangeBps price price = .ok 0 := by
  simp only [getPriceChangeBps, bind_eq_ok, subIntOr_eq_ok, mulIntOr_eq_ok, divIntOr_eq_ok]
  exact ⟨0, by simp, 0, by simp, h, by simp⟩

theorem exists_wellFormed (o : RWAOracleExternalComparisonCheck) {time : Uint256} (hpos : 0 < time.toNat) :
    ∃ round : ChainlinkRoundData, round.answer = o.lastSetRound.answer ∧ round.roundId ≠ o.lastSetRound.roundId ∧
      (0 ≤ o.lastSetRound.answer.toInt → Usable round time) := by
  obtain ⟨updatedAt, hupdated⟩ := exists_word (w := 256) (n := min time.toNat (2 ^ 256 - 1 - 90000)) (by omega)
  let roundId : BitVec 80 := if o.lastSetRound.roundId = 1 then 2 else 1
  have hroundId : roundId ≠ o.lastSetRound.roundId ∧ roundId ≠ 0 := by
    simp only [roundId]
    split
    · rename_i h
      simp [h]
    · rename_i h
      exact ⟨fun h' => h h'.symm, by decide⟩
  have htime := time.isLt
  refine ⟨⟨roundId, o.lastSetRound.answer, updatedAt, updatedAt, roundId⟩, rfl, hroundId.1, fun hanswer => ?_⟩
  refine ⟨hanswer, rfl, hroundId.2, fun h => ?_, ?_, ?_, ?_⟩
  · have h0 : updatedAt.toNat = 0 := congrArg BitVec.toNat h
    omega
  · exact BitVec.le_def.mpr (by simp only; omega)
  · simp only
    omega
  · simp only
    omega

theorem ne_zero_of_pos {x : Int256} (h : 0 < x.toInt) : x ≠ 0 := by
  rintro rfl
  exact absurd h (by decide)

/-- The stored price is accepted again, against the stored answer in a new round. -/
theorem setPrice_same (chainlinkOracle : ChainlinkOracle) {round : ChainlinkRoundData}
    (hrole : o.hasRole .setter caller = true) (hprice : 0 < o.rwaPrice.toInt) (hanswer : o.lastSetRound.answer ≠ 0)
    (hwindow : o.priceTimestamp.toNat + 82800 ≤ time.toNat) (hround : chainlinkOracle.latestRoundData = some round)
    (hsame : round.answer = o.lastSetRound.answer) (hid : round.roundId ≠ o.lastSetRound.roundId)
    (husable : Usable round time) : ∃ o', setPrice caller o.rwaPrice chainlinkOracle time o = .ok o' := by
  obtain ⟨windowEnd, hend⟩ := exists_word (Nat.lt_of_le_of_lt hwindow time.isLt)
  have hlt : ¬time < windowEnd := BitVec.not_lt.mpr (BitVec.le_def.mpr (hend ▸ hwindow))
  simp only [setPrice, bind_eq_ok, exists_unit_iff, raise_eq_ok, AccessControl.onlyRole_eq_ok, revertIf_eq_ok,
    getRecentChainlinkRoundData_eq_ok, addOr_eq_ok, pure_eq_ok]
  refine ⟨_, hrole, by omega, round, ⟨hround, husable⟩, hid, windowEnd, hend, hlt, 0,
    getPriceChangeBps_self (ne_zero_of_pos hprice), 0, rfl, by decide, 0, ?_, [], rfl, rfl⟩
  rw [hsame]
  exact getPriceChangeBps_self hanswer

theorem updatable_of (hrole : o.hasRole .setter caller = true) (hprice : 0 < o.rwaPrice.toInt)
    (hanswer : 0 < o.lastSetRound.answer.toInt) (hwindow : o.priceTimestamp.toNat + 82800 ≤ time.toNat) :
    Updatable o caller time := by
  have htime : 0 < time.toNat := by omega
  obtain ⟨round, hsame, hid, husable⟩ := exists_wellFormed o htime
  have husable := husable hanswer.le
  obtain ⟨o', ho'⟩ := setPrice_same ⟨some 8, some round⟩ hrole hprice (ne_zero_of_pos hanswer)
    hwindow rfl hsame hid husable
  exact ⟨_, round, o.rwaPrice, o', rfl,
    ⟨hsame ▸ hanswer, hid, husable.roundId, husable.answered, husable.past, husable.recent⟩, hprice, ho'⟩

theorem Updatable.window (h : Updatable o caller time) :
    o.lastSetRound.answer ≠ 0 ∧ o.priceTimestamp.toNat + 82800 ≤ time.toNat := by
  obtain ⟨chainlinkOracle, round, newPrice, o', -, -, -, h⟩ := h
  obtain ⟨-, -, _, _, -, -, -, hwindow, hanswer, -⟩ := setPrice_inv h
  exact ⟨hanswer, hwindow⟩

/-! ### Runs -/

/-- The rounds that updates use do not answer 0, and the next update window ends before time does. -/
def answersNonzero (s : System) : Action → Prop
  | .call _ (.setPrice _) =>
    (∀ round ∈ s.chainlinkOracle.latestRoundData, round.answer ≠ 0) ∧ s.now.toNat + 82800 < 2 ^ 256
  | _ => True

instance (s : System) : (a : Action) → Decidable (answersNonzero s a)
  | .call _ (.setPrice _) =>
    inferInstanceAs (Decidable ((∀ round ∈ s.chainlinkOracle.latestRoundData, round.answer ≠ 0) ∧ s.now.toNat + 82800 < 2 ^ 256))
  | .call _ (.role _) | .block _ | .answer _ => .isTrue trivial

/-- An oracle that an update can follow. -/
structure Live (o : RWAOracleExternalComparisonCheck) : Prop where
  price : 0 < o.rwaPrice.toInt
  answer : 0 < o.lastSetRound.answer.toInt
  window : o.priceTimestamp.toNat + 82800 < 2 ^ 256

theorem Live.of_stored {o' : RWAOracleExternalComparisonCheck} (h : o.Live) (hs : o'.stored = o.stored) : o'.Live := by
  have hprice : o'.rwaPrice = o.rwaPrice := congrArg Stored.rwaPrice hs
  have hround : o'.lastSetRound = o.lastSetRound := congrArg Stored.lastSetRound hs
  have htime : o'.priceTimestamp = o.priceTimestamp := congrArg Stored.priceTimestamp hs
  exact ⟨hprice ▸ h.price, hround ▸ h.answer, htime ▸ h.window⟩

theorem pos_of_ne_zero {x : Int256} (h : 0 ≤ x.toInt) (hne : x ≠ 0) : 0 < x.toInt := by
  have hint : x.toInt ≠ 0 := fun h0 => hne (BitVec.toInt_inj.mp h0)
  omega

theorem act_live {s t : System} {a : Action} (hs : s.oracle.Live) (hrule : answersNonzero s a) (h : act s a = some t) :
    t.oracle.Live := by
  rcases act_inv h with ⟨sender, newPrice, o, rfl, ho, rfl⟩ | ⟨-, hstored⟩
  · obtain ⟨-, hnew, round, events, hround, husable, -, -, -, -, rfl⟩ := setPrice_inv ho
    obtain ⟨hanswer, hwindow⟩ := hrule
    exact ⟨hnew, pos_of_ne_zero husable.answer (hanswer round hround), hwindow⟩
  · exact hs.of_stored hstored

/-- While no round with the answer 0 is used, the oracle can always be updated from some time on. -/
theorem stays_updatable {p₀ : Int256} {admin setter : Address} {chainlinkOracle : ChainlinkOracle} {t₀ : Uint256}
    (h : deploy p₀ admin setter chainlinkOracle t₀ = .ok o) (hp₀ : 0 < p₀.toInt)
    (hround : ∀ round ∈ chainlinkOracle.latestRoundData, round.answer ≠ 0)
    (ht₀ : t₀.toNat + 82800 < 2 ^ 256) (acts : List Action)
    (hacts : Machine.Obeys act answersNonzero ⟨o, chainlinkOracle, t₀⟩ acts) :
    let s := Machine.run act ⟨o, chainlinkOracle, t₀⟩ acts
    ∀ caller, s.oracle.hasRole .setter caller = true →
      ∃ later : Uint256, s.now ≤ later ∧ ∀ time, later ≤ time → Updatable s.oracle caller time := by
  obtain ⟨rfl, rfl, -, hlatest, husable⟩ := deploy_inv h
  intro s caller hrole
  have hlive : s.oracle.Live :=
    (Machine.invariant (I := fun s => s.oracle.Live) hacts
      ⟨hp₀, pos_of_ne_zero husable.answer (hround _ hlatest), ht₀⟩ fun s a t hs hrule hact => act_live hs hrule hact).1
  have hlt : max s.now.toNat (s.oracle.priceTimestamp.toNat + 82800) < 2 ^ 256 := by
    have hnow := s.now.isLt
    have hwindow := hlive.window
    omega
  obtain ⟨later, hlater⟩ := exists_word hlt
  refine ⟨later, BitVec.le_def.mpr (by omega), fun time htime => ?_⟩
  have htime := BitVec.le_def.mp htime
  exact updatable_of hrole hlive.price hlive.answer (by omega)

theorem stays_updatable_history :
    let s := Machine.run act ⟨Sample.oracle, Sample.chainlinkAnswer 7 5000 900, 1000⟩ Sample.history
    s.oracle.rwaPrice = 10302 ∧
      ∃ later : Uint256, s.now ≤ later ∧ ∀ time, later ≤ time → Updatable s.oracle 2 time := by
  have hobeys : Machine.Obeys act answersNonzero ⟨Sample.oracle, Sample.chainlinkAnswer 7 5000 900, 1000⟩ Sample.history := by
    decide +kernel
  exact ⟨by decide +kernel, stays_updatable Sample.oracle_deployed (by decide) (by decide) (by decide) Sample.history
    hobeys 2 (by decide +kernel)⟩

/-- An update against a round with the answer 0 is accepted, and no update ever is after it. -/
theorem stuck_at_zero :
    ¬∀ (p₀ : Int256) (admin setter : Address) (chainlinkOracle : ChainlinkOracle) (t₀ : Uint256)
        (o : RWAOracleExternalComparisonCheck) (acts : List Action),
      deploy p₀ admin setter chainlinkOracle t₀ = .ok o → 0 < p₀.toInt →
        let s := Machine.run act ⟨o, chainlinkOracle, t₀⟩ acts
        ∀ caller, s.oracle.hasRole .setter caller = true → ∃ time, s.now ≤ time ∧ Updatable s.oracle caller time := by
  intro h
  let acts : List Action := [.block 83800, .answer (Sample.chainlinkAnswer 8 0 83000), .call 2 (.setPrice 10000)]
  obtain ⟨time, -, hupdatable⟩ := h 10000 1 2 _ 1000 _ acts Sample.oracle_deployed (by decide) 2 (by decide +kernel)
  have hzero : (Machine.run act ⟨Sample.oracle, Sample.chainlinkAnswer 7 5000 900, 1000⟩ acts).oracle.lastSetRound.answer = 0 := by
    decide +kernel
  exact hupdatable.window.1 hzero

end RWAOracleExternalComparisonCheck
end Usdy
