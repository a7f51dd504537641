import Mathlib.Algebra.Order.Field.Rat
import Mathlib.Algebra.Order.Field.Basic
import Mathlib.Tactic.Linarith

/-! Division that rounds toward zero, beside the exact quotient. What it drops is less than one and has the
    sign of the dividend, so a bound on rounded quotients misses the same bound on the exact ones at its
    edge only, by what was dropped. -/

namespace Truncation
variable {a b c d n : Int}

/-- What `a.tdiv b` drops of the quotient. -/
def dropped (a b : Int) : ℚ := (a.tmod b : ℚ) / b

theorem div_eq (hb : 0 < b) : (a : ℚ) / b = a.tdiv b + dropped a b := by
  have hb' : (b : ℚ) ≠ 0 := Int.cast_ne_zero.mpr hb.ne'
  have ha : (a : ℚ) = a.tdiv b * b + a.tmod b := by
    rw [← Int.cast_mul, ← Int.cast_add, Int.tdiv_mul_add_tmod]
  rw [dropped, ha, add_div, mul_div_cancel_right₀ _ hb']

theorem abs_dropped_lt (hb : 0 < b) : |dropped a b| < 1 := by
  have hb' : (0 : ℚ) < b := Int.cast_pos.mpr hb
  rw [dropped, abs_lt, lt_div_iff₀ hb', div_lt_one hb']
  constructor
  · have h := Int.lt_tmod_of_pos a hb
    have h' : ((-b : Int) : ℚ) < a.tmod b := Int.cast_lt.mpr h
    rw [Int.cast_neg] at h'
    linarith
  · exact Int.cast_lt.mpr (Int.tmod_lt_of_pos a hb)

theorem dropped_nonneg (hb : 0 < b) (ha : 0 ≤ a) : 0 ≤ dropped a b :=
  div_nonneg (Int.cast_nonneg (Int.tmod_nonneg b ha)) (Int.cast_nonneg hb.le)

theorem dropped_neg : dropped (-a) b = -dropped a b := by
  rw [dropped, dropped, Int.neg_tmod, Int.cast_neg, neg_div]

theorem div_le_iff_of_nonneg (hb : 0 < b) (ha : 0 ≤ a) :
    (a : ℚ) / b ≤ n ↔ a.tdiv b ≤ n ∧ (a.tdiv b = n → dropped a b = 0) := by
  have hdropped := dropped_nonneg hb ha
  rw [div_eq hb]
  constructor
  · intro hle
    have hquot : (a.tdiv b : ℚ) ≤ n := by linarith
    refine ⟨Int.cast_le.mp hquot, fun heq => ?_⟩
    rw [heq] at hle
    linarith
  · rintro ⟨hle, hzero⟩
    rcases hle.eq_or_lt with heq | hlt
    · rw [hzero heq, heq, add_zero]
    · have hlt' : (a.tdiv b : ℚ) + 1 ≤ n := by exact_mod_cast hlt
      have hone := (abs_lt.mp (abs_dropped_lt (a := a) hb)).2
      linarith

/-- A quotient is within `n` when its rounding is, and is exact if it is on the edge. -/
theorem abs_div_le_iff (hb : 0 < b) :
    |(a : ℚ) / b| ≤ n ↔ |a.tdiv b| ≤ n ∧ (|a.tdiv b| = n → dropped a b = 0) := by
  have hb' : (0 : ℚ) < b := Int.cast_pos.mpr hb
  rcases le_total 0 a with ha | ha
  · rw [abs_of_nonneg (Int.tdiv_nonneg ha hb.le), abs_of_nonneg (div_nonneg (Int.cast_nonneg ha) hb'.le)]
    exact div_le_iff_of_nonneg hb ha
  · have hneg : 0 ≤ -a := neg_nonneg.mpr ha
    have hquot : |a.tdiv b| = (-a).tdiv b := by
      rw [← abs_neg, ← Int.neg_tdiv, abs_of_nonneg (Int.tdiv_nonneg hneg hb.le)]
    have hexact : |(a : ℚ) / b| = ((-a : Int) : ℚ) / b := by
      rw [← abs_neg, ← neg_div, ← Int.cast_neg, abs_of_nonneg (div_nonneg (Int.cast_nonneg hneg) hb'.le)]
    rw [hquot, hexact, div_le_iff_of_nonneg hb hneg, dropped_neg, neg_eq_zero]

theorem div_sub_div_le_iff (hb : 0 < b) (hd : 0 < d) (h : a.tdiv b - c.tdiv d ≤ n) :
    (a : ℚ) / b - c / d ≤ n ↔
      (a.tdiv b - c.tdiv d = n → dropped a b - dropped c d ≤ 0) ∧
      (a.tdiv b - c.tdiv d = n - 1 → dropped a b - dropped c d ≤ 1) := by
  obtain ⟨-, hlt⟩ := abs_lt.mp (abs_dropped_lt (a := a) hb)
  obtain ⟨hgt, -⟩ := abs_lt.mp (abs_dropped_lt (a := c) hd)
  have hsub : (a : ℚ) / b - c / d = ((a.tdiv b - c.tdiv d : Int) : ℚ) + (dropped a b - dropped c d) := by
    rw [div_eq hb, div_eq hd, Int.cast_sub, add_sub_add_comm]
  rw [hsub]
  constructor
  · refine fun hle => ⟨fun heq => ?_, fun heq => ?_⟩
    · rw [heq] at hle
      linarith
    · rw [heq, Int.cast_sub, Int.cast_one] at hle
      linarith
  · rintro ⟨hedge, hnext⟩
    rcases h.eq_or_lt with heq | hlt₁
    · have hdropped := hedge heq
      rw [heq]
      linarith
    rcases (Int.le_sub_one_of_lt hlt₁).eq_or_lt with heq | hlt₂
    · have hdropped := hnext heq
      rw [heq, Int.cast_sub, Int.cast_one]
      linarith
    -- Further in, there is room for all that both divisions may drop.
    · have hroom : a.tdiv b - c.tdiv d ≤ n - 2 := by omega
      have hroom' : ((a.tdiv b - c.tdiv d : Int) : ℚ) ≤ ((n - 2 : Int) : ℚ) := Int.cast_le.mpr hroom
      rw [Int.cast_sub n 2] at hroom'
      have htwo : ((2 : Int) : ℚ) = 2 := rfl
      linarith

/-- Two quotients whose roundings are within `n` of each other are so themselves, unless the roundings are
    `n` or `n - 1` apart and the parts that they drop are further apart than that leaves room for. -/
theorem abs_div_sub_div_le_iff (hb : 0 < b) (hd : 0 < d) (h : |a.tdiv b - c.tdiv d| ≤ n) :
    |(a : ℚ) / b - c / d| ≤ n ↔
      ((a.tdiv b - c.tdiv d = n → dropped a b - dropped c d ≤ 0) ∧
        (a.tdiv b - c.tdiv d = n - 1 → dropped a b - dropped c d ≤ 1)) ∧
      (c.tdiv d - a.tdiv b = n → dropped c d - dropped a b ≤ 0) ∧
        (c.tdiv d - a.tdiv b = n - 1 → dropped c d - dropped a b ≤ 1) := by
  obtain ⟨hup, hdown⟩ := abs_sub_le_iff.mp h
  rw [abs_sub_le_iff, div_sub_div_le_iff hb hd hup, div_sub_div_le_iff hd hb hdown]

end Truncation
