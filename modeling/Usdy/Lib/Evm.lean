import Mathlib.Algebra.Order.Floor.Div

/-! Arithmetic as the EVM computes it: `add` and `mul` wrap around, a comparison is the word 1 or 0, and
    dividing by zero gives zero. -/

namespace Evm

abbrev Word := BitVec 256

/-- The word that a comparison leaves. -/
def bit (p : Prop) [Decidable p] : Word := if p then 1 else 0

def iszero (a : Word) : Word := bit (a = 0)
def gt (a b : Word) : Word := bit (b < a)
def add (a b : Word) : Word := a + b
def mul (a b : Word) : Word := a * b
def div (a b : Word) : Word := if b = 0 then 0 else a / b
def mod (a b : Word) : Word := if b = 0 then 0 else a % b

section Bits
variable {p : Prop} [Decidable p] {a : Word}

@[simp] theorem bit_eq_zero : bit p = 0 ↔ ¬p := by
  unfold bit
  split <;> simp_all

@[simp] theorem iszero_eq_zero : iszero a = 0 ↔ a ≠ 0 := bit_eq_zero

theorem toNat_bit : (bit p).toNat = if p then 1 else 0 := by
  unfold bit
  split <;> rfl

theorem mul_eq_zero_iff_of_bit : mul a (bit p) = 0 ↔ a = 0 ∨ ¬p := by
  unfold mul bit
  split <;> simp_all

end Bits

section Words
variable {x y d : Word}

theorem toNat_pos (h : d ≠ 0) : 0 < d.toNat := by
  rcases Nat.eq_zero_or_pos d.toNat with h0 | h0
  · exact absurd (BitVec.eq_of_toNat_eq h0) h
  · exact h0

/-- The product of two words fits when neither exceeds what the other leaves of the largest word. -/
theorem mul_gt_div_eq_zero : mul y (gt x (div (BitVec.allOnes 256) y)) = 0 ↔ x.toNat * y.toNat < 2 ^ 256 := by
  rw [gt, mul_eq_zero_iff_of_bit]
  by_cases hy : y = 0
  · subst hy
    simp
  · have hpos := toNat_pos hy
    have hdiv : ¬div (BitVec.allOnes 256) y < x ↔ x.toNat ≤ (2 ^ 256 - 1) / y.toNat := by
      rw [div, if_neg hy, BitVec.lt_def, BitVec.toNat_udiv, BitVec.toNat_allOnes, Nat.not_lt]
    rw [hdiv, Nat.le_div_iff_mul_le hpos]
    simp only [hy, false_or]
    omega

/-- The quotient leaves room for the one that is added to it when there is a remainder. -/
theorem round_up_lt (a d : Word) : (gt (mod a d) 0).toNat + (div a d).toNat < 2 ^ 256 := by
  by_cases hd : d = 0
  · simp [mod, div, gt, toNat_bit, hd]
  have hpos := toNat_pos hd
  have ha := a.isLt
  have hzero : (0 : Word).toNat = 0 := rfl
  rw [gt, toNat_bit, div, mod, if_neg hd, if_neg hd, BitVec.toNat_udiv]
  simp only [BitVec.lt_def, BitVec.toNat_umod, hzero]
  have hn := Nat.div_add_mod a.toNat d.toNat
  generalize a.toNat = n at ha hn
  generalize d.toNat = d at hpos hn
  split
  · have hlt := Nat.mod_lt n hpos
    -- a remainder means that the divisor is at least two
    have hroom : n / d < n := Nat.div_lt_self (by omega) (by omega)
    omega
  · have hle := Nat.div_le_self n d
    omega

/-- A division rounded up as the quotient plus one for a remainder. -/
theorem toNat_ceilDiv (hd : d ≠ 0) (hxy : x.toNat * y.toNat < 2 ^ 256) :
    (add (gt (mod (mul x y) d) 0) (div (mul x y) d)).toNat = (x.toNat * y.toNat) ⌈/⌉ d.toNat := by
  have hmul : (mul x y).toNat = x.toNat * y.toNat := by rw [mul, BitVec.toNat_mul, Nat.mod_eq_of_lt hxy]
  have hpos := toNat_pos hd
  have hzero : (0 : Word).toNat = 0 := rfl
  rw [add, BitVec.toNat_add, Nat.mod_eq_of_lt (round_up_lt _ _), Nat.ceilDiv_eq_add_pred_div, gt, toNat_bit, div, mod,
    if_neg hd, if_neg hd, BitVec.toNat_udiv, hmul]
  simp only [BitVec.lt_def, BitVec.toNat_umod, hmul, hzero]
  generalize x.toNat * y.toNat = n
  generalize d.toNat = d at hpos
  have hn := Nat.div_add_mod n d
  split
  · rename_i hrem
    have hlt := Nat.mod_lt n hpos
    have hceil : (n + d - 1) / d = n / d + 1 := by
      have hsum : n + d - 1 = n % d - 1 + d * (n / d + 1) := by
        rw [Nat.mul_succ]
        omega
      rw [hsum, Nat.add_mul_div_left _ _ hpos, Nat.div_eq_of_lt (by omega), Nat.zero_add]
    rw [hceil, Nat.add_comm]
  · rename_i hrem
    have hceil : (n + d - 1) / d = n / d := by
      have hsum : n + d - 1 = d - 1 + d * (n / d) := by omega
      rw [hsum, Nat.add_mul_div_left _ _ hpos, Nat.div_eq_of_lt (by omega), Nat.zero_add]
    rw [hceil, Nat.zero_add]

end Words

end Evm
