import Mathlib.Algebra.BigOperators.Group.List.Basic
import Mathlib.Algebra.Order.Ring.Nat
import Mathlib.Data.Nat.ModEq

/-! Shares of an amount, rounded down. Splitting an amount loses less than one unit of the share for every
    part but one, and what the shares leave gains as much. -/

namespace Rounding

/-- The share of an amount that `rate` parts out of `base` make. -/
def share (rate base amount : Nat) : Nat := amount * rate / base

/-- What is left of the amount without its share. -/
def rest (rate base amount : Nat) : Nat := amount - share rate base amount

variable {rate base a b : Nat} {l : List Nat}

theorem share_le (h : rate ≤ base) : share rate base a ≤ a :=
  Nat.div_le_of_le_mul (Nat.mul_comm base a ▸ Nat.mul_le_mul_left a h)

theorem rest_le : rest rate base a ≤ a := Nat.sub_le _ _

theorem share_mono (h : a ≤ b) : share rate base a ≤ share rate base b :=
  Nat.div_le_div_right (Nat.mul_le_mul_right rate h)

theorem rest_add_share (h : rate ≤ base) : rest rate base a + share rate base a = a := Nat.sub_add_cancel (share_le h)

theorem share_add_le : share rate base a + share rate base b ≤ share rate base (a + b) := by
  rw [share, share, share, Nat.add_mul]
  exact Nat.div_add_div_le_add_div

theorem share_add_le_succ : share rate base (a + b) ≤ share rate base a + share rate base b + 1 := by
  rw [share, share, share, Nat.add_mul]
  exact Nat.add_div_le_div_add_div_add_one _ _ _

/-- More of an amount adds at most itself to the share. -/
theorem share_add_le_add (h : rate ≤ base) : share rate base (a + b) ≤ share rate base a + b := by
  rcases Nat.eq_zero_or_pos base with rfl | hbase
  · simp [share]
  calc (a + b) * rate / base
    _ ≤ (a * rate + b * base) / base := Nat.div_le_div_right (by rw [Nat.add_mul]; gcongr)
    _ = a * rate / base + b := Nat.add_mul_div_right _ _ hbase

theorem rest_mono (h : rate ≤ base) (hab : a ≤ b) : rest rate base a ≤ rest rate base b := by
  obtain ⟨c, rfl⟩ := Nat.exists_eq_add_of_le hab
  have hshare : share rate base (a + c) ≤ share rate base a + c := share_add_le_add h
  unfold rest
  omega

/-! ### Splitting -/

theorem sum_share_le : (l.map (share rate base)).sum ≤ share rate base l.sum := by
  induction l with
  | nil => exact Nat.zero_le _
  | cons a l ih =>
    rw [List.map_cons, List.sum_cons, List.sum_cons]
    exact (Nat.add_le_add_left ih _).trans share_add_le

theorem share_sum_le : share rate base l.sum ≤ (l.map (share rate base)).sum + (l.length - 1) := by
  induction l with
  | nil => simp [share]
  | cons a l ih =>
    rcases Nat.eq_zero_or_pos l.length with hnil | hpos
    · obtain rfl := List.length_eq_zero_iff.mp hnil
      simp
    · have hsplit : share rate base (a + l.sum) ≤ share rate base a + share rate base l.sum + 1 := share_add_le_succ
      rw [List.map_cons, List.sum_cons, List.sum_cons, List.length_cons]
      omega

theorem sum_rest_add (h : rate ≤ base) : (l.map (rest rate base)).sum + (l.map (share rate base)).sum = l.sum := by
  induction l with
  | nil => rfl
  | cons a l ih =>
    have ha := rest_add_share (a := a) h
    simp only [List.map_cons, List.sum_cons]
    omega

theorem rest_sum_le (h : rate ≤ base) : rest rate base l.sum ≤ (l.map (rest rate base)).sum := by
  have hsum := sum_rest_add (l := l) h
  have hshare : (l.map (share rate base)).sum ≤ share rate base l.sum := sum_share_le
  unfold rest at hsum ⊢
  omega

theorem sum_rest_le (h : rate ≤ base) : (l.map (rest rate base)).sum ≤ rest rate base l.sum + (l.length - 1) := by
  have hsum := sum_rest_add (l := l) h
  have hshare : share rate base l.sum ≤ (l.map (share rate base)).sum + (l.length - 1) := share_sum_le
  unfold rest at hsum ⊢
  omega

end Rounding
