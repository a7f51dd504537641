import Mathlib.Algebra.Order.Ring.Nat
import Mathlib.Tactic.Ring

/-! Walks: what the steps of a relation lead to within a number of them. On the natural numbers, a relation that
    allows every step of a bounded size crosses any distance, and one whose allowed size grows with the number
    reaches every number from a bound on, both ways, in as many steps as it takes to double and double again. -/

universe u

/-- At most `n` steps of `R` lead from `x` to `y`. -/
inductive Walk {σ : Type u} (R : σ → σ → Prop) : Nat → σ → σ → Prop
  | refl {n : Nat} {x : σ} : Walk R n x x
  | step {n : Nat} {x y z : σ} : R x y → Walk R n y z → Walk R (n + 1) x z

namespace Walk

section Steps
variable {σ : Type u} {R : σ → σ → Prop} {n m : Nat} {x y z : σ}

theorem single (h : R x y) : Walk R 1 x y := .step h .refl

theorem mono (h : Walk R n x y) (hle : n ≤ m) : Walk R m x y := by
  induction h generalizing m with
  | refl => exact .refl
  | @step n x y z hstep _ ih =>
    obtain ⟨k, rfl⟩ : ∃ k, m = k + 1 := ⟨m - 1, by omega⟩
    exact .step hstep (ih (by omega))

theorem trans (h : Walk R n x y) (h' : Walk R m y z) : Walk R (n + m) x z := by
  induction h with
  | refl => exact h'.mono (Nat.le_add_left ..)
  | step hstep _ ih =>
    rw [Nat.add_right_comm]
    exact .step hstep (ih h')

end Steps

variable {R : Nat → Nat → Prop} {lo size n x y : Nat}

/-- Steps of a bounded size cross any distance, upwards and downwards, without going below both ends. -/
theorem of_size (hR : ∀ a b, lo ≤ a → a ≤ max x y → lo ≤ b → b ≤ max x y → b ≤ a + size → a ≤ b + size → R a b)
    (hx : lo ≤ x) (hy : lo ≤ y) (hup : y ≤ x + n * size) (hdown : x ≤ y + n * size) : Walk R n x y := by
  -- the ends of the walk that is left stay between those of the whole walk
  suffices hall : ∀ n a, lo ≤ a → a ≤ max x y → y ≤ a + n * size → a ≤ y + n * size → Walk R n a y from
    hall n x hx (Nat.le_max_left ..) hup hdown
  intro n
  induction n with
  | zero =>
    intro a _ _ hup hdown
    obtain rfl : a = y := by omega
    exact .refl
  | succ n ih =>
    intro a ha hmax hup hdown
    rw [Nat.add_mul, Nat.one_mul] at hup hdown
    by_cases hle : a ≤ y
    · have hnext : Walk R n (min y (a + size)) y := ih _ (by omega) (by omega) (by omega) (by omega)
      exact .step (hR a _ ha hmax (by omega) (by omega) (by omega) (by omega)) hnext
    · have hnext : Walk R n (max y (a - size)) y := ih _ (by omega) (by omega) (by omega) (by omega)
      exact .step (hR a _ ha hmax (by omega) (by omega) (by omega) (by omega)) hnext

/-- What is between a number and its double is reached from it and leads back to it, for every number of a range: so
    the whole range is reached from its start and leads back to it. -/
theorem of_double {hi : Nat} (hlo : 0 < lo)
    (h : ∀ a x y, lo ≤ a → a ≤ x → x ≤ 2 * a → x ≤ hi → a ≤ y → y ≤ 2 * a → y ≤ hi → Walk R n x y) :
    ∀ k x, lo ≤ x → x ≤ lo * 2 ^ k → x ≤ hi → Walk R (n * k) lo x ∧ Walk R (n * k) x lo
  | 0, x, hx, hle, _ => by
    obtain rfl : x = lo := by omega
    exact ⟨.refl, .refl⟩
  | k + 1, x, hx, hle, hhi => by
    rw [Nat.mul_add, Nat.mul_one]
    by_cases hsmall : x ≤ lo * 2 ^ k
    · obtain ⟨hto, hback⟩ := of_double hlo h k x hx hsmall hhi
      exact ⟨hto.mono (Nat.le_add_right ..), hback.mono (Nat.le_add_right ..)⟩
    · have hpow : lo * 2 ^ (k + 1) = 2 * (lo * 2 ^ k) := by ring
      have hlarge : lo ≤ lo * 2 ^ k := Nat.le_mul_of_pos_right _ (Nat.pow_pos (by decide))
      obtain ⟨hto, hback⟩ := of_double hlo h k (lo * 2 ^ k) hlarge (Nat.le_refl _) (by omega)
      have hup : Walk R n (lo * 2 ^ k) x := h (lo * 2 ^ k) _ _ hlarge (by omega) (by omega) (by omega) (by omega) (by omega) hhi
      have hdown : Walk R n x (lo * 2 ^ k) := h (lo * 2 ^ k) _ _ hlarge (by omega) (by omega) hhi (by omega) (by omega) (by omega)
      exact ⟨hto.trans hup, (hdown.trans hback).mono (by omega)⟩

end Walk
