import Usdy.Lib.Trail
import Mathlib.Algebra.Order.Ring.Defs
import Mathlib.Algebra.Order.GroupWithZero.Basic
import Mathlib.Tactic.Ring

/-! How far the values of a trail drift: a bound on the ratio of each step bounds the ratio of the ends by
    its power, and steps that are spaced in time add up. -/

universe u v w

namespace Trail
variable {σ : Type u} {α : Type v} {R : σ → α → σ → Prop} {s t : σ} {l : List α}

section Ratio
variable {K : Type w} [CommSemiring K] [PartialOrder K] [IsOrderedRing K] {f : σ → K} {lo hi den : K}

theorem pow_mul_le (hlo : 0 ≤ lo) (hden : 0 ≤ den) (h : Trail R s l t)
    (hR : ∀ s a t, R s a t → lo * f s ≤ den * f t) : lo ^ l.length * f s ≤ den ^ l.length * f t := by
  induction h with
  | nil => simp
  | @snoc t u l a _ hstep ih =>
    rw [List.length_append, List.length_singleton]
    calc lo ^ (l.length + 1) * f s = lo * (lo ^ l.length * f s) := by ring
      _ ≤ lo * (den ^ l.length * f t) := mul_le_mul_of_nonneg_left ih hlo
      _ = den ^ l.length * (lo * f t) := by ring
      _ ≤ den ^ l.length * (den * f u) := mul_le_mul_of_nonneg_left (hR _ _ _ hstep) (pow_nonneg hden _)
      _ = den ^ (l.length + 1) * f u := by ring

theorem pow_mul_ge (hhi : 0 ≤ hi) (hden : 0 ≤ den) (h : Trail R s l t)
    (hR : ∀ s a t, R s a t → den * f t ≤ hi * f s) : den ^ l.length * f t ≤ hi ^ l.length * f s := by
  induction h with
  | nil => simp
  | @snoc t u l a _ hstep ih =>
    rw [List.length_append, List.length_singleton]
    calc den ^ (l.length + 1) * f u = den ^ l.length * (den * f u) := by ring
      _ ≤ den ^ l.length * (hi * f t) := mul_le_mul_of_nonneg_left (hR _ _ _ hstep) (pow_nonneg hden _)
      _ = hi * (den ^ l.length * f t) := by ring
      _ ≤ hi * (hi ^ l.length * f s) := mul_le_mul_of_nonneg_left ih hhi
      _ = hi ^ (l.length + 1) * f s := by ring

end Ratio

theorem spaced {f : σ → Nat} {width : Nat} (h : Trail R s l t)
    (hR : ∀ s a t, R s a t → f s + width ≤ f t) : f s + l.length * width ≤ f t := by
  induction h with
  | nil => simp
  | @snoc t u l a _ hstep ih =>
    rw [List.length_append, List.length_singleton, Nat.add_mul, Nat.one_mul]
    have := hR _ _ _ hstep
    omega

/-- Each step of a trail is at least its place in the trail times the spacing after the start. -/
theorem spaced_at {f : σ → Nat} {width i : Nat} {a : α} (h : Trail R s l t)
    (hR : ∀ s a t, R s a t → f s + width ≤ f t) (hi : l[i]? = some a) :
    ∃ m n, R m a n ∧ f s + (i + 1) * width ≤ f n := by
  rw [← List.take_append_drop (i + 1) l] at h
  obtain ⟨n, hn, -⟩ := h.split
  rw [List.take_add_one, hi] at hn
  obtain ⟨m, hm, hstep⟩ := hn.snoc_inv
  have hlen : (l.take i).length = i := List.length_take_of_le (List.getElem?_eq_some_iff.mp hi).1.le
  have hm := hm.spaced hR
  have hn := hR _ _ _ hstep
  rw [hlen] at hm
  rw [Nat.add_mul, Nat.one_mul]
  exact ⟨m, n, hstep, by omega⟩

end Trail

/-! ### Bands -/

/-- `x` is reached from `p` in `n` steps that each multiply by at least `lo / den` and at most `hi / den`. -/
structure Band (lo den hi p n x : Nat) : Prop where
  lower : lo ^ n * p ≤ den ^ n * x
  upper : den ^ n * x ≤ hi ^ n * p

namespace Band
variable {lo den hi p n m x y : Nat}

theorem refl : Band lo den hi p 0 p := ⟨by simp, by simp⟩

theorem succ (h : Band lo den hi p n x) (hlo : lo * x ≤ den * y) (hhi : den * y ≤ hi * x) :
    Band lo den hi p (n + 1) y where
  lower := calc lo ^ (n + 1) * p = lo * (lo ^ n * p) := by ring
    _ ≤ lo * (den ^ n * x) := Nat.mul_le_mul_left _ h.lower
    _ = den ^ n * (lo * x) := by ring
    _ ≤ den ^ n * (den * y) := Nat.mul_le_mul_left _ hlo
    _ = den ^ (n + 1) * y := by ring
  upper := calc den ^ (n + 1) * y = den ^ n * (den * y) := by ring
    _ ≤ den ^ n * (hi * x) := Nat.mul_le_mul_left _ hhi
    _ = hi * (den ^ n * x) := by ring
    _ ≤ hi * (hi ^ n * p) := Nat.mul_le_mul_left _ h.upper
    _ = hi ^ (n + 1) * p := by ring

/-- The band widens with the steps. -/
theorem mono (hlo : lo ≤ den) (hhi : den ≤ hi) (hnm : n ≤ m) (h : Band lo den hi p n x) : Band lo den hi p m x := by
  induction m, hnm using Nat.le_induction with
  | base => exact h
  | succ m _ ih => exact ih.succ (Nat.mul_le_mul_right _ hlo) (Nat.mul_le_mul_right _ hhi)

end Band
