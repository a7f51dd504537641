import Mathlib.Algebra.BigOperators.Group.List.Basic
import Mathlib.Algebra.BigOperators.Ring.List
import Mathlib.Algebra.Order.Floor.Div
import Mathlib.Algebra.Order.BigOperators.Group.List
import Mathlib.Algebra.Order.Ring.Nat
import Mathlib.Tactic.Ring

/-! Exchange at changing prices. An amount of an asset buys `amount * scale / price` shares, and so many
    shares are worth `shares * price / scale` of the asset, both rounded down. Whoever sells at prices that
    are no higher than those they bought at gets back no more than they paid, however the amounts are
    split. -/

namespace Exchange

/-- The shares that an amount buys. -/
def bought (scale amount price : Nat) : Nat := amount * scale / price

/-- What shares are worth at a price. -/
def worth (scale shares price : Nat) : Nat := shares * price / scale

variable {scale amount shares price price' bound : Nat}

theorem bought_mul_le (h : bound ≤ price) : bought scale amount price * bound ≤ amount * scale :=
  calc amount * scale / price * bound
    _ ≤ amount * scale / price * price := Nat.mul_le_mul_left _ h
    _ ≤ amount * scale := Nat.div_mul_le_self _ _

theorem worth_mul_le (h : price ≤ bound) : worth scale shares price * scale ≤ shares * bound :=
  calc shares * price / scale * scale
    _ ≤ shares * price := Nat.div_mul_le_self _ _
    _ ≤ shares * bound := Nat.mul_le_mul_left _ h

/-! ### There and back -/

/-- Shares that are sold at no more than they were bought for bring back no more than was paid. -/
theorem worth_bought_le (h : price' ≤ price) : worth scale (bought scale amount price) price' ≤ amount :=
  Nat.div_le_of_le_mul ((bought_mul_le h).trans (Nat.mul_comm amount scale).le)

/-- Sold at the price they were bought for, they bring back what was paid, up to a price rounded to the
    asset: the shares were rounded down by less than one. -/
theorem le_worth_bought (hscale : 0 < scale) (hprice : 0 < price) :
    amount ≤ worth scale (bought scale amount price) price + (price - 1) ⌈/⌉ scale := by
  have hsplit : amount * scale = bought scale amount price * price + amount * scale % price :=
    (Nat.div_add_mod' (amount * scale) price).symm
  have hrest : amount * scale % price ≤ price - 1 := Nat.le_sub_one_of_lt (Nat.mod_lt _ hprice)
  have hback : bought scale amount price * price < scale * (worth scale (bought scale amount price) price + 1) :=
    Nat.lt_mul_div_succ _ hscale
  have hdust : price - 1 ≤ scale * ((price - 1) ⌈/⌉ scale) := (ceilDiv_le_iff_le_mul hscale).mp (Nat.le_refl _)
  generalize worth scale (bought scale amount price) price = back at hback
  generalize (price - 1) ⌈/⌉ scale = dust at hdust
  have hlt : amount * scale < (back + dust + 1) * scale :=
    calc amount * scale
      _ = bought scale amount price * price + amount * scale % price := hsplit
      _ < scale * (back + 1) + scale * dust := Nat.add_lt_add_of_lt_of_le hback (hrest.trans hdust)
      _ = (back + dust + 1) * scale := by ring
  exact Nat.le_of_lt_succ (Nat.lt_of_mul_lt_mul_right hlt)

/-- What shares are worth buys back no more of them. -/
theorem bought_worth_le : bought scale (worth scale shares price) price ≤ shares :=
  Nat.div_le_of_le_mul ((worth_mul_le (Nat.le_refl price)).trans (Nat.mul_comm shares price).le)

/-! ### Many purchases and sales -/

/-- What purchases, pairs of an amount and a price, buy together. -/
def totalBought (scale : Nat) (purchases : List (Nat × Nat)) : Nat := (purchases.map fun p => bought scale p.1 p.2).sum

/-- What sales, pairs of shares and a price, are worth together. -/
def totalWorth (scale : Nat) (sales : List (Nat × Nat)) : Nat := (sales.map fun p => worth scale p.1 p.2).sum

/-- The first parts of the pairs together. -/
def volume (l : List (Nat × Nat)) : Nat := (l.map (·.1)).sum

variable {purchases sales : List (Nat × Nat)}

theorem totalBought_mul_le (h : ∀ p ∈ purchases, bound ≤ p.2) :
    totalBought scale purchases * bound ≤ volume purchases * scale := by
  rw [totalBought, volume, ← List.sum_map_mul_right, ← List.sum_map_mul_right]
  exact List.sum_le_sum fun p hp => bought_mul_le (h p hp)

theorem totalWorth_mul_le (h : ∀ p ∈ sales, p.2 ≤ bound) :
    totalWorth scale sales * scale ≤ volume sales * bound := by
  rw [totalWorth, volume, ← List.sum_map_mul_right, ← List.sum_map_mul_right]
  exact List.sum_le_sum fun p hp => worth_mul_le (h p hp)

/-- The highest price of a list. -/
def highest (l : List (Nat × Nat)) : Nat := l.foldr (fun p m => max p.2 m) 0

theorem highest_le_iff {l : List (Nat × Nat)} : highest l ≤ bound ↔ ∀ p ∈ l, p.2 ≤ bound := by
  induction l with
  | nil => simp [highest]
  | cons p l ih =>
    have hcons : highest (p :: l) = max p.2 (highest l) := rfl
    rw [hcons, Nat.max_le, ih, List.forall_mem_cons]

/-- Shares that were bought, sold at prices no higher than any they were bought at. -/
theorem totalWorth_le (hprices : ∀ q ∈ sales, ∀ p ∈ purchases, q.2 ≤ p.2)
    (hshares : volume sales ≤ totalBought scale purchases) : totalWorth scale sales ≤ volume purchases := by
  rcases Nat.eq_zero_or_pos scale with rfl | hscale
  · have hzero : totalWorth 0 sales = 0 := List.sum_eq_zero fun n hn => by
      obtain ⟨p, -, rfl⟩ := List.mem_map.mp hn
      exact Nat.div_zero _
    rw [hzero]
    exact Nat.zero_le _
  have hsold : ∀ q ∈ sales, q.2 ≤ highest sales := highest_le_iff.mp (Nat.le_refl _)
  have hpaid : ∀ p ∈ purchases, highest sales ≤ p.2 := fun p hp => highest_le_iff.mpr fun q hq => hprices q hq p hp
  refine Nat.le_of_mul_le_mul_right ?_ hscale
  calc totalWorth scale sales * scale
    _ ≤ volume sales * highest sales := totalWorth_mul_le hsold
    _ ≤ totalBought scale purchases * highest sales := Nat.mul_le_mul_right _ hshares
    _ ≤ volume purchases * scale := totalBought_mul_le hpaid

end Exchange
