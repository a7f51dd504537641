import Mathlib.Algebra.Order.Ring.Nat
import Usdy.Lib.Slots
import Usdy.Lib.Trail

/-! A ledger of a fungible asset. A transfer moves an amount between two accounts, where the zero account stands
    for the outside: what comes from it is new, and what goes to it is gone. The transfers so far tell every
    balance and the supply, and the supply is what the accounts hold together. -/

/-- What the accounts hold, and what is recorded as their sum. -/
structure Ledger (A : Type) where
  balances : A → Nat
  supply : Nat

namespace Ledger
open Function

/-- An amount that goes from one account to another. -/
structure Transfer (A : Type) where
  src : A
  dst : A
  amount : Nat

variable {A : Type} [DecidableEq A] [Zero A] {f g : Ledger A} {x : Transfer A} {l : List (Transfer A)} {a : A}

/-- What a transfer takes from an account. -/
def Transfer.takes (a : A) (x : Transfer A) : Nat := if a = x.src then x.amount else 0

/-- What a transfer gives to an account. -/
def Transfer.gives (a : A) (x : Transfer A) : Nat := if a = x.dst then x.amount else 0

/-- A transfer from one account to another, or between an account and the outside. The zero account itself is
    left alone. -/
structure Posts (f : Ledger A) (x : Transfer A) (g : Ledger A) : Prop where
  balances : ∀ a, a ≠ 0 → g.balances a + x.takes a = f.balances a + x.gives a
  zero : g.balances 0 = f.balances 0
  supply : g.supply + x.gives 0 = f.supply + x.takes 0

/-- A transfer between one account and the outside, either way, is told by the account and the supply. -/
theorem Posts.outside (ha : a ≠ 0) (hends : x.src = 0 ∧ x.dst = a ∨ x.src = a ∧ x.dst = 0)
    (hothers : ∀ b, b ≠ a → g.balances b = f.balances b)
    (hbalance : g.balances a + x.takes a = f.balances a + x.gives a)
    (hsupply : g.supply + x.gives 0 = f.supply + x.takes 0) : f.Posts x g where
  balances b hb := by
    by_cases hba : b = a
    · rwa [hba]
    · have hsrc : b ≠ x.src := by rcases hends with ⟨h, -⟩ | ⟨h, -⟩ <;> rwa [h]
      have hdst : b ≠ x.dst := by rcases hends with ⟨-, h⟩ | ⟨-, h⟩ <;> rwa [h]
      rw [hothers b hba, Transfer.takes, Transfer.gives, if_neg hsrc, if_neg hdst]
  zero := hothers 0 ha.symm
  supply := hsupply

theorem Posts.le (h : f.Posts x g) : f.balances a ≤ g.balances a + x.takes a := by
  by_cases hzero : a = 0
  · rw [hzero, h.zero]
    exact Nat.le_add_right _ _
  · have hbalance := h.balances a hzero
    omega

/-- An account that a transfer does not come from loses nothing. -/
theorem Posts.le_of_src (h : f.Posts x g) (ha : a ≠ 0 → a ≠ x.src) : f.balances a ≤ g.balances a := by
  by_cases hzero : a = 0
  · rw [hzero, h.zero]
  · have hle := h.le (a := a)
    rwa [Transfer.takes, if_neg (ha hzero), Nat.add_zero] at hle

/-- What a list of transfers takes from an account. -/
def taken (a : A) (l : List (Transfer A)) : Nat := (l.map (·.takes a)).sum

/-- What a list of transfers gives to an account. -/
def given (a : A) (l : List (Transfer A)) : Nat := (l.map (·.gives a)).sum

/-- What an account held, with what it was given, is what it holds with what was taken from it. -/
theorem balance_eq (h : Trail Posts f l g) (ha : a ≠ 0) : g.balances a + taken a l = f.balances a + given a l := by
  refine h.invariant (I := fun l g => g.balances a + taken a l = f.balances a + given a l) rfl
    fun l g x k _ ih hx => ?_
  have hstep := hx.balances a ha
  simp only [taken, given, List.map_append, List.sum_append, List.map_cons, List.map_nil, List.sum_singleton] at ih ⊢
  omega

theorem supply_eq (h : Trail Posts f l g) : g.supply + given 0 l = f.supply + taken 0 l := by
  refine h.invariant (I := fun l g => g.supply + given 0 l = f.supply + taken 0 l) rfl fun l g x k _ ih hx => ?_
  have hstep := hx.supply
  simp only [taken, given, List.map_append, List.sum_append, List.map_cons, List.map_nil, List.sum_singleton] at ih ⊢
  omega

section Backed
variable {A : Type} [Fintype A]

theorem sum_takes [DecidableEq A] (x : Transfer A) : ∑ a, x.takes a = x.amount := by
  simp only [Transfer.takes, Finset.sum_ite_eq', Finset.mem_univ, if_true]

theorem sum_gives [DecidableEq A] (x : Transfer A) : ∑ a, x.gives a = x.amount := by
  simp only [Transfer.gives, Finset.sum_ite_eq', Finset.mem_univ, if_true]

variable [Zero A] {f g : Ledger A} {x : Transfer A} {l : List (Transfer A)} {a : A}

/-- The supply is what the accounts hold together, and the zero account holds nothing. -/
structure Backed (f : Ledger A) : Prop where
  total : Slots.total id f.balances = f.supply
  zero : f.balances 0 = 0

theorem Backed.balance_le (h : f.Backed) : f.balances a ≤ f.supply := h.total ▸ Slots.le_total (w := id)

variable [DecidableEq A]

/-- Only what comes from the outside or goes there changes what the accounts hold together. -/
theorem Posts.total (h : Posts f x g) :
    Slots.total id g.balances + x.gives 0 = Slots.total id f.balances + x.takes 0 := by
  -- The accounts other than zero keep the sum of what they hold and what the transfer has yet to do.
  have hrest : ∑ a ∈ Finset.univ.erase 0, (g.balances a + x.takes a) =
      ∑ a ∈ Finset.univ.erase 0, (f.balances a + x.gives a) :=
    Finset.sum_congr rfl fun a ha => h.balances a (Finset.ne_of_mem_erase ha)
  have hnew : ∑ a, g.balances a + x.amount =
      g.balances 0 + x.takes 0 + ∑ a ∈ Finset.univ.erase 0, (g.balances a + x.takes a) := by
    rw [← sum_takes x, ← Finset.sum_add_distrib]
    exact (Finset.add_sum_erase _ _ (Finset.mem_univ 0)).symm
  have hold : ∑ a, f.balances a + x.amount =
      f.balances 0 + x.gives 0 + ∑ a ∈ Finset.univ.erase 0, (f.balances a + x.gives a) := by
    rw [← sum_gives x, ← Finset.sum_add_distrib]
    exact (Finset.add_sum_erase _ _ (Finset.mem_univ 0)).symm
  have hzero := h.zero
  simp only [Slots.total, id]
  omega

theorem Backed.posts (h : f.Backed) (hx : Posts f x g) : g.Backed := by
  refine ⟨?_, hx.zero.trans h.zero⟩
  have hheld := h.total
  have htotal := hx.total
  have hsupply := hx.supply
  omega

theorem Backed.run (h : f.Backed) (hl : Trail Posts f l g) : g.Backed :=
  hl.preserves h fun _ _ _ ih hx => ih.posts hx

end Backed

end Ledger
