import Mathlib.Algebra.Order.Ring.Nat
import Usdy.Lib.Slots
import Usdy.Lib.Trail

/-! A plain fungible token over words of `w` bits: transfers and mints are exact, and fail only for want of
    balance, of allowance or of room for the supply, or when the recipient is the zero account. Payments of
    one holder to others may be exchanged, and two payments to one account may be made as one. -/

/-- The token as one spender sees it. -/
@[ext] structure PlainToken (w : Nat) (A : Type) [Fintype A] where
  balances : A → Nat
  /-- What the spender may still move for each holder. -/
  allowances : A → Nat
  supply : Nat
  backed : Slots.total id balances = supply
  fits : supply < 2 ^ w
  allowed (a : A) : allowances a < 2 ^ w

namespace PlainToken
open Function

variable {w m n allowance : Nat} {keepsMax : Bool}

/-- The allowance after a payment. Some tokens never lower the largest one. -/
def spent (w : Nat) (keepsMax : Bool) (allowance n : Nat) : Nat :=
  if keepsMax = true ∧ allowance = 2 ^ w - 1 then allowance else allowance - n

theorem spent_le : spent w keepsMax allowance n ≤ allowance := by
  unfold spent
  split <;> omega

theorem spent_comm (ha : allowance < 2 ^ w) (hm : m ≤ allowance) (hn : n ≤ spent w keepsMax allowance m) :
    m ≤ spent w keepsMax allowance n ∧
      spent w keepsMax (spent w keepsMax allowance m) n = spent w keepsMax (spent w keepsMax allowance n) m := by
  unfold spent at *
  cases keepsMax with
  | false => simp at *; omega
  | true => simp only [true_and] at *; split_ifs at * <;> omega

/-- Two payments are covered when their sum is, and lower the allowance by it. -/
theorem spent_add (keepsMax : Bool) (ha : allowance < 2 ^ w) (hmn : m + n < 2 ^ w) :
    (m ≤ allowance ∧ n ≤ spent w keepsMax allowance m ↔ m + n ≤ allowance) ∧
      spent w keepsMax (spent w keepsMax allowance m) n = spent w keepsMax allowance (m + n) := by
  unfold spent
  cases keepsMax with
  | false => simp; omega
  | true => simp only [true_and]; split_ifs <;> omega

section Balances
variable {A : Type} [DecidableEq A] {f : A → Nat} {src dst a b : A}

/-- An account receives an amount. -/
def credited (f : A → Nat) (dst : A) (n : Nat) : A → Nat := update f dst (f dst + n)

/-- The balances after a payment. -/
def moved (f : A → Nat) (src dst : A) (n : Nat) : A → Nat := credited (update f src (f src - n)) dst n

theorem credited_apply : credited f dst n a = f a + if a = dst then n else 0 := by
  rw [credited, update_apply]
  split
  · rename_i ha
    rw [ha]
  · rfl

theorem credited_comm : credited (credited f a m) b n = credited (credited f b n) a m := by
  funext c
  rw [credited_apply, credited_apply, credited_apply, credited_apply, Nat.add_right_comm]

theorem moved_src (hdst : dst ≠ src) : moved f src dst n src = f src - n := by
  rw [moved, credited_apply, update_self, if_neg hdst.symm, Nat.add_zero]

theorem moved_of_ne (ha : a ≠ src) : moved f src dst n a = f a + if a = dst then n else 0 := by
  rw [moved, credited_apply, update_of_ne ha]

theorem moved_comm (ha : a ≠ src) (hb : b ≠ src) :
    moved (moved f src a m) src b n = moved (moved f src b n) src a m := by
  funext c
  by_cases hc : c = src
  · rw [hc, moved_src hb, moved_src ha, moved_src ha, moved_src hb, Nat.sub_right_comm]
  · rw [moved_of_ne hc, moved_of_ne hc, moved_of_ne hc, moved_of_ne hc, Nat.add_right_comm]

theorem moved_add (ha : a ≠ src) : moved (moved f src a m) src a n = moved f src a (m + n) := by
  funext c
  by_cases hc : c = src
  · rw [hc, moved_src ha, moved_src ha, moved_src ha, Nat.sub_sub]
  · rw [moved_of_ne hc, moved_of_ne hc, moved_of_ne hc]
    split <;> omega

theorem total_credited [Fintype A] : Slots.total id (credited f dst n) = Slots.total id f + n := by
  have htotal := Slots.total_update (w := id) (f := f) (i := dst) (b := f dst + n)
  simp only [credited, id_eq] at *
  omega

theorem total_moved [Fintype A] (hn : n ≤ f src) : Slots.total id (moved f src dst n) = Slots.total id f := by
  have htotal := Slots.total_update (w := id) (f := f) (i := src) (b := f src - n)
  rw [moved, total_credited]
  simp only [id_eq] at *
  omega

end Balances

section Payments
variable {A : Type} {a b : A} {ps : List (A × Nat)}

/-- The payment of an amount, or none when the amount is zero. -/
def due (a : A) (n : Nat) : List (A × Nat) := if n > 0 then [(a, n)] else []

/-- What payments amount to together. -/
def outlay (ps : List (A × Nat)) : Nat := (ps.map (·.2)).sum

/-- What an account receives of them. -/
def received [DecidableEq A] (a : A) (ps : List (A × Nat)) : Nat := (ps.map fun p => if a = p.1 then p.2 else 0).sum

theorem forall_mem_due {P : A × Nat → Prop} : (∀ p ∈ due a n, P p) ↔ (n > 0 → P (a, n)) := by
  unfold due
  split <;> simp [*]

theorem outlay_append_due : outlay (ps ++ due a n) = outlay ps + n := by
  unfold due
  split
  · simp [outlay]
  · rename_i hzero
    obtain rfl : n = 0 := by omega
    simp [outlay]

theorem received_append_due [DecidableEq A] :
    received b (ps ++ due a n) = received b ps + if b = a then n else 0 := by
  unfold due
  split
  · simp [received]
  · rename_i hzero
    obtain rfl : n = 0 := by omega
    simp [received]

end Payments

theorem balance_fits {A : Type} [Fintype A] (t : PlainToken w A) {a : A} : t.balances a < 2 ^ w := by
  have hle := Slots.le_total (w := id) (f := t.balances) (i := a)
  rw [t.backed, id_eq] at hle
  exact Nat.lt_of_le_of_lt hle t.fits

variable {A : Type} [Fintype A] [DecidableEq A] [Zero A] {t u v : PlainToken w A} {src dst a b : A}

/-- A transfer on an allowance. -/
def transferFrom (keepsMax : Bool) (t : PlainToken w A) (src dst : A) (n : Nat) : Option (PlainToken w A) :=
  if h : dst ≠ 0 ∧ n ≤ t.balances src ∧ n ≤ t.allowances src then
    some { t with
      balances := moved t.balances src dst n
      allowances := update t.allowances src (spent w keepsMax (t.allowances src) n)
      backed := (total_moved h.2.1).trans t.backed
      allowed := fun a => by
        rw [update_apply]
        split
        · exact Nat.lt_of_le_of_lt spent_le (t.allowed src)
        · exact t.allowed a }
  else none

/-- New tokens for an account, while the supply fits. -/
def mint (t : PlainToken w A) (dst : A) (n : Nat) : Option (PlainToken w A) :=
  if h : dst ≠ 0 ∧ t.supply + n < 2 ^ w then
    some { t with
      balances := credited t.balances dst n
      supply := t.supply + n
      backed := by rw [total_credited, t.backed]
      fits := h.2 }
  else none

theorem transferFrom_eq_some :
    t.transferFrom keepsMax src dst n = some u ↔
      dst ≠ 0 ∧ n ≤ t.balances src ∧ n ≤ t.allowances src ∧ u.balances = moved t.balances src dst n ∧
        u.allowances = update t.allowances src (spent w keepsMax (t.allowances src) n) ∧ u.supply = t.supply := by
  unfold transferFrom
  split
  · rename_i h
    rw [Option.some.injEq, PlainToken.ext_iff]
    exact ⟨fun hu => ⟨h.1, h.2.1, h.2.2, hu.1.symm, hu.2.1.symm, hu.2.2.symm⟩,
      fun hu => ⟨hu.2.2.2.1.symm, hu.2.2.2.2.1.symm, hu.2.2.2.2.2.symm⟩⟩
  · rename_i h
    exact ⟨nofun, fun hu => absurd ⟨hu.1, hu.2.1, hu.2.2.1⟩ h⟩

theorem exists_transferFrom (keepsMax : Bool) (hdst : dst ≠ 0) (hbalance : n ≤ t.balances src)
    (hallowance : n ≤ t.allowances src) : ∃ u, t.transferFrom keepsMax src dst n = some u :=
  ⟨_, dif_pos ⟨hdst, hbalance, hallowance⟩⟩

theorem mint_eq_some :
    t.mint dst n = some u ↔
      dst ≠ 0 ∧ t.supply + n < 2 ^ w ∧ u.balances = credited t.balances dst n ∧
        u.allowances = t.allowances ∧ u.supply = t.supply + n := by
  unfold mint
  split
  · rename_i h
    rw [Option.some.injEq, PlainToken.ext_iff]
    exact ⟨fun hu => ⟨h.1, h.2, hu.1.symm, hu.2.1.symm, hu.2.2.symm⟩,
      fun hu => ⟨hu.2.2.1.symm, hu.2.2.2.1.symm, hu.2.2.2.2.symm⟩⟩
  · rename_i h
    exact ⟨nofun, fun hu => absurd ⟨hu.1, hu.2.1⟩ h⟩

theorem exists_mint (hdst : dst ≠ 0) (hroom : t.supply + n < 2 ^ w) : ∃ u, t.mint dst n = some u :=
  ⟨_, dif_pos ⟨hdst, hroom⟩⟩

/-! ### Payments of one holder to others -/

/-- The holder pays the account the amount. -/
structure Pays (keepsMax : Bool) (src : A) (t : PlainToken w A) (p : A × Nat) (u : PlainToken w A) : Prop where
  other : p.1 ≠ src
  transfer : t.transferFrom keepsMax src p.1 p.2 = some u

theorem Pays.functional {p : A × Nat} (h : Pays keepsMax src t p u) (h' : Pays keepsMax src t p v) : u = v :=
  Option.some.inj (h.transfer.symm.trans h'.transfer)

theorem Pays.balance {p : A × Nat} (h : Pays keepsMax src t p u) : p.2 ≤ t.balances src :=
  (transferFrom_eq_some.mp h.transfer).2.1

theorem Pays.comm {p q : A × Nat} (h : Pays keepsMax src t p u) (h' : Pays keepsMax src u q v) :
    ∃ u', Pays keepsMax src t q u' ∧ Pays keepsMax src u' p v := by
  obtain ⟨hp, hbp, hap, hbu, hau, hsu⟩ := transferFrom_eq_some.mp h.transfer
  obtain ⟨hq, hbq, haq, hbv, hav, hsv⟩ := transferFrom_eq_some.mp h'.transfer
  rw [hbu, moved_src h.other] at hbq
  rw [hau, update_self] at haq
  obtain ⟨hcovers, hspent⟩ := spent_comm (t.allowed src) hap haq
  obtain ⟨u', hu'⟩ := exists_transferFrom keepsMax hq (by omega) (Nat.le_trans haq spent_le)
  obtain ⟨-, -, -, hbu', hau', hsu'⟩ := transferFrom_eq_some.mp hu'
  refine ⟨u', ⟨h'.other, hu'⟩, h.other, transferFrom_eq_some.mpr ⟨hp, ?_, ?_, ?_, ?_, ?_⟩⟩
  · rw [hbu', moved_src h'.other]
    omega
  · rwa [hau', update_self]
  · rw [hbv, hbu, hbu', moved_comm h.other h'.other]
  · rw [hav, hau, hau', update_self, update_self, update_idem, update_idem, hspent]
  · rw [hsv, hsu, hsu']

/-- Two payments to one account are one payment of their sum. -/
theorem pays_add :
    (∃ u, Pays keepsMax src t (a, m) u ∧ Pays keepsMax src u (a, n) v) ↔ Pays keepsMax src t (a, m + n) v := by
  constructor
  · rintro ⟨u, h, h'⟩
    obtain ⟨ha, hbm, ham, hbu, hau, hsu⟩ := transferFrom_eq_some.mp h.transfer
    obtain ⟨-, hbn, han, hbv, hav, hsv⟩ := transferFrom_eq_some.mp h'.transfer
    rw [hbu, moved_src h.other] at hbn
    rw [hau, update_self] at han
    have hfits := t.balance_fits (a := src)
    obtain ⟨hcovers, hspent⟩ := spent_add (n := n) (m := m) keepsMax (t.allowed src) (by omega)
    refine ⟨h.other, transferFrom_eq_some.mpr ⟨ha, by simp only; omega, hcovers.mp ⟨ham, han⟩, ?_, ?_, ?_⟩⟩
    · rw [hbv, hbu, moved_add h.other]
    · rw [hav, hau, update_self, update_idem, hspent]
    · rw [hsv, hsu]
  · rintro ⟨hother, htransfer⟩
    obtain ⟨ha, hb, hallow, hbv, hav, hsv⟩ := transferFrom_eq_some.mp htransfer
    have hfits := t.balance_fits (a := src)
    obtain ⟨hcovers, hspent⟩ := spent_add (n := n) (m := m) keepsMax (t.allowed src) (by omega)
    obtain ⟨ham, han⟩ := hcovers.mpr hallow
    obtain ⟨u, hu⟩ := exists_transferFrom (n := m) keepsMax ha (by omega) ham
    obtain ⟨-, -, -, hbu, hau, hsu⟩ := transferFrom_eq_some.mp hu
    refine ⟨u, ⟨hother, hu⟩, hother, transferFrom_eq_some.mpr ⟨ha, ?_, ?_, ?_, ?_, ?_⟩⟩
    · rw [hbu, moved_src hother]
      omega
    · rwa [hau, update_self]
    · rw [hbu, hbv, moved_add hother]
    · rw [hau, hav, update_self, update_idem, hspent]
    · rw [hsv, hsu]

/-- Payments can be made, in their order, exactly when they go to other accounts and the balance and the allowance
    cover them together. -/
theorem exists_pays_iff : ∀ {ps : List (A × Nat)} {t : PlainToken w A},
    (∃ u, Trail (Pays keepsMax src) t ps u) ↔
      (∀ p ∈ ps, p.1 ≠ 0 ∧ p.1 ≠ src) ∧ outlay ps ≤ t.balances src ∧ outlay ps ≤ t.allowances src
  | [], t => iff_of_true ⟨t, .nil t⟩ ⟨List.forall_mem_nil _, Nat.zero_le _, Nat.zero_le _⟩
  | (a, n) :: ps, t => by
    have hsum : outlay ((a, n) :: ps) = n + outlay ps := List.sum_cons
    have hfits := t.balance_fits (a := src)
    simp only [Trail.cons_iff, List.forall_mem_cons, hsum]
    constructor
    · rintro ⟨v, u, hpay, hrest⟩
      obtain ⟨hothers, hbalance, hallowance⟩ := exists_pays_iff.mp ⟨v, hrest⟩
      obtain ⟨hzero, hb, ha, hbu, hau, -⟩ := transferFrom_eq_some.mp hpay.transfer
      rw [hbu, moved_src hpay.other] at hbalance
      rw [hau, update_self] at hallowance
      obtain ⟨hcovers, -⟩ := spent_add (m := n) (n := outlay ps) keepsMax (t.allowed src) (by omega)
      exact ⟨⟨⟨hzero, hpay.other⟩, hothers⟩, by simp only at hb; omega, hcovers.mp ⟨ha, hallowance⟩⟩
    · rintro ⟨⟨⟨hzero, hother⟩, hothers⟩, hbalance, hallowance⟩
      obtain ⟨hcovers, -⟩ := spent_add (m := n) (n := outlay ps) keepsMax (t.allowed src) (by omega)
      obtain ⟨ha, hrest⟩ := hcovers.mpr hallowance
      obtain ⟨u, hu⟩ := exists_transferFrom (n := n) keepsMax hzero (by omega) ha
      obtain ⟨-, -, -, hbu, hau, -⟩ := transferFrom_eq_some.mp hu
      obtain ⟨v, hv⟩ := (exists_pays_iff (t := u)).mpr ⟨hothers, by rw [hbu, moved_src hother]; omega,
        by rwa [hau, update_self]⟩
      exact ⟨v, u, ⟨hother, hu⟩, hv⟩

/-- They take their sum from the holder, and every other account receives its part. -/
theorem Pays.balances_eq {ps : List (A × Nat)} (h : Trail (Pays keepsMax src) t ps u) :
    u.balances src + outlay ps = t.balances src ∧ ∀ a, a ≠ src → u.balances a = t.balances a + received a ps := by
  refine h.invariant (I := fun ps u => u.balances src + outlay ps = t.balances src ∧
    ∀ a, a ≠ src → u.balances a = t.balances a + received a ps) ⟨rfl, fun _ _ => rfl⟩ fun ps u p v _ ih hpay => ?_
  obtain ⟨-, hb, -, hbv, -, -⟩ := transferFrom_eq_some.mp hpay.transfer
  simp only [outlay, received, List.map_append, List.map_cons, List.map_nil, List.sum_append, List.sum_singleton]
  refine ⟨?_, fun a ha => ?_⟩
  · have hsrc := ih.1
    rw [hbv, moved_src hpay.other]
    rw [outlay] at hsrc
    omega
  · rw [hbv, moved_of_ne ha, ih.2 a ha, received, Nat.add_assoc]

theorem trail_due_add :
    Trail (Pays keepsMax src) t (due a (m + n)) v ↔ Trail (Pays keepsMax src) t (due a m ++ due a n) v := by
  by_cases hm : m = 0
  · rw [hm, Nat.zero_add, due, due, if_neg (Nat.lt_irrefl 0), List.nil_append]
  by_cases hn : n = 0
  · rw [hn, Nat.add_zero, due, due, if_neg (Nat.lt_irrefl 0), List.append_nil]
  rw [due, due, due, if_pos (by omega), if_pos (by omega), if_pos (by omega), Trail.append_iff]
  simp only [Trail.single_iff]
  exact pays_add.symm

theorem due_fits (h : Trail (Pays keepsMax src) t (due a n) u) : n < 2 ^ w := by
  unfold due at h
  split at h
  · exact Nat.lt_of_le_of_lt h.single_inv.balance t.balance_fits
  · have := Nat.two_pow_pos w
    omega

/-! ### Mints -/

/-- The pair of an account and an amount is minted. -/
def Mints (t : PlainToken w A) (p : A × Nat) (u : PlainToken w A) : Prop := t.mint p.1 p.2 = some u

theorem Mints.functional {p : A × Nat} (h : Mints t p u) (h' : Mints t p v) : u = v :=
  Option.some.inj (h.symm.trans h')

theorem Mints.comm {p q : A × Nat} (h : Mints t p u) (h' : Mints u q v) : ∃ u', Mints t q u' ∧ Mints u' p v := by
  obtain ⟨hp, hrp, hbu, hau, hsu⟩ := mint_eq_some.mp h
  obtain ⟨hq, hrq, hbv, hav, hsv⟩ := mint_eq_some.mp h'
  obtain ⟨u', hu'⟩ := exists_mint (t := t) hq (n := q.2) (by omega)
  obtain ⟨-, -, hbu', hau', hsu'⟩ := mint_eq_some.mp hu'
  refine ⟨u', hu', mint_eq_some.mpr ⟨hp, by omega, ?_, ?_, by omega⟩⟩
  · rw [hbv, hbu, hbu', credited_comm]
  · rw [hav, hau, hau']

end PlainToken
