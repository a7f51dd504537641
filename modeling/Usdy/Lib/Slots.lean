import Mathlib.Algebra.BigOperators.Group.Finset.Piecewise
import Mathlib.Algebra.Order.BigOperators.Group.Finset
import Mathlib.Data.FinEnum

/-! The slots of a mapping. A write to one slot keeps the others, so a law about each slot follows from the slot
    that is written; and it trades the old weight of the slot for the new one, so a law about the total of a
    mapping follows from the weights of the slots that are written. -/

universe u v

namespace Slots
open Function

/-- An event about one slot drives what is written there, and the other slots stay. -/
theorem step_update {K R E : Type*} [DecidableEq K] {key : E → Option K} {step : K → R → E → R → Prop}
    (hkept : ∀ {k r e}, key e ≠ some k → step k r e r) {f : K → R} {i k : K} {e : E} {r : R} (he : key e = some i)
    (h : step i (f i) e r) : step k (f k) e (update f i r k) := by
  have hothers : ∀ j, j ≠ i → step j (f j) e (f j) := fun j hj =>
    hkept fun hkey => hj (Option.some.inj (hkey.symm.trans he))
  exact (forall_update_iff f fun k r => step k (f k) e r).mpr ⟨h, hothers⟩ k

variable {ι : Type u} {β : Type v} [Fintype ι] {w : β → Nat} {f : ι → β}

/-- The weights of all slots of a mapping, added up. -/
def total (w : β → Nat) (f : ι → β) : Nat := ∑ i, w (f i)

theorem total_of_forall (h : ∀ i, w (f i) = 0) : total w f = 0 := Finset.sum_eq_zero fun i _ => h i

theorem le_total {i : ι} : w (f i) ≤ total w f :=
  Finset.single_le_sum (f := fun i => w (f i)) (fun _ _ => Nat.zero_le _) (Finset.mem_univ i)

variable [DecidableEq ι] {i j : ι} {b : β}

theorem add_le_total (h : j ≠ i) : w (f i) + w (f j) ≤ total w f := by
  rw [total, ← Finset.add_sum_erase _ _ (Finset.mem_univ i)]
  exact Nat.add_le_add_left (Finset.single_le_sum (f := fun k => w (f k)) (fun _ _ => Nat.zero_le _)
    (Finset.mem_erase.mpr ⟨h, Finset.mem_univ j⟩)) _

theorem total_update : total w (update f i b) + w (f i) = total w f + w b := by
  have hnew : total w (update f i b) = w b + ∑ j ∈ Finset.univ.erase i, w (f j) := by
    rw [total, ← Finset.add_sum_erase _ _ (Finset.mem_univ i), update_self]
    congr 1
    refine Finset.sum_congr rfl fun j hj => ?_
    rw [update_of_ne (Finset.ne_of_mem_erase hj)]
  have hold : total w f = w (f i) + ∑ j ∈ Finset.univ.erase i, w (f j) :=
    (Finset.add_sum_erase _ _ (Finset.mem_univ i)).symm
  omega

/-- Writing a slot that weighs nothing takes its old weight away. -/
theorem total_clear (h : w b = 0) : w (f i) + total w (update f i b) = total w f := by
  rw [Nat.add_comm, total_update, h, Nat.add_zero]

end Slots
