import Mathlib.Data.List.Nodup
import Mathlib.Data.List.Perm.Basic
import Mathlib.Logic.Function.Basic

/-! Removing from an array by moving its last element into the gap: the order may change, and nothing else
    is lost. -/

universe u

namespace Registry
variable {α : Type u} {l : List α} {a b : α} {i : Nat}

/-- The last element takes the place of the one at `i`, and the array is one shorter. -/
def swapPop (l : List α) (i : Nat) : List α :=
  match l.getLast? with
  | some last => (l.set i last).dropLast
  | none => l

theorem swapPop_concat (l : List α) (b : α) (i : Nat) : swapPop (l ++ [b]) i = l.set i b := by
  rw [swapPop, List.getLast?_concat]
  simp only
  by_cases hi : i < l.length
  · rw [List.set_append_left _ _ hi, List.dropLast_concat]
  · have hi := Nat.le_of_not_lt hi
    rw [List.set_append_right _ _ hi, List.set_eq_of_length_le hi]
    cases i - l.length with
    | zero => exact List.dropLast_concat
    | succ n => exact List.dropLast_concat

/-- What is left is the array without the element at `i`. -/
theorem swapPop_perm (h : l[i]? = some a) : (a :: swapPop l i).Perm l := by
  obtain rfl | ⟨m, b, rfl⟩ := List.eq_nil_or_concat l
  · cases h
  · rw [List.concat_eq_append] at h ⊢
    rw [swapPop_concat]
    by_cases hi : i < m.length
    · rw [List.getElem?_append_left hi, List.getElem?_eq_getElem hi, Option.some.injEq] at h
      subst h
      calc (m[i] :: m.set i b).Perm (m[i] :: b :: m.eraseIdx i) := (List.set_perm_cons_eraseIdx hi b).cons _
        List.Perm _ (b :: m[i] :: m.eraseIdx i) := .swap _ _ _
        List.Perm _ (b :: m) := (List.getElem_cons_eraseIdx_perm hi).cons _
        List.Perm _ (m ++ [b]) := (List.perm_append_singleton b m).symm
    · obtain ⟨hlt, h⟩ := List.getElem?_eq_some_iff.mp h
      have hi := Nat.le_of_not_lt hi
      have heq : i = m.length := by
        rw [List.length_append, List.length_singleton] at hlt
        omega
      subst heq
      rw [List.getElem_concat_length rfl] at h
      rw [List.set_eq_of_length_le hi, ← h]
      exact (List.perm_append_singleton b m).symm

theorem swapPop_nodup (h : l[i]? = some a) (hl : l.Nodup) : (swapPop l i).Nodup :=
  (List.nodup_cons.mp ((swapPop_perm h).nodup_iff.mpr hl)).2

theorem mem_swapPop (h : l[i]? = some a) (hl : l.Nodup) : b ∈ swapPop l i ↔ b ∈ l ∧ b ≠ a := by
  have hperm := swapPop_perm h
  have hnot := (List.nodup_cons.mp (hperm.nodup_iff.mpr hl)).1
  rw [← hperm.mem_iff, List.mem_cons]
  constructor
  · intro hb
    exact ⟨.inr hb, fun heq => hnot (heq ▸ hb)⟩
  · rintro ⟨rfl | hb, hne⟩
    · exact absurd rfl hne
    · exact hb

/-! ### The place of each element -/

/-- One more than the place of each element of the array, and zero for everything else. -/
def Indexed (l : List α) (index : α → Nat) : Prop := ∀ a i, index a = i + 1 ↔ l[i]? = some a

namespace Indexed
variable {index : α → Nat}

theorem nil : Indexed ([] : List α) fun _ => 0 := by
  intro a i
  rw [List.getElem?_nil]
  exact ⟨nofun, nofun⟩

theorem mem_iff (h : Indexed l index) : a ∈ l ↔ index a ≠ 0 := by
  rw [List.mem_iff_getElem?]
  constructor
  · rintro ⟨i, hi⟩
    rw [(h a i).mpr hi]
    exact Nat.succ_ne_zero i
  · intro hne
    obtain ⟨i, hi⟩ := Nat.exists_eq_succ_of_ne_zero hne
    exact ⟨i, (h a i).mp hi⟩

theorem nodup (h : Indexed l index) : l.Nodup := by
  rw [List.nodup_iff_getElem?_ne_getElem?]
  intro i j hij hj heq
  have hi := (h l[j] i).mpr (by rw [heq, List.getElem?_eq_getElem hj])
  have hj := (h l[j] j).mpr (List.getElem?_eq_getElem hj)
  omega

variable [DecidableEq α]

theorem concat (h : Indexed l index) (ha : index a = 0) :
    Indexed (l ++ [a]) (Function.update index a (l.length + 1)) := by
  have hnot : a ∉ l := fun hmem => h.mem_iff.mp hmem ha
  intro b i
  rw [List.getElem?_append]
  by_cases hb : b = a
  · subst hb
    rw [Function.update_self]
    split
    · rename_i hi
      refine ⟨fun heq => absurd heq (by omega), fun heq => absurd (List.mem_of_getElem? heq) hnot⟩
    · rename_i hi
      rw [List.getElem?_singleton]
      split
      · exact ⟨fun _ => rfl, fun _ => by omega⟩
      · exact ⟨fun heq => absurd heq (by omega), nofun⟩
  · rw [Function.update_of_ne hb, h b i]
    split
    · exact Iff.rfl
    · rename_i hi
      rw [List.getElem?_eq_none (Nat.le_of_not_lt hi), List.getElem?_singleton]
      split
      · exact ⟨nofun, fun heq => absurd (Option.some.inj heq).symm hb⟩
      · exact Iff.rfl

theorem dropLast (h : Indexed (l ++ [a]) index) : Indexed l (Function.update index a 0) := by
  have hend : index a = l.length + 1 := (h _ _).mpr List.getElem?_concat_length
  intro b i
  by_cases hb : b = a
  · subst hb
    rw [Function.update_self]
    refine ⟨nofun, fun hi => ?_⟩
    have hlt := (List.getElem?_eq_some_iff.mp hi).1
    have := (h b i).mpr (by rw [List.getElem?_append_left hlt, hi])
    omega
  · rw [Function.update_of_ne hb, h b i, List.getElem?_append]
    split
    · exact Iff.rfl
    · rename_i hi
      rw [List.getElem?_eq_none (Nat.le_of_not_lt hi), List.getElem?_singleton]
      split
      · exact ⟨fun heq => absurd (Option.some.inj heq).symm hb, nofun⟩
      · exact Iff.rfl

/-- A new element takes the place of one that is there. -/
theorem set (h : Indexed l index) (ha : index a = i + 1) (hb : index b = 0) :
    Indexed (l.set i b) (Function.update (Function.update index b (i + 1)) a 0) := by
  have hi := (h a i).mp ha
  have hlt := (List.getElem?_eq_some_iff.mp hi).1
  intro c j
  rw [List.getElem?_set, if_pos hlt]
  by_cases hca : c = a
  · subst hca
    rw [Function.update_self]
    refine ⟨nofun, fun heq => ?_⟩
    split at heq
    · cases heq
      omega
    · have := (h c j).mpr heq
      omega
  · rw [Function.update_of_ne hca]
    by_cases hcb : c = b
    · subst hcb
      rw [Function.update_self, Nat.succ.injEq]
      split
      · rename_i hij
        exact ⟨fun _ => rfl, fun _ => hij⟩
      · rename_i hij
        refine ⟨fun heq => absurd heq hij, fun heq => ?_⟩
        have := (h c j).mpr heq
        omega
    · rw [Function.update_of_ne hcb, h c j]
      split
      · rename_i hij
        subst hij
        rw [hi]
        exact ⟨fun heq => absurd (Option.some.inj heq).symm hca, fun heq => absurd (Option.some.inj heq).symm hcb⟩
      · exact Iff.rfl

/-- The last element takes over the place of the one that is removed. -/
theorem swapPop {last : α} (h : Indexed l index) (ha : index a = i + 1) (hlast : l.getLast? = some last) :
    Indexed (swapPop l i) (Function.update (Function.update index last (i + 1)) a 0) := by
  obtain ⟨m, rfl⟩ := List.getLast?_eq_some_iff.mp hlast
  have hend : index last = m.length + 1 := (h _ _).mpr List.getElem?_concat_length
  have hi := (h a i).mp ha
  rw [swapPop_concat]
  by_cases hal : a = last
  · subst hal
    obtain rfl : i = m.length := by omega
    rw [List.set_eq_of_length_le (Nat.le_refl _), Function.update_idem]
    exact h.dropLast
  · have hset := h.dropLast.set (a := a) (by rwa [Function.update_of_ne hal]) (Function.update_self ..)
    rwa [Function.update_idem] at hset

end Indexed

end Registry
