import Usdy.Lib.Checked
import Usdy.Lib.Registry

/-! `EnumerableSet`: an array without duplicates, and for each of its values one more than the index of the
    value. The sets for words and for addresses are the same set at different types. -/

namespace Usdy
open Checked Function

/-- `_values` and `_indexes`: an index counts from one, and zero stands for absence. -/
structure EnumerableSet (α : Type) where
  values : List α
  indexes : α → Nat

namespace EnumerableSet

/-- The panics of the array accesses. -/
inductive Err
  | arithmetic
  | indexOutOfBounds
  | popOfEmptyArray
  deriving DecidableEq

variable {α : Type}

def empty : EnumerableSet α := ⟨[], fun _ => 0⟩

def contains (value : α) (s : EnumerableSet α) : Bool := s.indexes value != 0

def add [DecidableEq α] (value : α) (s : EnumerableSet α) : EnumerableSet α × Bool :=
  if s.contains value = false then
    let values := s.values ++ [value]
    (⟨values, update s.indexes value values.length⟩, true)
  else (s, false)

def remove [DecidableEq α] (value : α) (s : EnumerableSet α) : Except Err (EnumerableSet α × Bool) :=
  let valueIndex := s.indexes value
  if valueIndex ≠ 0 then do
    let toDeleteIndex := valueIndex - 1
    revertIf (s.values.length < 1) .arithmetic
    let lastIndex := s.values.length - 1
    let s ← (if lastIndex ≠ toDeleteIndex then do
        let lastvalue ← orFail .indexOutOfBounds s.values[lastIndex]?
        revertIf (s.values.length ≤ toDeleteIndex) .indexOutOfBounds
        return ⟨s.values.set toDeleteIndex lastvalue, update s.indexes lastvalue valueIndex⟩
      else return s)
    revertIf (s.values = []) .popOfEmptyArray
    return (⟨s.values.dropLast, update s.indexes value 0⟩, true)
  else return (s, false)

def length (s : EnumerableSet α) : Nat := s.values.length

/-- `at`. -/
def atIndex (index : Nat) (s : EnumerableSet α) : Except Err α := orFail .indexOutOfBounds s.values[index]?

/-! ### The set that is kept -/

/-- Every value is where its index says. -/
def Ok (s : EnumerableSet α) : Prop := Registry.Indexed s.values s.indexes

variable {s t : EnumerableSet α} {value a : α} {i j : Nat}

theorem empty_ok : (empty : EnumerableSet α).Ok := Registry.Indexed.nil

namespace Ok

theorem contains_iff (h : s.Ok) : s.contains value = true ↔ value ∈ s.values := by
  rw [contains, bne_iff_ne, Registry.Indexed.mem_iff h]

theorem atIndex_inj (h : s.Ok) (hi : s.atIndex i = .ok a) (hj : s.atIndex j = .ok a) : i = j := by
  rw [atIndex, orFail_eq_ok] at hi hj
  have hi := (h a i).mpr hi
  have hj := (h a j).mpr hj
  omega

variable [DecidableEq α]

theorem add (h : s.Ok) (value : α) : (s.add value).1.Ok ∧ ∀ a, a ∈ (s.add value).1.values ↔ a = value ∨ a ∈ s.values := by
  unfold EnumerableSet.add
  split
  · rename_i hnot
    have hzero : s.indexes value = 0 := by
      rwa [contains, bne_eq_false_iff_eq] at hnot
    refine ⟨?_, fun a => ?_⟩
    · have hconcat := Registry.Indexed.concat h hzero
      rwa [← List.length_singleton (a := value), ← List.length_append] at hconcat
    · simp only [List.mem_append, List.mem_singleton, or_comm]
  · rename_i hmem
    rw [Bool.not_eq_false, h.contains_iff] at hmem
    refine ⟨h, fun a => ⟨.inr, ?_⟩⟩
    rintro (rfl | ha)
    · exact hmem
    · exact ha

/-- Removing does not fail: the last value takes the place of the one that is removed. -/
theorem remove_eq (h : s.Ok) {last : α} (hi : s.indexes value = i + 1) (hlast : s.values.getLast? = some last) :
    s.remove value =
      .ok (⟨Registry.swapPop s.values i, update (update s.indexes last (i + 1)) value 0⟩, true) := by
  obtain ⟨m, hm⟩ := List.getLast?_eq_some_iff.mp hlast
  have hget := (h value i).mp hi
  have hend := (h last m.length).mpr (hm ▸ List.getElem?_concat_length)
  have hlt : i < m.length + 1 := by
    have := (List.getElem?_eq_some_iff.mp hget).1
    rwa [hm, List.length_append, List.length_singleton] at this
  rw [remove, if_pos (by omega), hi, hm, Registry.swapPop_concat, List.length_append, List.length_singleton,
    Nat.add_sub_cancel, Nat.add_sub_cancel]
  simp only [bind_eq_ok, exists_unit_iff, revertIf_eq_ok, pure_eq_ok]
  refine ⟨by omega, ?_⟩
  by_cases hil : m.length = i
  · have hvalue : value = last := by
      rw [hm, ← hil, List.getElem?_concat_length] at hget
      exact (Option.some.inj hget).symm
    refine ⟨s, if_neg (not_not.mpr hil), by simp [hm], ?_⟩
    rw [hm, List.dropLast_concat, ← hil, List.set_eq_of_length_le (Nat.le_refl _), hvalue, update_idem]
  · refine ⟨⟨(m ++ [last]).set i last, update s.indexes last (i + 1)⟩, ?_, ?_, ?_⟩
    · rw [if_pos hil, List.getElem?_concat_length]
      simp only [bind_eq_ok, exists_unit_iff, orFail_eq_ok, revertIf_eq_ok, pure_eq_ok]
      exact ⟨last, rfl, by omega, rfl⟩
    · simp
    · rw [List.set_append_left _ _ (by omega), List.dropLast_concat]

theorem remove (h : s.Ok) (value : α) :
    ∃ t removed, s.remove value = .ok (t, removed) ∧ t.Ok ∧ ∀ a, a ∈ t.values ↔ a ∈ s.values ∧ a ≠ value := by
  by_cases hmem : value ∈ s.values
  · obtain ⟨i, hi⟩ := Nat.exists_eq_succ_of_ne_zero ((Registry.Indexed.mem_iff h).mp hmem)
    obtain ⟨last, hlast⟩ := List.getLast?_isSome.mpr (List.ne_nil_of_mem hmem) |> Option.isSome_iff_exists.mp
    refine ⟨_, _, h.remove_eq hi hlast, Registry.Indexed.swapPop h hi hlast, fun a => ?_⟩
    exact Registry.mem_swapPop ((h value i).mp hi) (Registry.Indexed.nodup h)
  · have hzero : s.indexes value = 0 := by
      by_contra hne
      exact hmem ((Registry.Indexed.mem_iff h).mpr hne)
    refine ⟨s, false, ?_, h, fun a => ⟨fun ha => ⟨ha, fun heq => hmem (heq ▸ ha)⟩, fun ha => ha.1⟩⟩
    rw [EnumerableSet.remove, if_neg (not_not.mpr hzero)]
    rfl

end Ok

end EnumerableSet

end Usdy
