import Mathlib.Algebra.BigOperators.Group.List.Basic
import Mathlib.Algebra.Order.BigOperators.Group.List
import Mathlib.Algebra.Order.Ring.Nat
import Mathlib.Data.Nat.ModEq

/-! Fixed windows of time, all of one length and counted from a start. The uses of a resource are pairs of
    a time and an amount. A counter that remembers one window and what was used in it answers for the
    whole history, as long as no use lies in a later window: it needs no reset when a window ends. -/

namespace Window

/-- The number of the window a time lies in. -/
def epoch (start interval t : Nat) : Nat := (t - start) / interval

/-- What was used in one window. -/
def used (start interval : Nat) (uses : List (Nat × Nat)) (k : Nat) : Nat :=
  ((uses.filter fun u => epoch start interval u.1 = k).map (·.2)).sum

variable {start interval t t' a amount k k' : Nat} {uses uses' : List (Nat × Nat)}

theorem epoch_mono (h : t ≤ t') : epoch start interval t ≤ epoch start interval t' :=
  Nat.div_le_div_right (Nat.sub_le_sub_right h start)

theorem used_append : used start interval (uses ++ uses') k = used start interval uses k + used start interval uses' k := by
  simp [used]

theorem used_eq_zero (h : ∀ u ∈ uses, epoch start interval u.1 ≠ k) : used start interval uses k = 0 := by
  have hnil : (uses.filter fun u => epoch start interval u.1 = k) = [] :=
    List.filter_eq_nil_iff.mpr fun u hu => by simpa using h u hu
  rw [used, hnil]
  rfl

theorem used_single : used start interval [(t, a)] (epoch start interval t) = a := by
  simp [used]

/-- No use lies after window `k`, and `amount` was used in it. -/
structure Counts (start interval : Nat) (uses : List (Nat × Nat)) (amount k : Nat) : Prop where
  past : ∀ u ∈ uses, epoch start interval u.1 ≤ k
  sum : used start interval uses k = amount

namespace Counts

theorem nil (k : Nat) : Counts start interval [] 0 k := ⟨by simp, rfl⟩

theorem used_eq (h : Counts start interval uses amount k) (hk : k ≤ k') :
    used start interval uses k' = if k < k' then 0 else amount := by
  split
  · rename_i hlt
    exact used_eq_zero fun u hu => Nat.ne_of_lt (Nat.lt_of_le_of_lt (h.past u hu) hlt)
  · rename_i hnot
    obtain rfl : k = k' := by omega
    exact h.sum

/-- A use in the window of the counter or in a later one, where the counter starts again. -/
theorem snoc (h : Counts start interval uses amount k) (hk : k ≤ epoch start interval t) :
    Counts start interval (uses ++ [(t, a)]) ((if k < epoch start interval t then 0 else amount) + a)
      (epoch start interval t) where
  past u hu := by
    rcases List.mem_append.mp hu with hu | hu
    · exact Nat.le_trans (h.past u hu) hk
    · exact List.mem_singleton.mp hu ▸ Nat.le_refl _
  sum := by rw [used_append, used_single, h.used_eq hk]

end Counts

/-! ### Moving windows

A counter stores its window as an offset from the start. When the start or the length of the windows
changes, the stored offset is compared with offsets of other windows. -/

theorem epoch_add (h : 0 < interval) (hstart : start ≤ t) :
    epoch start interval (t + interval) = epoch start interval t + 1 := by
  have hsub : t + interval - start = t - start + interval := by omega
  rw [epoch, hsub, Nat.add_div_right _ h]
  rfl

/-- The first moment, from `now` on, at which every use lies an interval back. -/
def idleFrom (interval now : Nat) (uses : List (Nat × Nat)) : Nat :=
  uses.foldr (fun u moment => max (u.1 + interval) moment) now

theorem idleFrom_le_iff {now : Nat} : idleFrom interval now uses ≤ t ↔ now ≤ t ∧ ∀ u ∈ uses, u.1 + interval ≤ t := by
  induction uses with
  | nil => simp [idleFrom]
  | cons u uses ih =>
    have hcons : idleFrom interval now (u :: uses) = max (u.1 + interval) (idleFrom interval now uses) := rfl
    rw [hcons, Nat.max_le, ih, List.forall_mem_cons]
    exact and_left_comm

theorem le_idleFrom {now : Nat} : now ≤ idleFrom interval now uses ∧ ∀ u ∈ uses, u.1 + interval ≤ idleFrom interval now uses :=
  idleFrom_le_iff.mp (Nat.le_refl _)

theorem idleFrom_eq {now : Nat} (h : ∀ u ∈ uses, u.1 + interval ≤ now) : idleFrom interval now uses = now :=
  Nat.le_antisymm (idleFrom_le_iff.mpr ⟨Nat.le_refl now, h⟩) le_idleFrom.1

/-- A counter of `amount` at the offset `stamp` has run out at the first idle moment: it is empty, or the
    window of that moment has a later offset. -/
def RunsOut (start interval : Nat) (uses : List (Nat × Nat)) (now amount stamp : Nat) : Prop :=
  amount = 0 ∨ stamp < epoch start interval (idleFrom interval now uses) * interval

namespace RunsOut
variable {now now' stamp : Nat}

/-- It does so at every idle moment, and whatever is used or whenever one looks later. -/
theorem mono (h : RunsOut start interval uses now amount stamp)
    (hle : idleFrom interval now uses ≤ idleFrom interval now' uses') : RunsOut start interval uses' now' amount stamp :=
  h.imp_right fun hlt => Nat.lt_of_lt_of_le hlt (Nat.mul_le_mul_right _ (epoch_mono hle))

theorem later (h : RunsOut start interval uses now amount stamp) (hle : now ≤ now') :
    RunsOut start interval uses now' amount stamp := by
  refine h.mono (idleFrom_le_iff.mpr ⟨Nat.le_trans hle le_idleFrom.1, le_idleFrom.2⟩)

theorem append (h : RunsOut start interval uses now amount stamp) :
    RunsOut start interval (uses ++ uses') now amount stamp := by
  refine h.mono (idleFrom_le_iff.mpr ⟨le_idleFrom.1, fun u hu => ?_⟩)
  exact le_idleFrom.2 u (List.mem_append_left _ hu)

theorem use (hinterval : 0 < interval) (hstart : start ≤ now) :
    RunsOut start interval (uses ++ [(now, a)]) now amount (epoch start interval now * interval) := by
  have hidle : now + interval ≤ idleFrom interval now (uses ++ [(now, a)]) := le_idleFrom.2 (now, a) (by simp)
  have hepoch : epoch start interval (now + interval) ≤ epoch start interval _ := epoch_mono hidle
  rw [epoch_add hinterval hstart] at hepoch
  exact .inr ((Nat.mul_lt_mul_right hinterval).mpr hepoch)

/-- After an idle interval the moment is the present. -/
theorem idle_iff (hidle : ∀ u ∈ uses, u.1 + interval ≤ now) :
    RunsOut start interval uses now amount stamp ↔ amount = 0 ∨ stamp < epoch start interval now * interval := by
  rw [RunsOut, idleFrom_eq hidle]

end RunsOut

/-! ### Any stretch of time

What no window exceeds, a stretch of time exceeds only as often as it touches windows. -/

/-- What was used from one time to another, both included. -/
def usedBetween (first last : Nat) (uses : List (Nat × Nat)) : Nat :=
  ((uses.filter fun u => first ≤ u.1 ∧ u.1 ≤ last).map (·.2)).sum

variable {maximum n first last : Nat}

theorem used_snoc_le (h : ∀ k, used start interval uses k ≤ maximum)
    (hlast : used start interval uses (epoch start interval t) + a ≤ maximum) (k : Nat) :
    used start interval (uses ++ [(t, a)]) k ≤ maximum := by
  rw [used_append]
  by_cases hk : epoch start interval t = k
  · subst hk
    rw [used_single]
    exact hlast
  · have hnone : used start interval [(t, a)] k = 0 := used_eq_zero fun u hu => by rwa [List.mem_singleton.mp hu]
    rw [hnone]
    exact h k

theorem epoch_le_add (h : first ≤ last) :
    epoch start interval last ≤ epoch start interval first + (last - first) / interval + 1 := by
  have hsplit : last - start ≤ (first - start) + (last - first) := by omega
  calc (last - start) / interval ≤ (first - start + (last - first)) / interval := Nat.div_le_div_right hsplit
    _ ≤ (first - start) / interval + (last - first) / interval + 1 := Nat.add_div_le_div_add_div_add_one ..

theorem used_filter_le (p : Nat × Nat → Bool) : used start interval (uses.filter p) k ≤ used start interval uses k :=
  ((List.filter_sublist.filter _).map _).sum_le_sum fun _ _ => Nat.zero_le _

theorem sum_le_mul (h : ∀ k, used start interval uses k ≤ maximum)
    (hepochs : ∀ u ∈ uses, k ≤ epoch start interval u.1 ∧ epoch start interval u.1 < k + n) :
    (uses.map (·.2)).sum ≤ n * maximum := by
  induction n generalizing uses with
  | zero =>
    obtain rfl : uses = [] := List.eq_nil_iff_forall_not_mem.mpr fun u hu => by have := hepochs u hu; omega
    exact Nat.zero_le _
  | succ n ih =>
    -- the uses of the last window, and the others
    rw [← List.sum_map_filter_add_sum_map_filter_not (fun u => epoch start interval u.1 = k + n) (·.2) uses,
      Nat.add_mul, Nat.one_mul, Nat.add_comm]
    refine Nat.add_le_add (ih (fun k' => (used_filter_le _).trans (h k')) fun u hu => ?_) (h (k + n))
    obtain ⟨hmem, hne⟩ := List.mem_filter.mp hu
    have hrange := hepochs u hmem
    have hne : epoch start interval u.1 ≠ k + n := of_decide_eq_true hne
    omega

/-- A stretch of time touches at most two windows more than it is intervals long. -/
theorem usedBetween_le (h : ∀ k, used start interval uses k ≤ maximum) (hle : first ≤ last) :
    usedBetween first last uses ≤ ((last - first) / interval + 2) * maximum := by
  refine sum_le_mul (k := epoch start interval first) (fun k => (used_filter_le _).trans (h k)) fun u hu => ?_
  have hrange : first ≤ u.1 ∧ u.1 ≤ last := of_decide_eq_true (List.mem_filter.mp hu).2
  have hfrom : epoch start interval first ≤ epoch start interval u.1 := epoch_mono hrange.1
  have huntil : epoch start interval u.1 ≤ epoch start interval last := epoch_mono hrange.2
  have hspan : epoch start interval last ≤ epoch start interval first + (last - first) / interval + 1 := epoch_le_add hle
  omega

end Window
