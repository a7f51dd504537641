import Usdy.Blocklist

/-! What the owner of an `AggregatorBlocklist` builds: the array of registered blocklists and the flags agree
    after any calls, and `isBlocked` depends on the set of registered blocklists only. -/

namespace Usdy
open Checked Function

namespace AggregatorBlocklist
variable {s t : AggregatorBlocklist} {caller addr : Address} {call : Call} {b : Address}

/-- The array is a set of addresses other than zero, and the flags tell its members. -/
structure Registered (s : AggregatorBlocklist) : Prop where
  nodup : s.blocklists.Nodup
  nonzero : 0 ∉ s.blocklists
  flags : ∀ b, s.blocklistExists b = true ↔ b ∈ s.blocklists

/-- What a successful call makes of the registration of a blocklist, where it says anything about it. -/
def Call.registers (b : Address) : Call → Option Bool
  | .addBlocklist blocklist => if blocklist = b then some true else none
  | .removeBlocklist blocklist => if blocklist = b then some false else none
  | _ => none

/-- Whether a successful call registers the blocklist or removes it. -/
def registers (b : Address) (x : Machine.Success AggregatorBlocklist (Address × Call)) : Option Bool :=
  x.action.2.registers b

/-! ### What a call does -/

/-- What a call does to the list and the flags. -/
inductive Effect (s t : AggregatorBlocklist) : Call → Prop
  | added {b : Address} (hzero : b ≠ 0) (hnew : s.blocklistExists b = false)
      (hlists : t.blocklists = s.blocklists ++ [b]) (hflags : t.blocklistExists = update s.blocklistExists b true) :
      Effect s t (.addBlocklist b)
  | removed {b : Address} {i : Nat} (hi : s.blocklists[i]? = some b)
      (hlists : t.blocklists = Registry.swapPop s.blocklists i)
      (hflags : t.blocklistExists = update s.blocklistExists b false) : Effect s t (.removeBlocklist b)
  | other {call : Call} (hother : ∀ b, call.registers b = none) (hlists : t.blocklists = s.blocklists)
      (hflags : t.blocklistExists = s.blocklistExists) : Effect s t call

/-- Where the flags agree with the array, a removal finds the place of its blocklist. -/
theorem removeBlocklist_effect (hs : s.Registered) (h : removeBlocklist caller b s = .ok t) :
    Effect s t (.removeBlocklist b) := by
  simp only [removeBlocklist, bind_eq_ok, exists_unit_iff, revertIf_eq_ok, Bool.not_eq_false] at h
  obtain ⟨-, hflag, h⟩ := h
  have hmem := (hs.flags b).mp hflag
  cases hfind : s.blocklists.findIdx? (· = b) with
  | none =>
    have hne := List.findIdx?_eq_none_iff.mp hfind b hmem
    simp at hne
  | some i =>
    rw [hfind] at h
    obtain rfl := pure_eq_ok.mp h
    obtain ⟨hlt, hi, -⟩ := List.findIdx?_eq_some_iff_getElem.mp hfind
    refine .removed (List.getElem?_eq_some_iff.mpr ⟨hlt, ?_⟩) rfl rfl
    simpa using hi

theorem exec_effect (hs : s.Registered) (h : exec caller call s = .ok t) : Effect s t call := by
  cases call with
  | addBlocklist b =>
    simp only [exec, addBlocklist, bind_eq_ok, exists_unit_iff, revertIf_eq_ok, pure_eq_ok, Bool.not_eq_true] at h
    obtain ⟨-, hzero, hnew, rfl⟩ := h
    exact .added hzero hnew rfl rfl
  | removeBlocklist b => exact removeBlocklist_effect hs h
  | addToBlocklist accounts | removeFromBlocklist accounts =>
    obtain rfl := pure_eq_ok.mp h
    exact .other (fun _ => rfl) rfl rfl
  | ownable call =>
    obtain ⟨⟨owners, event⟩, -, h⟩ := bind_eq_ok.mp h
    obtain rfl := pure_eq_ok.mp h
    exact .other (fun _ => rfl) rfl rfl

theorem Effect.mem_of_removed (hs : s.Registered) (h : Effect s t (.removeBlocklist b)) {x : Address} :
    x ∈ t.blocklists ↔ x ∈ s.blocklists ∧ x ≠ b := by
  cases h with
  | removed hi hlists hflags => rw [hlists, Registry.mem_swapPop hi hs.nodup]
  | other hother => simp [Call.registers] at hother

theorem Registered.effect (hs : s.Registered) (h : Effect s t call) : t.Registered := by
  cases h with
  | @added b hzero hnew hlists hflags =>
    have hnot : b ∉ s.blocklists := fun hmem => by
      rw [(hs.flags b).mpr hmem] at hnew
      cases hnew
    refine ⟨?_, ?_, fun x => ?_⟩
    · rw [hlists]
      exact List.nodup_append_comm.mp (List.nodup_cons.mpr ⟨hnot, hs.nodup⟩)
    · rw [hlists, List.mem_append, List.mem_singleton]
      rintro (hmem | hmem)
      · exact hs.nonzero hmem
      · exact hzero hmem.symm
    · rw [hlists, hflags, List.mem_append, List.mem_singleton]
      by_cases hx : x = b
      · simp [hx]
      · rw [update_of_ne hx, hs.flags x]
        simp [hx]
  | @removed b i hi hlists hflags =>
    have hmem : ∀ x, x ∈ t.blocklists ↔ x ∈ s.blocklists ∧ x ≠ b := fun x =>
      Effect.mem_of_removed hs (.removed hi hlists hflags)
    refine ⟨?_, fun h0 => hs.nonzero ((hmem 0).mp h0).1, fun x => ?_⟩
    · rw [hlists]
      exact Registry.swapPop_nodup hi hs.nodup
    · rw [hmem, hflags]
      by_cases hx : x = b
      · simp [hx]
      · rw [update_of_ne hx, hs.flags x]
        simp [hx]
  | other hother hlists hflags =>
    refine ⟨hlists ▸ hs.nodup, hlists ▸ hs.nonzero, fun x => ?_⟩
    rw [hlists, hflags]
    exact hs.flags x

theorem Effect.registers (h : Effect s t call) (b : Address) :
    t.blocklistExists b = (call.registers b).getD (s.blocklistExists b) := by
  cases h with
  | @added b' hzero hnew hlists hflags | @removed b' i hi hlists hflags =>
    rw [hflags]
    by_cases hb : b' = b
    · simp [Call.registers, hb]
    · simp only [Call.registers, if_neg hb, Option.getD_none]
      exact update_of_ne (Ne.symm hb) _ _
  | other hother hlists hflags => rw [hflags, hother b, Option.getD_none]

/-! ### Blocked accounts -/

theorem isBlocked_eq {view : Address → Address → Option Bool} {blocked : Address → Bool}
    (hview : ∀ b ∈ s.blocklists, view b addr = some (blocked b)) :
    isBlocked view addr s = .ok (s.blocklists.any blocked) := by
  unfold isBlocked
  generalize s.blocklists = l at hview
  induction l with
  | nil => rfl
  | cons b l ih =>
    have ih := ih fun x hx => hview x (List.mem_cons_of_mem b hx)
    rw [List.anyM, hview b List.mem_cons_self, List.any_cons]
    cases hb : blocked b with
    | true => rfl
    | false => exact ih

/-! ### Runs -/

theorem deploy_registered (sender : Address) : (deploy sender).Registered where
  nodup := List.nodup_nil
  nonzero := List.not_mem_nil
  flags b := by simp [deploy]

theorem run_registered (sender : Address) (acts : List (Address × Call)) :
    (Machine.run act (deploy sender) acts).Registered :=
  (Machine.invariant_any (deploy_registered sender) fun _ _ _ hs h =>
    hs.effect (exec_effect hs (toOption_eq_some.mp h))).1

theorem run_flag (sender : Address) (acts : List (Address × Call)) (b : Address) :
    (Machine.run act (deploy sender) acts).blocklistExists b =
      ((Machine.successes act (deploy sender) acts).filterMap (registers b)).getLast?.getD false := by
  refine Machine.last_write (I := Registered) (f := fun s : AggregatorBlocklist => s.blocklistExists b)
    (deploy_registered sender) ?_ ?_
  · intro s a t hs h
    exact hs.effect (exec_effect hs (toOption_eq_some.mp h))
  · intro s a t hs h
    exact (exec_effect hs (toOption_eq_some.mp h)).registers b

/-- After any calls the registered blocklists are those whose last successful call was an addition; a removal
    takes out its blocklist and no other; and an account is blocked when one of them says so. -/
theorem registry_refines (sender : Address) (acts : List (Address × Call)) :
    let s := Machine.run act (deploy sender) acts
    (s.blocklists.Nodup ∧ 0 ∉ s.blocklists) ∧
      (∀ b, (s.blocklistExists b = true ↔ b ∈ s.blocklists) ∧ (b ∈ s.blocklists ↔
        ((Machine.successes act (deploy sender) acts).filterMap (registers b)).getLast? = some true)) ∧
      (∀ caller b t, removeBlocklist caller b s = .ok t → ∀ x, x ∈ t.blocklists ↔ x ∈ s.blocklists ∧ x ≠ b) ∧
      ∀ (view : Address → Address → Option Bool) (addr : Address) (blocked : Address → Bool),
        (∀ b ∈ s.blocklists, view b addr = some (blocked b)) →
          isBlocked view addr s = .ok (decide (∃ b ∈ s.blocklists, blocked b = true)) ∧
          ∀ sender' acts', (∀ b, b ∈ (Machine.run act (deploy sender') acts').blocklists ↔ b ∈ s.blocklists) →
            isBlocked view addr (Machine.run act (deploy sender') acts') = isBlocked view addr s := by
  intro s
  have hs : s.Registered := run_registered sender acts
  have hany : ∀ {l : List Address} {blocked : Address → Bool}, l.any blocked = decide (∃ b ∈ l, blocked b = true) := by
    intro l blocked
    rw [Bool.eq_iff_iff, List.any_eq_true, decide_eq_true_iff]
  refine ⟨⟨hs.nodup, hs.nonzero⟩, fun b => ⟨hs.flags b, ?_⟩, fun caller b t h x => ?_, fun view addr blocked hview => ?_⟩
  · rw [← hs.flags b, run_flag sender acts b]
    cases ((Machine.successes act (deploy sender) acts).filterMap (registers b)).getLast? with
    | none => simp
    | some v => simp
  · exact (removeBlocklist_effect hs h).mem_of_removed hs
  · rw [isBlocked_eq hview, hany]
    refine ⟨rfl, fun sender' acts' hmem => ?_⟩
    rw [isBlocked_eq fun b hb => hview b ((hmem b).mp hb), hany]
    simp only [hmem]

end AggregatorBlocklist

end Usdy
