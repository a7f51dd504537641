import Mathlib.Data.List.Induction

/-! Labelled trails: the states a sequence of labels leads through. A trail grows at its end, so an
    induction over it meets the last label first and an invariant may speak of the labels so far.
    The same trails describe the runs of a program, with the actions as labels, and what a program
    does to an abstract model, with the entries of its log as labels. -/

universe u v w

/-- `Trail R s l t`: the labels `l`, in order, lead from `s` to `t` by steps of `R`. -/
inductive Trail {σ : Type u} {α : Type v} (R : σ → α → σ → Prop) : σ → List α → σ → Prop
  | nil (s : σ) : Trail R s [] s
  | snoc {s t u : σ} {l : List α} {a : α} : Trail R s l t → R t a u → Trail R s (l ++ [a]) u

namespace Trail
variable {σ : Type u} {α : Type v} {R R' : σ → α → σ → Prop} {s t u : σ} {l l' : List α} {a : α}

theorem single (h : R s a t) : Trail R s [a] t := (nil s).snoc h

theorem append (h : Trail R s l t) (h' : Trail R t l' u) : Trail R s (l ++ l') u := by
  induction h' with
  | nil => rwa [List.append_nil]
  | snoc _ hstep ih =>
    rw [← List.append_assoc]
    exact ih.snoc hstep

theorem eq_of_nil (h : Trail R s [] t) : s = t := by
  generalize hl : ([] : List α) = l at h
  cases h with
  | nil => rfl
  | snoc => simp at hl

theorem snoc_inv (h : Trail R s (l ++ [a]) u) : ∃ t, Trail R s l t ∧ R t a u := by
  generalize hl : l ++ [a] = m at h
  cases h with
  | nil => simp at hl
  | snoc h hstep =>
    obtain ⟨rfl, hb⟩ := List.append_inj' hl rfl
    cases hb
    exact ⟨_, h, hstep⟩

theorem single_inv (h : Trail R s [a] t) : R s a t := by
  obtain ⟨m, hm, hstep⟩ := snoc_inv (l := []) h
  exact hm.eq_of_nil ▸ hstep

/-- A trail splits where its labels do. -/
theorem split (h : Trail R s (l ++ l') u) : ∃ t, Trail R s l t ∧ Trail R t l' u := by
  induction l' using List.reverseRecOn generalizing u with
  | nil =>
    rw [List.append_nil] at h
    exact ⟨u, h, .nil u⟩
  | append_singleton l' b ih =>
    rw [← List.append_assoc] at h
    obtain ⟨m, hm, hstep⟩ := h.snoc_inv
    obtain ⟨t, ht, ht'⟩ := ih hm
    exact ⟨t, ht, ht'.snoc hstep⟩

theorem split_at (h : Trail R s (l ++ a :: l') u) : ∃ m t, Trail R s l m ∧ R m a t ∧ Trail R t l' u := by
  obtain ⟨m, hm, h⟩ := h.split
  rw [← List.singleton_append] at h
  obtain ⟨t, ht, h⟩ := h.split
  exact ⟨m, t, hm, ht.single_inv, h⟩

theorem of_mem (h : Trail R s l t) (ha : a ∈ l) : ∃ m n, R m a n := by
  obtain ⟨l₁, l₂, rfl⟩ := List.append_of_mem ha
  obtain ⟨m, n, -, hstep, -⟩ := h.split_at
  exact ⟨m, n, hstep⟩

theorem append_iff : Trail R s (l ++ l') u ↔ ∃ t, Trail R s l t ∧ Trail R t l' u :=
  ⟨split, fun ⟨_, h, h'⟩ => h.append h'⟩

theorem nil_iff : Trail R s [] t ↔ s = t := ⟨eq_of_nil, fun h => h ▸ nil s⟩

theorem single_iff : Trail R s [a] t ↔ R s a t := ⟨single_inv, single⟩

theorem cons_iff : Trail R s (a :: l) u ↔ ∃ t, R s a t ∧ Trail R t l u := by
  rw [← List.singleton_append, append_iff]
  simp only [single_iff]

/-- The order of the labels does not matter when two steps may always be exchanged. -/
theorem perm (hR : ∀ s a t b u, R s a t → R t b u → ∃ t', R s b t' ∧ R t' a u) (hl : l.Perm l')
    (h : Trail R s l u) : Trail R s l' u := by
  induction hl generalizing s with
  | nil => exact h
  | cons a _ ih =>
    obtain ⟨t, ha, h⟩ := cons_iff.mp h
    exact cons_iff.mpr ⟨t, ha, ih h⟩
  | swap a b l =>
    obtain ⟨t, hb, h⟩ := cons_iff.mp h
    obtain ⟨v, ha, h⟩ := cons_iff.mp h
    obtain ⟨t', ha, hb⟩ := hR _ _ _ _ _ hb ha
    exact cons_iff.mpr ⟨t', ha, cons_iff.mpr ⟨v, hb, h⟩⟩
  | trans _ _ ih ih' => exact ih' (ih h)

theorem perm_iff (hR : ∀ s a t b u, R s a t → R t b u → ∃ t', R s b t' ∧ R t' a u) (hl : l.Perm l') :
    Trail R s l u ↔ Trail R s l' u :=
  ⟨perm hR hl, perm hR hl.symm⟩

/-- The labels that show the same keys from one state are the same, and lead to one state, when the key of
    a step determines it. -/
theorem keyed {κ : Type w} {key : α → κ} (hR : ∀ s a b t u, key a = key b → R s a t → R s b u → a = b ∧ t = u) :
    ∀ {l l' : List α} {s t u : σ}, l.map key = l'.map key → Trail R s l t → Trail R s l' u → l = l' ∧ t = u
  | [], l', s, t, u, hkey, h, h' => by
    obtain rfl : l' = [] := List.map_eq_nil_iff.mp hkey.symm
    exact ⟨rfl, h.eq_of_nil.symm.trans h'.eq_of_nil⟩
  | a :: l, l', s, t, u, hkey, h, h' => by
    rw [List.map_cons, eq_comm, List.map_eq_cons_iff] at hkey
    obtain ⟨b, l', rfl, hb, hkey⟩ := hkey
    obtain ⟨m, ha, h⟩ := cons_iff.mp h
    obtain ⟨m', hb', h'⟩ := cons_iff.mp h'
    obtain ⟨rfl, rfl⟩ := hR _ _ _ _ _ hb.symm ha hb'
    obtain ⟨rfl, rfl⟩ := keyed hR hkey.symm h h'
    exact ⟨rfl, rfl⟩

theorem functional (hR : ∀ s a t u, R s a t → R s a u → t = u) (h : Trail R s l t) (h' : Trail R s l u) : t = u := by
  have hkey : ∀ s a b t u, id a = id b → R s a t → R s b u → a = b ∧ t = u := by
    intro s a b t u hab h h'
    obtain rfl : a = b := hab
    exact ⟨rfl, hR s a t u h h'⟩
  exact (keyed hkey rfl h h').2

theorem of_forall (h : ∀ a ∈ l, R s a s) : Trail R s l s := by
  induction l using List.reverseRecOn with
  | nil => exact .nil s
  | append_singleton l a ih => exact (ih fun b hb => h b (List.mem_append_left _ hb)).snoc (h a (by simp))

/-- Steps may be weakened, knowing which labels occur. -/
theorem mono (hR : ∀ s a t, a ∈ l → R s a t → R' s a t) (h : Trail R s l t) : Trail R' s l t := by
  induction h with
  | nil => exact .nil _
  | snoc _ hstep ih =>
    exact (ih fun s a t ha => hR s a t (List.mem_append_left _ ha)).snoc (hR _ _ _ (by simp) hstep)

theorem map {τ : Type w} {S : τ → α → τ → Prop} {f : σ → τ} (hR : ∀ s a t, R s a t → S (f s) a (f t))
    (h : Trail R s l t) : Trail S (f s) l (f t) := by
  induction h with
  | nil => exact .nil _
  | snoc _ hstep ih => exact ih.snoc (hR _ _ _ hstep)

/-- The labels that a function of the states shows: every other step keeps its value. -/
theorem filter {τ : Type w} {S : τ → α → τ → Prop} {f : σ → τ} {p : α → Bool}
    (hkeep : ∀ s a t, R s a t → p a = false → f t = f s) (hR : ∀ s a t, R s a t → p a = true → S (f s) a (f t))
    (h : Trail R s l t) : Trail S (f s) (l.filter p) (f t) := by
  induction h with
  | nil => exact .nil _
  | @snoc t u l a _ hstep ih =>
    rw [List.filter_append]
    cases hp : p a with
    | true =>
      rw [List.filter_cons_of_pos hp, List.filter_nil]
      exact ih.snoc (hR _ _ _ hstep hp)
    | false =>
      rw [List.filter_cons_of_neg (by simp [hp]), List.filter_nil, List.append_nil, hkeep _ _ _ hstep hp]
      exact ih

/-- The steps that a function of the states shows under labels of its own. -/
theorem filterMap {τ : Type w} {β : Type w} {S : τ → β → τ → Prop} {f : σ → τ} {g : α → Option β}
    (hkeep : ∀ s a t, R s a t → g a = none → f t = f s) (hR : ∀ s a t b, R s a t → g a = some b → S (f s) b (f t))
    (h : Trail R s l t) : Trail S (f s) (l.filterMap g) (f t) := by
  induction h with
  | nil => exact .nil _
  | @snoc t u l a _ hstep ih =>
    rw [List.filterMap_append]
    cases hg : g a with
    | none =>
      rw [List.filterMap_cons_none hg, List.filterMap_nil, List.append_nil, hkeep _ _ _ hstep hg]
      exact ih
    | some b =>
      rw [List.filterMap_cons_some hg, List.filterMap_nil]
      exact ih.snoc (hR _ _ _ _ hstep hg)

/-- An invariant of the labels so far and the state reached. -/
theorem invariant {I : List α → σ → Prop} (h : Trail R s l t) (h0 : I [] s)
    (hstep : ∀ l t a u, Trail R s l t → I l t → R t a u → I (l ++ [a]) u) : I l t := by
  induction h with
  | nil => exact h0
  | snoc hp hR ih => exact hstep _ _ _ _ hp ih hR

theorem preserves {I : σ → Prop} (h : Trail R s l t) (h0 : I s) (hstep : ∀ t a u, I t → R t a u → I u) : I t := by
  induction h with
  | nil => exact h0
  | snoc _ hR ih => exact hstep _ _ _ ih hR

/-- A view of the states that each step folds its label into, is the fold of the labels. -/
theorem eq_foldl {τ : Type w} {f : σ → τ} {g : τ → α → τ} (h : Trail R s l t)
    (hR : ∀ s a t, R s a t → f t = g (f s) a) : f t = l.foldl g (f s) := by
  induction h with
  | nil => rfl
  | snoc _ hstep ih => rw [hR _ _ _ hstep, ih, List.foldl_append, List.foldl_cons, List.foldl_nil]

/-- A view of the states that some labels write and the others keep, is what the last of them wrote. -/
theorem last_write {τ : Type w} {f : σ → τ} {write : α → Option τ} (h : Trail R s l t)
    (hR : ∀ s a t, R s a t → f t = (write a).getD (f s)) : f t = (l.filterMap write).getLast?.getD (f s) := by
  induction h with
  | nil => rfl
  | @snoc t u l a _ hstep ih =>
    rw [hR _ _ _ hstep, List.filterMap_append]
    cases hw : write a with
    | none => rw [List.filterMap_cons_none hw, List.filterMap_nil, List.append_nil, Option.getD_none, ih]
    | some v =>
      rw [List.filterMap_cons_some hw, List.filterMap_nil, List.getLast?_concat, Option.getD_some, Option.getD_some]

end Trail
