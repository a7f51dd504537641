import Usdy.Lib.Checked
import Usdy.Lib.Trail

/-! Machines: an action either leads to the next state or fails and changes nothing. What a list of actions
    does is the trail of those that succeed. -/

namespace Machine

/-- An action that succeeded, with the states before and after it. -/
structure Success (σ α : Type) where
  before : σ
  action : α
  after : σ

variable {σ τ α : Type} (act : σ → α → Option σ)

/-- The next state; an action that fails keeps the state. -/
def step (s : σ) (a : α) : σ := (act s a).getD s

/-- The state after a list of actions. -/
def run (s : σ) (acts : List α) : σ := acts.foldl (step act) s

/-- What succeeds in a list of actions, in order. -/
def successes : σ → List α → List (Success σ α)
  | _, [] => []
  | s, a :: acts =>
    match act s a with
    | some t => ⟨s, a, t⟩ :: successes t acts
    | none => successes s acts

/-- Every action that succeeds keeps to the rule, in the state it is taken in. -/
def Obeys (rule : σ → α → Prop) (s : σ) (acts : List α) : Prop :=
  ∀ x ∈ successes act s acts, rule x.before x.action

/-- The success leads from the one state to the other. -/
structure Succeeds (s : σ) (x : Success σ α) (t : σ) : Prop where
  before : x.before = s
  after : x.after = t
  act : act s x.action = some t

variable {act} {rule : σ → α → Prop} {s : σ} {acts : List α}

instance [∀ s a, Decidable (rule s a)] : Decidable (Obeys act rule s acts) :=
  inferInstanceAs (Decidable (∀ x ∈ successes act s acts, rule x.before x.action))

theorem run_append {acts' : List α} : run act s (acts ++ acts') = run act (run act s acts) acts' :=
  List.foldl_append ..

theorem successes_trail : Trail (Succeeds act) s (successes act s acts) (run act s acts) := by
  induction acts generalizing s with
  | nil => exact .nil s
  | cons a acts ih =>
    rw [run, List.foldl_cons, ← run, successes, step]
    cases h : act s a with
    | none => exact ih
    | some t => exact (Trail.single ⟨rfl, rfl, h⟩).append ih

/-- What every allowed success keeps, a run keeps, and so it holds around each of its successes. -/
theorem invariant {I : σ → Prop} (h : Obeys act rule s acts) (h0 : I s)
    (hstep : ∀ s a t, I s → rule s a → act s a = some t → I t) :
    I (run act s acts) ∧ ∀ x ∈ successes act s acts, I x.before ∧ I x.after ∧ act x.before x.action = some x.after := by
  have htrail : Trail (fun s (x : Success σ α) t => Succeeds act s x t ∧ rule s x.action) s (successes act s acts)
      (run act s acts) :=
    successes_trail.mono fun s x t hx hs => ⟨hs, hs.before ▸ h x hx⟩
  refine htrail.invariant (I := fun l t => I t ∧ ∀ x ∈ l, I x.before ∧ I x.after ∧ act x.before x.action = some x.after)
    ⟨h0, by simp⟩ fun l t x u _ ih hx => ?_
  obtain ⟨⟨rfl, rfl, hact⟩, hrule⟩ := hx
  have hu := hstep _ _ _ ih.1 hrule hact
  refine ⟨hu, fun y hy => ?_⟩
  rcases List.mem_append.mp hy with hy | hy
  · exact ih.2 y hy
  · exact List.mem_singleton.mp hy ▸ ⟨ih.1, hu, hact⟩

/-- What every success keeps, allowed or not. -/
theorem invariant_any {I : σ → Prop} (h0 : I s) (hstep : ∀ s a t, I s → act s a = some t → I t) :
    I (run act s acts) ∧ ∀ x ∈ successes act s acts, I x.before ∧ I x.after ∧ act x.before x.action = some x.after := by
  have hany : Obeys act (fun _ _ => True) s acts := fun _ _ => trivial
  exact invariant hany h0 fun s a t hs _ h => hstep s a t hs h

theorem act_of_mem {x : Success σ α} (h : x ∈ successes act s acts) : act x.before x.action = some x.after :=
  ((invariant_any (I := fun _ => True) trivial fun _ _ _ _ _ => trivial).2 x h).2.2

/-- The successes that a view of the states shows, when every other success keeps the view: what they do to
    the view, in states that keep an invariant. -/
theorem shown_trail {I : σ → Prop} {f : σ → τ} {p : α → Bool} {V : τ → Success σ α → τ → Prop} (h0 : I s)
    (hstep : ∀ s a t, I s → act s a = some t → I t)
    (hkeep : ∀ s a t, act s a = some t → p a = false → f t = f s)
    (hshow : ∀ s a t, I s → act s a = some t → p a = true → V (f s) ⟨s, a, t⟩ (f t)) :
    I (run act s acts) ∧ Trail V (f s) ((successes act s acts).filter (p ·.action)) (f (run act s acts)) := by
  obtain ⟨hlast, hall⟩ := invariant_any h0 hstep
  refine ⟨hlast, ?_⟩
  refine (successes_trail.mono fun s x t hx hs => And.intro hx hs).filter ?_ ?_
  · rintro s x t ⟨-, hs⟩ hp
    exact hkeep s x.action t hs.act hp
  · rintro s ⟨before, action, after⟩ t ⟨hx, rfl, rfl, hact⟩ hp
    exact hshow _ _ _ (hall _ hx).1 hact hp

/-- A view of the states that some actions write when they succeed, and that every other success keeps, is
    what the last of them wrote. -/
theorem last_write {I : σ → Prop} {f : σ → τ} {write : Success σ α → Option τ} (h0 : I s)
    (hstep : ∀ s a t, I s → act s a = some t → I t)
    (hwrite : ∀ s a t, I s → act s a = some t → f t = (write ⟨s, a, t⟩).getD (f s)) :
    f (run act s acts) = ((successes act s acts).filterMap write).getLast?.getD (f s) := by
  obtain ⟨-, hall⟩ := invariant_any h0 hstep
  refine (successes_trail.mono fun s x t hx hs => And.intro hx hs).last_write ?_
  rintro s ⟨before, action, after⟩ t ⟨hx, rfl, rfl, hact⟩
  exact hwrite _ _ _ (hall _ hx).1 hact

theorem run_cons {a : α} : run act s (a :: acts) = run act ((act s a).getD s) acts := rfl

theorem successes_cons {a : α} {t : σ} (hact : act s a = some t) :
    successes act s (a :: acts) = ⟨s, a, t⟩ :: successes act t acts := by
  simp only [successes, hact]

theorem Obeys.tail {a : α} (h : Obeys act rule s (a :: acts)) (hact : act s a = none) : Obeys act rule s acts :=
  fun x hx => h x (by simpa only [successes, hact] using hx)

theorem Obeys.cons_inv {a : α} {t : σ} (h : Obeys act rule s (a :: acts)) (hact : act s a = some t) :
    rule s a ∧ Obeys act rule t acts := by
  have hall : ∀ x ∈ ⟨s, a, t⟩ :: successes act t acts, rule x.before x.action := successes_cons hact ▸ h
  exact List.forall_mem_cons.mp hall

/-- Steps of a computation that a machine takes one by one. -/
theorem run_of_foldlM {ε β : Type} {f : τ → β → Except ε τ} {I : τ → Prop} {g : τ → σ} {k : β → α}
    (hact : ∀ t b u, I t → f t b = .ok u → I u ∧ act (g t) (k b) = some (g u)) :
    ∀ {l : List β} {t u : τ}, I t → l.foldlM f t = .ok u → run act (g t) (l.map k) = g u
  | [], t, u, _, h => by
    rw [List.foldlM_nil] at h
    cases h
    rfl
  | b :: l, t, u, ht, h => by
    rw [List.foldlM_cons, Checked.bind_eq_ok] at h
    obtain ⟨m, hm, h⟩ := h
    obtain ⟨hI, hb⟩ := hact t b m ht hm
    rw [List.map_cons, run_cons, hb, Option.getD_some]
    exact run_of_foldlM hact hI h

theorem action_mem {x : Success σ α} (h : x ∈ successes act s acts) : x.action ∈ acts := by
  induction acts generalizing s with
  | nil => cases h
  | cons a acts ih =>
    rw [successes] at h
    split at h
    · rcases List.mem_cons.mp h with rfl | h
      · exact List.mem_cons_self
      · exact List.mem_cons_of_mem _ (ih h)
    · exact List.mem_cons_of_mem _ (ih h)

/-- A rule about the actions alone, when all of them keep to it. -/
theorem obeys_of_forall {rule : α → Prop} (h : ∀ a ∈ acts, rule a) : Obeys act (fun _ a => rule a) s acts :=
  fun _ hx => h _ (action_mem hx)

/-- A view of the states in which some actions are those of another machine, in states that keep an invariant: what
    the view shows of a run is the run of the other machine. -/
theorem simulates {β : Type} {act' : τ → β → Option τ} {I : σ → Prop} {f : σ → τ} {g : α → Option β}
    (h : Obeys act rule s acts) (h0 : I s) (hstep : ∀ s a t, I s → rule s a → act s a = some t → I t)
    (hkeep : ∀ s a t, I s → rule s a → act s a = some t → g a = none → f t = f s)
    (hshow : ∀ s a b, I s → g a = some b → act' (f s) b = (act s a).map f) :
    I (run act s acts) ∧ f (run act s acts) = run act' (f s) (acts.filterMap g) := by
  induction acts generalizing s with
  | nil => exact ⟨h0, rfl⟩
  | cons a acts ih =>
    rw [run_cons]
    cases hact : act s a with
    | none =>
      obtain ⟨hlast, hrun⟩ := ih (h.tail hact) h0
      refine ⟨hlast, hrun.trans ?_⟩
      cases hg : g a with
      | none => rw [List.filterMap_cons_none hg]
      | some b => rw [List.filterMap_cons_some hg, run_cons, hshow s a b h0 hg, hact, Option.map_none, Option.getD_none]
    | some t =>
      obtain ⟨hrule, hobeys⟩ := h.cons_inv hact
      obtain ⟨hlast, hrun⟩ := ih hobeys (hstep s a t h0 hrule hact)
      refine ⟨hlast, hrun.trans ?_⟩
      cases hg : g a with
      | none => rw [List.filterMap_cons_none hg, hkeep s a t h0 hrule hact hg]
      | some b => rw [List.filterMap_cons_some hg, run_cons, hshow s a b h0 hg, hact, Option.map_some, Option.getD_some]

end Machine
