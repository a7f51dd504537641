import Mathlib.Data.Fintype.Card
import Mathlib.Logic.Relation

/-! Nested unions. A node gives an answer of its own or asks its members in turn until one says yes, and a
    member may be a union again. The asking ends from every node exactly when no member leads back to itself
    and every member is a node. -/

open Relation

universe u

namespace Nested
variable {α : Type u}

/-! ### Relations without cycles -/

/-- Nothing is related to itself along a path. -/
def Acyclic (r : α → α → Prop) : Prop := ∀ a, ¬TransGen r a a

variable {r r' : α → α → Prop} {x y : α}

theorem Acyclic.mono (h : Acyclic r) (hsub : ∀ a b, r' a b → r a b) : Acyclic r' :=
  fun a hcycle => h a (TransGen.mono hsub a a hcycle)

/-- A path after an edge `x → y` was added is an old one or goes through the edge. -/
theorem transGen_add (hadd : ∀ a b, r' a b → r a b ∨ a = x ∧ b = y) {a b : α} (h : TransGen r' a b) :
    TransGen r a b ∨ ReflTransGen r a x ∧ ReflTransGen r y b := by
  induction h with
  | single hab =>
    rcases hadd _ _ hab with hold | ⟨rfl, rfl⟩
    · exact .inl (.single hold)
    · exact .inr ⟨.refl, .refl⟩
  | tail hpath hbc ih =>
    rcases hadd _ _ hbc with hold | ⟨rfl, rfl⟩
    · rcases ih with hpath | ⟨hax, hyb⟩
      · exact .inl (hpath.tail hold)
      · exact .inr ⟨hax, hyb.tail hold⟩
    · rcases ih with hpath | ⟨hax, hyb⟩
      · exact .inr ⟨hpath.to_reflTransGen, .refl⟩
      · exact .inr ⟨hax, .refl⟩

theorem Acyclic.add (h : Acyclic r) (hadd : ∀ a b, r' a b → r a b ∨ a = x ∧ b = y) (hback : ¬ReflTransGen r y x) :
    Acyclic r' := by
  intro a hcycle
  rcases transGen_add hadd hcycle with hold | ⟨hax, hya⟩
  · exact h a hold
  · exact hback (hya.trans hax)

/-- Where nothing in reach leads back to itself, every descent ends: there are finitely many places to go. -/
theorem acc_of_acyclic [Finite α] {a : α} (h : ∀ b, ReflTransGen r a b → ¬TransGen r b b) :
    Acc (Function.swap r) a := by
  -- the relation between the nodes in reach of `a`
  let r' : α → α → Prop := fun c b => ReflTransGen r a b ∧ TransGen r b c
  have htrans : IsTrans α r' := ⟨fun d c b hdc hcb => ⟨hcb.1, hcb.2.trans hdc.2⟩⟩
  have hirrefl : Std.Irrefl r' := ⟨fun b hb => h b hb.1 hb.2⟩
  have hwf : WellFounded r' := Finite.wellFounded_of_trans_of_irrefl r'
  have hall : ∀ b, ReflTransGen r a b → Acc (Function.swap r) b := fun b => by
    induction b using hwf.induction with
    | h b ih =>
      intro hb
      exact .intro b fun c hbc => ih c ⟨hb, .single hbc⟩ (hb.tail hbc)
  exact hall a .refl

/-! ### Asking in turn -/

variable {l : List α} {f g : α → Option Bool}

theorem anyM_cons_eq {a : α} : (a :: l).anyM f = (f a).bind fun answer => if answer then some true else l.anyM f := by
  rw [List.anyM]
  cases f a with
  | none => rfl
  | some answer => cases answer <;> rfl

theorem mem_of_anyM (h : l.anyM f = some true) : ∃ a ∈ l, f a = some true := by
  induction l with
  | nil => cases h
  | cons a l ih =>
    obtain ⟨answer, ha, h⟩ := Option.bind_eq_some_iff.mp (anyM_cons_eq.symm.trans h)
    cases answer with
    | true => exact ⟨a, List.mem_cons_self, ha⟩
    | false =>
      obtain ⟨b, hb, hfb⟩ := ih h
      exact ⟨b, List.mem_cons_of_mem a hb, hfb⟩

theorem anyM_eq_some_false : l.anyM f = some false ↔ ∀ a ∈ l, f a = some false := by
  induction l with
  | nil => exact ⟨fun _ => List.forall_mem_nil _, fun _ => rfl⟩
  | cons a l ih =>
    rw [anyM_cons_eq, Option.bind_eq_some_iff, List.forall_mem_cons, ← ih]
    constructor
    · rintro ⟨answer, ha, h⟩
      cases answer with
      | true => cases h
      | false => exact ⟨ha, h⟩
    · rintro ⟨ha, h⟩
      exact ⟨false, ha, h⟩

/-- Whoever answers wherever another does, answers the same in turn. -/
theorem anyM_mono (hfg : ∀ a ∈ l, ∀ answer, f a = some answer → g a = some answer) {answer : Bool}
    (h : l.anyM f = some answer) : l.anyM g = some answer := by
  induction l with
  | nil => exact h
  | cons a l ih =>
    obtain ⟨first, ha, h⟩ := Option.bind_eq_some_iff.mp (anyM_cons_eq.symm.trans h)
    rw [anyM_cons_eq, hfg a List.mem_cons_self first ha, Option.bind_some]
    cases first with
    | true => exact h
    | false => exact ih (fun b hb => hfg b (List.mem_cons_of_mem a hb)) h

/-- Where everyone answers, so does the list. -/
theorem exists_anyM (h : ∀ a ∈ l, ∃ answer, f a = some answer) : ∃ answer, l.anyM f = some answer := by
  induction l with
  | nil => exact ⟨false, rfl⟩
  | cons a l ih =>
    obtain ⟨first, ha⟩ := h a List.mem_cons_self
    rw [anyM_cons_eq, ha, Option.bind_some]
    cases first with
    | true => exact ⟨true, rfl⟩
    | false => exact ih fun b hb => h b (List.mem_cons_of_mem a hb)

/-! ### Nodes -/

/-- What an address answers: by itself, or as the union of its members. -/
inductive Node (α : Type u)
  | leaf (answer : Bool)
  | union (members : List α)

variable (node : α → Option (Node α))

/-- The answer of a node, where members are asked no deeper than `depth`. -/
def eval : Nat → α → Option Bool
  | 0, _ => none
  | depth + 1, a =>
    match node a with
    | some (.leaf answer) => some answer
    | some (.union members) => members.anyM (eval depth)
    | none => none

/-- The one is asked for the other. -/
def Edge (a b : α) : Prop := ∃ members, node a = some (.union members) ∧ b ∈ members

/-- A leaf in reach says yes. -/
def Yes (a : α) : Prop := ∃ b, ReflTransGen (Edge node) a b ∧ node b = some (.leaf true)

/-- Some depth is enough for an answer. -/
def Settles (a : α) : Prop := ∃ depth answer, eval node depth a = some answer

variable {node} {a b : α} {depth depth' : Nat} {answer : Bool}

theorem eval_cases (h : eval node depth a = some answer) :
    ∃ below, depth = below + 1 ∧ (node a = some (.leaf answer) ∨
      ∃ members, node a = some (.union members) ∧ members.anyM (eval node below) = some answer) := by
  cases depth with
  | zero => cases h
  | succ below =>
    refine ⟨below, rfl, ?_⟩
    rw [eval] at h
    split at h
    next own hnode =>
      obtain rfl := Option.some.inj h
      exact .inl hnode
    next members hnode => exact .inr ⟨members, hnode, h⟩
    next => cases h

theorem eval_leaf (h : node a = some (.leaf answer)) : eval node (depth + 1) a = some answer := by
  rw [eval, h]

theorem eval_union {members : List α} (h : node a = some (.union members)) :
    eval node (depth + 1) a = members.anyM (eval node depth) := by
  rw [eval, h]

/-- Asking deeper keeps the answer. -/
theorem eval_mono (h : eval node depth a = some answer) (hle : depth ≤ depth') : eval node depth' a = some answer := by
  induction depth generalizing a answer depth' with
  | zero => cases h
  | succ depth ih =>
    obtain ⟨below, hbelow, hcases⟩ := eval_cases h
    obtain rfl := Nat.succ.inj hbelow
    obtain ⟨depth', rfl⟩ := Nat.exists_eq_add_one_of_ne_zero (Nat.ne_of_gt (Nat.lt_of_lt_of_le (Nat.succ_pos _) hle))
    rcases hcases with hleaf | ⟨members, hunion, hany⟩
    · exact eval_leaf hleaf
    · rw [eval_union hunion]
      exact anyM_mono (fun b _ _ hb => ih hb (Nat.le_of_succ_le_succ hle)) hany

/-! ### What an answer says -/

theorem Yes.of_edge (hab : Edge node a b) (hb : Yes node b) : Yes node a := by
  obtain ⟨c, hbc, hc⟩ := hb
  exact ⟨c, hbc.head hab, hc⟩

theorem yes_of_eval (h : eval node depth a = some true) : Yes node a := by
  induction depth generalizing a with
  | zero => cases h
  | succ depth ih =>
    obtain ⟨below, hbelow, hleaf | ⟨members, hunion, hany⟩⟩ := eval_cases h
    · exact ⟨a, .refl, hleaf⟩
    · obtain rfl := Nat.succ.inj hbelow
      obtain ⟨b, hb, hyes⟩ := mem_of_anyM hany
      exact .of_edge ⟨members, hunion, hb⟩ (ih hyes)

/-- A no took a no of every member, each at a smaller depth. -/
theorem eval_false_edge (h : eval node depth a = some false) (hab : Edge node a b) :
    ∃ below < depth, eval node below b = some false := by
  obtain ⟨members, hunion, hb⟩ := hab
  obtain ⟨below, rfl, hleaf | ⟨members', hunion', hany⟩⟩ := eval_cases h
  · rw [hunion] at hleaf
    cases hleaf
  · rw [hunion, Option.some.injEq, Node.union.injEq] at hunion'
    subst hunion'
    exact ⟨below, Nat.lt_succ_self below, anyM_eq_some_false.mp hany b hb⟩

theorem eval_false_transGen (h : eval node depth a = some false) (hab : TransGen (Edge node) a b) :
    ∃ below < depth, eval node below b = some false := by
  induction hab with
  | single hab => exact eval_false_edge h hab
  | tail _ hbc ih =>
    obtain ⟨below, hlt, hb⟩ := ih
    obtain ⟨below', hlt', hc⟩ := eval_false_edge hb hbc
    exact ⟨below', hlt'.trans hlt, hc⟩

theorem eval_false_reaches (h : eval node depth a = some false) (hab : ReflTransGen (Edge node) a b) :
    ∃ depth, eval node depth b = some false := by
  rcases reflTransGen_iff_eq_or_transGen.mp hab with rfl | hab
  · exact ⟨depth, h⟩
  · obtain ⟨below, -, hb⟩ := eval_false_transGen h hab
    exact ⟨below, hb⟩

/-- A node that said no does not lead back to itself: it would have said no at a smaller depth each time. -/
theorem not_cycle_of_eval_false (h : eval node depth a = some false) : ¬TransGen (Edge node) a a := by
  intro hcycle
  induction depth using Nat.strong_induction_on with
  | h depth ih =>
    obtain ⟨below, hlt, hbelow⟩ := eval_false_transGen h hcycle
    exact ih below hlt hbelow

theorem isSome_of_eval (h : eval node depth a = some answer) : (node a).isSome := by
  obtain ⟨below, -, hleaf | ⟨members, hunion, -⟩⟩ := eval_cases h
  · rw [hleaf, Option.isSome_some]
  · rw [hunion, Option.isSome_some]

theorem not_yes_of_eval (h : eval node depth a = some false) : ¬Yes node a := by
  rintro ⟨b, hab, hb⟩
  obtain ⟨depth, h⟩ := eval_false_reaches h hab
  obtain ⟨below, -, hleaf | ⟨members, hunion, -⟩⟩ := eval_cases h
  · rw [hb] at hleaf
    cases hleaf
  · rw [hb] at hunion
    cases hunion

/-- An answer, at whatever depth, says whether a leaf in reach says yes. -/
theorem eval_iff (h : eval node depth a = some answer) : answer = true ↔ Yes node a := by
  cases answer with
  | true => exact ⟨fun _ => yes_of_eval h, fun _ => rfl⟩
  | false => exact ⟨fun htrue => absurd htrue Bool.false_ne_true, fun hyes => absurd hyes (not_yes_of_eval h)⟩

/-- Nodes that each ask another of them first never answer. -/
theorem eval_eq_none {circle : α → Prop}
    (h : ∀ a, circle a → ∃ b members, node a = some (.union (b :: members)) ∧ circle b) (ha : circle a) :
    eval node depth a = none := by
  induction depth generalizing a with
  | zero => rfl
  | succ depth ih =>
    obtain ⟨b, members, hunion, hb⟩ := h a ha
    rw [eval_union hunion, anyM_cons_eq, ih hb, Option.bind_none]

/-! ### When there is an answer -/

/-- One depth is enough for every member. -/
theorem exists_depth {members : List α} (h : ∀ b ∈ members, Settles node b) :
    ∃ depth, ∀ b ∈ members, ∃ answer, eval node depth b = some answer := by
  induction members with
  | nil => exact ⟨0, List.forall_mem_nil _⟩
  | cons a members ih =>
    obtain ⟨depth, answer, ha⟩ := h a List.mem_cons_self
    obtain ⟨depth', hall⟩ := ih fun b hb => h b (List.mem_cons_of_mem a hb)
    refine ⟨max depth depth', List.forall_mem_cons.mpr ⟨⟨answer, eval_mono ha (Nat.le_max_left ..)⟩, fun b hb => ?_⟩⟩
    obtain ⟨answer', hb⟩ := hall b hb
    exact ⟨answer', eval_mono hb (Nat.le_max_right ..)⟩

/-- Where every descent ends, in nodes, there is an answer. -/
theorem settles_of_acc (hacc : Acc (Function.swap (Edge node)) a)
    (hnodes : ∀ b, ReflTransGen (Edge node) a b → (node b).isSome) : Settles node a := by
  induction hacc with
  | intro a _ ih =>
    obtain ⟨n, hn⟩ := Option.isSome_iff_exists.mp (hnodes a .refl)
    cases n with
    | leaf answer => exact ⟨1, answer, eval_leaf hn⟩
    | union members =>
      have hmembers : ∀ b ∈ members, Settles node b := fun b hb => by
        have hab : Edge node a b := ⟨members, hn, hb⟩
        exact ih b hab fun c hbc => hnodes c (hbc.head hab)
      obtain ⟨depth, hdepth⟩ := exists_depth hmembers
      obtain ⟨answer, hany⟩ := exists_anyM hdepth
      exact ⟨depth + 1, answer, (eval_union hn).trans hany⟩

theorem settles_of_acyclic [Finite α]
    (h : ∀ b, ReflTransGen (Edge node) a b → (node b).isSome ∧ ¬TransGen (Edge node) b b) : Settles node a :=
  settles_of_acc (acc_of_acyclic fun b hb => (h b hb).2) fun b hb => (h b hb).1

/-- Without a leaf in reach that says yes, nothing cuts the asking short: it ends exactly when there is no
    cycle in reach and every member in reach is a node. -/
theorem settles_iff [Finite α] (hno : ¬Yes node a) :
    Settles node a ↔ ∀ b, ReflTransGen (Edge node) a b → (node b).isSome ∧ ¬TransGen (Edge node) b b := by
  constructor
  · rintro ⟨depth, answer, h⟩ b hab
    cases answer with
    | true => exact absurd (yes_of_eval h) hno
    | false =>
      obtain ⟨depth', hb⟩ := eval_false_reaches h hab
      exact ⟨isSome_of_eval hb, not_cycle_of_eval_false hb⟩
  · exact settles_of_acyclic

end Nested
