import Mathlib.Algebra.Order.Ring.Nat
import Mathlib.Logic.Basic

/-! Computations that may fail, and machine words whose arithmetic fails instead of wrapping around.
    Every operation takes the error it fails with, and has one lemma that says when it succeeds and
    with which value, stated on natural numbers or, for signed words, on integers: the bound of the
    result is the bound of its type. -/

namespace Checked

section Except
variable {ε α β : Type}

theorem bind_eq_ok {x : Except ε α} {f : α → Except ε β} {b : β} :
    (x >>= f) = .ok b ↔ ∃ a, x = .ok a ∧ f a = .ok b := by
  cases x with
  | error e => simp [bind, Except.bind]
  | ok a => simp [bind, Except.bind]

theorem bind_eq_error {x : Except ε α} {f : α → Except ε β} {e : ε} :
    (x >>= f) = .error e ↔ x = .error e ∨ ∃ a, x = .ok a ∧ f a = .error e := by
  cases x with
  | error e => simp [bind, Except.bind]
  | ok a => simp [bind, Except.bind]

theorem ok_bind {a : α} {f : α → Except ε β} : ((.ok a : Except ε α) >>= f) = f a := rfl

theorem pure_eq_ok {a b : α} : (pure a : Except ε α) = .ok b ↔ a = b := by
  simp [pure, Except.pure]

/-- The failure `e` where the condition holds. -/
def revertIf (c : Prop) [Decidable c] (e : ε) : Except ε Unit := if c then .error e else .ok ()

theorem revertIf_eq_ok {c : Prop} [Decidable c] {e : ε} {u : Unit} : revertIf c e = .ok u ↔ ¬c := by
  unfold revertIf
  split <;> simp_all

theorem revertIf_eq_error {c : Prop} [Decidable c] {e e' : ε} : revertIf c e = .error e' ↔ c ∧ e = e' := by
  unfold revertIf
  split <;> simp_all

/-- What an outside call answers, or the failure `e` when it reverts. -/
def orFail (e : ε) : Option α → Except ε α
  | some a => .ok a
  | none => .error e

theorem orFail_eq_ok {e : ε} {o : Option α} {a : α} : orFail e o = .ok a ↔ o = some a := by
  cases o <;> simp [orFail]

theorem orFail_eq_error {e e' : ε} {o : Option α} : orFail e o = .error e' ↔ o = none ∧ e = e' := by
  cases o <;> simp [orFail]

/-- A computation whose errors are those of a part of the program, among the errors of the whole. -/
def raise {ε' : Type} (f : ε → ε') : Except ε α → Except ε' α
  | .error e => .error (f e)
  | .ok a => .ok a

theorem raise_eq_ok {ε' : Type} {f : ε → ε'} {x : Except ε α} {a : α} : raise f x = .ok a ↔ x = .ok a := by
  cases x <;> simp [raise]

theorem toOption_eq_some {x : Except ε α} {a : α} : x.toOption = some a ↔ x = .ok a := by
  cases x <;> simp [Except.toOption]

theorem map_toOption_eq_some {x : Except ε α} {f : α → β} {b : β} :
    x.toOption.map f = some b ↔ ∃ a, x = .ok a ∧ f a = b := by
  simp only [Option.map_eq_some_iff, toOption_eq_some]

theorem exists_unit_iff {p : Unit → Prop} : (∃ u, p u) ↔ p () :=
  ⟨fun ⟨_, h⟩ => h, fun h => ⟨(), h⟩⟩

theorem eq_ok_get {x : Except ε α} (h : x.toOption.isSome = true) : x = .ok (x.toOption.get h) := by
  cases x with
  | error e => exact absurd h nofun
  | ok a => rfl

/-- A loop of checks passes when each of them does. -/
theorem forM_eq_ok {f : α → Except ε PUnit.{1}} {u : PUnit.{1}} :
    ∀ {l : List α}, l.forM f = .ok u ↔ ∀ a ∈ l, f a = .ok u
  | [] => by
    show (pure ⟨⟩ : Except ε PUnit) = .ok u ↔ _
    rw [pure_eq_ok]
    exact ⟨fun _ _ h => absurd h List.not_mem_nil, fun _ => rfl⟩
  | a :: l => by
    show (f a >>= fun _ => l.forM f) = .ok u ↔ _
    rw [bind_eq_ok, List.forall_mem_cons, ← forM_eq_ok (l := l)]
    exact ⟨fun ⟨_, ha, hl⟩ => ⟨ha, hl⟩, fun ⟨ha, hl⟩ => ⟨u, ha, hl⟩⟩

/-- A loop that computes a value for each element, where each of them has one. -/
theorem exists_mapM {γ : Type} {f : α → Except ε β} {v : β → γ} {g : α → γ} :
    ∀ {l : List α}, (∀ a ∈ l, ∃ b, f a = .ok b ∧ v b = g a) → ∃ bs, l.mapM f = .ok bs ∧ bs.map v = l.map g
  | [], _ => ⟨[], rfl, rfl⟩
  | a :: l, h => by
    obtain ⟨⟨b, hb, hv⟩, hl⟩ := List.forall_mem_cons.mp h
    obtain ⟨bs, hbs, hvs⟩ := exists_mapM hl
    refine ⟨b :: bs, ?_, by rw [List.map_cons, List.map_cons, hv, hvs]⟩
    rw [List.mapM_cons, bind_eq_ok]
    exact ⟨b, hb, bind_eq_ok.mpr ⟨bs, hbs, rfl⟩⟩

/-- What every pass of a loop keeps, the loop keeps. -/
theorem foldlM_keeps {σ : Type} {f : σ → α → Except ε σ} {I : σ → Prop}
    (hf : ∀ s a t, I s → f s a = .ok t → I t) :
    ∀ {l : List α} {s t : σ}, I s → l.foldlM f s = .ok t → I t
  | [], s, t, hs, h => by
    rw [List.foldlM_nil, pure_eq_ok] at h
    exact h ▸ hs
  | a :: l, s, t, hs, h => by
    rw [List.foldlM_cons, bind_eq_ok] at h
    obtain ⟨m, hm, h⟩ := h
    exact foldlM_keeps hf (hf s a m hs hm) h

/-- A loop that comes to an element that fails in every state it keeps to, fails. -/
theorem foldlM_ne_ok {σ : Type} {f : σ → α → Except ε σ} {I : σ → Prop} {a : α}
    (hf : ∀ s b t, I s → f s b = .ok t → I t) (ha : ∀ s t, I s → f s a ≠ .ok t) :
    ∀ {l : List α} {s t : σ}, I s → a ∈ l → l.foldlM f s ≠ .ok t
  | b :: l, s, t, hs, hmem => by
    intro h
    rw [List.foldlM_cons, bind_eq_ok] at h
    obtain ⟨m, hm, h⟩ := h
    rcases List.mem_cons.mp hmem with rfl | hmem
    · exact ha s m hs hm
    · exact foldlM_ne_ok hf ha (hf s b m hs hm) hmem h

/-- What follows a computation may be exchanged where it goes on. -/
theorem bind_congr_ok {x : Except ε α} {f g : α → Except ε β} (h : ∀ a, x = .ok a → f a = g a) :
    (x >>= f) = (x >>= g) := by
  cases x with
  | error e => rfl
  | ok a => exact h a rfl

/-- Two loops agree when their passes do, in the states that the passes keep to. -/
theorem foldlM_congr {σ : Type} {f g : σ → α → Except ε σ} {I : σ → Prop} (hfg : ∀ s a, I s → f s a = g s a)
    (hg : ∀ s a t, I s → g s a = .ok t → I t) : ∀ {l : List α} {s : σ}, I s → l.foldlM f s = l.foldlM g s
  | [], s, _ => rfl
  | a :: l, s, hs => by
    rw [List.foldlM_cons, List.foldlM_cons, hfg s a hs]
    exact bind_congr_ok fun t ht => foldlM_congr hfg hg (hg s a t hs ht)

/-- The computation does not fail with `e`, whatever else it does. -/
def Avoids (e : ε) (x : Except ε α) : Prop := x ≠ .error e

namespace Avoids
variable {e e' : ε} {x : Except ε α} {f : α → Except ε β}

theorem ok {a : α} : Avoids e (.ok a) := nofun

theorem bind (hx : Avoids e x) (hf : ∀ a, x = .ok a → Avoids e (f a)) : Avoids e (x >>= f) := by
  intro h
  rcases bind_eq_error.mp h with h | ⟨a, ha, h⟩
  · exact hx h
  · exact hf a ha h

theorem revertIf {c : Prop} [Decidable c] (he : e' ≠ e) : Avoids e (revertIf c e') :=
  fun h => he (revertIf_eq_error.mp h).2

/-- A check whose error is `e` passes. -/
theorem revertIf_of {c : Prop} [Decidable c] (hc : e' = e → ¬c) : Avoids e (Checked.revertIf c e') :=
  fun h => hc (revertIf_eq_error.mp h).2 (revertIf_eq_error.mp h).1

theorem raise {ε' : Type} {f : ε' → ε} {x : Except ε' α} (hf : ∀ e', f e' ≠ e) : Avoids e (raise f x) := by
  cases x with
  | error e' => exact fun h => hf e' (Except.error.inj h)
  | ok a => exact ok

theorem orFail {o : Option α} (he : e' ≠ e) : Avoids e (orFail e' o) := fun h => he (orFail_eq_error.mp h).2

theorem foldlM {σ : Type} {f : σ → α → Except ε σ} (hf : ∀ s a, Avoids e (f s a)) :
    ∀ {l : List α} {s : σ}, Avoids e (l.foldlM f s)
  | [], s => ok
  | a :: l, s => by
    rw [List.foldlM_cons]
    exact (hf s a).bind fun _ _ => foldlM hf

end Avoids

end Except

section Words
variable {ε : Type} {w : Nat}

/-- The word of a natural number, or the failure `e` when the number needs more than `w` bits. -/
def wordOr (e : ε) (n : Nat) : Except ε (BitVec w) := if n < 2 ^ w then .ok (BitVec.ofNat w n) else .error e

/-- The sum, or the failure `e` on overflow. -/
def addOr (e : ε) (a b : BitVec w) : Except ε (BitVec w) := wordOr e (a.toNat + b.toNat)

/-- The difference, or the failure `e` on underflow. -/
def subOr (e : ε) (a b : BitVec w) : Except ε (BitVec w) :=
  if b ≤ a then .ok (BitVec.ofNat w (a.toNat - b.toNat)) else .error e

/-- The product, or the failure `e` on overflow. -/
def mulOr (e : ε) (a b : BitVec w) : Except ε (BitVec w) := wordOr e (a.toNat * b.toNat)

/-- The quotient, or the failure `e` when the divisor is zero. -/
def divOr (e : ε) (a b : BitVec w) : Except ε (BitVec w) :=
  if b = 0 then .error e else .ok (BitVec.ofNat w (a.toNat / b.toNat))

/-- The power, or the failure `e` on overflow. -/
def powOr (e : ε) (a : BitVec w) (n : Nat) : Except ε (BitVec w) := wordOr e (a.toNat ^ n)

variable {e : ε} {a b c : BitVec w} {n : Nat}

theorem exists_word (h : n < 2 ^ w) : ∃ c : BitVec w, c.toNat = n :=
  ⟨BitVec.ofNat w n, by rw [BitVec.toNat_ofNat, Nat.mod_eq_of_lt h]⟩

theorem wordOr_eq_ok : wordOr e n = .ok c ↔ c.toNat = n := by
  unfold wordOr
  split
  · rename_i hn
    rw [Except.ok.injEq, ← BitVec.toNat_inj, BitVec.toNat_ofNat, Nat.mod_eq_of_lt hn, eq_comm]
  · rename_i hn
    exact ⟨nofun, fun h => absurd (h ▸ c.isLt) hn⟩

theorem addOr_eq_ok : addOr e a b = .ok c ↔ c.toNat = a.toNat + b.toNat := wordOr_eq_ok

theorem mulOr_eq_ok : mulOr e a b = .ok c ↔ c.toNat = a.toNat * b.toNat := wordOr_eq_ok

theorem subOr_eq_ok : subOr e a b = .ok c ↔ c.toNat + b.toNat = a.toNat := by
  unfold subOr
  split
  · rename_i hb
    have hb : b.toNat ≤ a.toNat := hb
    rw [Except.ok.injEq, ← BitVec.toNat_inj, BitVec.toNat_ofNat, Nat.mod_eq_of_lt (by omega)]
    omega
  · rename_i hb
    have hb : ¬b.toNat ≤ a.toNat := hb
    exact ⟨nofun, fun h => by omega⟩

theorem divOr_eq_ok : divOr e a b = .ok c ↔ b ≠ 0 ∧ c.toNat = a.toNat / b.toNat := by
  unfold divOr
  split
  · rename_i hb
    simp [hb]
  · rename_i hb
    have hlt : a.toNat / b.toNat < 2 ^ w := Nat.lt_of_le_of_lt (Nat.div_le_self _ _) a.isLt
    rw [Except.ok.injEq, ← BitVec.toNat_inj, BitVec.toNat_ofNat, Nat.mod_eq_of_lt hlt]
    exact ⟨fun h => ⟨hb, h.symm⟩, fun h => h.2.symm⟩

theorem wordOr_eq_error {e' : ε} : (wordOr e n : Except ε (BitVec w)) = .error e' ↔ 2 ^ w ≤ n ∧ e = e' := by
  unfold wordOr
  split
  · rename_i hn
    exact ⟨nofun, fun h => absurd h.1 (Nat.not_le.mpr hn)⟩
  · rename_i hn
    simp [Nat.not_lt.mp hn]

theorem addOr_eq_error {e' : ε} : addOr e a b = .error e' ↔ 2 ^ w ≤ a.toNat + b.toNat ∧ e = e' := wordOr_eq_error

theorem mulOr_eq_error {e' : ε} : mulOr e a b = .error e' ↔ 2 ^ w ≤ a.toNat * b.toNat ∧ e = e' := wordOr_eq_error

theorem subOr_eq_error {e' : ε} : subOr e a b = .error e' ↔ a.toNat < b.toNat ∧ e = e' := by
  unfold subOr
  split
  · rename_i hb
    have hb : b.toNat ≤ a.toNat := hb
    exact ⟨nofun, fun h => by omega⟩
  · rename_i hb
    have hb : ¬b.toNat ≤ a.toNat := hb
    simp only [Except.error.injEq, iff_and_self]
    omega

theorem divOr_eq_error {e' : ε} : divOr e a b = .error e' ↔ b = 0 ∧ e = e' := by
  unfold divOr
  split <;> simp_all

namespace Avoids
variable {e' : ε}

theorem addOr (he : e' ≠ e) : Avoids e (addOr e' a b) := fun h => he (addOr_eq_error.mp h).2

theorem subOr (he : e' ≠ e) : Avoids e (subOr e' a b) := fun h => he (subOr_eq_error.mp h).2

theorem mulOr (he : e' ≠ e) : Avoids e (mulOr e' a b) := fun h => he (mulOr_eq_error.mp h).2

theorem divOr (he : e' ≠ e) : Avoids e (divOr e' a b) := fun h => he (divOr_eq_error.mp h).2

end Avoids

end Words

section SignedWords
variable {ε : Type} {w : Nat}

/-- The signed word of an integer, or the failure `e` when the integer does not fit in `w` bits. -/
def intOr (e : ε) (n : Int) : Except ε (BitVec w) :=
  if (BitVec.ofInt w n).toInt = n then .ok (BitVec.ofInt w n) else .error e

/-- The signed difference, or the failure `e` on overflow. -/
def subIntOr (e : ε) (a b : BitVec w) : Except ε (BitVec w) := intOr e (a.toInt - b.toInt)

/-- The signed product, or the failure `e` on overflow. -/
def mulIntOr (e : ε) (a b : BitVec w) : Except ε (BitVec w) := intOr e (a.toInt * b.toInt)

/-- Division that rounds toward zero. The smallest integer divided by -1 does not fit. -/
def divIntOr (zero overflow : ε) (a b : BitVec w) : Except ε (BitVec w) :=
  if b = 0 then .error zero else intOr overflow (a.toInt.tdiv b.toInt)

/-- The negation, or the failure `e` for the smallest integer. -/
def negIntOr (e : ε) (a : BitVec w) : Except ε (BitVec w) := intOr e (-a.toInt)

variable {e zero overflow : ε} {a b c : BitVec w} {n : Int}

theorem intOr_eq_ok : intOr e n = .ok c ↔ c.toInt = n := by
  unfold intOr
  split
  · rename_i hn
    rw [Except.ok.injEq, ← BitVec.toInt_inj, hn, eq_comm]
  · rename_i hn
    refine ⟨nofun, fun h => absurd ?_ hn⟩
    rw [← h, BitVec.ofInt_toInt]

theorem subIntOr_eq_ok : subIntOr e a b = .ok c ↔ c.toInt = a.toInt - b.toInt := intOr_eq_ok

theorem mulIntOr_eq_ok : mulIntOr e a b = .ok c ↔ c.toInt = a.toInt * b.toInt := intOr_eq_ok

theorem divIntOr_eq_ok : divIntOr zero overflow a b = .ok c ↔ b ≠ 0 ∧ c.toInt = a.toInt.tdiv b.toInt := by
  unfold divIntOr
  split
  · rename_i hb
    simp [hb]
  · rename_i hb
    rw [intOr_eq_ok]
    exact ⟨fun h => ⟨hb, h⟩, fun h => h.2⟩

theorem negIntOr_eq_ok : negIntOr e a = .ok c ↔ c.toInt = -a.toInt := intOr_eq_ok

theorem toNat_eq_toInt (h : 0 ≤ a.toInt) : (a.toNat : Int) = a.toInt :=
  (BitVec.toInt_eq_toNat_of_lt (BitVec.toInt_pos_iff.mp h)).symm

end SignedWords

end Checked
