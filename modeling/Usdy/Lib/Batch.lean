import Mathlib.Data.List.Perm.Basic
import Usdy.Lib.Trail

/-! Batches: a list of keys is settled as a whole. The record under each key is read and deleted, and one bill
    is paid for all of them. When two payments may be exchanged, and a bill may be paid in parts, neither the
    order of the keys nor their grouping into batches matters. -/

/-- What a batch is about: how the record under a key is read and deleted, and how a bill is paid. -/
structure Batch (ε κ ρ ι α τ β : Type) where
  read : α → κ → ρ
  delete : α → κ → α
  /-- The item that the record under a key calls for. -/
  settle : κ → ρ → Except ε ι
  Pay : τ → β → τ → Prop
  /-- The payments that are due for the items. -/
  bill : List ι → List β
  read_delete {a : α} {k l : κ} : l ≠ k → read (delete a k) l = read a l
  delete_comm {a : α} {k l : κ} : l ≠ k → delete (delete a k) l = delete (delete a l) k
  settle_deleted {a : α} {k : κ} {x : ι} : settle k (read (delete a k) k) ≠ .ok x
  pay_functional {t u v : τ} {p : β} : Pay t p u → Pay t p v → u = v
  pay_comm {t u v : τ} {p q : β} : Pay t p u → Pay u q v → ∃ u', Pay t q u' ∧ Pay u' p v
  bill_perm {xs ys : List ι} : xs.Perm ys → (bill xs).Perm (bill ys)
  bill_append {xs ys : List ι} {t u : τ} : Trail Pay t (bill (xs ++ ys)) u ↔ Trail Pay t (bill xs ++ bill ys) u

/-- Whatever the order and the grouping, the batches succeed alike and leave the same view. -/
structure Regroups {ε σ κ ρ : Type} (claim : List κ → σ → Except ε σ) (view : σ → ρ) (s : σ) (xs ys : List κ) :
    Prop where
  sequential : (∃ t, claim (xs ++ ys) s = .ok t) ↔ ∃ u t, claim xs s = .ok u ∧ claim ys u = .ok t
  permuted : (∃ t, claim (xs ++ ys) s = .ok t) ↔ ∀ zs : List κ, zs.Perm (xs ++ ys) → ∃ t, claim zs s = .ok t
  sequential_view {t u t' : σ} :
    claim (xs ++ ys) s = .ok t → claim xs s = .ok u → claim ys u = .ok t' → view t' = view t
  permuted_view {zs : List κ} {t t' : σ} :
    zs.Perm (xs ++ ys) → claim (xs ++ ys) s = .ok t → claim zs s = .ok t' → view t' = view t

namespace Batch
variable {ε κ ρ ι α τ β : Type} (B : Batch ε κ ρ ι α τ β) {g h i : α} {x y : κ × ι} {a b c : α × τ} {ks ls : List κ}

/-- The item is the one of the record under its key, which is deleted. -/
def Takes (g : α) (x : κ × ι) (h : α) : Prop := B.settle x.1 (B.read g x.1) = .ok x.2 ∧ h = B.delete g x.1

/-- The keys, in order, are settled. -/
def Settles (a : α × τ) (ks : List κ) (b : α × τ) : Prop :=
  ∃ xs : List (κ × ι), xs.map Prod.fst = ks ∧ Trail B.Takes a.1 xs b.1 ∧
    Trail B.Pay a.2 (B.bill (xs.map Prod.snd)) b.2

variable {B}

theorem Takes.functional (hkey : x.1 = y.1) (hx : B.Takes g x h) (hy : B.Takes g y i) : x = y ∧ h = i := by
  have hitem := hx.1
  rw [hkey, hy.1, Except.ok.injEq] at hitem
  exact ⟨Prod.ext hkey hitem.symm, by rw [hx.2, hy.2, hkey]⟩

theorem Takes.ne (hx : B.Takes g x h) (hy : B.Takes h y i) : y.1 ≠ x.1 := by
  intro hkey
  have hitem := hy.1
  rw [hx.2, hkey] at hitem
  exact B.settle_deleted hitem

theorem Takes.comm (hx : B.Takes g x h) (hy : B.Takes h y i) : ∃ h', B.Takes g y h' ∧ B.Takes h' x i := by
  have hne := hx.ne hy
  obtain ⟨hx, rfl⟩ := hx
  obtain ⟨hy, rfl⟩ := hy
  rw [B.read_delete hne] at hy
  exact ⟨_, ⟨hy, rfl⟩, by rwa [B.read_delete hne.symm], B.delete_comm hne⟩

/-- Items are taken in their order exactly when their keys are different and they are the items of the records. -/
theorem takes_iff : ∀ {xs : List (κ × ι)} {g : α},
    Trail B.Takes g xs h ↔ (xs.map Prod.fst).Nodup ∧ (∀ x ∈ xs, B.settle x.1 (B.read g x.1) = .ok x.2) ∧
      h = (xs.map Prod.fst).foldl B.delete g
  | [], g => Trail.nil_iff.trans ⟨fun heq => ⟨List.nodup_nil, by simp, heq.symm⟩, fun heq => heq.2.2.symm⟩
  | x :: xs, g => by
    simp only [Trail.cons_iff, List.map_cons, List.nodup_cons, List.forall_mem_cons, List.foldl_cons]
    constructor
    · rintro ⟨m, ⟨hx, rfl⟩, hrest⟩
      obtain ⟨hnodup, hitems, hleft⟩ := takes_iff.mp hrest
      have hne : ∀ y ∈ xs, y.1 ≠ x.1 := fun y hy heq => B.settle_deleted (heq ▸ hitems y hy)
      refine ⟨⟨fun hmem => ?_, hnodup⟩, ⟨hx, fun y hy => ?_⟩, hleft⟩
      · obtain ⟨y, hy, heq⟩ := List.mem_map.mp hmem
        exact hne y hy heq
      · rw [← B.read_delete (hne y hy)]
        exact hitems y hy
    · rintro ⟨⟨hnot, hnodup⟩, ⟨hx, hitems⟩, hleft⟩
      refine ⟨_, ⟨hx, rfl⟩, takes_iff.mpr ⟨hnodup, fun y hy => ?_, hleft⟩⟩
      have hne : y.1 ≠ x.1 := fun heq => hnot (heq ▸ List.mem_map_of_mem hy)
      rw [B.read_delete hne]
      exact hitems y hy

theorem exists_items : ∀ {ks : List κ}, (∀ k ∈ ks, ∃ x, B.settle k (B.read g k) = .ok x) →
    ∃ xs : List (κ × ι), xs.map Prod.fst = ks ∧ ∀ x ∈ xs, B.settle x.1 (B.read g x.1) = .ok x.2
  | [], _ => ⟨[], rfl, List.forall_mem_nil _⟩
  | k :: ks, h => by
    obtain ⟨⟨x, hx⟩, hks⟩ := List.forall_mem_cons.mp h
    obtain ⟨xs, rfl, hxs⟩ := exists_items hks
    exact ⟨(k, x) :: xs, rfl, List.forall_mem_cons.mpr ⟨hx, hxs⟩⟩

theorem settles_iff :
    B.Settles a ks b ↔ ks.Nodup ∧ b.1 = ks.foldl B.delete a.1 ∧ ∃ xs : List (κ × ι), xs.map Prod.fst = ks ∧
      (∀ x ∈ xs, B.settle x.1 (B.read a.1 x.1) = .ok x.2) ∧ Trail B.Pay a.2 (B.bill (xs.map Prod.snd)) b.2 := by
  constructor
  · rintro ⟨xs, rfl, htake, hpay⟩
    obtain ⟨hnodup, hitems, hleft⟩ := takes_iff.mp htake
    exact ⟨hnodup, hleft, xs, rfl, hitems, hpay⟩
  · rintro ⟨hnodup, hleft, xs, rfl, hitems, hpay⟩
    exact ⟨xs, rfl, takes_iff.mpr ⟨hnodup, hitems, hleft⟩, hpay⟩

theorem settles_append : B.Settles a (ks ++ ls) c ↔ ∃ b, B.Settles a ks b ∧ B.Settles b ls c := by
  constructor
  · rintro ⟨zs, hkey, htake, hpay⟩
    obtain ⟨xs, ys, rfl, hxs, hys⟩ := List.map_eq_append_iff.mp hkey
    rw [List.map_append] at hpay
    obtain ⟨m, htx, hty⟩ := htake.split
    obtain ⟨n, hpx, hpy⟩ := (B.bill_append.mp hpay).split
    exact ⟨(m, n), ⟨xs, hxs, htx, hpx⟩, ⟨ys, hys, hty, hpy⟩⟩
  · rintro ⟨b, ⟨xs, rfl, htx, hpx⟩, ⟨ys, rfl, hty, hpy⟩⟩
    refine ⟨xs ++ ys, List.map_append, htx.append hty, ?_⟩
    rw [List.map_append]
    exact B.bill_append.mpr (hpx.append hpy)

theorem Settles.perm (hp : ls.Perm ks) (h : B.Settles a ks b) : B.Settles a ls b := by
  obtain ⟨xs, rfl, htake, hpay⟩ := h
  obtain ⟨ys, rfl, hy⟩ : Relation.Comp (· = List.map Prod.fst ·) List.Perm ls xs := List.eq_map_comp_perm Prod.fst ▸ hp
  refine ⟨ys, rfl, htake.perm ?_ hy.symm, hpay.perm ?_ (B.bill_perm (hy.symm.map Prod.snd))⟩
  · exact fun _ _ _ _ _ => Takes.comm
  · exact fun _ _ _ _ _ => B.pay_comm

theorem Settles.functional (h : B.Settles a ks b) (h' : B.Settles a ks c) : b = c := by
  obtain ⟨xs, rfl, htake, hpay⟩ := h
  obtain ⟨ys, hkey, htake', hpay'⟩ := h'
  obtain ⟨rfl, hstore⟩ := Trail.keyed (R := B.Takes) (fun _ _ _ _ _ => Takes.functional) hkey.symm htake htake'
  exact Prod.ext hstore (Trail.functional (R := B.Pay) (fun _ _ _ _ => B.pay_functional) hpay hpay')

/-- A function that settles what it is given, behind a gate that it leaves open, regroups. -/
theorem regroups {ε' σ : Type} {claim : List κ → σ → Except ε' σ} {view : σ → α × τ} {gate : Prop} {s : σ}
    {xs ys : List κ}
    (hs : ∀ ks b, (∀ k ∈ ks, k ∈ xs ++ ys) →
      ((∃ t, claim ks s = .ok t ∧ view t = b) ↔ gate ∧ B.Settles (view s) ks b))
    (hu : ∀ u b, claim xs s = .ok u → ((∃ t, claim ys u = .ok t ∧ view t = b) ↔ gate ∧ B.Settles (view u) ys b)) :
    Regroups claim view s xs ys := by
  have hall : ∀ k ∈ xs ++ ys, k ∈ xs ++ ys := fun _ => id
  have hleft : ∀ k ∈ xs, k ∈ xs ++ ys := fun _ => List.mem_append_left ys
  have hjoin : ∀ {u t}, claim xs s = .ok u → claim ys u = .ok t → gate ∧ B.Settles (view s) (xs ++ ys) (view t) := by
    intro u t h h'
    obtain ⟨hgate, hx⟩ := (hs xs _ hleft).mp ⟨u, h, rfl⟩
    obtain ⟨-, hy⟩ := (hu u _ h).mp ⟨t, h', rfl⟩
    exact ⟨hgate, settles_append.mpr ⟨_, hx, hy⟩⟩
  have hperm : ∀ {zs : List κ}, zs.Perm (xs ++ ys) → ∀ k ∈ zs, k ∈ xs ++ ys := fun hz _ => hz.mem_iff.mp
  refine ⟨⟨?_, ?_⟩, ⟨?_, ?_⟩, ?_, ?_⟩
  · rintro ⟨t, h⟩
    obtain ⟨hgate, h⟩ := (hs _ _ hall).mp ⟨t, h, rfl⟩
    obtain ⟨b, hx, hy⟩ := settles_append.mp h
    obtain ⟨u, hclaim, rfl⟩ := (hs xs b hleft).mpr ⟨hgate, hx⟩
    obtain ⟨t', hclaim', -⟩ := (hu u _ hclaim).mpr ⟨hgate, hy⟩
    exact ⟨u, t', hclaim, hclaim'⟩
  · rintro ⟨u, t, h, h'⟩
    obtain ⟨t', hclaim, -⟩ := (hs _ _ hall).mpr (hjoin h h')
    exact ⟨t', hclaim⟩
  · rintro ⟨t, h⟩ zs hz
    obtain ⟨hgate, h⟩ := (hs _ _ hall).mp ⟨t, h, rfl⟩
    obtain ⟨t', hclaim, -⟩ := (hs zs _ (hperm hz)).mpr ⟨hgate, h.perm hz⟩
    exact ⟨t', hclaim⟩
  · exact fun h => h _ (.refl _)
  · intro t u t' h hx hy
    exact (hjoin hx hy).2.functional ((hs _ _ hall).mp ⟨t, h, rfl⟩).2
  · intro zs t t' hz h h'
    exact ((hs zs _ (hperm hz)).mp ⟨t', h', rfl⟩).2.functional (((hs _ _ hall).mp ⟨t, h, rfl⟩).2.perm hz)

end Batch
