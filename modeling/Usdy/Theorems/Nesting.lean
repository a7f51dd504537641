import Mathlib.Data.FinEnum
import Usdy.Blocklists
import Usdy.Lib.Nested
import Usdy.Theorems.Aggregated

/-! Blocklists that are registered with each other. No call checks where a registration leads, so owners can
    close a cycle of aggregators, and then `isBlocked` has no answer for whoever is not on a blocklist that is
    asked before. As long as no registration leads back to its aggregator, every contract answers for every
    account. -/

namespace Usdy
open Checked Function Relation

namespace AggregatorBlocklist
variable {s t : AggregatorBlocklist} {caller addr b : Address} {call : Call}

theorem isBlocked_toOption {view : Address → Address → Option Bool} :
    (isBlocked view addr s).toOption = s.blocklists.anyM fun blocklist => view blocklist addr := by
  unfold isBlocked
  induction s.blocklists with
  | nil => rfl
  | cons b l ih =>
    rw [List.anyM, List.anyM]
    cases view b addr with
    | none => rfl
    | some blocked =>
      cases blocked with
      | true => rfl
      | false => exact ih

theorem Effect.blocklists (hs : s.Registered) (h : Effect s t call) {x : Address} (hx : x ∈ t.blocklists) :
    x ∈ s.blocklists ∨ call = .addBlocklist x := by
  cases h with
  | added _ _ hlists =>
    rw [hlists, List.mem_append, List.mem_singleton] at hx
    rcases hx with hx | rfl
    · exact .inl hx
    · exact .inr rfl
  | removed hi hlists hflags => exact .inl ((Effect.mem_of_removed hs (.removed hi hlists hflags)).mp hx).1
  | other _ hlists => exact .inl (hlists ▸ hx)

theorem Effect.added_blocklists (h : Effect s t (.addBlocklist b)) : t.blocklists = s.blocklists ++ [b] := by
  cases h with
  | added _ _ hlists => exact hlists
  | other hother => exact absurd (hother b) (by simp [Call.registers])

end AggregatorBlocklist

/-! ### What a call does to a contract -/

namespace Contract
variable {c c' : Contract} {caller b : Address} {call : AggregatorBlocklist.Call}

/-- An aggregator among the contracts registers as it should. -/
def Registered : Contract → Prop
  | .blocklist _ => True
  | .aggregator s => s.Registered

/-- A call that succeeds on an aggregator has its effect; one that succeeds on a blocklist registers nothing. -/
theorem exec_cases (hc : c.Registered) (h : c.exec caller call = some c') :
    (∃ s t, c = .aggregator s ∧ c' = .aggregator t ∧ s.Registered ∧ AggregatorBlocklist.Effect s t call) ∨
      ∃ s t, c = .blocklist s ∧ c' = .blocklist t ∧ ∀ b, call ≠ .addBlocklist b := by
  cases c with
  | aggregator s =>
    obtain ⟨t, hexec, rfl⟩ := Option.map_eq_some_iff.mp h
    exact .inl ⟨s, t, rfl, rfl, hc, AggregatorBlocklist.exec_effect hc (toOption_eq_some.mp hexec)⟩
  | blocklist s =>
    cases call with
    | addBlocklist b | removeBlocklist b => cases h
    | addToBlocklist accounts | removeFromBlocklist accounts | ownable call =>
      obtain ⟨t, -, rfl⟩ := Option.map_eq_some_iff.mp h
      exact .inr ⟨s, t, rfl, rfl, nofun⟩

theorem exec_registered (hc : c.Registered) (h : c.exec caller call = some c') : c'.Registered := by
  obtain ⟨s, t, -, rfl, hs, heffect⟩ | ⟨s, t, -, rfl, -⟩ := exec_cases hc h
  · exact hs.effect heffect
  · trivial

theorem exec_blocklists (hc : c.Registered) (h : c.exec caller call = some c') (hb : b ∈ c'.blocklists) :
    b ∈ c.blocklists ∨ call = .addBlocklist b := by
  obtain ⟨s, t, rfl, rfl, hs, heffect⟩ | ⟨s, t, -, rfl, -⟩ := exec_cases hc h
  · exact heffect.blocklists hs hb
  · cases hb

theorem exec_added (hc : c.Registered) (h : c.exec caller (.addBlocklist b) = some c') :
    c'.blocklists = c.blocklists ++ [b] := by
  obtain ⟨s, t, rfl, rfl, -, heffect⟩ | ⟨s, t, -, -, hnot⟩ := exec_cases hc h
  · exact heffect.added_blocklists
  · exact absurd rfl (hnot b)

theorem deploy_blocklists (d : Deployment) : (deploy d).blocklists = [] := by
  cases d with
  | blocklist sender | aggregator sender => rfl

theorem deploy_registered (d : Deployment) : (deploy d).Registered := by
  cases d with
  | blocklist sender => trivial
  | aggregator sender => exact AggregatorBlocklist.deploy_registered sender

end Contract

/-! ### What a call does to the registrations -/

namespace Chain
variable {chain chain' : Chain} {m : Message} {a b addr : Address} {depth : Nat}

/-- All the aggregators of a chain do. -/
def Registered (chain : Chain) : Prop := ∀ a c, chain a = some c → c.Registered

theorem act_update (h : chain.act m = some chain') :
    ∃ c c', chain m.target = some c ∧ c.exec m.sender m.call = some c' ∧ chain' = update chain m.target (some c') := by
  obtain ⟨c, hc, h⟩ := Option.bind_eq_some_iff.mp h
  obtain ⟨c', hexec, h⟩ := Option.bind_eq_some_iff.mp h
  exact ⟨c, c', hc, hexec, (Option.some.inj h).symm⟩

/-- A contract after a call is what the call made of its target, or one that was there before. -/
theorem act_contract {c' : Contract} (h : chain.act m = some chain') (hc' : chain' a = some c') :
    (∃ c, chain a = some c ∧ a = m.target ∧ c.exec m.sender m.call = some c') ∨ chain a = some c' := by
  obtain ⟨c, d, hc, hexec, rfl⟩ := act_update h
  by_cases ha : a = m.target
  · subst ha
    rw [update_self, Option.some.injEq] at hc'
    exact .inl ⟨c, hc, rfl, hc' ▸ hexec⟩
  · rw [update_of_ne ha] at hc'
    exact .inr hc'

/-- No contract goes away. -/
theorem act_kept {c : Contract} (h : chain.act m = some chain') (hc : chain a = some c) :
    ∃ c', chain' a = some c' ∧ (c.exec m.sender m.call = some c' ∨ c' = c) := by
  obtain ⟨d, d', hd, hexec, rfl⟩ := act_update h
  by_cases ha : a = m.target
  · subst ha
    obtain rfl := Option.some.inj (hd.symm.trans hc)
    exact ⟨d', update_self .., .inl hexec⟩
  · exact ⟨c, (update_of_ne ha _ _).trans hc, .inr rfl⟩

theorem act_isSome (h : chain.act m = some chain') (ha : (chain a).isSome) : (chain' a).isSome := by
  obtain ⟨c, hc⟩ := Option.isSome_iff_exists.mp ha
  obtain ⟨c', hc', -⟩ := act_kept h hc
  exact Option.isSome_of_eq_some hc'

theorem act_registered (hchain : chain.Registered) (h : chain.act m = some chain') : chain'.Registered := by
  intro a c' hc'
  rcases act_contract h hc' with ⟨c, hc, -, hexec⟩ | hold
  · exact Contract.exec_registered (hchain a c hc) hexec
  · exact hchain a c' hold

/-- A registration is an old one or the one that the call adds. -/
theorem act_registers (hchain : chain.Registered) (h : chain.act m = some chain') (hab : chain'.Registers a b) :
    chain.Registers a b ∨ a = m.target ∧ m.call = .addBlocklist b := by
  obtain ⟨c', hc', hb⟩ := hab
  rcases act_contract h hc' with ⟨c, hc, ha, hexec⟩ | hold
  · rcases Contract.exec_blocklists (hchain a c hc) hexec hb with hold | hadd
    · exact .inl ⟨c, hc, hold⟩
    · exact .inr ⟨ha, hadd⟩
  · exact .inl ⟨c', hold, hb⟩

theorem act_added (hchain : chain.Registered) (h : chain.act m = some chain') (hm : m.call = .addBlocklist b) :
    chain'.Registers m.target b ∧ ∀ x y, chain.Registers x y → chain'.Registers x y := by
  constructor
  · obtain ⟨c, c', hc, hexec, rfl⟩ := act_update h
    rw [hm] at hexec
    refine ⟨c', update_self .., ?_⟩
    rw [Contract.exec_added (hchain _ _ hc) hexec]
    exact List.mem_append_right _ (List.mem_singleton_self b)
  · rintro x y ⟨c, hc, hy⟩
    obtain ⟨c', hc', hexec | rfl⟩ := act_kept h hc
    · rw [hm] at hexec
      refine ⟨c', hc', ?_⟩
      rw [Contract.exec_added (hchain x c hc) hexec]
      exact List.mem_append_left _ hy
    · exact ⟨c', hc', hy⟩

/-! ### Runs -/

/-- A registration does not lead back to its aggregator. -/
def NoWayBack (chain : Chain) (m : Message) : Prop :=
  ∀ b, m.call = .addBlocklist b → ¬ReflTransGen chain.Registers b m.target

/-- What is registered is a contract. -/
def ToContract (chain : Chain) (m : Message) : Prop := ∀ b, m.call = .addBlocklist b → (chain b).isSome

/-- Every registered address is one of a contract. -/
def Closed (chain : Chain) : Prop := ∀ a b, chain.Registers a b → (chain b).isSome

theorem act_acyclic (hchain : chain.Registered) (hacyclic : Nested.Acyclic chain.Registers) (hm : chain.NoWayBack m)
    (h : chain.act m = some chain') : Nested.Acyclic chain'.Registers := by
  by_cases hadd : ∃ b, m.call = .addBlocklist b
  · obtain ⟨b, hb⟩ := hadd
    refine hacyclic.add (x := m.target) (y := b) ?_ (hm b hb)
    intro x y hxy
    rcases act_registers hchain h hxy with hold | ⟨rfl, hy⟩
    · exact .inl hold
    · exact .inr ⟨rfl, AggregatorBlocklist.Call.addBlocklist.inj (hy.symm.trans hb)⟩
  · refine hacyclic.mono fun x y hxy => ?_
    rcases act_registers hchain h hxy with hold | ⟨-, hy⟩
    · exact hold
    · exact absurd ⟨y, hy⟩ hadd

theorem act_closed (hchain : chain.Registered) (hclosed : chain.Closed) (hm : chain.ToContract m)
    (h : chain.act m = some chain') : chain'.Closed := by
  intro x y hxy
  rcases act_registers hchain h hxy with hold | ⟨-, hy⟩
  · exact act_isSome h (hclosed x y hold)
  · exact act_isSome h (hm y hy)

section Deployed
variable {contracts : Address → Option Contract.Deployment} {messages : List Message}

theorem deploy_registered : (deploy contracts).Registered := by
  intro a c hc
  obtain ⟨d, -, rfl⟩ := Option.map_eq_some_iff.mp hc
  exact Contract.deploy_registered d

theorem not_deploy_registers : ¬(deploy contracts).Registers a b := by
  rintro ⟨c, hc, hb⟩
  obtain ⟨d, -, rfl⟩ := Option.map_eq_some_iff.mp hc
  rw [Contract.deploy_blocklists] at hb
  cases hb

theorem deploy_acyclic : Nested.Acyclic (deploy contracts).Registers := by
  intro a hcycle
  obtain ⟨b, hab, -⟩ := TransGen.head'_iff.mp hcycle
  exact not_deploy_registers hab

theorem successes_registered : ∀ x ∈ Machine.successes act (deploy contracts) messages,
    x.before.Registered ∧ act x.before x.action = some x.after := by
  intro x hx
  obtain ⟨hbefore, -, hact⟩ :=
    (Machine.invariant_any deploy_registered fun _ _ _ hs h => act_registered hs h).2 x hx
  exact ⟨hbefore, hact⟩

/-- The registrations stay without cycles exactly as long as no call closes one. -/
theorem acyclic_iff :
    (∀ x ∈ Machine.successes act (deploy contracts) messages, Nested.Acyclic x.after.Registers) ↔
      Machine.Obeys act NoWayBack (deploy contracts) messages := by
  constructor
  · intro h x hx b hb hback
    obtain ⟨hbefore, hact⟩ := successes_registered x hx
    obtain ⟨hadded, hkeep⟩ := act_added hbefore hact hb
    exact h x hx x.action.target (TransGen.head' hadded (ReflTransGen.mono hkeep _ _ hback))
  · intro h x hx
    have hinv := Machine.invariant (I := fun s : Chain => s.Registered ∧ Nested.Acyclic s.Registers) h
      ⟨deploy_registered, deploy_acyclic⟩
      fun s m t hs hm h => ⟨act_registered hs.1 h, act_acyclic hs.1 hs.2 hm h⟩
    exact (hinv.2 x hx).2.1.2

theorem run_acyclic (h : Machine.Obeys act (fun s m => s.NoWayBack m ∧ s.ToContract m) (deploy contracts) messages) :
    (Machine.run act (deploy contracts) messages).Closed ∧
      Nested.Acyclic (Machine.run act (deploy contracts) messages).Registers := by
  have hinv := Machine.invariant (I := fun s : Chain => s.Registered ∧ s.Closed ∧ Nested.Acyclic s.Registers) h
    ⟨deploy_registered, fun a b hab => absurd hab not_deploy_registers, deploy_acyclic⟩
    fun s m t hs hm h => ⟨act_registered hs.1 h, act_closed hs.1 hs.2.1 hm.2 h, act_acyclic hs.1 hs.2.2 hm.1 h⟩
  exact hinv.1.2

end Deployed

/-! ### Blocked accounts -/

/-- The contracts as nodes: a blocklist answers for an account itself, an aggregator asks. -/
def node (chain : Chain) (addr a : Address) : Option (Nested.Node Address) :=
  match chain a with
  | some (.blocklist s) => some (.leaf (s.isBlocked addr))
  | some (.aggregator s) => some (.union s.blocklists)
  | none => none

/-- A blocklist in reach lists the account. -/
def Lists (chain : Chain) (a addr : Address) : Prop :=
  ∃ b s, ReflTransGen chain.Registers a b ∧ chain b = some (.blocklist s) ∧ s.isBlocked addr = true

theorem isBlocked_eq_eval : chain.isBlocked depth a addr = Nested.eval (chain.node addr) depth a := by
  induction depth generalizing a with
  | zero => rfl
  | succ depth ih =>
    rw [isBlocked, Nested.eval, node]
    cases chain a with
    | none => rfl
    | some c =>
      cases c with
      | blocklist s => rfl
      | aggregator s =>
        have hview : (fun blocklist => chain.isBlocked depth blocklist addr) = Nested.eval (chain.node addr) depth :=
          funext fun b => ih
        exact AggregatorBlocklist.isBlocked_toOption.trans (congrArg s.blocklists.anyM hview)

theorem node_isSome : (chain.node addr a).isSome = (chain a).isSome := by
  rw [node]
  cases chain a with
  | none => rfl
  | some c =>
    cases c with
    | blocklist s | aggregator s => rfl

theorem edge_eq : Nested.Edge (chain.node addr) = chain.Registers := by
  funext a b
  rw [Nested.Edge, node, Registers]
  cases chain a with
  | none => simp
  | some c =>
    cases c with
    | blocklist s | aggregator s => simp [Contract.blocklists]

theorem node_eq_leaf :
    chain.node addr a = some (.leaf true) ↔ ∃ s, chain a = some (.blocklist s) ∧ s.isBlocked addr = true := by
  rw [node]
  cases chain a with
  | none => simp
  | some c =>
    cases c with
    | blocklist s | aggregator s => simp

theorem yes_iff : Nested.Yes (chain.node addr) a ↔ chain.Lists a addr := by
  simp only [Nested.Yes, Lists, edge_eq, node_eq_leaf, exists_and_left]

theorem settles_iff :
    Nested.Settles (chain.node addr) a ↔ ∃ depth blocked, chain.isBlocked depth a addr = some blocked := by
  simp only [Nested.Settles, isBlocked_eq_eval]

/-- In every run: the registrations stay without cycles exactly as long as none leads back to its aggregator;
    if so, and if contracts only are registered, every contract answers for every account, and says whether
    a blocklist in reach lists it; and for an account that no blocklist in reach lists there is an answer
    exactly when the reach has no cycle and no address without a contract. -/
theorem nested_isBlocked (contracts : Address → Option Contract.Deployment) (messages : List Message) :
    let chain := Machine.run act (deploy contracts) messages
    ((∀ x ∈ Machine.successes act (deploy contracts) messages, Nested.Acyclic x.after.Registers) ↔
        Machine.Obeys act NoWayBack (deploy contracts) messages) ∧
      (Machine.Obeys act (fun s m => s.NoWayBack m ∧ s.ToContract m) (deploy contracts) messages →
        ∀ a addr, (chain a).isSome → ∃ blocked, (blocked = true ↔ chain.Lists a addr) ∧
          ∃ depth, ∀ d, depth ≤ d → chain.isBlocked d a addr = some blocked) ∧
      ∀ a addr, ¬chain.Lists a addr → ((∃ depth blocked, chain.isBlocked depth a addr = some blocked) ↔
        ∀ b, ReflTransGen chain.Registers a b → (chain b).isSome ∧ ¬TransGen chain.Registers b b) := by
  intro chain
  refine ⟨acyclic_iff, fun h a addr ha => ?_, fun a addr hno => ?_⟩
  · obtain ⟨hclosed, hacyclic⟩ := run_acyclic h
    have hreach : ∀ b, ReflTransGen chain.Registers a b → (chain b).isSome := fun b hb => by
      rcases ReflTransGen.cases_tail hb with rfl | ⟨c, -, hcb⟩
      · exact ha
      · exact hclosed c b hcb
    have hsettles : Nested.Settles (chain.node addr) a := by
      refine Nested.settles_of_acyclic ?_
      rw [edge_eq]
      exact fun b hb => ⟨node_isSome.trans (hreach b hb), hacyclic b⟩
    obtain ⟨depth, blocked, heval⟩ := hsettles
    refine ⟨blocked, (Nested.eval_iff heval).trans yes_iff, depth, fun d hd => ?_⟩
    rw [isBlocked_eq_eval]
    exact Nested.eval_mono heval hd
  · rw [← settles_iff, Nested.settles_iff (mt yes_iff.mp hno), edge_eq]
    simp only [node_isSome]

/-! ### Three contracts of three owners -/

/-- A contract without registrations may be registered anywhere but with itself. -/
theorem allowed_of_empty (hm : m.call = .addBlocklist b) (hb : (chain b).map Contract.blocklists = some [])
    (hne : b ≠ m.target) : chain.NoWayBack m ∧ chain.ToContract m := by
  obtain ⟨c, hc, hlists⟩ := Option.map_eq_some_iff.mp hb
  constructor
  · intro x hx hreach
    obtain rfl := AggregatorBlocklist.Call.addBlocklist.inj (hm.symm.trans hx)
    rcases ReflTransGen.cases_head hreach with heq | ⟨y, ⟨d, hd, hy⟩, -⟩
    · exact hne heq
    · obtain rfl := Option.some.inj (hc.symm.trans hd)
      rw [hlists] at hy
      cases hy
  · intro x hx
    obtain rfl := AggregatorBlocklist.Call.addBlocklist.inj (hm.symm.trans hx)
    exact Option.isSome_of_eq_some hc

namespace Sample

/-- Two aggregators and a blocklist, deployed by different senders. -/
def contracts (a : Address) : Option Contract.Deployment :=
  if a = 10 then some (.aggregator 1)
  else if a = 11 then some (.aggregator 2)
  else if a = 12 then some (.blocklist 3)
  else none

/-- An aggregator in an aggregator, a blocklist in that, and an account on the blocklist. -/
def nest : List Message := [⟨1, 10, .addBlocklist 11⟩, ⟨2, 11, .addBlocklist 12⟩, ⟨3, 12, .addToBlocklist [7]⟩]

/-- The aggregators in each other. -/
def circle : List Message := [⟨1, 10, .addBlocklist 11⟩, ⟨2, 11, .addBlocklist 10⟩]

theorem nest_obeys : Machine.Obeys act (fun s m => s.NoWayBack m ∧ s.ToContract m) (deploy contracts) nest := by
  let s (n : Nat) : Chain := Machine.run act (deploy contracts) (nest.take n)
  have hsuccesses : Machine.successes act (deploy contracts) nest = [⟨s 0, ⟨1, 10, .addBlocklist 11⟩, s 1⟩,
      ⟨s 1, ⟨2, 11, .addBlocklist 12⟩, s 2⟩, ⟨s 2, ⟨3, 12, .addToBlocklist [7]⟩, s 3⟩] := rfl
  rw [Machine.Obeys, hsuccesses, List.forall_mem_cons, List.forall_mem_cons, List.forall_mem_singleton]
  exact ⟨allowed_of_empty rfl rfl (by decide), allowed_of_empty rfl rfl (by decide), nofun, nofun⟩

end Sample

theorem nested_isBlocked_nest :
    let chain := Machine.run act (deploy Sample.contracts) Sample.nest
    ∃ blocked, (blocked = true ↔ chain.Lists 10 7) ∧ ∃ depth, ∀ d, depth ≤ d → chain.isBlocked d 10 7 = some blocked :=
  (nested_isBlocked Sample.contracts Sample.nest).2.1 Sample.nest_obeys 10 7 rfl

/-- Both aggregators accept the other, and then neither ever answers. -/
theorem circle_never_answers :
    let chain := Machine.run act (deploy Sample.contracts) Sample.circle
    (Machine.successes act (deploy Sample.contracts) Sample.circle).length = 2 ∧ ¬Nested.Acyclic chain.Registers ∧
      ¬∃ addr depth blocked, chain.isBlocked depth 10 addr = some blocked := by
  intro chain
  have hten : ∀ addr, chain.node addr 10 = some (.union [11]) := fun addr => rfl
  have heleven : ∀ addr, chain.node addr 11 = some (.union [10]) := fun addr => rfl
  refine ⟨rfl, fun hacyclic => ?_, ?_⟩
  · have hedge : Nested.Edge (chain.node 0) = chain.Registers := edge_eq
    rw [← hedge] at hacyclic
    have hout : Nested.Edge (chain.node 0) 10 11 := ⟨[11], hten 0, List.mem_singleton_self 11⟩
    have hback : Nested.Edge (chain.node 0) 11 10 := ⟨[10], heleven 0, List.mem_singleton_self 10⟩
    exact hacyclic 10 ((TransGen.single hout).tail hback)
  · rintro ⟨addr, depth, blocked, h⟩
    have hcircle : ∀ a, a = 10 ∨ a = 11 →
        ∃ b members, chain.node addr a = some (.union (b :: members)) ∧ (b = 10 ∨ b = 11) := by
      rintro a (rfl | rfl)
      · exact ⟨11, [], hten addr, .inr rfl⟩
      · exact ⟨10, [], heleven addr, .inl rfl⟩
    rw [isBlocked_eq_eval, Nested.eval_eq_none hcircle (.inl rfl)] at h
    cases h

end Chain

end Usdy
