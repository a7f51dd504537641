import Usdy.OwnedAllowlist

/-! Who owns the lists and the aggregator, and what the logs tell. Ownership passes only to an account that the owner
    has named last and that accepts it, and without those two nothing changes: not after a renunciation, ever. -/

namespace Usdy
open Checked Function

namespace Ownable2Step

/-- What a call about the ownership does when it succeeds. -/
inductive Passes (o : Ownable2Step) (caller : Address) (p : Ownable2Step) : Call → Event → Prop
  | nominated {newOwner : Address} (hcaller : caller = o.owner) (howner : p.owner = o.owner)
      (hpending : p.pendingOwner = newOwner) :
      Passes o caller p (.transferOwnership newOwner) (.ownershipTransferStarted o.owner newOwner)
  | accepted (hcaller : caller = o.pendingOwner) (howner : p.owner = caller) (hpending : p.pendingOwner = 0) :
      Passes o caller p .acceptOwnership (.ownershipTransferred o.owner caller)
  | renounced (hcaller : caller = o.owner) (howner : p.owner = 0) (hpending : p.pendingOwner = 0) :
      Passes o caller p .renounceOwnership (.ownershipTransferred o.owner 0)

theorem onlyOwner_eq_ok {o : Ownable2Step} {caller : Address} {u : Unit} : o.onlyOwner caller = .ok u ↔ o.owner = caller := by
  rw [onlyOwner, revertIf_eq_ok, not_not]

theorem exec_passes {o p : Ownable2Step} {caller : Address} {call : Call} {event : Event}
    (h : o.exec caller call = .ok (p, event)) : o.Passes caller p call event := by
  cases call with
  | transferOwnership newOwner =>
    simp only [exec, bind_eq_ok, exists_unit_iff, onlyOwner_eq_ok, pure_eq_ok, Prod.mk.injEq] at h
    obtain ⟨hcaller, rfl, rfl⟩ := h
    exact .nominated hcaller.symm rfl rfl
  | acceptOwnership =>
    simp only [exec, bind_eq_ok, exists_unit_iff, revertIf_eq_ok, not_not, pure_eq_ok, internalTransferOwnership,
      Prod.mk.injEq] at h
    obtain ⟨hcaller, rfl, rfl⟩ := h
    exact .accepted hcaller.symm rfl rfl
  | renounceOwnership =>
    simp only [exec, bind_eq_ok, exists_unit_iff, onlyOwner_eq_ok, pure_eq_ok, internalTransferOwnership,
      Prod.mk.injEq] at h
    obtain ⟨hcaller, rfl, rfl⟩ := h
    exact .renounced hcaller.symm rfl rfl

/-! ### Contracts of an owner -/

section Owned
variable {σ κ : Type} {act : σ → Address × κ → Option σ} {owners : σ → Ownable2Step} {ownable : κ → Option Call} {s t : σ}

/-- Some calls are those about the ownership; every other is the owner's or does nothing. -/
structure Owned (act : σ → Address × κ → Option σ) (owners : σ → Ownable2Step) (ownable : κ → Option Call) : Prop where
  passes : ∀ s caller k t call, ownable k = some call → act s (caller, k) = some t →
    ∃ event, (owners s).Passes caller (owners t) call event
  guarded : ∀ s caller k t, ownable k = none → act s (caller, k) = some t →
    owners t = owners s ∧ (caller = (owners s).owner ∨ t = s)

/-- While neither the owner nor the account that is to be the owner calls, nothing changes. -/
theorem Owned.silent (h : Owned act owners ownable) : ∀ {acts : List (Address × κ)},
    (∀ a ∈ acts, a.1 ≠ (owners s).owner ∧ a.1 ≠ (owners s).pendingOwner) → Machine.run act s acts = s
  | [], _ => rfl
  | (caller, k) :: acts, hsilent => by
    obtain ⟨⟨howner, hpending⟩, hsilent⟩ := List.forall_mem_cons.mp hsilent
    have hkept : (act s (caller, k)).getD s = s := by
      cases hact : act s (caller, k) with
      | none => rfl
      | some t =>
        cases hk : ownable k with
        | some call =>
          obtain ⟨event, hpasses⟩ := h.passes s caller k t call hk hact
          cases hpasses with
          | nominated hcaller _ _ | renounced hcaller _ _ => exact absurd hcaller howner
          | accepted hcaller _ _ => exact absurd hcaller hpending
        | none => exact (h.guarded s caller k t hk hact).2.resolve_left howner
    rw [Machine.run_cons, hkept]
    exact h.silent hsilent

/-- Nobody is to be the owner, or the owner named the account and no call about the ownership succeeded since. -/
def Nominated (owners : σ → Ownable2Step) (ownable : κ → Option Call) (log : List (Machine.Success σ (Address × κ)))
    (t : σ) : Prop :=
  (owners t).pendingOwner = 0 ∨ ∃ before x since, log = before ++ x :: since ∧ x.action.1 = (owners t).owner ∧
    ownable x.action.2 = some (.transferOwnership (owners t).pendingOwner) ∧ ∀ y ∈ since, ownable y.action.2 = none

theorem Owned.nominated (h : Owned act owners ownable) {log : List (Machine.Success σ (Address × κ))}
    (hs : (owners s).pendingOwner = 0) (htrail : Trail (Machine.Succeeds act) s log t) : Nominated owners ownable log t := by
  refine htrail.invariant (I := Nominated owners ownable) (.inl hs) fun log t x u _ ih hx => ?_
  obtain ⟨before, ⟨caller, k⟩, after⟩ := x
  obtain ⟨rfl, rfl, hact⟩ := hx
  cases hk : ownable k with
  | some call =>
    obtain ⟨event, hpasses⟩ := h.passes _ _ _ _ _ hk hact
    cases hpasses with
    | nominated hcaller howner hpending =>
      exact .inr ⟨log, _, [], rfl, hcaller.trans howner.symm, hpending ▸ hk, nofun⟩
    | accepted _ _ hpending | renounced _ _ hpending => exact .inl hpending
  | none =>
    obtain ⟨howners, -⟩ := h.guarded _ _ _ _ hk hact
    rw [Nominated, howners]
    refine ih.imp_right fun hnamed => ?_
    obtain ⟨before, x, since, rfl, hcaller, hcall, hsince⟩ := hnamed
    refine ⟨before, x, since ++ [_], List.append_assoc .., hcaller, hcall, fun y hy => ?_⟩
    rcases List.mem_append.mp hy with hy | hy
    · exact hsince y hy
    · rw [List.mem_singleton.mp hy]
      exact hk

/-- From the state on, ownership passes by consent: in every run, an account that becomes the owner was named by the owner
    at the time, whose last word it was; an owner is replaced in no other way and lost by renouncing only; and where
    neither the owner nor the account named calls, nothing changes. -/
def Consensual (act : σ → Address × κ → Option σ) (owners : σ → Ownable2Step) (ownable : κ → Option Call) (s : σ) : Prop :=
  ∀ acts : List (Address × κ), (∀ a ∈ acts, a.1 ≠ 0) →
    (∀ earlier x later, Machine.successes act s acts = earlier ++ x :: later →
      (owners x.after).owner ≠ (owners x.before).owner →
        (ownable x.action.2 = some .renounceOwnership ∧ x.action.1 = (owners x.before).owner) ∨
        (ownable x.action.2 = some .acceptOwnership ∧ x.action.1 = (owners x.after).owner ∧
          ∃ before y since, earlier = before ++ y :: since ∧ y.action.1 = (owners x.before).owner ∧
            ownable y.action.2 = some (.transferOwnership x.action.1) ∧ ∀ z ∈ since, ownable z.action.2 = none)) ∧
    ∀ acts' : List (Address × κ), (∀ a ∈ acts', a.1 ≠ (owners (Machine.run act s acts)).owner ∧
      a.1 ≠ (owners (Machine.run act s acts)).pendingOwner) → Machine.run act s (acts ++ acts') = Machine.run act s acts

theorem Owned.consensual (h : Owned act owners ownable) (hs : (owners s).pendingOwner = 0) :
    Consensual act owners ownable s := by
  intro acts hcallers
  refine ⟨fun earlier x later hsplit hchanged => ?_, fun acts' hsilent => ?_⟩
  · have htrail : Trail (Machine.Succeeds act) s (Machine.successes act s acts) (Machine.run act s acts) :=
      Machine.successes_trail
    rw [hsplit] at htrail
    obtain ⟨m, n, htrail, hx, -⟩ := htrail.split_at
    have hmem : x ∈ Machine.successes act s acts := hsplit ▸ List.mem_append_right _ List.mem_cons_self
    have hcaller := hcallers _ (Machine.action_mem hmem)
    obtain ⟨before, ⟨caller, k⟩, after⟩ := x
    obtain ⟨rfl, rfl, hact⟩ := hx
    cases hk : ownable k with
    | some call =>
      obtain ⟨event, hpasses⟩ := h.passes _ _ _ _ _ hk hact
      cases hpasses with
      | nominated _ howner _ => exact absurd howner hchanged
      | renounced howner _ _ => exact .inl ⟨rfl, howner⟩
      | accepted hpending howner _ =>
        refine .inr ⟨rfl, howner.symm, ?_⟩
        obtain hnone | ⟨before, y, since, rfl, hcall, hnamed, hsince⟩ := h.nominated hs htrail
        · exact absurd (hpending.trans hnone) hcaller
        · exact ⟨before, y, since, rfl, hcall, hpending ▸ hnamed, hsince⟩
    | none => exact absurd (congrArg Ownable2Step.owner (h.guarded _ _ _ _ hk hact).1) hchanged
  · rw [Machine.run_append]
    exact h.silent hsilent

/-- What holds of the contract that another one is a copy of holds of the other. -/
theorem Owned.of_twin {τ μ : Type} {act' : τ → Address × μ → Option τ} {owners' : τ → Ownable2Step}
    {ownable' : μ → Option Call} {f : σ → τ} {g : κ → μ} (h : Owned act' owners' ownable') (hinj : Injective f)
    (hact : ∀ s caller k t, act s (caller, k) = some t → act' (f s) (caller, g k) = some (f t)) :
    Owned act (owners' ∘ f) (ownable' ∘ g) where
  passes s caller k t call hk hstep := h.passes _ _ _ _ _ hk (hact s caller k t hstep)
  guarded s caller k t hk hstep := by
    obtain ⟨howners, hkept⟩ := h.guarded _ _ _ _ hk (hact s caller k t hstep)
    exact ⟨howners, hkept.imp_right fun heq => hinj heq⟩

end Owned

end Ownable2Step

/-! ### The allowlist is a copy of the blocklist -/

namespace Allowlist

/-- The event of a blocklist that says the same. -/
def Event.twin : Event → Blocklist.Event
  | .ownable event => .ownable event
  | .allowedAddressesAdded accounts => .blockedAddressesAdded accounts
  | .allowedAddressesRemoved accounts => .blockedAddressesRemoved accounts

/-- The call of a blocklist that does the same. -/
def Call.twin : Call → Blocklist.Call
  | .addToAllowlist accounts => .addToBlocklist accounts
  | .removeFromAllowlist accounts => .removeFromBlocklist accounts
  | .ownable call => .ownable call

/-- The blocklist with the same storage. -/
def twin (s : Allowlist) : Blocklist := ⟨s.toOwnable2Step, s.allowedAddresses, s.events.map Event.twin⟩

theorem Event.twin_injective : Injective Event.twin := by
  intro e f h
  cases e <;> cases f <;> cases h <;> rfl

theorem twin_injective : Injective twin := by
  rintro ⟨owners, allowed, events⟩ ⟨owners', allowed', events'⟩ h
  simp only [twin, Blocklist.mk.injEq, Event.twin_injective.list_map.eq_iff] at h
  obtain ⟨rfl, rfl, rfl⟩ := h
  rfl

theorem act_twin (s : Allowlist) (caller : Address) (k : Call) :
    Blocklist.act s.twin (caller, k.twin) = (act s (caller, k)).map twin := by
  have hemit : ∀ (u : Allowlist) (e : Event), (u.emit e).twin = u.twin.emit e.twin := by
    intro u e
    simp only [twin, emit, Blocklist.emit, List.map_append, List.map_cons, List.map_nil]
  cases k with
  | addToAllowlist accounts =>
    show (s.onlyOwner caller >>= fun _ => pure _).toOption = ((s.onlyOwner caller >>= fun _ => pure _).toOption).map twin
    cases s.onlyOwner caller with
    | error e => rfl
    | ok => exact congrArg some (hemit (s.setAllowed accounts true) (.allowedAddressesAdded accounts)).symm
  | removeFromAllowlist accounts =>
    show (s.onlyOwner caller >>= fun _ => pure _).toOption = ((s.onlyOwner caller >>= fun _ => pure _).toOption).map twin
    cases s.onlyOwner caller with
    | error e => rfl
    | ok => exact congrArg some (hemit (s.setAllowed accounts false) (.allowedAddressesRemoved accounts)).symm
  | ownable call =>
    show (s.toOwnable2Step.exec caller call >>= fun x => pure _).toOption =
      ((s.toOwnable2Step.exec caller call >>= fun x => pure _).toOption).map twin
    cases s.toOwnable2Step.exec caller call with
    | error e => rfl
    | ok x => exact congrArg some (hemit { s with toOwnable2Step := x.1 } (.ownable x.2)).symm

/-- Every run of the one is a run of the other. -/
theorem run_twin (s : Allowlist) (acts : List (Address × Call)) :
    (Machine.run act s acts).twin = Machine.run Blocklist.act s.twin (acts.map fun a => (a.1, a.2.twin)) := by
  have hany : Machine.Obeys act (fun _ _ => True) s acts := fun _ _ => trivial
  have hrun : True ∧ (Machine.run act s acts).twin =
      Machine.run Blocklist.act s.twin (acts.filterMap fun a => some (a.1, a.2.twin)) := by
    refine Machine.simulates (I := fun _ => True) hany trivial (fun _ _ _ _ _ _ => trivial)
      (fun _ _ _ _ _ _ h => nomatch h) fun t a b _ h => ?_
    obtain rfl := Option.some.inj h
    exact act_twin t a.1 a.2
  rw [hrun.2, List.filterMap_eq_map']

end Allowlist

/-! ### The contracts -/

/-- The part of a call that is inherited from `Ownable2Step`. -/
def Blocklist.Call.ownership : Blocklist.Call → Option Ownable2Step.Call
  | .ownable call => some call
  | _ => none

/-- The same for the allowlist. -/
def Allowlist.Call.ownership : Allowlist.Call → Option Ownable2Step.Call
  | .ownable call => some call
  | _ => none

/-- The same for the aggregator. -/
def AggregatorBlocklist.Call.ownership : AggregatorBlocklist.Call → Option Ownable2Step.Call
  | .ownable call => some call
  | _ => none

theorem Blocklist.owned : Ownable2Step.Owned Blocklist.act Blocklist.toOwnable2Step Call.ownership where
  passes s caller k t call hk h := by
    cases k with
    | ownable =>
      obtain rfl := Option.some.inj hk
      obtain ⟨⟨owners, event⟩, howners, h⟩ := bind_eq_ok.mp (toOption_eq_some.mp h)
      obtain rfl := pure_eq_ok.mp h
      exact ⟨event, Ownable2Step.exec_passes howners⟩
    | _ => cases hk
  guarded s caller k t hk h := by
    have h := toOption_eq_some.mp h
    cases k with
    | addToBlocklist accounts | removeFromBlocklist accounts =>
      obtain ⟨_, howner, h⟩ := bind_eq_ok.mp h
      obtain rfl := pure_eq_ok.mp h
      exact ⟨rfl, .inl (Ownable2Step.onlyOwner_eq_ok.mp howner).symm⟩
    | ownable => cases hk

theorem Allowlist.owned : Ownable2Step.Owned Allowlist.act Allowlist.toOwnable2Step Call.ownership := by
  have hownership : Call.ownership = Blocklist.Call.ownership ∘ Call.twin := by
    funext k
    cases k <;> rfl
  rw [hownership]
  refine Blocklist.owned.of_twin twin_injective fun s caller k t h => ?_
  rw [act_twin, h]
  rfl

theorem AggregatorBlocklist.owned :
    Ownable2Step.Owned AggregatorBlocklist.act AggregatorBlocklist.toOwnable2Step Call.ownership where
  passes s caller k t call hk h := by
    cases k with
    | ownable =>
      obtain rfl := Option.some.inj hk
      obtain ⟨⟨owners, event⟩, howners, h⟩ := bind_eq_ok.mp (toOption_eq_some.mp h)
      obtain rfl := pure_eq_ok.mp h
      exact ⟨event, Ownable2Step.exec_passes (raise_eq_ok.mp howners)⟩
    | _ => cases hk
  guarded s caller k t hk h := by
    have h := toOption_eq_some.mp h
    cases k with
    | addBlocklist b =>
      simp only [exec, addBlocklist, bind_eq_ok, exists_unit_iff, raise_eq_ok, Ownable2Step.onlyOwner_eq_ok, revertIf_eq_ok,
        pure_eq_ok] at h
      obtain ⟨howner, -, -, rfl⟩ := h
      exact ⟨rfl, .inl howner.symm⟩
    | removeBlocklist b =>
      simp only [exec, removeBlocklist, bind_eq_ok, exists_unit_iff, raise_eq_ok, Ownable2Step.onlyOwner_eq_ok,
        revertIf_eq_ok] at h
      obtain ⟨howner, -, h⟩ := h
      refine ⟨?_, .inl howner.symm⟩
      split at h
      · obtain rfl := pure_eq_ok.mp h
        rfl
      · obtain rfl := pure_eq_ok.mp h
        rfl
    | addToBlocklist accounts | removeFromBlocklist accounts =>
      obtain rfl := pure_eq_ok.mp h
      exact ⟨rfl, .inr rfl⟩
    | ownable => cases hk

/-- Who deploys a list or an aggregator hands it over by consent only. -/
theorem lists_consensual (sender : Address) :
    Ownable2Step.Consensual Blocklist.act Blocklist.toOwnable2Step Blocklist.Call.ownership (.deploy sender) ∧
      Ownable2Step.Consensual Allowlist.act Allowlist.toOwnable2Step Allowlist.Call.ownership (.deploy sender) ∧
      Ownable2Step.Consensual AggregatorBlocklist.act AggregatorBlocklist.toOwnable2Step AggregatorBlocklist.Call.ownership
        (.deploy sender) :=
  ⟨Blocklist.owned.consensual rfl, Allowlist.owned.consensual rfl, AggregatorBlocklist.owned.consensual rfl⟩

namespace Sample

-- The deployer names an account, and then another, which accepts.
def handover : List (Address × Blocklist.Call) :=
  [(1, .ownable (.transferOwnership 2)), (1, .addToBlocklist [7]), (1, .ownable (.transferOwnership 3)),
    (2, .ownable .acceptOwnership), (3, .ownable .acceptOwnership)]

end Sample

theorem lists_consensual_handover :
    let t := Machine.run Blocklist.act (.deploy 1) Sample.handover
    t.owner = 3 ∧ Machine.run Blocklist.act (.deploy 1) (Sample.handover ++ [(1, .removeFromBlocklist [7])]) = t := by
  intro t
  have howners : t.owner = 3 ∧ t.pendingOwner = 0 := by decide +kernel
  refine ⟨howners.1, ((lists_consensual 1).1 Sample.handover (by decide)).2 _ fun a ha => ?_⟩
  rw [List.mem_singleton.mp ha]
  show 1 ≠ t.owner ∧ 1 ≠ t.pendingOwner
  rw [howners.1, howners.2]
  decide

/-! ### What the logs tell -/

/-- The owner that an event tells. -/
def Ownable2Step.Event.owner : Ownable2Step.Event → Option Address
  | .ownershipTransferred _ newOwner => some newOwner
  | .ownershipTransferStarted .. => none

/-- The pending owner after an event: a transfer clears it. -/
def Ownable2Step.Event.nominee : Ownable2Step.Event → Address
  | .ownershipTransferred .. => 0
  | .ownershipTransferStarted _ newOwner => newOwner

theorem Ownable2Step.Passes.told {o p : Ownable2Step} {caller : Address} {call : Ownable2Step.Call}
    {event : Ownable2Step.Event} (h : o.Passes caller p call event) :
    p.owner = event.owner.getD o.owner ∧ p.pendingOwner = event.nominee := by
  cases h with
  | nominated _ howner hpending | accepted _ howner hpending | renounced _ howner hpending => exact ⟨howner, hpending⟩

namespace Blocklist

/-- Whether the event puts the account on the list or takes it off. -/
def Event.lists (account : Address) : Event → Option Bool
  | .blockedAddressesAdded accounts => if account ∈ accounts then some true else none
  | .blockedAddressesRemoved accounts => if account ∈ accounts then some false else none
  | .ownable _ => none

/-- What an event tells about the owner. -/
def Event.ownership : Event → Option Ownable2Step.Event
  | .ownable event => some event
  | _ => none

/-- The event tells all that was written. -/
structure Tells (s : Blocklist) (e : Event) (t : Blocklist) : Prop where
  listed : ∀ account, t.isBlocked account = (e.lists account).getD (s.isBlocked account)
  owner : t.owner = (e.ownership.bind Ownable2Step.Event.owner).getD s.owner
  pendingOwner : t.pendingOwner = (e.ownership.map Ownable2Step.Event.nominee).getD s.pendingOwner

variable {s t : Blocklist} {caller account : Address} {call : Call}

theorem setBlocked_isBlocked {accounts : List Address} {blocked : Bool} :
    (s.setBlocked accounts blocked).isBlocked account = if account ∈ accounts then blocked else s.isBlocked account := by
  show accounts.foldl (fun flags account => update flags account blocked) s.blockedAddresses account = _
  induction accounts using List.reverseRecOn with
  | nil => rfl
  | append_singleton accounts last ih =>
    rw [List.foldl_append, List.foldl_cons, List.foldl_nil]
    by_cases hlast : account = last
    · subst hlast
      rw [update_self, if_pos (List.mem_append_right _ (List.mem_singleton_self _))]
    · rw [update_of_ne hlast, ih]
      simp only [List.mem_append, List.mem_singleton, hlast, or_false]

theorem exec_told (h : exec caller call s = .ok t) : ∃ e, t.events = s.events ++ [e] ∧ Tells s e t := by
  cases call with
  | addToBlocklist accounts =>
    obtain ⟨_, -, h⟩ := bind_eq_ok.mp h
    obtain rfl := pure_eq_ok.mp h
    refine ⟨.blockedAddressesAdded accounts, rfl, fun account => ?_, rfl, rfl⟩
    refine setBlocked_isBlocked.trans ?_
    rw [Event.lists]
    split <;> rfl
  | removeFromBlocklist accounts =>
    obtain ⟨_, -, h⟩ := bind_eq_ok.mp h
    obtain rfl := pure_eq_ok.mp h
    refine ⟨.blockedAddressesRemoved accounts, rfl, fun account => ?_, rfl, rfl⟩
    refine setBlocked_isBlocked.trans ?_
    rw [Event.lists]
    split <;> rfl
  | ownable call =>
    obtain ⟨⟨owners, event⟩, howners, h⟩ := bind_eq_ok.mp h
    obtain rfl := pure_eq_ok.mp h
    obtain ⟨howner, hpending⟩ := (Ownable2Step.exec_passes howners).told
    exact ⟨.ownable event, rfl, fun _ => rfl, howner, hpending⟩

/-- Nothing, not even an owner. -/
def blank : Blocklist := ⟨⟨0, 0⟩, fun _ => false, []⟩

theorem run_told (sender : Address) (acts : List (Address × Call)) :
    let t := Machine.run act (deploy sender) acts
    Trail Tells blank t.events t := by
  refine (Machine.invariant_any (I := fun t : Blocklist => Trail Tells blank t.events t) ?_ fun s a t hs h => ?_).1
  · exact .single ⟨fun _ => rfl, rfl, rfl⟩
  · obtain ⟨e, hevents, htold⟩ := exec_told (toOption_eq_some.mp h)
    rw [hevents]
    exact hs.snoc htold

/-- The log tells who is blocked, and the owners. -/
theorem log_tells (sender : Address) (acts : List (Address × Call)) :
    let t := Machine.run act (deploy sender) acts
    (∀ account, t.isBlocked account = (t.events.filterMap (Event.lists account)).getLast?.getD false) ∧
      t.owner = ((t.events.filterMap Event.ownership).filterMap Ownable2Step.Event.owner).getLast?.getD 0 ∧
      t.pendingOwner = ((t.events.filterMap Event.ownership).map Ownable2Step.Event.nominee).getLast?.getD 0 := by
  intro t
  have htrail : Trail Tells blank t.events t := run_told sender acts
  refine ⟨fun account => ?_, ?_, ?_⟩
  · exact htrail.last_write (f := fun s : Blocklist => s.isBlocked account) fun _ _ _ h => h.listed account
  · rw [List.filterMap_filterMap]
    exact htrail.last_write (f := fun s : Blocklist => s.owner) fun _ _ _ h => h.owner
  · rw [List.map_filterMap]
    exact htrail.last_write (f := fun s : Blocklist => s.pendingOwner) fun _ _ _ h => h.pendingOwner

end Blocklist

namespace Allowlist

/-- Whether the event puts the account on the list or takes it off. -/
def Event.lists (account : Address) : Event → Option Bool
  | .allowedAddressesAdded accounts => if account ∈ accounts then some true else none
  | .allowedAddressesRemoved accounts => if account ∈ accounts then some false else none
  | .ownable _ => none

/-- What an event tells about the owner. -/
def Event.ownership : Event → Option Ownable2Step.Event
  | .ownable event => some event
  | _ => none

theorem log_tells (sender : Address) (acts : List (Address × Call)) :
    let t := Machine.run act (deploy sender) acts
    (∀ account, t.isAllowed account = (t.events.filterMap (Event.lists account)).getLast?.getD false) ∧
      t.owner = ((t.events.filterMap Event.ownership).filterMap Ownable2Step.Event.owner).getLast?.getD 0 ∧
      t.pendingOwner = ((t.events.filterMap Event.ownership).map Ownable2Step.Event.nominee).getLast?.getD 0 := by
  intro t
  have htwin : t.twin = Machine.run Blocklist.act (.deploy sender) (acts.map fun a => (a.1, a.2.twin)) := run_twin _ acts
  have hevents : (Machine.run Blocklist.act (.deploy sender) (acts.map fun a => (a.1, a.2.twin))).events =
      t.events.map Event.twin := (congrArg Blocklist.events htwin).symm
  have hownership : Blocklist.Event.ownership ∘ Event.twin = Event.ownership := by
    funext e
    cases e <;> rfl
  have hlists : ∀ account, Blocklist.Event.lists account ∘ Event.twin = Event.lists account := by
    intro account
    funext e
    cases e <;> rfl
  obtain ⟨hblocked, howner, hpending⟩ := Blocklist.log_tells sender (acts.map fun a => (a.1, a.2.twin))
  rw [hevents, List.filterMap_map, hownership, ← htwin] at howner hpending
  refine ⟨fun account => ?_, howner, hpending⟩
  have hlisted := hblocked account
  rw [hevents, List.filterMap_map, hlists, ← htwin] at hlisted
  exact hlisted

end Allowlist

/-- After every run of calls by anybody, the log of a list tells all of it: an account is on the list exactly when the last
    entry that names it put it there, and the owner and the account named to follow are those of the last entry about
    them. -/
theorem lists_logged (sender : Address) :
    (∀ acts : List (Address × Blocklist.Call), let t := Machine.run Blocklist.act (.deploy sender) acts
      (∀ account, t.isBlocked account = (t.events.filterMap (Blocklist.Event.lists account)).getLast?.getD false) ∧
      t.owner = ((t.events.filterMap Blocklist.Event.ownership).filterMap Ownable2Step.Event.owner).getLast?.getD 0 ∧
      t.pendingOwner = ((t.events.filterMap Blocklist.Event.ownership).map Ownable2Step.Event.nominee).getLast?.getD 0) ∧
    ∀ acts : List (Address × Allowlist.Call), let t := Machine.run Allowlist.act (.deploy sender) acts
      (∀ account, t.isAllowed account = (t.events.filterMap (Allowlist.Event.lists account)).getLast?.getD false) ∧
      t.owner = ((t.events.filterMap Allowlist.Event.ownership).filterMap Ownable2Step.Event.owner).getLast?.getD 0 ∧
      t.pendingOwner = ((t.events.filterMap Allowlist.Event.ownership).map Ownable2Step.Event.nominee).getLast?.getD 0 :=
  ⟨Blocklist.log_tells sender, Allowlist.log_tells sender⟩

end Usdy
