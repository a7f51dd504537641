import Usdy.Proxy

/-! Who decides over the code behind a proxy, where that code writes only storage of its own. While no call of its
    owner to the admin contract succeeds, the proxy is the contract behind it; and the implementation is always a
    contract that the one in control chose last. -/

namespace Usdy
open Checked Function

variable {E S D : Type}

/-! ### One call of a proxy -/

namespace TransparentUpgradeableProxy
variable {code : Address → Option (Code E S D)} {env : E} {run : Code E S D} {p q : TransparentUpgradeableProxy S}
  {caller newImplementation newAdmin : Address} {data : Data D} {forceCall : Bool}

theorem internalChangeAdmin_eq_ok :
    internalChangeAdmin newAdmin p = .ok q ↔ newAdmin ≠ 0 ∧ q = { p with admin := newAdmin } := by
  simp only [internalChangeAdmin, bind_eq_ok, exists_unit_iff, revertIf_eq_ok, pure_eq_ok, eq_comm (b := q), ne_eq]

theorem functionDelegateCall_inv (h : functionDelegateCall code env caller newImplementation data p = .ok q) :
    ∃ storage, q = { p with storage } := by
  obtain ⟨run, -, h⟩ := bind_eq_ok.mp h
  obtain ⟨storage, -, h⟩ := bind_eq_ok.mp h
  exact ⟨storage, (pure_eq_ok.mp h).symm⟩

theorem internalUpgradeToAndCall_inv
    (h : internalUpgradeToAndCall code env caller newImplementation data forceCall p = .ok q) :
    (code newImplementation).isSome = true ∧ ∃ storage, q = { p with implementation := newImplementation, storage } := by
  obtain ⟨u, hu, h⟩ := bind_eq_ok.mp h
  simp only [internalUpgradeTo, bind_eq_ok, exists_unit_iff, revertIf_eq_ok, pure_eq_ok] at hu
  obtain ⟨hcode, rfl⟩ := hu
  refine ⟨Option.isSome_iff_ne_none.mpr fun hnone => hcode (Option.isNone_iff_eq_none.mpr hnone), ?_⟩
  split at h
  · exact functionDelegateCall_inv h
  · exact ⟨p.storage, (pure_eq_ok.mp h).symm⟩

theorem delegate_inv (h : p.delegate code env caller data = .ok q) : ∃ storage, q = { p with storage } := by
  unfold delegate at h
  split at h
  · obtain ⟨storage, -, h⟩ := bind_eq_ok.mp h
    exact ⟨storage, (pure_eq_ok.mp h).symm⟩
  · exact ⟨p.storage, (pure_eq_ok.mp h).symm⟩

/-- A call by anybody else than the admin runs the code of the implementation. -/
theorem exec_of_ne (hc : caller ≠ p.admin) (hcode : code p.implementation = some run) :
    (p.exec code env caller data).toOption = (run env caller data p.storage).map fun storage => { p with storage } := by
  have hfallback : p.exec code env caller data = p.delegate code env caller data := by
    simp only [exec, if_neg hc, fallback, revertIf]
    rfl
  rw [hfallback, delegate, hcode]
  show (orFail Err.reverted (run env caller data p.storage) >>= fun storage => pure { p with storage }).toOption = _
  cases run env caller data p.storage <;> rfl

/-- The admin is not let through to the implementation. -/
theorem exec_call_inv {d : D} (hcode : code p.implementation = some run) (h : p.exec code env caller (.call d) = .ok q) :
    ∃ storage, run env caller (.call d) p.storage = some storage ∧ q = { p with storage } := by
  have hfallback : p.exec code env caller (.call d) = p.fallback code env caller (.call d) := by
    unfold exec
    split <;> rfl
  obtain ⟨_, hc, -⟩ := bind_eq_ok.mp (hfallback.symm.trans h)
  have hexec := (exec_of_ne (revertIf_eq_ok.mp hc) hcode).symm.trans (toOption_eq_some.mpr h)
  obtain ⟨storage, hstorage, rfl⟩ := Option.map_eq_some_iff.mp hexec
  exact ⟨storage, hstorage, rfl⟩

/-- The implementation that a call chooses. -/
def chosen (p : TransparentUpgradeableProxy S) (caller : Address) : Data D → Option Address
  | .upgradeTo newImplementation | .upgradeToAndCall newImplementation _ =>
    if caller = p.admin then some newImplementation else none
  | _ => none

/-- The admin that a call appoints. -/
def appointed (p : TransparentUpgradeableProxy S) (caller : Address) : Data D → Option Address
  | .changeAdmin newAdmin => if caller = p.admin then some newAdmin else none
  | _ => none

/-- What a call writes next to the storage of the implementation. -/
structure Wrote (code : Address → Option (Code E S D)) (caller : Address) (data : Data D)
    (p q : TransparentUpgradeableProxy S) : Prop where
  implementation : q.implementation = (p.chosen caller data).getD p.implementation
  admin : q.admin = (p.appointed caller data).getD p.admin
  code : ∀ newImplementation, p.chosen caller data = some newImplementation → (code newImplementation).isSome = true

theorem fallback_wrote (h : p.fallback code env caller data = .ok q) : Wrote code caller data p q := by
  simp only [fallback, bind_eq_ok, exists_unit_iff, revertIf_eq_ok] at h
  obtain ⟨hc, h⟩ := h
  obtain ⟨storage, rfl⟩ := delegate_inv h
  cases data with
  | upgradeTo newImplementation | upgradeToAndCall newImplementation data =>
    exact ⟨by rw [chosen, if_neg hc, Option.getD_none], rfl, fun _ h => by rw [chosen, if_neg hc] at h; cases h⟩
  | changeAdmin newAdmin => exact ⟨rfl, by rw [appointed, if_neg hc, Option.getD_none], nofun⟩
  | _ => exact ⟨rfl, rfl, nofun⟩

theorem exec_wrote (h : p.exec code env caller data = .ok q) : Wrote code caller data p q := by
  unfold exec at h
  split at h
  · rename_i hc
    cases data with
    | admin | implementation =>
      obtain rfl := pure_eq_ok.mp h
      exact ⟨rfl, rfl, nofun⟩
    | changeAdmin newAdmin =>
      obtain ⟨-, rfl⟩ := internalChangeAdmin_eq_ok.mp h
      exact ⟨rfl, by rw [appointed, if_pos hc, Option.getD_some], nofun⟩
    | upgradeTo newImplementation | upgradeToAndCall newImplementation data =>
      obtain ⟨hcode, storage, rfl⟩ := internalUpgradeToAndCall_inv h
      refine ⟨by rw [chosen, if_pos hc, Option.getD_some], rfl, fun i hi => ?_⟩
      rw [chosen, if_pos hc] at hi
      exact Option.some.inj hi ▸ hcode
    | empty | call d => exact fallback_wrote h
  · exact fallback_wrote h

end TransparentUpgradeableProxy

/-! ### Calls of the system -/

namespace Upgradeable
variable {s t : Upgradeable E S D} {sender : Sender} {message : Message D} {a : Action E S D}

/-- The call that reaches the proxy, with its sender. -/
def received (s : Upgradeable E S D) (caller : Address) : Message D → Option (Address × Data D)
  | .proxy data => some (caller, data)
  | .proxyAdmin call =>
    match call.forwarded with
    | some (proxy, data) => if proxy = s.proxyAddress then some (s.proxyAdminAddress, data) else none
    | none => none

/-- The owner that a call of the admin contract leaves. -/
def successor : Message D → Option Address
  | .proxyAdmin .renounceOwnership => some 0
  | .proxyAdmin (.transferOwnership newOwner) => some newOwner
  | _ => none

/-- What a message does: who gets a call of the admin contract through owns it, and it is either about the owner or
    sends one call to the proxy at most. -/
structure Did (caller : Address) (message : Message D) (s t : Upgradeable E S D) : Prop where
  owner : ∀ call, message = .proxyAdmin call → s.proxyAdmin.owner = caller
  ownerAfter : t.proxyAdmin.owner = (successor message).getD s.proxyAdmin.owner
  received : ∀ x, s.received caller message = some x → s.proxy.exec s.code s.env x.1 x.2 = .ok t.proxy
  silent : s.received caller message = none → t.proxy = s.proxy
  kept : t = { s with proxy := t.proxy, proxyAdmin := t.proxyAdmin }

theorem onlyOwner_eq_ok {p : ProxyAdmin} {caller : Address} {u : Unit} :
    p.onlyOwner caller = .ok u ↔ p.owner = caller := by
  rw [ProxyAdmin.onlyOwner, revertIf_eq_ok, ne_eq, not_not]

/-- A call that the admin contract forwards. -/
theorem forward_inv {proxy : Address} {data : Data D}
    (h : (if proxy = s.proxyAddress then do
        let proxy ← raise .proxy (s.proxy.exec s.code s.env s.proxyAdminAddress data)
        return { s with proxy }
      else return s) = (.ok t : Except ProxyAdmin.Err (Upgradeable E S D))) :
    (proxy = s.proxyAddress → s.proxy.exec s.code s.env s.proxyAdminAddress data = .ok t.proxy) ∧
      (proxy ≠ s.proxyAddress → t.proxy = s.proxy) ∧ t = { s with proxy := t.proxy } := by
  split at h
  · rename_i hproxy
    obtain ⟨q, hq, h⟩ := bind_eq_ok.mp h
    obtain rfl := pure_eq_ok.mp h
    exact ⟨fun _ => raise_eq_ok.mp hq, fun hne => absurd hproxy hne, rfl⟩
  · rename_i hproxy
    obtain rfl := pure_eq_ok.mp h
    exact ⟨fun heq => absurd heq hproxy, fun _ => rfl, rfl⟩

theorem exec_did {caller : Address} (h : exec caller message s = .ok t) : Did caller message s t := by
  cases message with
  | proxy data =>
    obtain ⟨proxy, hproxy, h⟩ := bind_eq_ok.mp h
    obtain rfl := pure_eq_ok.mp h
    exact ⟨nofun, rfl, fun _ hx => Option.some.inj hx ▸ raise_eq_ok.mp hproxy, nofun, rfl⟩
  | proxyAdmin call =>
    cases call with
    | renounceOwnership =>
      simp only [exec, ProxyAdmin.renounceOwnership, bind_eq_ok, exists_unit_iff, onlyOwner_eq_ok, pure_eq_ok] at h
      obtain ⟨_, ⟨howner, rfl⟩, rfl⟩ := h
      exact ⟨fun _ _ => howner, rfl, nofun, fun _ => rfl, rfl⟩
    | transferOwnership newOwner =>
      simp only [exec, ProxyAdmin.transferOwnership, bind_eq_ok, exists_unit_iff, onlyOwner_eq_ok, pure_eq_ok] at h
      obtain ⟨_, ⟨howner, -, rfl⟩, rfl⟩ := h
      exact ⟨fun _ _ => howner, rfl, nofun, fun _ => rfl, rfl⟩
    | changeProxyAdmin proxy newAdmin | upgrade proxy implementation | upgradeAndCall proxy implementation data =>
      obtain ⟨_, howner, h⟩ := bind_eq_ok.mp h
      obtain ⟨hproxy, hother, heq⟩ := forward_inv h
      refine ⟨fun _ _ => onlyOwner_eq_ok.mp howner, by rw [heq]; rfl, fun x hx => ?_, fun hnone => ?_, by rw [heq]⟩
      · obtain ⟨hp, hx⟩ := Option.ite_none_right_eq_some.mp hx
        cases hx
        exact hproxy hp
      · exact hother fun hp => Option.some_ne_none _ ((if_pos hp).symm.trans hnone)

theorem act_message : act s (.message sender message) = some t ↔
    (sender.address ≠ s.proxyAdminAddress ∧ sender.address ≠ s.proxyAddress) ∧ exec sender.address message s = .ok t := by
  rw [act, Option.ite_none_left_eq_some, not_or, toOption_eq_some]

/-! ### Runs without the owner -/

/-- A contract by itself: its storage, and what the other contracts answer. -/
structure Contract (E S : Type) where
  env : E
  storage : S

namespace Contract

/-- Somebody calls the contract, or another contract comes to answer otherwise. -/
inductive Action (E D : Type)
  | call (sender : Sender) (data : Data D)
  | env (env : E)

/-- What an action makes of the contract by itself. -/
def act (run : Code E S D) (c : Contract E S) : Action E D → Option (Contract E S)
  | .call sender data => (run c.env sender.address data c.storage).map fun storage => { c with storage }
  | .env env => some { c with env }

end Contract

/-- The contract behind the proxy. -/
def contract (s : Upgradeable E S D) : Contract E S := ⟨s.env, s.proxy.storage⟩

/-- What an action is to the contract behind the proxy. -/
def delegated (s : Upgradeable E S D) : Action E S D → Option (Contract.Action E D)
  | .message sender (.proxy data) =>
    if sender.address = s.proxyAdminAddress ∨ sender.address = s.proxyAddress then none else some (.call sender data)
  | .env env => some (.env env)
  | _ => none

theorem delegated_call {data : Data D} (h : s.delegated a = some (.call sender data)) :
    a = .message sender (.proxy data) := by
  cases a with
  | message sender message =>
    cases message with
    | proxy data =>
      obtain ⟨-, h⟩ := Option.ite_none_left_eq_some.mp h
      cases h
      rfl
    | proxyAdmin call => cases h
  | _ => cases h

/-- The owner of the admin contract calls it. -/
def Action.byOwner (s : Upgradeable E S D) : Action E S D → Bool
  | .message sender (.proxyAdmin _) => sender.address == s.proxyAdmin.owner
  | _ => false

/-- What a run without the owner leaves as it was. -/
structure Settled (s t : Upgradeable E S D) : Prop where
  proxyAddress : t.proxyAddress = s.proxyAddress
  proxyAdminAddress : t.proxyAdminAddress = s.proxyAdminAddress
  admin : t.proxy.admin = s.proxy.admin
  implementation : t.proxy.implementation = s.proxy.implementation
  owner : t.proxyAdmin = s.proxyAdmin
  code : t.code s.proxy.implementation = s.code s.proxy.implementation

section Settled
variable {u : Upgradeable E S D} {run : Code E S D} {data : Data D}

/-- A call to the proxy runs the implementation, and the rest of the system stays. -/
theorem Settled.act_proxy (hu : Settled s u) (hadmin : s.proxy.admin = s.proxyAdminAddress)
    (hcode : s.code s.proxy.implementation = some run) :
    act u (.message sender (.proxy data)) =
      if sender.address = s.proxyAdminAddress ∨ sender.address = s.proxyAddress then none
        else (run u.env sender.address data u.proxy.storage).map
          fun storage => { u with proxy := { u.proxy with storage } } := by
  rw [act, ← hu.proxyAdminAddress, ← hu.proxyAddress]
  refine ite_congr rfl (fun _ => rfl) fun hne => ?_
  have hc : sender.address ≠ u.proxy.admin := by
    rw [hu.admin, hadmin, ← hu.proxyAdminAddress]
    exact fun h => hne (.inl h)
  have hrun : u.code u.proxy.implementation = some run := hu.implementation ▸ hu.code.trans hcode
  have hexec : (u.proxy.exec u.code u.env sender.address data).toOption =
      (run u.env sender.address data u.proxy.storage).map fun storage => { u.proxy with storage } :=
    TransparentUpgradeableProxy.exec_of_ne hc hrun
  have hmap : (exec sender.address (.proxy data) u).toOption =
      (u.proxy.exec u.code u.env sender.address data).toOption.map fun proxy => { u with proxy } := by
    rw [exec]
    cases u.proxy.exec u.code u.env sender.address data <;> rfl
  rw [hmap, hexec, Option.map_map]
  rfl

theorem Settled.step (hu : Settled s u) (hadmin : s.proxy.admin = s.proxyAdminAddress)
    (hcode : s.code s.proxy.implementation = some run) (howner : a.byOwner u = false) (h : act u a = some t) : Settled s t := by
  cases a with
  | message sender message =>
    cases message with
    | proxy data =>
      rw [hu.act_proxy hadmin hcode, Option.ite_none_left_eq_some, Option.map_eq_some_iff] at h
      obtain ⟨-, storage, -, rfl⟩ := h
      exact ⟨hu.proxyAddress, hu.proxyAdminAddress, hu.admin, hu.implementation, hu.owner, hu.code⟩
    | proxyAdmin call => exact absurd ((exec_did (act_message.mp h).2).owner call rfl).symm (beq_eq_false_iff_ne.mp howner)
  | env env =>
    cases h
    exact ⟨hu.proxyAddress, hu.proxyAdminAddress, hu.admin, hu.implementation, hu.owner, hu.code⟩
  | deployed address code =>
    obtain ⟨hnone, h⟩ := Option.ite_none_right_eq_some.mp h
    cases h
    refine ⟨hu.proxyAddress, hu.proxyAdminAddress, hu.admin, hu.implementation, hu.owner, ?_⟩
    have hne : s.proxy.implementation ≠ address := by
      rintro rfl
      rw [hu.code, hcode] at hnone
      cases hnone
    exact (update_of_ne hne ..).trans hu.code

theorem run_transparent {acts : List (Action E S D)} (hadmin : s.proxy.admin = s.proxyAdminAddress)
    (hcode : s.code s.proxy.implementation = some run)
    (h : Machine.Obeys act (fun u a => a.byOwner u = false) s acts) :
    Settled s (Machine.run act s acts) ∧
      (Machine.run act s acts).contract = Machine.run (Contract.act run) s.contract (acts.filterMap s.delegated) := by
  refine Machine.simulates (I := Settled s) h ⟨rfl, rfl, rfl, rfl, rfl, rfl⟩
    (fun u a t hu howner => hu.step hadmin hcode howner) (fun u a t hu howner hact hnone => ?_)
    fun u a b hu hb => ?_
  · cases a with
    | message sender message =>
      cases message with
      | proxy data =>
        rw [hu.act_proxy hadmin hcode, Option.ite_none_left_eq_some] at hact
        rw [delegated, if_neg hact.1] at hnone
        cases hnone
      | proxyAdmin call =>
        exact absurd ((exec_did (act_message.mp hact).2).owner call rfl).symm (beq_eq_false_iff_ne.mp howner)
    | env env => cases hnone
    | deployed address code =>
      obtain ⟨-, hact⟩ := Option.ite_none_right_eq_some.mp hact
      cases hact
      rfl
  · cases a with
    | message sender message =>
      cases message with
      | proxy data =>
        obtain ⟨hne, hb⟩ := Option.ite_none_left_eq_some.mp hb
        cases hb
        rw [hu.act_proxy hadmin hcode, if_neg hne, Option.map_map]
        rfl
      | proxyAdmin call => cases hb
    | env env =>
      cases hb
      rfl
    | deployed address code => cases hb

/-- While no call of its owner to the admin contract succeeds, whoever else calls whatever, the proxy is the contract
    behind it, whose code writes only storage of its own: implementation, admin and owner stay, what calls did to the
    storage is what the code of the implementation does when it is called directly, and so does the next call succeed or
    fail. -/
theorem transparent (s : Upgradeable E S D) (acts : List (Action E S D)) (run : Code E S D)
    (hadmin : s.proxy.admin = s.proxyAdminAddress) (hcode : s.code s.proxy.implementation = some run)
    (h : Machine.Obeys act (fun u a => a.byOwner u = false) s acts) :
    let t := Machine.run act s acts
    Settled s t ∧ t.contract = Machine.run (Contract.act run) s.contract (acts.filterMap s.delegated) ∧
      ∀ sender data, sender.address ≠ s.proxyAdminAddress → sender.address ≠ s.proxyAddress →
        (act t (.message sender (.proxy data))).map contract = Contract.act run t.contract (.call sender data) := by
  intro t
  obtain ⟨hsettled, hcontract⟩ := run_transparent hadmin hcode h
  refine ⟨hsettled, hcontract, fun sender data hne hne' => ?_⟩
  rw [hsettled.act_proxy hadmin hcode, if_neg (not_or.mpr ⟨hne, hne'⟩), Option.map_map]
  rfl

/-- The action is a message of the account. -/
def Action.sentBy (account : Address) : Action E S D → Prop
  | .message sender _ => sender.address = account
  | _ => False

theorem Settled.not_byOwner (hu : Settled s u) (h : ¬a.sentBy s.proxyAdmin.owner) : a.byOwner u = false := by
  cases a with
  | message sender message =>
    cases message with
    | proxy data => rfl
    | proxyAdmin call =>
      rw [← hu.owner] at h
      exact beq_eq_false_iff_ne.mpr h
  | _ => rfl

theorem obeys_of_silent {acts : List (Action E S D)} (hadmin : s.proxy.admin = s.proxyAdminAddress)
    (hcode : s.code s.proxy.implementation = some run) (h : ∀ a ∈ acts, ¬a.sentBy s.proxyAdmin.owner) :
    Machine.Obeys act (fun u a => a.byOwner u = false) s acts := by
  have hall := (Machine.invariant (I := Settled s) (Machine.obeys_of_forall h) ⟨rfl, rfl, rfl, rfl, rfl, rfl⟩
    fun u a t hu ha hact => hu.step hadmin hcode (hu.not_byOwner ha) hact).2
  exact fun x hx => (hall x hx).1.not_byOwner (h _ (Machine.action_mem hx))

end Settled

namespace Sample
open Usdy.Sample (admin alice bob)

/-- A contract that adds what it is called with. -/
def adder : Code Unit Nat Nat := fun _ _ data total =>
  match data with
  | .call n => some (total + n)
  | _ => none

/-- A proxy at `0x9` of a contract at `0xe`, with its admin contract at `0x8`. -/
def system : Upgradeable Unit Nat Nat where
  code := fun address => if address = 0xe then some adder else none
  env := ()
  proxyAddress := 0x9
  proxy := ⟨0xe, 0x8, 0⟩
  proxyAdminAddress := 0x8
  proxyAdmin := .deploy admin.address

/-- Another sender than the owner tries to upgrade, in both ways. -/
def calls : List (Action Unit Nat Nat) :=
  [.message alice (.proxy (.call 2)), .deployed 0xf adder, .message bob (.proxyAdmin (.upgrade 0x9 0xf)),
    .message bob (.proxy (.upgradeTo 0xf)), .message bob (.proxy (.call 3))]

end Sample

theorem transparent_calls :
    let t := Machine.run act Sample.system Sample.calls
    t.proxy.storage = 5 ∧ t.proxy.implementation = 0xe ∧
      t.contract = Machine.run (Contract.act Sample.adder) ⟨(), 0⟩
        [.call Usdy.Sample.alice (.call 2), .call Usdy.Sample.bob (.upgradeTo 0xf), .call Usdy.Sample.bob (.call 3)] := by
  intro t
  obtain ⟨hsettled, hcontract, -⟩ := transparent Sample.system Sample.calls Sample.adder rfl rfl (by decide +kernel)
  exact ⟨by decide +kernel, hsettled.implementation, hcontract⟩

/-! ### Who decides over the implementation -/

/-- Who is in control of the proxy: its admin, or the owner of the admin contract when that is the admin. -/
def controller (s : Upgradeable E S D) : Address :=
  if s.proxy.admin = s.proxyAdminAddress then s.proxyAdmin.owner else s.proxy.admin

section Written
variable (x : Machine.Success (Upgradeable E S D) (Action E S D))

/-- What a call that reaches the proxy writes next to the storage of the implementation. -/
def written (write : TransparentUpgradeableProxy S → Address → Data D → Option Address) : Option Address :=
  match x.action with
  | .message sender message => (x.before.received sender.address message).bind fun y => write x.before.proxy y.1 y.2
  | _ => none

/-- The implementation that the step upgrades to. -/
def newImplementation : Option Address := written x TransparentUpgradeableProxy.chosen

/-- The account that the step makes the admin of the proxy. -/
def newAdmin : Option Address := written x TransparentUpgradeableProxy.appointed

/-- The owner that the step gives the ProxyAdmin. -/
def newOwner : Option Address :=
  match x.action with
  | .message _ message => successor message
  | _ => none

end Written

theorem act_writes (h : act s a = some t) :
    t.proxy.implementation = (newImplementation ⟨s, a, t⟩).getD s.proxy.implementation ∧
      t.proxy.admin = (newAdmin ⟨s, a, t⟩).getD s.proxy.admin ∧
      t.proxyAdmin.owner = (newOwner ⟨s, a, t⟩).getD s.proxyAdmin.owner := by
  cases a with
  | message sender message =>
    have hdid := exec_did (act_message.mp h).2
    cases hreceived : s.received sender.address message with
    | none =>
      refine ⟨?_, ?_, hdid.ownerAfter⟩
      · simp only [newImplementation, written, hreceived, Option.bind_none, Option.getD_none, hdid.silent hreceived]
      · simp only [newAdmin, written, hreceived, Option.bind_none, Option.getD_none, hdid.silent hreceived]
    | some x =>
      have hwrote := TransparentUpgradeableProxy.exec_wrote (hdid.received x hreceived)
      refine ⟨?_, ?_, hdid.ownerAfter⟩
      · simp only [newImplementation, written, hreceived, Option.bind_some, hwrote.implementation]
      · simp only [newAdmin, written, hreceived, Option.bind_some, hwrote.admin]
  | env env =>
    cases h
    exact ⟨rfl, rfl, rfl⟩
  | deployed address code =>
    obtain ⟨-, h⟩ := Option.ite_none_right_eq_some.mp h
    cases h
    exact ⟨rfl, rfl, rfl⟩

/-- A write that only the admin of the proxy may make, is made by the one in control. -/
theorem written_controller {write : TransparentUpgradeableProxy S → Address → Data D → Option Address}
    (hwrite : ∀ p caller data b, write p caller data = some b → caller = p.admin) (h : act s a = some t) {b : Address}
    (hw : written ⟨s, a, t⟩ write = some b) : a.sentBy s.controller := by
  cases a with
  | message sender message =>
    obtain ⟨⟨hne, -⟩, hexec⟩ := act_message.mp h
    obtain ⟨x, hx, hw⟩ := Option.bind_eq_some_iff.mp hw
    have hadmin : x.1 = s.proxy.admin := hwrite _ _ _ _ hw
    show sender.address = s.controller
    cases message with
    | proxy data =>
      obtain rfl := Option.some.inj hx
      have hadmin : sender.address = s.proxy.admin := hadmin
      rw [controller, if_neg (hadmin ▸ hne), hadmin]
    | proxyAdmin call =>
      rw [received] at hx
      split at hx
      · obtain ⟨-, hx⟩ := Option.ite_none_right_eq_some.mp hx
        obtain rfl := Option.some.inj hx
        rw [controller, if_pos hadmin.symm, (exec_did hexec).owner call rfl]
      · cases hx
  | env env => cases hw
  | deployed address code => cases hw

theorem newOwner_owner (h : act s a = some t) {b : Address} (hw : newOwner ⟨s, a, t⟩ = some b) :
    a.sentBy s.proxyAdmin.owner := by
  cases a with
  | message sender message =>
    obtain ⟨-, hexec⟩ := act_message.mp h
    cases message with
    | proxy data => cases hw
    | proxyAdmin call => exact ((exec_did hexec).owner call rfl).symm
  | env env => cases hw
  | deployed address code => cases hw

/-- There is always code behind the proxy. -/
theorem act_code (h : act s a = some t) (hcode : (s.code s.proxy.implementation).isSome = true) :
    (t.code t.proxy.implementation).isSome = true := by
  cases a with
  | message sender message =>
    have hdid := exec_did (act_message.mp h).2
    have hkept : t.code = s.code := by rw [hdid.kept]
    rw [hkept]
    cases hreceived : s.received sender.address message with
    | none => rwa [hdid.silent hreceived]
    | some x =>
      have hwrote := TransparentUpgradeableProxy.exec_wrote (hdid.received x hreceived)
      rw [hwrote.implementation]
      cases hchosen : s.proxy.chosen x.1 x.2 with
      | none => rwa [Option.getD_none]
      | some i => exact hwrote.code i hchosen
  | env env =>
    cases h
    exact hcode
  | deployed address code =>
    obtain ⟨hnone, h⟩ := Option.ite_none_right_eq_some.mp h
    cases h
    have hne : s.proxy.implementation ≠ address := by
      rintro rfl
      rw [Option.isNone_iff_eq_none.mp hnone] at hcode
      cases hcode
    show (update s.code address (some code) s.proxy.implementation).isSome = true
    rwa [update_of_ne hne]

/-- In any run, the implementation, the admin and the owner of the admin contract are those written last; only the
    one in control writes the first two, only the owner the third, and there is always code behind the proxy, so a call
    never succeeds without running it. -/
theorem controlled (s : Upgradeable E S D) (acts : List (Action E S D))
    (hcode : (s.code s.proxy.implementation).isSome = true) :
    let t := Machine.run act s acts
    let xs := Machine.successes act s acts
    (t.proxy.implementation = (xs.filterMap newImplementation).getLast?.getD s.proxy.implementation ∧
      t.proxy.admin = (xs.filterMap newAdmin).getLast?.getD s.proxy.admin ∧
      t.proxyAdmin.owner = (xs.filterMap newOwner).getLast?.getD s.proxyAdmin.owner) ∧
    (∀ x ∈ xs, ∀ b, newImplementation x = some b ∨ newAdmin x = some b → x.action.sentBy x.before.controller) ∧
    (∀ x ∈ xs, ∀ b, newOwner x = some b → x.action.sentBy x.before.proxyAdmin.owner) ∧
    (t.code t.proxy.implementation).isSome = true := by
  intro t xs
  refine ⟨⟨?_, ?_, ?_⟩, fun x hx b hb => ?_, fun x hx b => newOwner_owner (Machine.act_of_mem hx), ?_⟩
  · exact Machine.last_write (I := fun _ => True) trivial (fun _ _ _ _ _ => trivial) fun s a t _ h => (act_writes h).1
  · exact Machine.last_write (I := fun _ => True) trivial (fun _ _ _ _ _ => trivial) fun s a t _ h => (act_writes h).2.1
  · exact Machine.last_write (I := fun _ => True) trivial (fun _ _ _ _ _ => trivial) fun s a t _ h => (act_writes h).2.2
  · rcases hb with hb | hb
    · refine written_controller (fun p caller data b hw => ?_) (Machine.act_of_mem hx) hb
      cases data <;> first | exact (Option.ite_none_right_eq_some.mp hw).1 | cases hw
    · refine written_controller (fun p caller data b hw => ?_) (Machine.act_of_mem hx) hb
      cases data <;> first | exact (Option.ite_none_right_eq_some.mp hw).1 | cases hw
  · exact (Machine.invariant_any (I := fun s : Upgradeable E S D => (s.code s.proxy.implementation).isSome = true) hcode
      fun s a t hs h => act_code h hs).1

theorem controlled_calls :
    let acts := Sample.calls ++ [.message Usdy.Sample.admin (.proxyAdmin (.upgrade 0x9 0xf))]
    let t := Machine.run act Sample.system acts
    t.proxy.implementation = 0xf ∧ (t.code t.proxy.implementation).isSome = true := by
  intro acts t
  exact ⟨by decide +kernel, (controlled Sample.system acts rfl).2.2.2⟩

end Upgradeable

end Usdy
