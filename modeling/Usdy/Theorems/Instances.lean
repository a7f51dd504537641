import Usdy.Instance
import Usdy.Theorems.Roles
import Usdy.Theorems.TokenSupply
import Usdy.Theorems.Upgrades

/-! A `USDY` is initialized once. Then its code does what the calls of the token do; and while nobody who calls it holds
    a role, there is nothing to hold and nothing changes but allowances. -/

namespace Usdy
open Checked Function

namespace USDY

/-! ### Callers without roles -/

section Outside
variable {lists : Lists} {s t : USDY} {caller : Address} {call : Call}

/-- What a caller without any role leaves as it was. -/
structure Outside (s t : USDY) : Prop where
  roles : t.toAccessControl = s.toAccessControl
  paused : t.paused = s.paused
  blocklist : t.blocklist = s.blocklist
  allowlist : t.allowlist = s.allowlist
  supply : t.totalSupply.toNat ≤ s.totalSupply.toNat

theorem Outside.trans {u : USDY} (h : Outside s t) (h' : Outside t u) : Outside s u :=
  ⟨h'.roles.trans h.roles, h'.paused.trans h.paused, h'.blocklist.trans h.blocklist, h'.allowlist.trans h.allowlist,
    Nat.le_trans h'.supply h.supply⟩

theorem access_outside {a b : AccessControl} {call : RoleCall} (hroles : ∀ role, a.hasRole role caller = false)
    (h : a.exec caller call = .ok b) : b = a := by
  cases call with
  | grantRole role account | revokeRole role account =>
    obtain ⟨u, hrole, -⟩ := bind_eq_ok.mp h
    have hrole := AccessControl.onlyRole_eq_ok.mp hrole
    rw [hroles] at hrole
    cases hrole
  | renounceRole role account =>
    simp only [AccessControl.exec, bind_eq_ok, exists_unit_iff, revertIf_eq_ok, ne_eq, not_not, pure_eq_ok] at h
    obtain ⟨rfl, rfl⟩ := h
    exact AccessControl.setRole_of_eq (hroles role)

theorem exec_outside (hroles : ∀ role, s.hasRole role caller = false) (h : exec lists caller call s = .ok t) :
    Outside s t := by
  cases call with
  | transfer dst amount =>
    obtain ⟨-, -, -, _, _, -, -, rfl⟩ := internalTransfer_eq_ok.mp h
    exact ⟨rfl, rfl, rfl, rfl, Nat.le_refl _⟩
  | approve spender amount =>
    obtain ⟨-, -, rfl⟩ := internalApprove_eq_ok.mp h
    exact ⟨rfl, rfl, rfl, rfl, Nat.le_refl _⟩
  | transferFrom src dst amount =>
    obtain ⟨u, hu, h⟩ := bind_eq_ok.mp h
    obtain ⟨allowances, events, rfl⟩ := spendAllowance_inv hu
    obtain ⟨-, -, -, _, _, -, -, rfl⟩ := internalTransfer_eq_ok.mp h
    exact ⟨rfl, rfl, rfl, rfl, Nat.le_refl _⟩
  | increaseAllowance spender value | decreaseAllowance spender value =>
    obtain ⟨allowance, -, h⟩ := bind_eq_ok.mp h
    obtain ⟨-, -, rfl⟩ := internalApprove_eq_ok.mp h
    exact ⟨rfl, rfl, rfl, rfl, Nat.le_refl _⟩
  | burn amount =>
    obtain ⟨-, -, balance, totalSupply, -, hsupply, rfl⟩ := internalBurn_eq_ok.mp h
    exact ⟨rfl, rfl, rfl, rfl, Nat.le.intro hsupply⟩
  | burnFrom account amount =>
    obtain ⟨u, hu, h⟩ := bind_eq_ok.mp h
    obtain ⟨allowances, events, rfl⟩ := spendAllowance_inv hu
    obtain ⟨-, -, balance, totalSupply, -, hsupply, rfl⟩ := internalBurn_eq_ok.mp h
    exact ⟨rfl, rfl, rfl, rfl, Nat.le.intro hsupply⟩
  | mint dst amount | pause | unpause =>
    obtain ⟨u, hrole, -⟩ := bind_eq_ok.mp h
    exact absurd (hroles _) (revertIf_eq_ok.mp hrole)
  | adminBurn src amount | setBlocklist blocklist | setAllowlist allowlist =>
    obtain ⟨u, hrole, -⟩ := bind_eq_ok.mp h
    have hrole := AccessControl.onlyRole_eq_ok.mp (raise_eq_ok.mp hrole)
    rw [hroles] at hrole
    cases hrole
  | role call =>
    obtain ⟨access, haccess, h⟩ := bind_eq_ok.mp h
    obtain rfl := pure_eq_ok.mp h
    exact ⟨access_outside hroles (raise_eq_ok.mp haccess), rfl, rfl, rfl, Nat.le_refl _⟩

theorem exec_backed (hs : s.ledger.Backed) (h : exec lists caller call s = .ok t) : t.ledger.Backed := by
  obtain ⟨new, hnew⟩ := exec_logged h
  exact hs.run (Trail.filterMap (f := Books.toLedger) (fun _ _ _ htold hnone => htold.kept hnone)
    (fun _ _ _ x htold hx => htold.posts x hx) hnew.told)

/-- Nothing was minted yet, or all of it is burned. -/
structure Unissued (s : USDY) : Prop where
  backed : s.ledger.Backed
  supply : s.totalSupply = 0

theorem Unissued.balances (h : s.Unissued) (account : Address) : s.balances account = 0 := by
  have hle := balance_le_supply h.backed account
  rw [h.supply] at hle
  exact BitVec.toNat_inj.mp (Nat.le_zero.mp hle)

theorem Unissued.exec (hs : s.Unissued) (houtside : Outside s t) (h : exec lists caller call s = .ok t) :
    t.Unissued := by
  have hle := houtside.supply
  rw [hs.supply] at hle
  exact ⟨exec_backed hs.backed h, BitVec.toNat_inj.mp (Nat.le_zero.mp hle)⟩

/-- The action is no call of a holder of a role. -/
def Action.powerless (a : AccessControl) : Action → Prop
  | .call sender _ => ∀ role, a.hasRole role sender.address = false
  | .lists _ => True

theorem powerless_of_empty : ∀ b : Action, b.powerless .empty
  | .call _ _ => fun _ => rfl
  | .lists _ => trivial

theorem run_outside {x : System} {acts : List Action} (hx : x.token.Unissued)
    (h : ∀ a ∈ acts, a.powerless x.token.toAccessControl) :
    Outside x.token (Machine.run act x acts).token ∧ (Machine.run act x acts).token.Unissued := by
  have hobeys : Machine.Obeys act (fun _ a => a.powerless x.token.toAccessControl) x acts :=
    Machine.obeys_of_forall h
  refine (Machine.invariant (I := fun y : System => Outside x.token y.token ∧ y.token.Unissued) hobeys
    ⟨⟨rfl, rfl, rfl, rfl, Nat.le_refl _⟩, hx⟩ fun y a z hy hpowerless hact => ?_).1
  cases a with
  | call sender call =>
    obtain ⟨token, htoken, rfl⟩ := act_call.mp hact
    have hroles : ∀ role, y.token.hasRole role sender.address = false := hy.1.roles ▸ hpowerless
    have houtside := exec_outside hroles htoken
    exact ⟨hy.1.trans houtside, hy.2.exec houtside htoken⟩
  | lists lists =>
    cases hact
    exact hy

end Outside

/-! ### Initialization -/

namespace Instance
variable {lists : Lists} {s t : Instance} {caller blocklist allowlist : Address} {name symbol : String} {call : USDY.Call}

/-- No initializer runs again. -/
structure Initialized (s : Instance) : Prop where
  initialized : s.initialized ≠ 0
  initializing : s.initializing = false

/-- Behind a proxy, an initializer runs on a contract that is not initialized. -/
theorem initializer_eq_ok {body : Instance → Except Err Instance} : initializer true body s = .ok t ↔
    s.initialized = 0 ∧ s.initializing = false ∧
      ∃ u, body { s with initialized := 1, initializing := true } = .ok u ∧ { u with initializing := false } = t := by
  have hlt : s.initialized < 1 ↔ s.initialized = 0 := by bv_omega
  simp only [initializer, bind_eq_ok, exists_unit_iff, revertIf_eq_ok, pure_eq_ok, hlt]
  cases hi : s.initializing with
  | false => simp
  | true => simp

theorem Initialized.initializer (h : s.Initialized) {body : Instance → Except Err Instance} :
    initializer true body s ≠ .ok t :=
  fun heq => h.initialized (initializer_eq_ok.mp heq).1

theorem initializeUSDY_empty (h : initializeUSDY caller name symbol blocklist allowlist .empty = .ok t) :
    USDY.init caller blocklist allowlist = .ok t.toUSDY ∧ t.Initialized ∧ t.name = name ∧ t.symbol = symbol := by
  obtain ⟨-, -, u, hbody, rfl⟩ := initializer_eq_ok.mp h
  simp only [erc20PresetMinterPauserInit, erc20Init, pausableInit, erc20PresetMinterPauserInitUnchained,
    blocklistClientInit, allowlistClientInit, onlyInitializing, bind_eq_ok, exists_unit_iff, revertIf_eq_ok, pure_eq_ok,
    raise_eq_ok, internalSetBlocklist, internalSetAllowlist] at hbody
  obtain ⟨_, ⟨-, _, ⟨-, rfl⟩, _, ⟨-, rfl⟩, -, rfl⟩, _, ⟨-, _, ⟨hblocklist, rfl⟩, rfl⟩, -, _, ⟨hallowlist, rfl⟩, rfl⟩ := hbody
  refine ⟨?_, ⟨(by decide : (1 : BitVec 8) ≠ 0), rfl⟩, rfl, rfl⟩
  simp only [init, internalSetBlocklist, internalSetAllowlist, bind_eq_ok, exists_unit_iff, revertIf_eq_ok, pure_eq_ok]
  exact ⟨_, ⟨hblocklist, rfl⟩, hallowlist, rfl⟩

/-! ### The token of an initialized contract -/

theorem exec_token {call : USDY.Call} : (exec lists caller (.token call) s).toOption =
    (USDY.exec lists caller call s.toUSDY).toOption.map fun token => { s with toUSDY := token } := by
  rw [exec]
  cases USDY.exec lists caller call s.toUSDY <;> rfl

theorem Initialized.exec_inv (h : s.Initialized) {call : Call} (hexec : exec lists caller call s = .ok t) :
    ∃ c, call = .token c ∧ USDY.exec lists caller c s.toUSDY = .ok t.toUSDY ∧ t = { s with toUSDY := t.toUSDY } := by
  cases call with
  | initializeUSDY name symbol blocklist allowlist =>
    have hexec : initializeUSDY caller name symbol blocklist allowlist s = .ok t := hexec
    exact (h.initializer hexec).elim
  | initializePreset name symbol =>
    have hexec : initializePreset caller name symbol s = .ok t := hexec
    exact (h.initializer hexec).elim
  | token call =>
    obtain ⟨token, htoken, hexec⟩ := bind_eq_ok.mp hexec
    obtain rfl := pure_eq_ok.mp hexec
    exact ⟨call, rfl, raise_eq_ok.mp htoken, rfl⟩

/-- What `Initializable` and the names keep does not change any more. -/
structure Kept (s t : Instance) : Prop where
  initializable : t.toInitializable = s.toInitializable
  name : t.name = s.name
  symbol : t.symbol = s.symbol

theorem Kept.initialized (h : Kept s t) (hs : s.Initialized) : t.Initialized :=
  ⟨h.initializable ▸ hs.initialized, h.initializable ▸ hs.initializing⟩

section
variable {c d : Upgradeable.Contract Lists Instance} {sender : Sender} {data : Data Call}

theorem act_inv (h : c.storage.Initialized) (hact : Upgradeable.Contract.act code c (.call sender data) = some d) :
    ∃ call, data = .call (.token call) ∧ USDY.exec c.env sender.address call c.storage.toUSDY = .ok d.storage.toUSDY ∧
      d = { c with storage := { c.storage with toUSDY := d.storage.toUSDY } } := by
  obtain ⟨storage, hstorage, rfl⟩ := Option.map_eq_some_iff.mp hact
  cases data with
  | call call =>
    obtain ⟨call, rfl, hexec, heq⟩ := h.exec_inv (toOption_eq_some.mp hstorage)
    exact ⟨call, rfl, hexec, congrArg (Upgradeable.Contract.mk c.env) heq⟩
  | _ => cases hstorage

/-- The token of a contract, with the lists. -/
def system (c : Upgradeable.Contract Lists Instance) : System := ⟨c.storage.toUSDY, c.env⟩

/-- What an action on a contract is to its token. -/
def tokenAction : Upgradeable.Contract.Action Lists Call → Option Action
  | .call sender (.call (.token call)) => some (.call sender call)
  | .call .. => none
  | .env lists => some (.lists lists)

theorem tokenAction_call {a : Upgradeable.Contract.Action Lists Call} {call : USDY.Call}
    (h : tokenAction a = some (.call sender call)) : a = .call sender (.call (.token call)) := by
  cases a with
  | call sender data =>
    cases data with
    | call call =>
      cases call with
      | token call =>
        cases h
        rfl
      | _ => cases h
    | _ => cases h
  | env lists => cases h

/-- Once initialized, the contract is its token. -/
theorem run_token (h : c.storage.Initialized) (acts : List (Upgradeable.Contract.Action Lists Call)) :
    Kept c.storage (Machine.run (Upgradeable.Contract.act code) c acts).storage ∧
      system (Machine.run (Upgradeable.Contract.act code) c acts) =
        Machine.run USDY.act (system c) (acts.filterMap tokenAction) := by
  have hany : Machine.Obeys (Upgradeable.Contract.act code) (fun _ _ => True) c acts := fun _ _ => trivial
  refine Machine.simulates (I := fun d => Kept c.storage d.storage) hany ⟨rfl, rfl, rfl⟩ (fun d a e hd _ hact => ?_)
    (fun d a e hd _ hact hnone => ?_) fun d a b hd hb => ?_
  · cases a with
    | call sender data =>
      obtain ⟨call, -, -, heq⟩ := act_inv (hd.initialized h) hact
      rw [heq]
      exact ⟨hd.initializable, hd.name, hd.symbol⟩
    | env lists =>
      cases hact
      exact hd
  · cases a with
    | call sender data =>
      obtain ⟨call, rfl, -, -⟩ := act_inv (hd.initialized h) hact
      cases hnone
    | env lists => cases hnone
  · cases a with
    | call sender data =>
      cases data with
      | call call =>
        cases call with
        | token call =>
          cases hb
          show (USDY.exec d.env sender.address call d.storage.toUSDY).toOption.map _ =
            ((exec d.env sender.address (.token call) d.storage).toOption.map _).map _
          rw [exec_token, Option.map_map, Option.map_map]
          rfl
        | _ => cases hb
      | _ => cases hb
    | env lists =>
      cases hb
      rfl

/-! ### The implementation itself -/

theorem empty_unissued : Unissued empty.toUSDY := ⟨⟨Slots.total_of_forall fun _ => rfl, rfl⟩, rfl⟩

/-- The constructor locks the implementation: whoever calls it, and with whatever lists, it is never initialized, nobody
    ever holds a role there, and it issues nothing. -/
theorem implementation_locked (lists : Lists) (acts : List (Upgradeable.Contract.Action Lists Call)) :
    ∃ s, deploy = .ok s ∧
      let t := (Machine.run (Upgradeable.Contract.act code) ⟨lists, s⟩ acts).storage
      t.initialized = 255 ∧ (∀ role account, t.hasRole role account = false) ∧ t.paused = false ∧ t.totalSupply = 0 ∧
        ∀ account, t.balances account = 0 := by
  refine ⟨{ empty with initialized := 255 }, rfl, ?_⟩
  obtain ⟨hkept, hrun⟩ := run_token (c := ⟨lists, { empty with initialized := 255 }⟩)
    ⟨(by decide : (255 : BitVec 8) ≠ 0), rfl⟩ acts
  intro t
  have htoken : t.toUSDY = (Machine.run USDY.act ⟨empty.toUSDY, lists⟩ (acts.filterMap tokenAction)).token :=
    congrArg System.token hrun
  obtain ⟨houtside, hunissued⟩ : Outside empty.toUSDY (Machine.run USDY.act ⟨empty.toUSDY, lists⟩
      (acts.filterMap tokenAction)).token ∧ _ :=
    run_outside (x := ⟨empty.toUSDY, lists⟩) empty_unissued fun a _ => powerless_of_empty a
  rw [← htoken] at houtside hunissued
  refine ⟨congrArg Initializable.initialized hkept.initializable, fun role account => ?_, houtside.paused,
    hunissued.supply, hunissued.balances⟩
  rw [houtside.roles]
  rfl

end

end Instance

end USDY

end Usdy
