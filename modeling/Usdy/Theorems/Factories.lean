import Usdy.Factory
import Usdy.Theorems.Instances

/-! What a deployment leaves. The token behind the proxy is the token that `initialize` makes, after the factory has
    handed its roles over; only the guardian can do more than the owner of an account, and until it acts there is
    nothing to own. -/

namespace Usdy
open Checked Function

variable {E S D : Type}

namespace Factory
variable {self caller : Address} {around : Address → Option (Code E S D)} {env : E} {code : Code E S D} {storage : S}
  {created : Created} {d : D} {f : Factory} {s t : Upgradeable E S D}

/-! ### Steps of a deployment -/

/-- A system right after its contracts are created, where `owner` owns the admin contract. -/
def system (around : Address → Option (Code E S D)) (env : E) (code : Code E S D) (created : Created) (owner : Address)
    (storage : S) : Upgradeable E S D where
  code := update around created.implementation (some code)
  env := env
  proxyAddress := created.proxy
  proxy := ⟨created.implementation, created.proxyAdmin, storage⟩
  proxyAdminAddress := created.proxyAdmin
  proxyAdmin := ⟨owner⟩

theorem create_inv (h : create self around env code storage created = .ok s) :
    s = system around env code created self storage := by
  obtain ⟨p, hp, h⟩ := bind_eq_ok.mp h
  obtain rfl := pure_eq_ok.mp h
  simp only [raise_eq_ok, TransparentUpgradeableProxy.deploy, TransparentUpgradeableProxy.internalUpgradeToAndCall,
    TransparentUpgradeableProxy.internalUpgradeTo, bind_eq_ok, exists_unit_iff, revertIf_eq_ok, pure_eq_ok] at hp
  obtain ⟨q, ⟨u, ⟨-, rfl⟩, hq⟩, hp⟩ := hp
  obtain rfl := pure_eq_ok.mp hq
  obtain ⟨-, rfl⟩ := TransparentUpgradeableProxy.internalChangeAdmin_eq_ok.mp hp
  rfl

theorem call_inv (h : call self d (system around env code created caller storage) = .ok t) :
    ∃ storage', code env self (.call d) storage = some storage' ∧ t = system around env code created caller storage' := by
  obtain ⟨p, hp, h⟩ := bind_eq_ok.mp (raise_eq_ok.mp h)
  obtain rfl := pure_eq_ok.mp h
  obtain ⟨storage', hstorage, rfl⟩ := TransparentUpgradeableProxy.exec_call_inv (update_self ..) (raise_eq_ok.mp hp)
  exact ⟨storage', hstorage, rfl⟩

theorem transferOwnership_inv (h : f.transferOwnership self (system around env code created caller storage) = .ok t) :
    t = system around env code created f.guardian storage := by
  obtain ⟨u, hu, h⟩ := bind_eq_ok.mp h
  simp only [raise_eq_ok, Upgradeable.exec, ProxyAdmin.transferOwnership, bind_eq_ok, exists_unit_iff, revertIf_eq_ok,
    pure_eq_ok] at hu h
  obtain ⟨_, ⟨-, -, rfl⟩, rfl⟩ := hu
  exact h.2.symm

/-- What the guardian sends through the factory are messages of the factory, one after the other. -/
theorem multiexcall_run {factory : Sender} {messages : List (Upgradeable.Message D)}
    (hadmin : factory.address ≠ s.proxyAdminAddress) (hproxy : factory.address ≠ s.proxyAddress)
    (h : f.multiexcall factory.address caller messages s = .ok t) :
    caller = f.guardian ∧ t = Machine.run Upgradeable.act s (messages.map (.message factory)) := by
  obtain ⟨_, hcaller, h⟩ := bind_eq_ok.mp h
  refine ⟨not_not.mp (revertIf_eq_ok.mp hcaller), (Machine.run_of_foldlM (g := id)
    (I := fun u => factory.address ≠ u.proxyAdminAddress ∧ factory.address ≠ u.proxyAddress) (fun u message v hu hv => ?_)
    ⟨hadmin, hproxy⟩ h).symm⟩
  have hexec := raise_eq_ok.mp hv
  refine ⟨?_, Upgradeable.act_message.mpr ⟨hu, hexec⟩⟩
  rw [(Upgradeable.exec_did hexec).kept]
  exact hu

end Factory

/-! ### USDY -/

namespace USDYFactory
open Factory USDY
variable {self caller blocklist allowlist : Address} {around : Address → Option (Code Lists Instance Instance.Call)}
  {lists : Lists} {created : Created} {name ticker : String} {f f' : Factory} {s : UsdyProxy} {t : Instance}

/-- What the factory does to the roles of the token once it is initialized. -/
def handover (self guardian : Address) : List RoleCall :=
  [.grantRole .defaultAdmin guardian, .grantRole .pauser guardian, .revokeRole .minter self, .revokeRole .pauser self,
    .revokeRole .defaultAdmin self]

theorem call_token_inv {call : RoleCall}
    (h : Factory.call self (.token (.role call)) (system around lists Instance.code created caller t) = .ok s) :
    ∃ token, USDY.exec lists self (.role call) t.toUSDY = .ok token ∧
      s = system around lists Instance.code created caller { t with toUSDY := token } := by
  obtain ⟨storage, hstorage, rfl⟩ := call_inv h
  obtain ⟨token, htoken, rfl⟩ := Option.map_eq_some_iff.mp (Instance.exec_token.symm.trans hstorage)
  exact ⟨token, toOption_eq_some.mp htoken, rfl⟩

theorem deployUSDY_inv
    (h : deployUSDY self caller around lists created name ticker blocklist allowlist f = .ok (f', s)) :
    caller = f.guardian ∧ f' = { f with toCreated := created } ∧ ∃ u token,
      Instance.initializeUSDY self name ticker blocklist allowlist .empty = .ok u ∧
      (handover self f.guardian).foldlM (fun token call => USDY.exec lists self (.role call) token) u.toUSDY = .ok token ∧
      s = system around lists Instance.code created f.guardian { u with toUSDY := token } := by
  obtain ⟨_, hcaller, h⟩ := bind_eq_ok.mp h
  obtain ⟨s₀, h₀, h⟩ := bind_eq_ok.mp h
  obtain rfl := create_inv h₀
  obtain ⟨s₁, h₁, h⟩ := bind_eq_ok.mp h
  obtain ⟨u, hu, rfl⟩ := call_inv h₁
  obtain ⟨s₂, hs₂, h⟩ := bind_eq_ok.mp h
  obtain ⟨t₂, h₂, rfl⟩ := call_token_inv hs₂
  obtain ⟨s₃, hs₃, h⟩ := bind_eq_ok.mp h
  obtain ⟨t₃, h₃, rfl⟩ := call_token_inv hs₃
  obtain ⟨s₄, hs₄, h⟩ := bind_eq_ok.mp h
  obtain ⟨t₄, h₄, rfl⟩ := call_token_inv hs₄
  obtain ⟨s₅, hs₅, h⟩ := bind_eq_ok.mp h
  obtain ⟨t₅, h₅, rfl⟩ := call_token_inv hs₅
  obtain ⟨s₆, hs₆, h⟩ := bind_eq_ok.mp h
  obtain ⟨t₆, h₆, rfl⟩ := call_token_inv hs₆
  obtain ⟨s₇, h₇, h⟩ := bind_eq_ok.mp h
  obtain rfl := transferOwnership_inv h₇
  cases pure_eq_ok.mp h
  refine ⟨not_not.mp (revertIf_eq_ok.mp hcaller), rfl, u, t₆, toOption_eq_some.mp hu, ?_, rfl⟩
  simp only [handover, List.foldlM_cons, List.foldlM_nil, bind_eq_ok]
  exact ⟨t₂, h₂, t₃, h₃, t₄, h₄, t₅, h₅, t₆, h₆, rfl⟩

/-! ### The token behind the proxy -/

theorem exec_role_eq_ok {token token' : USDY} {call : RoleCall} :
    USDY.exec lists caller (.role call) token = .ok token' ↔
      ∃ access, token.toAccessControl.exec caller call = .ok access ∧ token' = { token with toAccessControl := access } := by
  simp only [USDY.exec, bind_eq_ok, raise_eq_ok, pure_eq_ok, eq_comm (b := token')]

/-- What a role call writes. -/
def written (a : AccessControl) : RoleCall → AccessControl
  | .grantRole role account => a.setRole role account true
  | .revokeRole role account | .renounceRole role account => a.setRole role account false

theorem access_exec_written {a b : AccessControl} {call : RoleCall} (h : a.exec caller call = .ok b) : b = written a call := by
  cases call <;> exact (pure_eq_ok.mp (bind_eq_ok.mp h).choose_spec.2).symm

theorem foldlM_roles : ∀ {calls : List RoleCall} {token token' : USDY},
    calls.foldlM (fun token call => USDY.exec lists caller (.role call) token) token = .ok token' →
      token' = { token with toAccessControl := calls.foldl written token.toAccessControl }
  | [], token, token', h => (pure_eq_ok.mp h).symm
  | call :: calls, token, token', h => by
    rw [List.foldlM_cons, bind_eq_ok] at h
    obtain ⟨u, hu, h⟩ := h
    obtain ⟨access, haccess, rfl⟩ := exec_role_eq_ok.mp hu
    rw [foldlM_roles h, access_exec_written haccess, List.foldl_cons]

/-- The roles that a deployment leaves. -/
theorem handover_roles {factory guardian account : Address} {role : Role} :
    ((handover factory guardian).foldl written
      (((AccessControl.empty.setRole .defaultAdmin factory true).setRole .minter factory true).setRole .pauser factory
        true)).hasRole role account = true ↔
      account = guardian ∧ account ≠ factory ∧ (role = .defaultAdmin ∨ role = .pauser) := by
  simp only [handover, List.foldl_cons, List.foldl_nil, written, AccessControl.setRole_hasRole, AccessControl.empty]
  grind

/-- While nobody upgrades a proxy of an initialized `USDY`, it is the token. -/
theorem run_behind {s : UsdyProxy} {acts : List (Upgradeable.Action Lists Instance Instance.Call)}
    (hinit : s.proxy.storage.Initialized) (hadmin : s.proxy.admin = s.proxyAdminAddress)
    (hcode : s.code s.proxy.implementation = some Instance.code)
    (howner : Machine.Obeys Upgradeable.act (fun u a => a.byOwner u = false) s acts) :
    let t := Machine.run Upgradeable.act s acts
    s.Settled t ∧ Instance.Kept s.proxy.storage t.proxy.storage ∧
      (⟨t.proxy.storage.toUSDY, t.env⟩ : USDY.System) =
        Machine.run USDY.act ⟨s.proxy.storage.toUSDY, s.env⟩ ((acts.filterMap s.delegated).filterMap Instance.tokenAction) := by
  obtain ⟨hsettled, hcontract⟩ := Upgradeable.run_transparent hadmin hcode howner
  obtain ⟨hkept, htoken⟩ := Instance.run_token (c := s.contract) hinit (acts.filterMap s.delegated)
  rw [← hcontract] at hkept htoken
  exact ⟨hsettled, hkept, htoken⟩

/-- What a deployment makes: an initialized `USDY` behind a proxy, whose token is that of `initialize` after the
    factory handed its roles over. -/
structure Deploys (factory guardian : Address) (lists : Lists) (created : Created) (name ticker : String)
    (blocklist allowlist : Address) (s : UsdyProxy) : Prop where
  admin : s.proxy.admin = s.proxyAdminAddress
  code : s.code s.proxy.implementation = some Instance.code
  implementation : s.proxy.implementation = created.implementation
  owner : s.proxyAdmin.owner = guardian
  env : s.env = lists
  initialized : s.proxy.storage.Initialized
  name : s.proxy.storage.name = name
  symbol : s.proxy.storage.symbol = ticker
  token : ∃ token, init factory blocklist allowlist = .ok token ∧
    (handover factory guardian).foldlM (fun token call => USDY.exec lists factory (.role call) token) token =
      .ok s.proxy.storage.toUSDY

theorem deployUSDY_deploys
    (h : deployUSDY self caller around lists created name ticker blocklist allowlist f = .ok (f', s)) :
    Deploys self f.guardian lists created name ticker blocklist allowlist s := by
  obtain ⟨-, -, u, token, hu, htoken, rfl⟩ := deployUSDY_inv h
  obtain ⟨htoken₀, hinit, hname, hsymbol⟩ := Instance.initializeUSDY_empty hu
  exact ⟨rfl, update_self .., rfl, rfl, rfl, ⟨hinit.initialized, hinit.initializing⟩, hname, hsymbol, _, htoken₀, htoken⟩

theorem init_inv {token : USDY} (h : init caller blocklist allowlist = .ok token) :
    token.toAccessControl = ((AccessControl.empty.setRole .defaultAdmin caller true).setRole .minter caller
        true).setRole .pauser caller true ∧
      token.blocklist = blocklist ∧ token.allowlist = allowlist ∧ token.paused = false ∧ token.Unissued := by
  have hbacked := (init_told h).backed
  simp only [init, internalSetBlocklist, internalSetAllowlist, bind_eq_ok, exists_unit_iff, revertIf_eq_ok,
    pure_eq_ok] at h
  obtain ⟨u, ⟨-, rfl⟩, -, rfl⟩ := h
  exact ⟨rfl, rfl, rfl, rfl, hbacked, rfl⟩

/-- The token that a deployment leaves. -/
structure Handed (factory guardian blocklist allowlist : Address) (token : USDY) : Prop where
  roles : ∀ role account, token.hasRole role account = true ↔
    account = guardian ∧ account ≠ factory ∧ (role = .defaultAdmin ∨ role = .pauser)
  blocklist : token.blocklist = blocklist
  allowlist : token.allowlist = allowlist
  paused : token.paused = false

theorem Deploys.handed {factory guardian : Address}
    (h : Deploys factory guardian lists created name ticker blocklist allowlist s) :
    Handed factory guardian blocklist allowlist s.proxy.storage.toUSDY ∧ s.proxy.storage.Unissued := by
  obtain ⟨token, hinit, hhandover⟩ := h.token
  obtain ⟨hroles, hblocklist, hallowlist, hpaused, hunissued⟩ := init_inv hinit
  rw [foldlM_roles hhandover, hroles]
  exact ⟨⟨fun _ _ => handover_roles, hblocklist, hallowlist, hpaused⟩, hunissued.backed, hunissued.supply⟩

theorem Handed.outside {factory guardian : Address} {token token' : USDY}
    (h : Handed factory guardian blocklist allowlist token) (houtside : Outside token token') :
    Handed factory guardian blocklist allowlist token' :=
  ⟨houtside.roles ▸ h.roles, houtside.blocklist.trans h.blocklist, houtside.allowlist.trans h.allowlist,
    houtside.paused.trans h.paused⟩

/-- Where the guardian sends nothing, no call to the token comes from a holder of a role. -/
theorem Handed.powerless {factory guardian : Address} {token : USDY}
    (h : Handed factory guardian blocklist allowlist token)
    {acts : List (Upgradeable.Action Lists Instance Instance.Call)} (hsilent : ∀ a ∈ acts, ¬a.sentBy guardian)
    {b : USDY.Action} (hb : b ∈ (acts.filterMap s.delegated).filterMap Instance.tokenAction) :
    b.powerless token.toAccessControl := by
  obtain ⟨c, hc, hb⟩ := List.mem_filterMap.mp hb
  obtain ⟨a, ha, hc⟩ := List.mem_filterMap.mp hc
  cases b with
  | lists lists => trivial
  | call sender call =>
    obtain rfl := Instance.tokenAction_call hb
    obtain rfl := Upgradeable.delegated_call hc
    intro role
    by_contra hrole
    exact hsilent _ ha ((h.roles role sender.address).mp (Bool.not_eq_false _ ▸ hrole)).1

namespace Sample
open Usdy.Sample (admin alice bob)

/-- The factory, whose guardian is the admin. -/
def factory : Sender := ⟨0xfac, by decide⟩

/-- A deployment of USDY by the guardian. -/
def deployed : Except Factory.Err (Factory × UsdyProxy) :=
  deployUSDY factory.address admin.address (fun _ => none) (USDY.Sample.blocking 0) ⟨0xe, 0x8, 0x9⟩ "USDY" "USDY"
    0xc5 0xc6 ⟨⟨0, 0, 0⟩, admin.address⟩

theorem deployed_isSome : deployed.toOption.isSome = true := by decide +kernel

/-- The proxy that the factory deploys. -/
def proxy : UsdyProxy := (deployed.toOption.get deployed_isSome).2

theorem deployed_eq : deployed = .ok ((deployed.toOption.get deployed_isSome).1, proxy) := eq_ok_get deployed_isSome

/-- The guardian makes alice a minter. -/
def grants : List (Upgradeable.Action Lists Instance Instance.Call) :=
  [.message admin (.proxy (.call (.token (.role (.grantRole .minter alice.address))))),
    .message alice (.proxy (.call (.token (.mint bob.address 5))))]

/-- Bob tries what only others may do. -/
def attempts : List (Upgradeable.Action Lists Instance Instance.Call) :=
  [.message bob (.proxy (.call (.initializeUSDY "" "" 0xb 0xb))), .message bob (.proxy (.call (.token (.mint 0xb 5)))),
    .message bob (.proxyAdmin (.upgrade 0x9 0xb)), .message bob (.proxy (.call (.token (.transfer alice.address 0))))]

end Sample

/-- From the deployment on, as long as no call of its owner to the admin contract succeeds, the proxy is the token:
    whatever else is called, and whatever the lists answer, the state of its token is what the calls of the factory and
    then those behind the proxy make of the token that `initialize` set up. -/
theorem deployed_token {factory : Sender}
    (h : deployUSDY factory.address caller around lists created name ticker blocklist allowlist f = .ok (f', s))
    (acts : List (Upgradeable.Action Lists Instance Instance.Call))
    (howner : Machine.Obeys Upgradeable.act (fun u a => a.byOwner u = false) s acts) :
    let t := Machine.run Upgradeable.act s acts
    t.proxy.storage.name = name ∧ t.proxy.storage.symbol = ticker ∧
      ∃ token, init factory.address blocklist allowlist = .ok token ∧
        (⟨t.proxy.storage.toUSDY, t.env⟩ : USDY.System) =
          Machine.run USDY.act ⟨token, lists⟩
            ((handover factory.address f.guardian).map (fun call => .call factory (.role call)) ++
              (acts.filterMap s.delegated).filterMap Instance.tokenAction) := by
  have hs := deployUSDY_deploys h
  obtain ⟨-, hkept, htoken⟩ := run_behind hs.initialized hs.admin hs.code howner
  obtain ⟨token, hinit, hhandover⟩ := hs.token
  refine ⟨hkept.name.trans hs.name, hkept.symbol.trans hs.symbol, token, hinit, ?_⟩
  have hrun : Machine.run USDY.act ⟨token, lists⟩
      ((handover factory.address f.guardian).map fun call => .call factory (.role call)) = ⟨s.proxy.storage.toUSDY, lists⟩ :=
    Machine.run_of_foldlM (I := fun _ => True) (g := fun token => ⟨token, lists⟩)
      (fun token call token' _ hexec => ⟨trivial, USDY.act_call.mpr ⟨token', hexec, rfl⟩⟩) trivial hhandover
  rw [htoken, hs.env, Machine.run_append, hrun]

theorem deployed_token_grants :
    let t := Machine.run Upgradeable.act Sample.proxy Sample.grants
    t.proxy.storage.balances 0xb = 5 ∧ t.proxy.storage.name = "USDY" := by
  intro t
  exact ⟨by decide +kernel, (deployed_token Sample.deployed_eq Sample.grants (by decide +kernel)).1⟩

/-- Until the guardian acts, whoever else calls what, and whatever the lists answer: the guardian alone is the default
    admin and a pauser of the token and owns the admin contract, nobody holds any other role, the implementation and
    the lists are those of the deployment, and there are no tokens. -/
theorem idle_guardian {factory : Sender}
    (h : deployUSDY factory.address caller around lists created name ticker blocklist allowlist f = .ok (f', s))
    (acts : List (Upgradeable.Action Lists Instance Instance.Call)) (hsilent : ∀ a ∈ acts, ¬a.sentBy f.guardian) :
    let t := Machine.run Upgradeable.act s acts
    caller = f.guardian ∧ t.proxyAdmin.owner = f.guardian ∧ t.proxy.admin = s.proxyAdminAddress ∧
      t.proxy.implementation = created.implementation ∧
      (∀ role account, t.proxy.storage.hasRole role account = true ↔
        account = f.guardian ∧ account ≠ factory.address ∧ (role = .defaultAdmin ∨ role = .pauser)) ∧
      t.proxy.storage.blocklist = blocklist ∧ t.proxy.storage.allowlist = allowlist ∧ t.proxy.storage.paused = false ∧
      t.proxy.storage.totalSupply = 0 ∧ ∀ account, t.proxy.storage.balances account = 0 := by
  obtain ⟨hcaller, -⟩ := deployUSDY_inv h
  have hs := deployUSDY_deploys h
  obtain ⟨hsettled, -, htoken⟩ :=
    run_behind hs.initialized hs.admin hs.code (Upgradeable.obeys_of_silent hs.admin hs.code (hs.owner ▸ hsilent))
  obtain ⟨hhanded, hunissued⟩ := hs.handed
  obtain ⟨houtside, hunissued⟩ := run_outside (x := ⟨s.proxy.storage.toUSDY, s.env⟩) hunissued
    fun b hb => hhanded.powerless hsilent hb
  rw [← htoken] at houtside hunissued
  have hlast := hhanded.outside houtside
  exact ⟨hcaller, (congrArg ProxyAdmin.owner hsettled.owner).trans hs.owner, hsettled.admin.trans hs.admin,
    hsettled.implementation.trans hs.implementation, hlast.roles, hlast.blocklist, hlast.allowlist, hlast.paused,
    hunissued.supply, hunissued.balances⟩

theorem idle_guardian_attempts :
    let t := Machine.run Upgradeable.act Sample.proxy Sample.attempts
    t.proxy.storage.totalSupply = 0 ∧ t.proxy.storage.blocklist = 0xc5 ∧ t.proxy.implementation = 0xe := by
  intro t
  obtain ⟨-, -, -, himplementation, -, hblocklist, -, -, hsupply, -⟩ :=
    idle_guardian Sample.deployed_eq Sample.attempts (by simp [Sample.attempts, Upgradeable.Action.sentBy]; decide)
  exact ⟨hsupply, hblocklist, himplementation⟩

end USDYFactory

/-! ### Allowlist -/

namespace AllowlistFactory
open Factory
variable {C : Crypto} {caller admin setter : Address}
  {around : Address → Option (Code Unit AllowlistUpgradeable AllowlistUpgradeable.Call)} {created : Created}
  {f f' : Factory} {s : AllowlistProxy}

/-- What an action on a contract is to the allowlist. -/
def allowlistCall : Upgradeable.Contract.Action Unit AllowlistUpgradeable.Call → Option (Address × AllowlistUpgradeable.Call)
  | .call sender (.call call) => some (sender.address, call)
  | _ => none

theorem run_allowlist (c : Upgradeable.Contract Unit AllowlistUpgradeable)
    (acts : List (Upgradeable.Contract.Action Unit AllowlistUpgradeable.Call)) :
    (Machine.run (Upgradeable.Contract.act (AllowlistUpgradeable.code C)) c acts).storage =
      Machine.run (AllowlistUpgradeable.act C) c.storage (acts.filterMap allowlistCall) := by
  have hany : Machine.Obeys (Upgradeable.Contract.act (AllowlistUpgradeable.code C)) (fun _ _ => True) c acts :=
    fun _ _ => trivial
  refine (Machine.simulates (I := fun _ => True) hany trivial (fun _ _ _ _ _ _ => trivial)
    (fun d a e _ _ hact hnone => ?_) fun d a b _ hb => ?_).2
  · cases a with
    | call sender data =>
      cases data with
      | call call => cases hnone
      | _ => cases hact
    | env env =>
      cases hact
      rfl
  · cases a with
    | call sender data =>
      cases data with
      | call call =>
        cases hb
        show AllowlistUpgradeable.act C d.storage (sender.address, call) =
          ((AllowlistUpgradeable.act C d.storage (sender.address, call)).map _).map _
        rw [Option.map_map]
        exact Option.map_id'.symm
      | _ => cases hb
    | env env => cases hb

theorem deployAllowlist_inv {self : Address}
    (h : deployAllowlist C self caller around created admin setter f = .ok (f', s)) :
    ∃ storage, AllowlistUpgradeable.act C .blank (self, .init admin setter) = some storage ∧
      s = system around () (AllowlistUpgradeable.code C) created f.guardian storage := by
  obtain ⟨_, hcaller, h⟩ := bind_eq_ok.mp h
  obtain ⟨s₀, h₀, h⟩ := bind_eq_ok.mp h
  obtain rfl := create_inv h₀
  obtain ⟨s₁, h₁, h⟩ := bind_eq_ok.mp h
  obtain ⟨storage, hstorage, rfl⟩ := call_inv h₁
  obtain ⟨s₂, h₂, h⟩ := bind_eq_ok.mp h
  obtain rfl := transferOwnership_inv h₂
  cases pure_eq_ok.mp h
  exact ⟨storage, hstorage, rfl⟩

/-- From the deployment on, as long as no call of its owner to the admin contract succeeds, the proxy is the allowlist
    that its calls make of a blank one, the first of them the initialization by the factory, and the guardian owns the
    admin contract. -/
theorem deployed_allowlist {self : Address}
    (h : deployAllowlist C self caller around created admin setter f = .ok (f', s))
    (acts : List (Upgradeable.Action Unit AllowlistUpgradeable AllowlistUpgradeable.Call))
    (howner : Machine.Obeys Upgradeable.act (fun u a => a.byOwner u = false) s acts) :
    let t := Machine.run Upgradeable.act s acts
    t.proxyAdmin.owner = f.guardian ∧ t.proxy.implementation = created.implementation ∧
      t.proxy.storage = Machine.run (AllowlistUpgradeable.act C) .blank
        ((self, .init admin setter) :: (acts.filterMap s.delegated).filterMap allowlistCall) := by
  obtain ⟨storage, hstorage, rfl⟩ := deployAllowlist_inv h
  obtain ⟨hsettled, hcontract⟩ := Upgradeable.run_transparent rfl (update_self ..) howner
  refine ⟨congrArg ProxyAdmin.owner hsettled.owner, hsettled.implementation, ?_⟩
  rw [Machine.run_cons, hstorage, Option.getD_some]
  exact (congrArg Upgradeable.Contract.storage hcontract).trans (run_allowlist _ _)

namespace Sample
open Usdy.Sample (alice bob)

/-- Hashes and signatures that nothing here asks for. -/
def crypto : Crypto where
  keccak256 _ := 0
  ecrecover _ _ _ _ := 0

/-- A deployment of the allowlist by the guardian. -/
def deployed : Except Factory.Err (Factory × AllowlistProxy) :=
  deployAllowlist crypto 0xfac 0xad (fun _ => none) ⟨0xe, 0x8, 0x9⟩ 0xad alice.address
    ⟨⟨0, 0, 0⟩, 0xad⟩

theorem deployed_isSome : deployed.toOption.isSome = true := by decide +kernel

/-- The proxy that the factory deploys. -/
def proxy : AllowlistProxy := (deployed.toOption.get deployed_isSome).2

theorem deployed_eq : deployed = .ok ((deployed.toOption.get deployed_isSome).1, proxy) := eq_ok_get deployed_isSome

/-- A first term, a status that alice sets, and another initialization. -/
def calls : List (Upgradeable.Action Unit AllowlistUpgradeable AllowlistUpgradeable.Call) :=
  [.message Usdy.Sample.admin (.proxy (.call (.addTerm []))), .message alice (.proxy (.call (.setAccountStatus bob.address 0 true))),
    .message bob (.proxy (.call (.init bob.address bob.address)))]

end Sample

theorem deployed_allowlist_calls :
    let t := Machine.run Upgradeable.act Sample.proxy Sample.calls
    t.proxy.storage.verifications 0xb 0 = true ∧ t.proxyAdmin.owner = 0xad := by
  intro t
  exact ⟨by decide +kernel, (deployed_allowlist Sample.deployed_eq Sample.calls (by decide +kernel)).1⟩

end AllowlistFactory

end Usdy
