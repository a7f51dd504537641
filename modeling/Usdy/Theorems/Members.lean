import Mathlib.Data.FinEnum
import Usdy.Access
import Usdy.Members
import Usdy.Theorems.Roles

/-! The enumeration of role members agrees with the roles: every member is at one index below the count, and
    nobody else is. Keeping it makes no call fail. -/

namespace Usdy
open Checked Function State

variable {T : Type} {X : Tokens T}

namespace Enumerable
variable {e t : Enumerable T} {caller account sender : Address} {role : Role}

/-- The members that are kept for each role are those who hold it. -/
def Agrees (a : AccessControl) (roleMembers : Role → EnumerableSet Address) : Prop :=
  ∀ role, (roleMembers role).Ok ∧ ∀ account, account ∈ (roleMembers role).values ↔ a.hasRole role account = true

namespace Agrees
variable {a : AccessControl} {roleMembers : Role → EnumerableSet Address}

theorem empty : Agrees .empty fun _ => .empty := fun _ =>
  ⟨EnumerableSet.empty_ok, fun _ => ⟨fun h => absurd h List.not_mem_nil, fun h => absurd h Bool.false_ne_true⟩⟩

/-- A write to one role and a set that follows it. -/
theorem update (h : Agrees a roleMembers) {granted : Bool} {set : EnumerableSet Address} (hset : set.Ok)
    (hmem : ∀ b, b ∈ set.values ↔ if b = account then granted = true else b ∈ (roleMembers role).values) :
    Agrees (a.setRole role account granted) (Function.update roleMembers role set) := by
  intro r
  by_cases hr : r = role
  · subst hr
    rw [update_self]
    refine ⟨hset, fun b => ?_⟩
    rw [hmem, AccessControl.setRole_hasRole, (h r).2]
    by_cases hb : b = account
    · rw [if_pos hb, if_pos ⟨rfl, hb⟩]
    · rw [if_neg hb, if_neg fun h => hb h.2]
  · rw [update_of_ne hr]
    refine ⟨(h r).1, fun b => ?_⟩
    rw [(h r).2, AccessControl.setRole_hasRole, if_neg fun h => hr h.1]

theorem add (h : Agrees a roleMembers) (role : Role) (account : Address) :
    Agrees (a.setRole role account true) (Function.update roleMembers role ((roleMembers role).add account).1) := by
  obtain ⟨hok, hmem⟩ := (h role).1.add account
  refine h.update hok fun b => ?_
  rw [hmem]
  by_cases hb : b = account
  · simp [hb]
  · simp [hb]

theorem remove (h : Agrees a roleMembers) (role : Role) (account : Address) :
    ∃ set removed, (roleMembers role).remove account = .ok (set, removed) ∧
      Agrees (a.setRole role account false) (Function.update roleMembers role set) := by
  obtain ⟨set, removed, heq, hok, hmem⟩ := (h role).1.remove account
  refine ⟨set, removed, heq, h.update hok fun b => ?_⟩
  rw [hmem]
  by_cases hb : b = account
  · simp [hb]
  · simp [hb]

end Agrees

/-! ### Calls -/

/-- A call of the manager with its members does what the call does without them, and the members follow. -/
inductive Follows : Except Usdy.Err (State T) → Except Err (Enumerable T) → Prop
  | ok {t : Enumerable T} (agrees : Agrees t.toAccessControl t.roleMembers) : Follows (.ok t.toState) (.ok t)
  | error {e : Usdy.Err} {e' : Err} : Follows (.error e) (.error e')

theorem Follows.guarded {check : Except Usdy.Err Unit} {s : State T} {x : Except Err (Enumerable T)}
    (h : Follows (.ok s) x) : Follows (check >>= fun _ => pure s) (raise .manager check >>= fun _ => x) := by
  cases check with
  | error e => exact .error
  | ok u => exact h

theorem internalGrantRole_follows (h : Agrees e.toAccessControl e.roleMembers) :
    Follows (.ok (e.toState.internalGrantRole role account sender)) (.ok (e.internalGrantRole role account sender)) := by
  refine .ok (t := e.internalGrantRole role account sender) ?_
  show Agrees (e.toState.internalGrantRole role account sender).toAccessControl _
  rw [internalGrantRole_roles]
  exact h.add role account

theorem internalRevokeRole_follows (h : Agrees e.toAccessControl e.roleMembers) :
    Follows (.ok (e.toState.internalRevokeRole role account sender)) (e.internalRevokeRole role account sender) := by
  obtain ⟨set, removed, heq, hset⟩ := h.remove role account
  rw [internalRevokeRole, heq]
  refine .ok (t := ⟨e.toState.internalRevokeRole role account sender, Function.update e.roleMembers role set⟩) ?_
  show Agrees (e.toState.internalRevokeRole role account sender).toAccessControl _
  rw [internalRevokeRole_roles]
  exact hset

/-- A call that writes no roles. -/
theorem Follows.of_kept {x : Except Usdy.Err (State T)} (h : Agrees e.toAccessControl e.roleMembers)
    (hx : ∀ s, x = .ok s → s.toAccessControl = e.toAccessControl) :
    Follows x (raise .manager x >>= fun s => pure { e with toState := s }) := by
  cases x with
  | error err => exact .error
  | ok s =>
    refine .ok (t := { e with toState := s }) ?_
    show Agrees s.toAccessControl _
    rw [hx s rfl]
    exact h

theorem exec_follows (hc : caller ≠ 0) (call : Call) (h : Agrees e.toAccessControl e.roleMembers) :
    Follows (Usdy.exec X caller call e.toState) (exec X caller call e) := by
  cases call with
  | grantRole role account => exact (internalGrantRole_follows h).guarded
  | revokeRole role account | renounceRole role account => exact (internalRevokeRole_follows h).guarded
  | _ => exact .of_kept h fun s hs => exec_roles hc hs

/-! ### Runs -/

theorem step_agrees (h : Agrees e.toAccessControl e.roleMembers) (a : Action T) :
    (step X e a).toState = Usdy.step X e.toState a ∧ Agrees (step X e a).toAccessControl (step X e a).roleMembers := by
  cases a with
  | call sender call =>
    have hfollows := exec_follows (X := X) sender.ne_zero call h
    generalize hx : Usdy.exec X sender.address call e.toState = x at hfollows
    generalize hy : exec X sender.address call e = y at hfollows
    cases hfollows with
    | ok hagrees =>
      simp only [step, Usdy.step, Usdy.stepBy, hx, hy]
      exact ⟨trivial, hagrees⟩
    | error =>
      simp only [step, Usdy.step, Usdy.stepBy, hx, hy]
      exact ⟨trivial, h⟩
  | block time =>
    by_cases hle : e.now ≤ time
    · simp only [step, Usdy.step, Usdy.stepBy, if_pos hle]
      exact ⟨trivial, h⟩
    · simp only [step, Usdy.step, Usdy.stepBy, if_neg hle]
      exact ⟨trivial, h⟩
  | world views tokens => exact ⟨rfl, h⟩

theorem run_agrees (h : Agrees e.toAccessControl e.roleMembers) (acts : List (Action T)) :
    (run X e acts).toState = Usdy.run X e.toState acts ∧ Agrees (run X e acts).toAccessControl (run X e acts).roleMembers := by
  induction acts generalizing e with
  | nil => exact ⟨rfl, h⟩
  | cons a acts ih =>
    obtain ⟨hstate, hagrees⟩ := step_agrees (X := X) h a
    obtain ⟨hrun, hlast⟩ := ih hagrees
    rw [hstate] at hrun
    exact ⟨hrun, hlast⟩

theorem deploy_agrees {d : Deployment} {now : Uint256} {views : Views} {tokens : T}
    (h : deploy d now views tokens = .ok e) : Agrees e.toAccessControl e.roleMembers := by
  simp only [deploy, Usdy.deploy, bind_eq_ok, exists_unit_iff, revertIf_eq_ok, pure_eq_ok] at h
  obtain ⟨s, ⟨-, -, -, -, -, -, -, decimalsMultiplier, -, -, rfl⟩, rfl⟩ := h
  have hgranted := ((Agrees.empty.add .defaultAdmin d.managerAdmin).add .managerAdmin d.managerAdmin).add .pauserAdmin
    d.pauser
  intro role
  refine ⟨(hgranted role).1, fun account => ?_⟩
  rw [(hgranted role).2]
  simp only [setRoleAdmin, emit, internalGrantRole_roles]
  rfl

/-- After any run from a deployment, whatever the calls were, the manager is in the state it would be in without
    the enumeration, and the enumeration of each role is exact: an account holds the role just when it is at some
    index, that index is the only one, and the indexes in use are those below the count, which is the number of
    holders. -/
theorem members_enumerated {d : Deployment} {now : Uint256} {views : Views} {tokens : T}
    (h : deploy d now views tokens = .ok e) (acts : List (Action T)) (role : Role) :
    (run X e acts).toState = Usdy.run X e.toState acts ∧
      (∀ account, (run X e acts).hasRole role account = true ↔ ∃ i, (run X e acts).getRoleMember role i = .ok account) ∧
      (∀ account i j, (run X e acts).getRoleMember role i = .ok account →
        (run X e acts).getRoleMember role j = .ok account → i = j) ∧
      (∀ i, (∃ account, (run X e acts).getRoleMember role i = .ok account) ↔
        i < (run X e acts).getRoleMemberCount role) ∧
      (run X e acts).getRoleMemberCount role =
        (Finset.univ.filter fun account => (run X e acts).hasRole role account = true).card := by
  obtain ⟨hstate, hagrees⟩ := run_agrees (X := X) (deploy_agrees h) acts
  obtain ⟨hok, hmem⟩ := hagrees role
  refine ⟨hstate, fun account => ?_, fun account i j => hok.atIndex_inj, fun i => ?_, ?_⟩
  · rw [← hmem, List.mem_iff_getElem?]
    simp only [getRoleMember, EnumerableSet.atIndex, orFail_eq_ok]
  · simp only [getRoleMember, EnumerableSet.atIndex, orFail_eq_ok, getRoleMemberCount, EnumerableSet.length]
    constructor
    · intro hget
      obtain ⟨_, hget⟩ := hget
      exact (List.getElem?_eq_some_iff.mp hget).1
    · intro hi
      exact ⟨_, List.getElem?_eq_getElem hi⟩
  · rw [getRoleMemberCount, EnumerableSet.length, ← List.toFinset_card_of_nodup (Registry.Indexed.nodup hok)]
    refine congrArg Finset.card (Finset.ext fun account => ?_)
    rw [List.mem_toFinset, hmem, Finset.mem_filter, and_iff_right (Finset.mem_univ _)]

namespace Sample
open Usdy.Sample (admin alice bob)

theorem deploy_isSome :
    (deploy Usdy.Sample.deployment 1000 Usdy.Sample.views fun _ : Address => 0).toOption.isSome = true := by
  decide +kernel

/-- The roles that the constructor leaves, with their lists. -/
def state : Enumerable (Address → Nat) :=
  (deploy Usdy.Sample.deployment 1000 Usdy.Sample.views fun _ => 0).toOption.get deploy_isSome

/-- Two relayers, of whom the first is revoked. -/
def grants : List (Action (Address → Nat)) :=
  [.call admin (.grantRole .relayer alice.address), .call admin (.grantRole .relayer bob.address),
    .call admin (.revokeRole .relayer alice.address)]

end Sample

theorem members_enumerated_grants :
    let e := run Usdy.Sample.tokens Sample.state Sample.grants
    (e.getRoleMember .relayer 0).toOption = some 0xb ∧ ∀ i, e.getRoleMember .relayer i = .ok 0xb → i = 0 := by
  intro e
  have h : e.getRoleMember .relayer 0 = .ok 0xb := toOption_eq_some.mp (by decide +kernel)
  refine ⟨by rw [h]; rfl, fun i hi => ?_⟩
  exact (members_enumerated (eq_ok_get Sample.deploy_isSome) Sample.grants .relayer).2.2.1 0xb i 0 hi h

end Enumerable

end Usdy
