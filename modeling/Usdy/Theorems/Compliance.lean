import Usdy.Token

/-! What the lists mean for USDY: whoever takes part in a movement is clear of both, and who is not clear keeps
    the balance and moves nothing. -/

namespace Usdy
open Checked

namespace USDY
variable {s t : System} {sender : Sender} {call : Call}

theorem act_call : act s (.call sender call) = some t ↔
    ∃ token, exec s.lists sender.address call s.token = .ok token ∧ t = { s with token } := by
  simp only [act, map_toOption_eq_some, eq_comm (b := t)]

/-- An account that is not clear when a call succeeds keeps its balance. -/
theorem exec_balance {lists : Lists} {u v : USDY} {caller account : Address} (h : exec lists caller call u = .ok v)
    (hclear : ¬Clear lists u account) : v.balances account = u.balances account := by
  cases hm : call.movement caller with
  | none => rw [(exec_kept hm h).1]
  | some m =>
    have hmoved := exec_moved hm h
    by_contra hne
    obtain ⟨hzero, rfl | rfl⟩ := hmoved.frame account hne
    · exact hclear (hmoved.cleared.src hzero)
    · exact hclear (hmoved.cleared.dst hzero)

/-- A sender that is not clear moves nothing. -/
theorem exec_sender {lists : Lists} {u v : USDY} (h : exec lists sender.address call u = .ok v)
    (hclear : ¬Clear lists u sender.address) : v.balances = u.balances := by
  cases hm : call.movement sender.address with
  | none => exact (exec_kept hm h).1
  | some m => exact absurd ((exec_moved hm h).cleared.clear_caller sender.ne_zero) hclear

/-- From any state on, every movement of a run is made while the token is not paused, by a sender that is clear,
    and between accounts that are clear; and an account that is clear in none of the run's states keeps its
    balance and moves no tokens. -/
theorem transfers_compliant (s : System) (acts : List Action) :
    (∀ x ∈ Machine.successes act s acts, ∀ sender call src dst, x.action = .call sender call →
      call.movement sender.address = some (src, dst) →
        x.before.token.paused = false ∧ Clear x.before.lists x.before.token sender.address ∧
        (src ≠ 0 → Clear x.before.lists x.before.token src) ∧ (dst ≠ 0 → Clear x.before.lists x.before.token dst)) ∧
    ∀ account, Machine.Obeys act (fun s _ => ¬Clear s.lists s.token account) s acts →
      (Machine.run act s acts).token.balances account = s.token.balances account ∧
      ∀ x ∈ Machine.successes act s acts, ∀ sender call, x.action = .call sender call → sender.address = account →
        x.after.token.balances = x.before.token.balances := by
  constructor
  · intro x hx sender call src dst haction hm
    have hact := Machine.act_of_mem hx
    rw [haction] at hact
    obtain ⟨token, htoken, -⟩ := act_call.mp hact
    have hcleared := (exec_moved hm htoken).cleared
    exact ⟨hcleared.unpaused, hcleared.clear_caller sender.ne_zero, hcleared.src, hcleared.dst⟩
  · intro account hobeys
    obtain ⟨hlast, -⟩ := Machine.invariant (I := fun t : System => t.token.balances account = s.token.balances account)
      hobeys rfl fun u a t hu hclear hact => by
        cases a with
        | call sender call =>
          obtain ⟨token, htoken, rfl⟩ := act_call.mp hact
          exact (exec_balance htoken hclear).trans hu
        | lists lists =>
          cases hact
          exact hu
    refine ⟨hlast, fun x hx sender call haction hsender => ?_⟩
    have hact := Machine.act_of_mem hx
    rw [haction] at hact
    obtain ⟨token, htoken, hafter⟩ := act_call.mp hact
    rw [hafter]
    exact exec_sender htoken (hsender ▸ hobeys x hx)

namespace Sample
open Usdy.Sample (admin alice bob)

/-- The token as the admin deploys it, with its lists at two addresses. -/
def token : USDY where
  toAccessControl := ((AccessControl.empty.setRole .defaultAdmin admin.address true).setRole .minter admin.address
    true).setRole .pauser admin.address true
  balances := fun _ => 0
  allowances := fun _ _ => 0
  totalSupply := 0
  paused := false
  blocklist := 0xc5
  allowlist := 0xc6
  events := [.blocklistSet 0 0xc5, .allowlistSet 0 0xc6]

example : init admin.address 0xc5 0xc6 = .ok token := rfl

/-- Everybody is allowed, and nobody is blocked but the given account. -/
def blocking (account : Address) : Lists where
  isBlocked _ a := some (decide (a = account))
  isAllowed _ _ := some true

-- Before alice is blocked, bob moves some of her tokens by an allowance.
def before : List Action :=
  [.call admin (.mint alice.address 100), .call alice (.approve bob.address 50),
    .call bob (.transferFrom alice.address bob.address 30)]

/-- Alice may burn now, and the tokens move on. -/
def after : List Action :=
  [.call admin (.role (.grantRole .burner alice.address)), .call alice (.transfer bob.address 10),
    .call alice (.adminBurn bob.address 10), .call bob (.transferFrom alice.address bob.address 10),
    .call bob (.transfer admin.address 10)]

end Sample

theorem transfers_compliant_history :
    let s := Machine.run act ⟨Sample.token, Sample.blocking 0⟩ Sample.before
    let t := Machine.run act { s with lists := Sample.blocking 0xa } Sample.after
    (s.token.balances 0xa = 70 ∧ s.token.balances 0xb = 30 ∧ t.token.balances 0xb = 20) ∧
      t.token.balances 0xa = s.token.balances 0xa := by
  refine ⟨⟨by decide +kernel, by decide +kernel, by decide +kernel⟩, ?_⟩
  refine ((transfers_compliant _ Sample.after).2 0xa ?_).1
  decide +kernel

end USDY
end Usdy
