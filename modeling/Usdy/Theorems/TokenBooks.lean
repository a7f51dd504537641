import Mathlib.Data.BitVec
import Usdy.Lib.Ledger
import Usdy.Theorems.Compliance

/-! The books of USDY. Each event tells what was written, and nothing else is: the transfers so far tell the
    balances and the supply, and the last approval, pause or list tells the rest. -/

namespace Usdy
open Checked Function

namespace USDY
variable {lists : Lists} {s t u : USDY} {caller src dst account owner spender : Address} {amount : Uint256} {call : Call}
  {new new' : List Event}

/-- All of the storage but the roles. -/
structure Books extends Ledger Address where
  allowances : Address → Address → Uint256
  paused : Bool
  blocklist : Address
  allowlist : Address

/-- The balances and the supply as numbers. -/
def ledger (s : USDY) : Ledger Address where
  balances a := (s.balances a).toNat
  supply := s.totalSupply.toNat

/-- The books that the storage holds. -/
def books (s : USDY) : Books where
  toLedger := s.ledger
  allowances := s.allowances
  paused := s.paused
  blocklist := s.blocklist
  allowlist := s.allowlist

/-! ### Reading the log -/

namespace Event

/-- The transfer that an event tells. -/
def transferred : Event → Option (Ledger.Transfer Address)
  | .transfer src dst value => some ⟨src, dst, value.toNat⟩
  | _ => none

/-- The allowance that an event tells for the owner and the spender. -/
def approved (owner spender : Address) : Event → Option Uint256
  | .approval owner' spender' value => if owner' = owner ∧ spender' = spender then some value else none
  | _ => none

/-- Whether the token is paused after an event. -/
def pauses : Event → Option Bool
  | .paused _ => some true
  | .unpaused _ => some false
  | _ => none

/-- The blocklist that an event tells. -/
def newBlocklist : Event → Option Address
  | .blocklistSet _ blocklist => some blocklist
  | _ => none

/-- The allowlist that an event tells. -/
def newAllowlist : Event → Option Address
  | .allowlistSet _ allowlist => some allowlist
  | _ => none

end Event

/-- The transfers that a log tells. -/
def transfers (events : List Event) : List (Ledger.Transfer Address) := events.filterMap Event.transferred

/-- The event tells all that was written. -/
structure Tells (b : Books) (e : Event) (c : Books) : Prop where
  kept : e.transferred = none → c.toLedger = b.toLedger
  posts : ∀ x, e.transferred = some x → b.toLedger.Posts x c.toLedger
  allowances : ∀ owner spender, c.allowances owner spender = (e.approved owner spender).getD (b.allowances owner spender)
  paused : c.paused = e.pauses.getD b.paused
  blocklist : c.blocklist = e.newBlocklist.getD b.blocklist
  allowlist : c.allowlist = e.newAllowlist.getD b.allowlist

/-- The events that a call adds to the log. -/
structure Logged (s : USDY) (new : List Event) (t : USDY) : Prop where
  events : t.events = s.events ++ new
  told : Trail Tells s.books new t.books

namespace Logged

theorem refl (s : USDY) : Logged s [] s := ⟨(List.append_nil _).symm, .nil _⟩

theorem trans (h : Logged s new t) (h' : Logged t new' u) : Logged s (new ++ new') u :=
  ⟨by rw [h'.events, h.events, List.append_assoc], h.told.append h'.told⟩

theorem single {e : Event} (h : t.events = s.events ++ [e]) (htold : Tells s.books e t.books) : Logged s [e] t :=
  ⟨h, .single htold⟩

end Logged

/-! ### Movements -/

theorem internalTransfer_eq_ok : internalTransfer lists caller src dst amount s = .ok t ↔
    src ≠ 0 ∧ dst ≠ 0 ∧ Cleared lists caller src dst s ∧ ∃ fromBalance toBalance : Uint256,
      fromBalance.toNat + amount.toNat = (s.balances src).toNat ∧
      toBalance.toNat = (update s.balances src fromBalance dst).toNat + amount.toNat ∧
      { s with
        balances := update (update s.balances src fromBalance) dst toBalance
        events := s.events ++ [.transfer src dst amount] } = t := by
  simp only [internalTransfer, bind_eq_ok, exists_unit_iff, revertIf_eq_ok, beforeTokenTransfer_eq_ok, pure_eq_ok,
    subOr_eq_ok, addOr_eq_ok, exists_and_left, emit, ne_eq]

theorem internalMint_eq_ok : internalMint lists caller account amount s = .ok t ↔
    account ≠ 0 ∧ Cleared lists caller 0 account s ∧ ∃ totalSupply balance : Uint256,
      totalSupply.toNat = s.totalSupply.toNat + amount.toNat ∧
      balance.toNat = (s.balances account).toNat + amount.toNat ∧
      { s with
        totalSupply
        balances := update s.balances account balance
        events := s.events ++ [.transfer 0 account amount] } = t := by
  simp only [internalMint, bind_eq_ok, exists_unit_iff, revertIf_eq_ok, beforeTokenTransfer_eq_ok, pure_eq_ok,
    addOr_eq_ok, exists_and_left, emit, ne_eq]

theorem internalBurn_eq_ok : internalBurn lists caller account amount s = .ok t ↔
    account ≠ 0 ∧ Cleared lists caller account 0 s ∧ ∃ balance totalSupply : Uint256,
      balance.toNat + amount.toNat = (s.balances account).toNat ∧
      totalSupply.toNat + amount.toNat = s.totalSupply.toNat ∧
      { s with
        totalSupply
        balances := update s.balances account balance
        events := s.events ++ [.transfer account 0 amount] } = t := by
  simp only [internalBurn, bind_eq_ok, exists_unit_iff, revertIf_eq_ok, beforeTokenTransfer_eq_ok, pure_eq_ok,
    subOr_eq_ok, exists_and_left, emit, ne_eq]

theorem internalTransfer_logged (h : internalTransfer lists caller src dst amount s = .ok t) :
    Logged s [.transfer src dst amount] t := by
  obtain ⟨hsrc, hdst, -, fromBalance, toBalance, hfrom, hto, rfl⟩ := internalTransfer_eq_ok.mp h
  refine .single rfl ⟨nofun, fun x hx => ?_, fun _ _ => rfl, rfl, rfl, rfl⟩
  obtain rfl := Option.some.inj hx
  refine ⟨fun a _ => ?_, ?_, ?_⟩
  · simp only [books, ledger, Ledger.Transfer.takes, Ledger.Transfer.gives]
    by_cases ha : a = dst
    · subst ha
      rw [update_self, hto, if_pos rfl]
      by_cases has : a = src
      · subst has
        rw [update_self, if_pos rfl]
        omega
      · rw [update_of_ne has, if_neg has]
        omega
    · rw [update_of_ne ha, if_neg ha]
      by_cases has : a = src
      · subst has
        rw [update_self, if_pos rfl]
        omega
      · rw [update_of_ne has, if_neg has]
  · show (update (update s.balances src fromBalance) dst toBalance 0).toNat = (s.balances 0).toNat
    rw [update_of_ne hdst.symm, update_of_ne hsrc.symm]
  · simp only [books, ledger, Ledger.Transfer.takes, Ledger.Transfer.gives, if_neg hsrc.symm, if_neg hdst.symm]

/-- A mint and a burn write the supply and the balance of one account. -/
theorem Logged.outside {balance totalSupply : Uint256} (hne : account ≠ 0)
    (hends : src = 0 ∧ dst = account ∨ src = account ∧ dst = 0)
    (hbalance : balance.toNat + Ledger.Transfer.takes account ⟨src, dst, amount.toNat⟩ =
      (s.balances account).toNat + Ledger.Transfer.gives account ⟨src, dst, amount.toNat⟩)
    (hsupply : totalSupply.toNat + Ledger.Transfer.gives 0 ⟨src, dst, amount.toNat⟩ =
      s.totalSupply.toNat + Ledger.Transfer.takes 0 ⟨src, dst, amount.toNat⟩) :
    Logged s [.transfer src dst amount]
      { s with
        totalSupply
        balances := update s.balances account balance
        events := s.events ++ [.transfer src dst amount] } := by
  refine .single rfl ⟨nofun, fun x hx => ?_, fun _ _ => rfl, rfl, rfl, rfl⟩
  obtain rfl := Option.some.inj hx
  refine .outside hne hends (fun a ha => congrArg BitVec.toNat (update_of_ne ha ..)) ?_ hsupply
  show (update s.balances account balance account).toNat + _ = _
  rw [update_self]
  exact hbalance

theorem internalMint_logged (h : internalMint lists caller account amount s = .ok t) :
    Logged s [.transfer 0 account amount] t := by
  obtain ⟨hne, -, totalSupply, balance, hsupply, hbalance, rfl⟩ := internalMint_eq_ok.mp h
  refine .outside hne (.inl ⟨rfl, rfl⟩) ?_ ?_
  · rwa [Ledger.Transfer.takes, Ledger.Transfer.gives, if_neg hne, if_pos rfl, Nat.add_zero]
  · rwa [Ledger.Transfer.takes, Ledger.Transfer.gives, if_neg hne.symm, if_pos rfl, Nat.add_zero]

theorem internalBurn_logged (h : internalBurn lists caller account amount s = .ok t) :
    Logged s [.transfer account 0 amount] t := by
  obtain ⟨hne, -, balance, totalSupply, hbalance, hsupply, rfl⟩ := internalBurn_eq_ok.mp h
  refine .outside hne (.inr ⟨rfl, rfl⟩) ?_ ?_
  · rwa [Ledger.Transfer.takes, Ledger.Transfer.gives, if_pos rfl, if_neg hne, Nat.add_zero]
  · rwa [Ledger.Transfer.takes, Ledger.Transfer.gives, if_pos rfl, if_neg hne.symm, Nat.add_zero]

/-! ### Allowances -/

theorem internalApprove_eq_ok : internalApprove owner spender amount s = .ok t ↔
    owner ≠ 0 ∧ spender ≠ 0 ∧
      { s with
        allowances := update s.allowances owner (update (s.allowances owner) spender amount)
        events := s.events ++ [.approval owner spender amount] } = t := by
  simp only [internalApprove, bind_eq_ok, exists_unit_iff, revertIf_eq_ok, pure_eq_ok, emit, ne_eq]

theorem internalApprove_logged (h : internalApprove owner spender amount s = .ok t) :
    Logged s [.approval owner spender amount] t := by
  obtain ⟨-, -, rfl⟩ := internalApprove_eq_ok.mp h
  refine .single rfl ⟨fun _ => rfl, nofun, fun o p => ?_, rfl, rfl, rfl⟩
  show update s.allowances owner (update (s.allowances owner) spender amount) o p =
    (if owner = o ∧ spender = p then some amount else none).getD (s.allowances o p)
  by_cases ho : owner = o
  · subst ho
    rw [update_self]
    by_cases hp : spender = p
    · subst hp
      rw [update_self, if_pos ⟨rfl, rfl⟩, Option.getD_some]
    · rw [update_of_ne (Ne.symm hp), if_neg fun h => hp h.2, Option.getD_none]
  · rw [update_of_ne (Ne.symm ho), if_neg fun h => ho h.1, Option.getD_none]

/-- What spending an allowance does: nothing to the largest one, and otherwise it lowers the allowance. -/
theorem spendAllowance_eq_ok : spendAllowance owner spender amount s = .ok t ↔
    (s.allowances owner spender = BitVec.allOnes 256 ∧ s = t) ∨
      s.allowances owner spender ≠ BitVec.allOnes 256 ∧ ∃ allowance : Uint256,
        allowance.toNat + amount.toNat = (s.allowances owner spender).toNat ∧
        internalApprove owner spender allowance s = .ok t := by
  unfold spendAllowance
  split
  · rename_i h
    simp only [bind_eq_ok, subOr_eq_ok, h, false_and, false_or, ne_eq, not_false_eq_true, true_and]
  · rename_i h
    rw [pure_eq_ok]
    simp only [not_not.mp h, true_and, ne_eq, not_true_eq_false, false_and, or_false]

theorem spendAllowance_logged (h : spendAllowance owner spender amount s = .ok t) : ∃ new, Logged s new t := by
  rcases spendAllowance_eq_ok.mp h with ⟨-, rfl⟩ | ⟨-, allowance, -, h⟩
  · exact ⟨[], .refl s⟩
  · exact ⟨_, internalApprove_logged h⟩

/-! ### Calls -/

theorem exec_logged (h : exec lists caller call s = .ok t) : ∃ new, Logged s new t := by
  cases call with
  | transfer dst amount => exact ⟨_, internalTransfer_logged h⟩
  | approve spender amount => exact ⟨_, internalApprove_logged h⟩
  | transferFrom src dst amount =>
    obtain ⟨u, hu, h⟩ := bind_eq_ok.mp h
    obtain ⟨new, hu⟩ := spendAllowance_logged hu
    exact ⟨_, hu.trans (internalTransfer_logged h)⟩
  | increaseAllowance spender value | decreaseAllowance spender value =>
    obtain ⟨allowance, -, h⟩ := bind_eq_ok.mp h
    exact ⟨_, internalApprove_logged h⟩
  | mint dst amount =>
    obtain ⟨_, -, h⟩ := bind_eq_ok.mp h
    exact ⟨_, internalMint_logged h⟩
  | burn amount => exact ⟨_, internalBurn_logged h⟩
  | burnFrom account amount =>
    obtain ⟨u, hu, h⟩ := bind_eq_ok.mp h
    obtain ⟨new, hu⟩ := spendAllowance_logged hu
    exact ⟨_, hu.trans (internalBurn_logged h)⟩
  | adminBurn src amount =>
    obtain ⟨_, -, h⟩ := bind_eq_ok.mp h
    exact ⟨_, internalBurn_logged h⟩
  | pause | unpause =>
    obtain ⟨_, -, h⟩ := bind_eq_ok.mp h
    obtain ⟨_, -, h⟩ := bind_eq_ok.mp h
    obtain rfl := pure_eq_ok.mp h
    exact ⟨_, .single rfl ⟨fun _ => rfl, nofun, fun _ _ => rfl, rfl, rfl, rfl⟩⟩
  | setBlocklist blocklist | setAllowlist allowlist =>
    obtain ⟨_, -, h⟩ := bind_eq_ok.mp h
    obtain ⟨_, -, h⟩ := bind_eq_ok.mp h
    obtain rfl := pure_eq_ok.mp h
    exact ⟨_, .single rfl ⟨fun _ => rfl, nofun, fun _ _ => rfl, rfl, rfl, rfl⟩⟩
  | role call =>
    obtain ⟨access, -, h⟩ := bind_eq_ok.mp h
    obtain rfl := pure_eq_ok.mp h
    exact ⟨[], (List.append_nil _).symm, .nil _⟩

/-! ### Runs -/

/-- Before `initialize`. -/
def Books.empty : Books where
  balances _ := 0
  supply := 0
  allowances _ _ := 0
  paused := false
  blocklist := 0
  allowlist := 0

/-- The log of the token tells all of its books. -/
def Told (s : USDY) : Prop := Trail Tells Books.empty s.events s.books

theorem Told.logged (h : Told s) (hl : Logged s new t) : Told t := by
  rw [Told, hl.events]
  exact h.append hl.told

theorem init_told {blocklist allowlist : Address} (h : init caller blocklist allowlist = .ok s) : Told s := by
  simp only [init, internalSetBlocklist, internalSetAllowlist, bind_eq_ok, exists_unit_iff, revertIf_eq_ok,
    pure_eq_ok] at h
  obtain ⟨u, ⟨-, rfl⟩, -, rfl⟩ := h
  refine .snoc (.single (t := { Books.empty with blocklist }) ⟨fun _ => rfl, nofun, fun _ _ => rfl, rfl, rfl, rfl⟩) ?_
  exact ⟨fun _ => rfl, nofun, fun _ _ => rfl, rfl, rfl, rfl⟩

theorem act_told {x y : System} {a : Action} (h : Told x.token) (hact : act x a = some y) : Told y.token := by
  cases a with
  | call sender call =>
    obtain ⟨token, htoken, rfl⟩ := map_toOption_eq_some.mp hact
    obtain ⟨new, hnew⟩ := exec_logged htoken
    exact h.logged hnew
  | lists lists =>
    cases hact
    exact h

theorem run_told {x : System} (h : Told x.token) (acts : List Action) : Told (Machine.run act x acts).token :=
  (Machine.invariant_any (I := fun x : System => Told x.token) h fun _ _ _ ih hact => act_told ih hact).1

theorem Told.posts (h : Told s) : Trail Ledger.Posts Books.empty.toLedger (transfers s.events) s.ledger :=
  Trail.filterMap (f := Books.toLedger) (fun _ _ _ htold hnone => htold.kept hnone)
    (fun _ _ _ x htold hx => htold.posts x hx) h

theorem Books.empty_backed : Books.empty.toLedger.Backed where
  total := by
    refine Slots.total_of_forall fun a => ?_
    rfl
  zero := rfl

theorem Told.backed (h : Told s) : s.ledger.Backed := Books.empty_backed.run h.posts

/-- After every run from the deployment, whatever the lists answered, the log tells the whole state of the token but
    its roles: what an account holds is what the transfers gave it less what they took, the supply is what was minted
    less what was burned, and an allowance, the pause and the lists are as the last event about them says. -/
theorem log_tells_token {deployer blocklist allowlist : Address} (h : init deployer blocklist allowlist = .ok s)
    (lists : Lists) (acts : List Action) :
    let t := (Machine.run act ⟨s, lists⟩ acts).token
    (∀ a, a ≠ 0 → (t.balances a).toNat + Ledger.taken a (transfers t.events) = Ledger.given a (transfers t.events)) ∧
      t.totalSupply.toNat + Ledger.given 0 (transfers t.events) = Ledger.taken 0 (transfers t.events) ∧
      (∀ owner spender, t.allowances owner spender =
        (t.events.filterMap fun e => e.approved owner spender).getLast?.getD 0) ∧
      t.paused = (t.events.filterMap Event.pauses).getLast?.getD false ∧
      t.blocklist = (t.events.filterMap Event.newBlocklist).getLast?.getD 0 ∧
      t.allowlist = (t.events.filterMap Event.newAllowlist).getLast?.getD 0 := by
  intro t
  have htold : Told t := run_told (x := ⟨s, lists⟩) (init_told h) acts
  refine ⟨fun a ha => ?_, ?_, fun owner spender => ?_, ?_, ?_, ?_⟩
  · have hbalance := Ledger.balance_eq htold.posts ha
    rwa [show Books.empty.balances a = 0 from rfl, Nat.zero_add] at hbalance
  · have hsupply := Ledger.supply_eq htold.posts
    rwa [show Books.empty.supply = 0 from rfl, Nat.zero_add] at hsupply
  · exact htold.last_write (f := fun b => b.allowances owner spender) fun _ _ _ ht => ht.allowances owner spender
  · exact htold.last_write (f := Books.paused) fun _ _ _ ht => ht.paused
  · exact htold.last_write (f := Books.blocklist) fun _ _ _ ht => ht.blocklist
  · exact htold.last_write (f := Books.allowlist) fun _ _ _ ht => ht.allowlist

theorem log_tells_token_history :
    let t := (Machine.run act ⟨Sample.token, Sample.blocking 0⟩ Sample.before).token
    t.balances 0xa = 70 ∧ Ledger.given 0xa (transfers t.events) = 100 ∧
      (t.balances 0xa).toNat + Ledger.taken 0xa (transfers t.events) = Ledger.given 0xa (transfers t.events) := by
  refine ⟨by decide +kernel, by decide +kernel, ?_⟩
  have hinit : init Usdy.Sample.admin.address 0xc5 0xc6 = .ok Sample.token := rfl
  exact (log_tells_token hinit (Sample.blocking 0) Sample.before).1 0xa (by decide)

end USDY

end Usdy
