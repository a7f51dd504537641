import Usdy.Theorems.TokenBooks

/-! The supply of USDY is what its accounts hold together, so the checked additions of a movement never fail. An
    account that does nothing loses no more than it had approved. -/

namespace Usdy
open Checked Function

namespace USDY
variable {lists : Lists} {s t u : USDY} {caller src dst account owner spender : Address} {amount : Uint256} {call : Call}

/-! ### No overflow -/

theorem checkLists_avoids {blocked notAllowed : Err} (hblocked : blocked ≠ .arithmetic)
    (hnot : notAllowed ≠ .arithmetic) : Avoids .arithmetic (s.checkLists lists account blocked notAllowed) :=
  .bind (.orFail (by decide)) fun _ _ => .bind (.revertIf hblocked) fun _ _ =>
    .bind (.orFail (by decide)) fun _ _ => .revertIf hnot

theorem ite_checkLists_avoids {c : Prop} [Decidable c] {blocked notAllowed : Err} (hblocked : blocked ≠ .arithmetic)
    (hnot : notAllowed ≠ .arithmetic) :
    Avoids .arithmetic (if c then s.checkLists lists account blocked notAllowed else pure ()) := by
  split
  · exact checkLists_avoids hblocked hnot
  · exact .ok

theorem beforeTokenTransfer_avoids : Avoids .arithmetic (s.beforeTokenTransfer lists caller src dst) :=
  .bind (.revertIf (by decide)) fun _ _ => .bind (ite_checkLists_avoids (by decide) (by decide)) fun _ _ =>
    .bind (ite_checkLists_avoids (by decide) (by decide)) fun _ _ => ite_checkLists_avoids (by decide) (by decide)

theorem balance_le_supply (h : s.ledger.Backed) (account : Address) : (s.balances account).toNat ≤ s.totalSupply.toNat := h.balance_le

/-- Two accounts hold together no more than the supply. -/
theorem balances_le_supply (h : s.ledger.Backed) (hne : dst ≠ src) :
    (s.balances src).toNat + (s.balances dst).toNat ≤ s.totalSupply.toNat := by
  have hle := Slots.add_le_total (w := id) (f := s.ledger.balances) hne
  rwa [h.total] at hle

theorem internalTransfer_avoids (h : s.ledger.Backed) :
    Avoids .arithmetic (internalTransfer lists caller src dst amount s) := by
  refine .bind (.revertIf (by decide)) fun _ _ => .bind (.revertIf (by decide)) fun _ _ =>
    .bind beforeTokenTransfer_avoids fun _ _ => .bind (.subOr (by decide)) fun fromBalance hfrom => ?_
  refine .bind (fun herr => ?_) fun _ _ => .ok
  obtain ⟨hlarge, -⟩ := addOr_eq_error.mp herr
  rw [subOr_eq_ok] at hfrom
  by_cases hds : dst = src
  · rw [hds, update_self] at hlarge
    omega
  · rw [update_of_ne hds] at hlarge
    have := balances_le_supply h hds
    omega

theorem internalBurn_avoids (h : s.ledger.Backed) :
    Avoids .arithmetic (internalBurn lists caller account amount s) := by
  refine .bind (.revertIf (by decide)) fun _ _ => .bind beforeTokenTransfer_avoids fun _ _ =>
    .bind (.subOr (by decide)) fun balance hbalance => ?_
  refine .bind (fun herr => ?_) fun _ _ => .ok
  obtain ⟨hsmall, -⟩ := subOr_eq_error.mp herr
  rw [subOr_eq_ok] at hbalance
  have := balance_le_supply h account
  omega

/-- Minting overflows just when the supply does. -/
theorem internalMint_arithmetic (h : s.ledger.Backed)
    (herr : internalMint lists caller account amount s = .error .arithmetic) :
    2 ^ 256 ≤ s.totalSupply.toNat + amount.toNat := by
  by_contra hfits
  refine Avoids.bind (.revertIf (by decide)) (fun _ _ => .bind beforeTokenTransfer_avoids fun _ _ =>
    .bind (fun herr => ?_) fun _ _ => .bind (fun herr => ?_) fun _ _ => .ok) herr
  · exact hfits (addOr_eq_error.mp herr).1
  · have := (addOr_eq_error.mp herr).1
    have := balance_le_supply h account
    omega

theorem internalApprove_avoids : Avoids .arithmetic (internalApprove owner spender amount s) :=
  .bind (.revertIf (by decide)) fun _ _ => .bind (.revertIf (by decide)) fun _ _ => .ok

theorem spendAllowance_avoids : Avoids .arithmetic (spendAllowance owner spender amount s) := by
  unfold spendAllowance
  split
  · exact .bind (.subOr (by decide)) fun _ _ => internalApprove_avoids
  · exact .ok

/-- Spending an allowance moves nothing. -/
theorem spendAllowance_ledger (h : spendAllowance owner spender amount s = .ok t) : t.ledger = s.ledger := by
  obtain ⟨allowances, events, rfl⟩ := spendAllowance_inv h
  rfl

/-- The calls that add to something that is not bounded by the supply. -/
def Call.raises : Call → Bool
  | .mint .. | .increaseAllowance .. => true
  | _ => false

theorem exec_avoids (h : s.ledger.Backed) (hcall : call.raises = false) :
    Avoids .arithmetic (exec lists caller call s) := by
  cases call with
  | transfer dst amount => exact internalTransfer_avoids h
  | approve spender amount => exact internalApprove_avoids
  | transferFrom src dst amount =>
    exact .bind spendAllowance_avoids fun u hu => internalTransfer_avoids (spendAllowance_ledger hu ▸ h)
  | decreaseAllowance spender value => exact .bind (.subOr (by decide)) fun _ _ => internalApprove_avoids
  | burn amount => exact internalBurn_avoids h
  | burnFrom account amount =>
    exact .bind spendAllowance_avoids fun u hu => internalBurn_avoids (spendAllowance_ledger hu ▸ h)
  | adminBurn src amount => exact .bind (.raise fun _ => nofun) fun _ _ => internalBurn_avoids h
  | pause | unpause => exact .bind (.revertIf (by decide)) fun _ _ => .bind (.revertIf (by decide)) fun _ _ => .ok
  | setBlocklist blocklist | setAllowlist allowlist =>
    exact .bind (.raise fun _ => nofun) fun _ _ => .bind (.revertIf (by decide)) fun _ _ => .ok
  | role call => exact .bind (.raise fun _ => nofun) fun _ _ => .ok
  | _ => cases hcall

theorem mint_arithmetic (h : s.ledger.Backed) (herr : exec lists caller (.mint dst amount) s = .error .arithmetic) :
    2 ^ 256 ≤ s.totalSupply.toNat + amount.toNat := by
  by_contra hfits
  exact Avoids.bind (.revertIf (by decide)) (fun _ _ herr => hfits (internalMint_arithmetic h herr)) herr

theorem increaseAllowance_arithmetic
    (herr : exec lists caller (.increaseAllowance spender amount) s = .error .arithmetic) :
    2 ^ 256 ≤ (s.allowances caller spender).toNat + amount.toNat := by
  by_contra hfits
  exact Avoids.bind (fun herr => hfits (addOr_eq_error.mp herr).1) (fun _ _ => internalApprove_avoids) herr

/-- After every run from the deployment the supply is what the accounts hold together, the zero account holds
    nothing, and no call whatever fails for overflow but a mint that the supply has no room for and an increase that
    the allowance has no room for. -/
theorem supply_backed {deployer blocklist allowlist : Address} (h : init deployer blocklist allowlist = .ok s)
    (lists : Lists) (acts : List Action) :
    let t := (Machine.run act ⟨s, lists⟩ acts).token
    Slots.total BitVec.toNat t.balances = t.totalSupply.toNat ∧ t.balances 0 = 0 ∧
      ∀ lists caller call, exec lists caller call t = .error .arithmetic →
        (∃ dst amount, call = .mint dst amount ∧ 2 ^ 256 ≤ t.totalSupply.toNat + amount.toNat) ∨
          ∃ spender value, call = .increaseAllowance spender value ∧
            2 ^ 256 ≤ (t.allowances caller spender).toNat + value.toNat := by
  intro t
  have hbacked : t.ledger.Backed := (run_told (x := ⟨s, lists⟩) (init_told h) acts).backed
  refine ⟨hbacked.total, BitVec.toNat_inj.mp hbacked.zero, fun lists caller call herr => ?_⟩
  cases call with
  | mint dst amount => exact .inl ⟨dst, amount, rfl, mint_arithmetic hbacked herr⟩
  | increaseAllowance spender value => exact .inr ⟨spender, value, rfl, increaseAllowance_arithmetic herr⟩
  | _ => exact absurd herr (exec_avoids hbacked rfl)

theorem supply_backed_history :
    Slots.total BitVec.toNat (Machine.run act ⟨Sample.token, Sample.blocking 0⟩ Sample.before).token.balances = 100 := by
  have hinit : init Usdy.Sample.admin.address 0xc5 0xc6 = .ok Sample.token := rfl
  have hbacked := (supply_backed hinit (Sample.blocking 0) Sample.before).1
  rw [hbacked]
  decide +kernel

/-! ### An account that does nothing -/

/-- The call of a burner that burns from the account. -/
def Call.burnsFrom (account : Address) : Call → Bool
  | .adminBurn src _ => src == account
  | _ => false

/-- Somebody else's action, and no burn from the account by a burner. -/
def Action.leaves (account : Address) : Action → Bool
  | .call sender call => sender.address != account && !call.burnsFrom account
  | .lists _ => true

/-- What a call that leaves the account alone may do to it: an allowance of the sender, unless it is the largest,
    is lowered by at least what the account loses. -/
inductive Spared (caller account : Address) (s t : USDY) : Prop
  | kept (allowances : t.allowances account = s.allowances account)
      (balance : (s.balances account).toNat ≤ (t.balances account).toNat)
  | unlimited (largest : s.allowances account caller = BitVec.allOnes 256)
  | spent (allowance amount : Uint256) (lowered : allowance.toNat + amount.toNat = (s.allowances account caller).toNat)
      (limited : s.allowances account caller ≠ BitVec.allOnes 256)
      (allowances : t.allowances account = update (s.allowances account) caller allowance)
      (balance : (s.balances account).toNat ≤ (t.balances account).toNat + amount.toNat)

theorem internalTransfer_posts (h : internalTransfer lists caller src dst amount s = .ok t) :
    s.ledger.Posts ⟨src, dst, amount.toNat⟩ t.ledger :=
  (internalTransfer_logged h).told.single_inv.posts _ rfl

theorem internalMint_posts (h : internalMint lists caller account amount s = .ok t) :
    s.ledger.Posts ⟨0, account, amount.toNat⟩ t.ledger :=
  (internalMint_logged h).told.single_inv.posts _ rfl

theorem internalBurn_posts (h : internalBurn lists caller account amount s = .ok t) :
    s.ledger.Posts ⟨account, 0, amount.toNat⟩ t.ledger :=
  (internalBurn_logged h).told.single_inv.posts _ rfl

/-- A movement of the owner's tokens for which an allowance was spent. -/
theorem spared_of_spent (hu : spendAllowance src caller amount s = .ok u) (hallowances : t.allowances = u.allowances)
    (hposts : s.ledger.Posts ⟨src, dst, amount.toNat⟩ t.ledger) : Spared caller account s t := by
  by_cases ha : account = src
  · subst ha
    rcases spendAllowance_eq_ok.mp hu with ⟨hlargest, -⟩ | ⟨hlimited, allowance, hlowered, hu⟩
    · exact .unlimited hlargest
    · obtain ⟨-, -, rfl⟩ := internalApprove_eq_ok.mp hu
      refine .spent allowance amount hlowered hlimited (hallowances ▸ update_self ..) ?_
      have hle := hposts.le (a := account)
      rwa [Ledger.Transfer.takes, if_pos rfl] at hle
  · refine .kept ?_ (hposts.le_of_src fun _ => ha)
    rcases spendAllowance_eq_ok.mp hu with ⟨-, rfl⟩ | ⟨-, allowance, -, hu⟩
    · rw [hallowances]
    · obtain ⟨-, -, rfl⟩ := internalApprove_eq_ok.mp hu
      exact hallowances ▸ update_of_ne ha ..

theorem exec_spared (hcaller : caller ≠ account) (hburn : call.burnsFrom account = false)
    (h : exec lists caller call s = .ok t) : Spared caller account s t := by
  cases call with
  | transfer dst amount =>
    obtain ⟨-, -, -, fromBalance, toBalance, -, -, heq⟩ := internalTransfer_eq_ok.mp h
    exact .kept (by rw [← heq]) ((internalTransfer_posts h).le_of_src fun _ => hcaller.symm)
  | approve spender amount =>
    obtain ⟨-, -, rfl⟩ := internalApprove_eq_ok.mp h
    exact .kept (update_of_ne hcaller.symm ..) (Nat.le_refl _)
  | transferFrom src dst amount =>
    obtain ⟨u, hu, h⟩ := bind_eq_ok.mp h
    have hposts := internalTransfer_posts h
    obtain ⟨-, -, -, fromBalance, toBalance, -, -, heq⟩ := internalTransfer_eq_ok.mp h
    rw [spendAllowance_ledger hu] at hposts
    exact spared_of_spent hu (by rw [← heq]) hposts
  | increaseAllowance spender value | decreaseAllowance spender value =>
    obtain ⟨allowance, -, h⟩ := bind_eq_ok.mp h
    obtain ⟨-, -, rfl⟩ := internalApprove_eq_ok.mp h
    exact .kept (update_of_ne hcaller.symm ..) (Nat.le_refl _)
  | mint dst amount =>
    obtain ⟨_, -, h⟩ := bind_eq_ok.mp h
    obtain ⟨-, -, totalSupply, balance, -, -, heq⟩ := internalMint_eq_ok.mp h
    exact .kept (by rw [← heq]) ((internalMint_posts h).le_of_src id)
  | burn amount =>
    obtain ⟨-, -, balance, totalSupply, -, -, heq⟩ := internalBurn_eq_ok.mp h
    exact .kept (by rw [← heq]) ((internalBurn_posts h).le_of_src fun _ => hcaller.symm)
  | burnFrom account amount =>
    obtain ⟨u, hu, h⟩ := bind_eq_ok.mp h
    have hposts := internalBurn_posts h
    obtain ⟨-, -, balance, totalSupply, -, -, heq⟩ := internalBurn_eq_ok.mp h
    rw [spendAllowance_ledger hu] at hposts
    exact spared_of_spent hu (by rw [← heq]) hposts
  | adminBurn src amount =>
    obtain ⟨_, -, h⟩ := bind_eq_ok.mp h
    obtain ⟨-, -, balance, totalSupply, -, -, heq⟩ := internalBurn_eq_ok.mp h
    refine .kept (by rw [← heq]) ((internalBurn_posts h).le_of_src fun _ hsrc => ?_)
    exact beq_eq_false_iff_ne.mp hburn hsrc.symm
  | pause | unpause | setBlocklist blocklist | setAllowlist allowlist =>
    obtain ⟨_, -, h⟩ := bind_eq_ok.mp h
    obtain ⟨_, -, h⟩ := bind_eq_ok.mp h
    obtain rfl := pure_eq_ok.mp h
    exact .kept rfl (Nat.le_refl _)
  | role call =>
    obtain ⟨access, -, h⟩ := bind_eq_ok.mp h
    obtain rfl := pure_eq_ok.mp h
    exact .kept rfl (Nat.le_refl _)

/-- No allowance of the account is unlimited, and what it lost since is covered by what its allowances fell by. -/
structure Covered (account : Address) (s t : USDY) : Prop where
  limited : ∀ spender, t.allowances account spender ≠ BitVec.allOnes 256
  covered : (s.balances account).toNat + Slots.total BitVec.toNat (t.allowances account) ≤
    (t.balances account).toNat + Slots.total BitVec.toNat (s.allowances account)

theorem Covered.spared (h : Covered account s t) (hspared : Spared caller account t u) : Covered account s u := by
  have hcovered := h.covered
  cases hspared with
  | kept hallowances hbalance => exact ⟨hallowances ▸ h.limited, by rw [hallowances]; omega⟩
  | unlimited hlargest => exact absurd hlargest (h.limited caller)
  | spent allowance amount hlowered hlimited hallowances hbalance =>
    have htotal := Slots.total_update (w := BitVec.toNat) (f := t.allowances account) (i := caller) (b := allowance)
    refine ⟨fun spender => ?_, ?_⟩
    · rw [hallowances]
      by_cases hs : spender = caller
      · subst hs
        rw [update_self]
        rintro rfl
        have hmax : (BitVec.allOnes 256).toNat = 2 ^ 256 - 1 := BitVec.toNat_allOnes
        have hlt := (t.allowances account spender).isLt
        exact hlimited (BitVec.toNat_inj.mp (by omega))
      · rw [update_of_ne hs]
        exact h.limited spender
    · rw [hallowances]
      omega

/-- However others act, over a run in which an account makes no call and no burner burns from it, it loses no more
    than it had approved to all spenders together when the run began. -/
theorem idle_loses_approved (s : System) (acts : List Action) (account : Address)
    (h : Machine.Obeys act (fun _ a => a.leaves account = true) s acts) :
    (s.token.balances account).toNat ≤
      ((Machine.run act s acts).token.balances account).toNat +
        Slots.total BitVec.toNat (s.token.allowances account) := by
  by_cases hlimited : ∀ spender, s.token.allowances account spender ≠ BitVec.allOnes 256
  · have hcovered : Covered account s.token (Machine.run act s acts).token := by
      refine (Machine.invariant (I := fun t : System => Covered account s.token t.token) h
        ⟨hlimited, Nat.le_refl _⟩ fun t a u ih hleaves hact => ?_).1
      cases a with
      | call sender call =>
        obtain ⟨token, htoken, rfl⟩ := act_call.mp hact
        simp only [Action.leaves, Bool.and_eq_true, bne_iff_ne, Bool.not_eq_true'] at hleaves
        exact ih.spared (exec_spared hleaves.1 hleaves.2 htoken)
      | lists lists =>
        cases hact
        exact ih
    have := hcovered.covered
    omega
  · -- The largest allowance exceeds every balance.
    obtain ⟨spender, hlargest⟩ := not_forall.mp hlimited
    have hle := Slots.le_total (w := BitVec.toNat) (f := s.token.allowances account) (i := spender)
    rw [not_not.mp hlargest, BitVec.toNat_allOnes] at hle
    have := (s.token.balances account).isLt
    omega

theorem idle_loses_approved_history :
    let s := Machine.run act ⟨Sample.token, Sample.blocking 0⟩ Sample.before
    (s.token.balances 0xa).toNat ≤
      ((Machine.run act s [.call Usdy.Sample.bob (.transferFrom 0xa 0xb 20)]).token.balances 0xa).toNat +
        Slots.total BitVec.toNat (s.token.allowances 0xa) := by
  intro s
  refine idle_loses_approved s _ 0xa ?_
  decide +kernel

end USDY

end Usdy
