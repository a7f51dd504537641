import Usdy.Theorems.Log

/-! The collateral. Fees are at most the whole amount, because the setters bound them and nothing else
    writes them. A subscription takes its amount from the caller, a claim of redemptions takes the due
    amounts from the asset sender, and nothing else moves collateral. -/

namespace Usdy
open Checked State

variable {T : Type} {X : Tokens T} {rules : Rules T} {s t : State T} {caller : Address} {call : Call}

/-! ### Fees -/

/-- Neither fee is more than the whole amount. -/
structure Config.FeesBounded (c : Config) : Prop where
  mintFee : c.mintFee.toNat ≤ 10000
  redemptionFee : c.redemptionFee.toNat ≤ 10000

theorem basisPoints_le {amount rate fee : Uint256} (hrate : rate.toNat ≤ 10000)
    (h : basisPoints amount rate = .ok fee) : fee.toNat ≤ amount.toNat := by
  rw [basisPoints_inv h]
  refine Nat.div_le_of_le_mul ?_
  rw [Nat.mul_comm 10000]
  exact Nat.mul_le_mul_left _ hrate

theorem subOr_fee {amount rate fee : Uint256} (hrate : rate.toNat ≤ 10000)
    (h : basisPoints amount rate = .ok fee) : ∃ rest, subOr Err.arithmetic amount fee = .ok rest := by
  have hle := basisPoints_le hrate h
  cases hsub : subOr Err.arithmetic amount fee with
  | ok rest => exact ⟨rest, rfl⟩
  | error e =>
    have hlt := (subOr_eq_error.mp hsub).1
    omega

theorem not_bpsDenominator_lt {fee : Uint256} (h : revertIf (fee > bpsDenominator) Err.feeTooLarge = .ok ()) :
    fee.toNat ≤ 10000 := by
  have hle : ¬bpsDenominator.toNat < fee.toNat := revertIf_eq_ok.mp h
  rw [bpsDenominator_toNat] at hle
  exact Nat.not_lt.mp hle

/-- Only the two fee setters write a fee, and they check it. -/
theorem AdminCall.exec_feesBounded {call : AdminCall} (hs : s.FeesBounded) (h : call.exec caller s = .ok t) :
    t.FeesBounded := by
  cases call with
  | setMintFee fee =>
    obtain ⟨-, hcheck, rfl⟩ := configure_eq_ok.mp h
    exact ⟨not_bpsDenominator_lt hcheck, hs.redemptionFee⟩
  | setRedemptionFee fee =>
    obtain ⟨-, hcheck, rfl⟩ := configure_eq_ok.mp h
    exact ⟨hs.mintFee, not_bpsDenominator_lt hcheck⟩
  | _ =>
    obtain ⟨-, -, rfl⟩ := configure_eq_ok.mp h
    exact ⟨hs.mintFee, hs.redemptionFee⟩

theorem Reachable.feesBounded (h : Reachable X rules s) : s.FeesBounded := by
  refine h.invariant (I := fun s => s.FeesBounded) (fun s hs => ?_) (fun s t sender call _ ih _ hexec => ?_)
    (fun _ _ ih _ => ih) fun _ _ _ ih _ => ih
  · obtain ⟨-, -, -, hmint, hredemption, -⟩ := hs.fresh
    exact ⟨by simp [hmint], by simp [hredemption]⟩
  · obtain ⟨a, rfl⟩ | hconfig := exec_config sender.ne_zero hexec
    · exact AdminCall.exec_feesBounded ih hexec
    · exact hconfig ▸ ih

/-! ### Transfers -/

/-- The calls that moved collateral so far. -/
def State.collateralCalls (s : State T) : List TokenCall := s.calls.filter fun c => !c.isRwa

/-- What the transfers of a list take from an account. -/
def movedFrom (src : Address) (calls : List TokenCall) : Nat :=
  (calls.map fun
    | .transferFrom src' _ amount => if src' = src then amount.toNat else 0
    | _ => 0).sum

theorem movedFrom_append {src : Address} {l l' : List TokenCall} :
    movedFrom src (l ++ l') = movedFrom src l + movedFrom src l' := by
  simp [movedFrom]

theorem movedFrom_if_positive {src dst : Address} {amount : Uint256} :
    movedFrom src (if amount > 0 then [.transferFrom src dst amount] else []) = amount.toNat := by
  split
  · simp [movedFrom]
  · have : amount = 0 := by bv_omega
    simp [movedFrom, this]

/-- A subscription splits its amount into the fee and what is left of it. -/
def subscriptionTransfers (s : State T) (caller : Address) (fee rest : Uint256) : List TokenCall :=
  (if fee > 0 then [.transferFrom caller s.feeRecipient fee] else []) ++ [.transferFrom caller s.assetRecipient rest]

/-- The settlements pay what is due, the fees included. -/
theorem movedFrom_redemptionTransfers {xs : List Settlement} {fees : Uint256} (hxs : ∀ x ∈ xs, x.Of s)
    (hfees : fees.toNat = (xs.map (·.fee.toNat)).sum) :
    movedFrom s.assetSender (redemptionTransfers s xs fees) = (xs.map (·.due.toNat)).sum := by
  rw [redemptionTransfers, movedFrom_append, movedFrom_if_positive, hfees]
  clear hfees
  induction xs with
  | nil => rfl
  | cons x xs ih =>
    have hpaid := (hxs x List.mem_cons_self).paid
    have ih := ih fun y hy => hxs y (List.mem_cons_of_mem x hy)
    simp only [movedFrom, List.map_cons, List.sum_cons, if_true] at ih ⊢
    omega

/-- The collateral a successful call of the caller moves, from the state before it to the state after. -/
def Call.MovesCollateral (s t : State T) (caller : Address) : Call → List TokenCall → Prop
  | .requestSubscription amount, moved =>
    ∃ fee rest : Uint256, fee.toNat = amount.toNat * s.mintFee.toNat / 10000 ∧
      rest.toNat + fee.toNat = amount.toNat ∧ moved = subscriptionTransfers s caller fee rest ∧
      movedFrom caller moved = amount.toNat ∧
      t.depositIdToDepositor s.subscriptionRequestCounter = ⟨caller, rest, 0⟩
  | .claimRedemption ids, moved =>
    ∃ (xs : List Settlement) (fees : Uint256), xs.map (·.redemptionId) = ids ∧ (∀ x ∈ xs, x.Of s) ∧
      fees.toNat = (xs.map (·.fee.toNat)).sum ∧ moved = redemptionTransfers s xs fees ∧
      movedFrom s.assetSender moved = (xs.map (·.due.toNat)).sum
  | _, moved => moved = []

theorem collateralCalls_append {moved : List TokenCall} (h : t.calls = s.calls ++ moved) :
    t.collateralCalls = s.collateralCalls ++ moved.filter fun c => !c.isRwa := by
  rw [State.collateralCalls, h, List.filter_append]
  rfl

theorem collateralCalls_transfers {moved : List TokenCall} (h : t.calls = s.calls ++ moved)
    (hmoved : ∀ c ∈ moved, c.isRwa = false) : t.collateralCalls = s.collateralCalls ++ moved := by
  rw [collateralCalls_append h, List.filter_eq_self.mpr fun c hc => by simp [hmoved c hc]]

theorem collateralCalls_onlyRwa {moved : List TokenCall} (h : t.calls = s.calls ++ moved) (hmoved : OnlyRwa moved) :
    t.collateralCalls = s.collateralCalls := by
  rw [collateralCalls_append h, List.filter_eq_nil_iff.mpr fun c hc => by simp [hmoved c hc], List.append_nil]

/-- What a successful call moves: the transfers it adds to those made so far. -/
theorem exec_movesCollateral (hc : caller ≠ 0) (h : exec X caller call s = .ok t) :
    ∃ moved, t.collateralCalls = s.collateralCalls ++ moved ∧ call.MovesCollateral s t caller moved := by
  obtain ⟨new, others, heffect⟩ := exec_effect hc h
  cases call with
  | requestSubscription amount =>
    obtain ⟨trackers, -, h⟩ := exec_request_inv rfl h
    obtain ⟨fee, rest, counter, tokens, moved, -, -, -, -, -, hfee, hsplit, -, hmoved, -, rfl⟩ :=
      RWAHub.requestSubscription_inv h
    have hfrom : movedFrom caller moved = amount.toNat := by
      rw [hmoved, movedFrom_append, movedFrom_if_positive]
      simp [movedFrom]
      omega
    refine ⟨moved, collateralCalls_transfers rfl fun c hc => ?_, fee, rest, hfee, hsplit, hmoved, hfrom, ?_⟩
    · rw [hmoved] at hc
      rcases List.mem_append.mp hc with hc | hc
      · split at hc
        · exact List.mem_singleton.mp hc ▸ rfl
        · cases hc
      · exact List.mem_singleton.mp hc ▸ rfl
    · exact Function.update_self ..
  | claimRedemption ids =>
    obtain ⟨xs, fees, hids, -, hxs, hfees, -, hb⟩ := claimRedemption_booked h
    refine ⟨_, collateralCalls_transfers hb.calls fun c hc => ?_, xs, fees, hids, hxs, hfees, rfl,
      movedFrom_redemptionTransfers hxs hfees⟩
    rcases List.mem_append.mp hc with hc | hc
    · obtain ⟨x, -, rfl⟩ := List.mem_map.mp hc
      rfl
    · split at hc
      · exact List.mem_singleton.mp hc ▸ rfl
      · cases hc
  | _ => exact ⟨[], (collateralCalls_onlyRwa heffect.calls (heffect.onlyRwa rfl)).trans (List.append_nil _).symm, rfl⟩

/-- In every reachable state the fees are at most the whole amount, so no amount is too small for its fee,
    and every call that succeeds there moves the collateral its ledgers record, and no other. -/
theorem collateral_accounted (h : Reachable X Rules.any s) :
    (s.mintFee.toNat ≤ 10000 ∧ s.redemptionFee.toNat ≤ 10000) ∧
    (∀ amount fee, s.getMintFees amount = .ok fee → ∃ rest, subOr Err.arithmetic amount fee = .ok rest) ∧
    (∀ due fee, s.getRedemptionFees due = .ok fee → ∃ rest, subOr Err.arithmetic due fee = .ok rest) ∧
    ∀ (sender : Sender) (call : Call) (t : State T), exec X sender.address call s = .ok t →
      ∃ moved, t.collateralCalls = s.collateralCalls ++ moved ∧ call.MovesCollateral s t sender.address moved := by
  have hfees := h.feesBounded
  refine ⟨⟨hfees.mintFee, hfees.redemptionFee⟩, fun amount fee hfee => ?_, fun due fee hfee => ?_,
    fun sender call t hexec => exec_movesCollateral sender.ne_zero hexec⟩
  · exact subOr_fee hfees.mintFee hfee
  · exact subOr_fee hfees.redemptionFee hfee

theorem collateral_accounted_history :
    let s := run Sample.tokens Sample.state (Sample.history.take 14)
    ∃ t, exec Sample.tokens Sample.admin.address (.claimRedemption [1]) s = .ok t ∧ ∃ moved,
      t.collateralCalls = s.collateralCalls ++ moved ∧
      (Call.claimRedemption [1]).MovesCollateral s t Sample.admin.address moved := by
  intro s
  have hrun : Rules.any.AllowsAll Sample.tokens Sample.state (Sample.history.take 14) := Sample.history_allowed.take 14
  have hok : (exec Sample.tokens Sample.admin.address (.claimRedemption [1]) s).toOption.isSome = true := by
    decide +kernel
  obtain ⟨-, -, -, hcalls⟩ := collateral_accounted ((Reachable.of_deployed Sample.state_deployed).run (run_path hrun))
  exact ⟨_, eq_ok_get hok, hcalls Sample.admin _ _ (eq_ok_get hok)⟩

end Usdy
