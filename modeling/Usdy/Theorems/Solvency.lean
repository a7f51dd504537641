import Mathlib.Algebra.Order.BigOperators.Group.Finset
import Usdy.Lib.Exchange
import Usdy.Theorems.Collateral
import Usdy.Theorems.Mints
import Usdy.Theorems.Redemptions

/-! Solvency. Every RWA token was minted for collateral, and only what was minted can be burned, whoever
    holds it. So redemptions at prices no higher than those of the mints are worth no more than the
    deposits that were claimed. -/

namespace Usdy
open Checked Function

variable {T : Type} {X : Tokens T} {s s₀ t : State T} {balance : T → Address → Nat}

/-! ### The RWA token -/

/-- A token that keeps balances: the hub mints and burns what it says, burns no more than a balance, and
    moves no RWA tokens when it moves collateral. -/
structure RwaToken (X : Tokens T) (balance : T → Address → Nat) : Prop where
  mint : ∀ {views tokens dst amount tokens'}, X.mint views tokens dst amount = some tokens' →
    balance tokens' = update (balance tokens) dst (balance tokens dst + amount.toNat)
  burnFrom : ∀ {views tokens src amount tokens'}, X.burnFrom views tokens src amount = some tokens' →
    amount.toNat ≤ balance tokens src ∧
      balance tokens' = update (balance tokens) src (balance tokens src - amount.toNat)
  transferFrom : ∀ {views tokens src dst amount tokens'},
    X.transferFrom views tokens src dst amount = some tokens' → balance tokens' = balance tokens

/-- What all accounts hold together. -/
def supply (balance : T → Address → Nat) (tokens : T) : Nat := Slots.total id (balance tokens)

/-- Nobody else mints: what happens between calls of the hub, transfers above all, adds nothing to the
    supply. No record is overwritten. -/
def onlyMinter (balance : T → Address → Nat) : Rules T where
  call _ _ call :=
    match call with
    | .overwriteDepositor .. => False
    | .overwriteRedeemer .. => False
    | _ => True
  world s _ tokens := supply balance tokens ≤ supply balance s.tokens

/-- What a call mints. -/
def TokenCall.minted : TokenCall → Nat
  | .mint _ amount => amount.toNat
  | _ => 0

/-- What a call burns. -/
def TokenCall.burned : TokenCall → Nat
  | .burnFrom _ amount => amount.toNat
  | _ => 0

/-- What a list of calls mints. -/
def totalMinted (calls : List TokenCall) : Nat := (calls.map (·.minted)).sum

/-- What a list of calls burns. -/
def totalBurned (calls : List TokenCall) : Nat := (calls.map (·.burned)).sum

theorem RwaToken.exec (hX : RwaToken X balance) {views : Views} {tokens tokens' : T} {call : TokenCall}
    (h : X.exec views tokens call = some tokens') :
    supply balance tokens' + call.burned = supply balance tokens + call.minted := by
  unfold supply
  cases call with
  | mint dst amount =>
    have htotal := Slots.total_update (w := id) (f := balance tokens) (i := dst)
      (b := balance tokens dst + amount.toNat)
    rw [hX.mint h]
    simp only [id, TokenCall.burned, TokenCall.minted] at htotal ⊢
    omega
  | burnFrom src amount =>
    obtain ⟨hle, hbalance⟩ := hX.burnFrom h
    have htotal := Slots.total_update (w := id) (f := balance tokens) (i := src)
      (b := balance tokens src - amount.toNat)
    rw [hbalance]
    simp only [id, TokenCall.burned, TokenCall.minted] at htotal ⊢
    omega
  | transferFrom src dst amount => rw [hX.transferFrom h]; rfl

theorem RwaToken.moves (hX : RwaToken X balance) {views : Views} {tokens tokens' : T} {moved : List TokenCall}
    (h : X.Moves views tokens moved tokens') :
    supply balance tokens' + totalBurned moved = supply balance tokens + totalMinted moved := by
  refine h.invariant (I := fun moved tokens' =>
    supply balance tokens' + totalBurned moved = supply balance tokens + totalMinted moved) rfl
    fun moved u call v _ ih hcall => ?_
  have hstep := hX.exec hcall
  simp only [totalBurned, totalMinted, List.map_append, List.sum_append, List.map_cons, List.map_nil, List.sum_cons,
    List.sum_nil] at ih ⊢
  omega

/-- What is in circulation and what was burned does not exceed what was minted. -/
theorem RwaToken.supply_le (hX : RwaToken X balance) {acts : List (Action T)} (h₀ : Deployed s₀)
    (hsupply : ∀ a, balance s₀.tokens a = 0) (h : Run X (onlyMinter balance) s₀ acts s) :
    supply balance s.tokens + totalBurned s.calls ≤ totalMinted s.calls := by
  refine h.invariant (I := fun s => supply balance s.tokens + totalBurned s.calls ≤ totalMinted s.calls) ?_
    (fun s t sender call ih _ hexec => ?_) (fun _ _ ih _ => ih) fun s views tokens ih hworld => ?_
  · have hzero : supply balance s₀.tokens = 0 := Slots.total_of_forall hsupply
    rw [h₀.fresh.calls, hzero]
    rfl
  · obtain ⟨new, moved, hb, -⟩ := exec_booked sender.ne_zero hexec
    have hmoves := hX.moves hb.moves
    simp only [hb.calls, totalBurned, totalMinted, List.map_append, List.sum_append] at ih hmoves ⊢
    omega
  · have hworld : supply balance tokens ≤ supply balance s.tokens := hworld
    dsimp only
    omega

/-! ### What the log tells of mints and settlements -/

/-- The deposit that a mint claims, and its price. -/
def Event.purchase : Event → Option (Nat × Nat)
  | .mintCompleted _ _ _ collateralAmountDeposited price _ => some (collateralAmountDeposited.toNat, price.toNat)
  | _ => none

/-- The RWA tokens that a settlement redeems, and their price. -/
def Event.sale : Event → Option (Nat × Nat)
  | .redemptionCompleted _ _ rwaAmountRequested _ price => some (rwaAmountRequested.toNat, price.toNat)
  | _ => none

/-- The collateral that a settlement owes: the payment and its fee. -/
def Event.collateralDue (decimalsMultiplier : Uint256) : Event → Nat
  | .redemptionCompleted _ _ rwaAmountRequested _ price =>
    rwaAmountRequested.toNat * price.toNat / 10 ^ 18 / decimalsMultiplier.toNat
  | _ => 0

/-- The deposit that a mint was claimed for. -/
def Event.depositClaimed : Event → Nat
  | .mintCompleted _ _ _ collateralAmountDeposited _ _ => collateralAmountDeposited.toNat
  | _ => 0

/-- The collateral that all settlements of a log owe. -/
def totalDue (decimalsMultiplier : Uint256) (log : List Entry) : Nat :=
  (log.map fun e => e.event.collateralDue decimalsMultiplier).sum

/-- The deposits that all mints of a log were claimed for. -/
def totalClaimed (log : List Entry) : Nat := (log.map fun e => e.event.depositClaimed).sum

/-- No settlement of the log is at a price above that of a mint. -/
def NonRising (log : List Entry) : Prop :=
  ∀ e ∈ log, ∀ x ∈ log, ∀ q ∈ e.event.sale, ∀ p ∈ x.event.purchase, q.2 ≤ p.2

theorem sum_filterMap {α β : Type} {f : α → Option β} {g : β → Nat} (l : List α) :
    ((l.filterMap f).map g).sum = (l.map fun a => (f a).elim 0 g).sum := by
  induction l with
  | nil => rfl
  | cons a l ih =>
    rw [List.map_cons, List.sum_cons, ← ih]
    cases h : f a with
    | none => rw [List.filterMap_cons_none h, Option.elim_none, Nat.zero_add]
    | some b => rw [List.filterMap_cons_some h, List.map_cons, List.sum_cons, Option.elim_some]

theorem sum_congr {α : Type} {f g : α → Nat} {l : List α} (h : ∀ a ∈ l, f a = g a) : (l.map f).sum = (l.map g).sum := by
  rw [List.map_congr_left h]

theorem totalClaimed_eq (log : List Entry) : totalClaimed log = Exchange.volume (log.filterMap (·.event.purchase)) := by
  rw [Exchange.volume, sum_filterMap]
  refine sum_congr fun e _ => ?_
  cases e.event <;> rfl

theorem totalDue_eq (m : Uint256) (log : List Entry) :
    totalDue m log = Exchange.totalWorth (10 ^ 18 * m.toNat) (log.filterMap (·.event.sale)) := by
  rw [Exchange.totalWorth, sum_filterMap]
  refine sum_congr fun e _ => ?_
  cases e.event with
  | redemptionCompleted user id burned paid price => exact Nat.div_div_eq_div_mul ..
  | _ => rfl

/-- The calls that are no calls to the RWA token mint and burn nothing. -/
theorem sum_isRwa {f : TokenCall → Nat} (hf : ∀ c, c.isRwa = false → f c = 0) (calls : List TokenCall) :
    (calls.map f).sum = ((calls.filter TokenCall.isRwa).map f).sum := by
  induction calls with
  | nil => rfl
  | cons c calls ih =>
    cases h : c.isRwa with
    | true => rw [List.filter_cons_of_pos h, List.map_cons, List.map_cons, List.sum_cons, List.sum_cons, ih]
    | false =>
      rw [List.filter_cons_of_neg (by simp [h]), List.map_cons, List.sum_cons, hf c h, Nat.zero_add, ih]

/-- What was minted is what the mints of the log bought. -/
theorem Reachable.totalMinted_eq (h : Reachable X noOverwriteDepositor s) :
    totalMinted s.calls =
      Exchange.totalBought (10 ^ 18 * s.decimalsMultiplier.toNat) (s.events.filterMap (·.event.purchase)) := by
  rw [totalMinted, sum_isRwa (fun c hc => by cases c <;> first | rfl | cases hc), h.rwaCalls, Exchange.totalBought,
    sum_filterMap, sum_filterMap]
  refine sum_congr fun e he => ?_
  obtain ⟨time, event⟩ := e
  cases event with
  | mintCompleted user d out amount price priceId =>
    obtain ⟨l₁, l₂, hlog⟩ := List.append_of_mem he
    obtain ⟨-, -, -, -, hout⟩ := mint_credited h hlog
    simp only [Event.rwaCall, Event.purchase, Option.elim_some, TokenCall.minted, Exchange.bought, hout]
    rw [Nat.mul_assoc, Nat.mul_comm s.decimalsMultiplier.toNat]
  | _ => rfl

/-! ### What is settled was burned -/

theorem sum_requestedBy (e : Event) : ∑ user, e.requestedBy user ≤ e.rwaCall.elim 0 TokenCall.burned := by
  cases e with
  | redemptionRequested user d amount =>
    simp only [Event.requestedBy, Finset.sum_ite_eq, Finset.mem_univ, if_true]
    exact Nat.le_refl _
  | _ =>
    simp only [Event.requestedBy, Finset.sum_const_zero]
    exact Nat.zero_le _

theorem sum_settledFor (e : Event) : ∑ user, e.settledFor user = e.sale.elim 0 (·.1) := by
  cases e with
  | redemptionCompleted user d burned paid price =>
    simp only [Event.settledFor, Finset.sum_ite_eq, Finset.mem_univ, if_true]
    rfl
  | _ => simp only [Event.settledFor, Finset.sum_const_zero]; rfl

/-- Sums for each user of sums over the log, taken the other way round. -/
theorem sum_users {f : Address → Event → Nat} (log : List Entry) :
    ∑ user, (log.map fun e => f user e.event).sum = (log.map fun e => ∑ user, f user e.event).sum := by
  induction log with
  | nil => simp
  | cons e log ih => simp only [List.map_cons, List.sum_cons, Finset.sum_add_distrib, ih]

/-- Every settled token was requested by its user, and a request burned it. -/
theorem Reachable.settled_le (h : Reachable X noOverwriteRedeemer s) :
    Exchange.volume (s.events.filterMap (·.event.sale)) ≤ totalBurned s.calls :=
  calc Exchange.volume (s.events.filterMap (·.event.sale))
    _ = (s.events.map fun e => ∑ user, e.event.settledFor user).sum := by
      rw [Exchange.volume, sum_filterMap]
      exact sum_congr fun e _ => (sum_settledFor e.event).symm
    _ = ∑ user, settledRedemptions user s.events := (sum_users s.events).symm
    _ ≤ ∑ user, requestedRedemptions user s.events :=
      Finset.sum_le_sum fun user _ => (requested_eq h user).symm ▸ Nat.le_add_right _ _
    _ = (s.events.map fun e => ∑ user, e.event.requestedBy user).sum := sum_users s.events
    _ ≤ ((s.events.filterMap (·.event.rwaCall)).map TokenCall.burned).sum := by
      rw [sum_filterMap]
      exact List.sum_le_sum fun e _ => sum_requestedBy e.event
    _ = totalBurned s.calls := by
      rw [← h.rwaCalls]
      exact (sum_isRwa (fun c hc => by cases c <;> first | rfl | cases hc) s.calls).symm

/-! ### Solvency -/

/-- What a claim of redemptions owes is what it pays, with the fees. -/
theorem claimRedemption_totalDue {sender : Sender} {ids : List Bytes32}
    (h : exec X sender.address (.claimRedemption ids) s = .ok t) :
    ∃ moved, t.calls = s.calls ++ moved ∧
      totalDue s.decimalsMultiplier (t.events.drop s.events.length) = movedFrom s.assetSender moved := by
  obtain ⟨xs, fees, -, -, hxs, hfees, -, hb⟩ := claimRedemption_booked h
  refine ⟨_, hb.calls, ?_⟩
  rw [hb.events, List.drop_left, movedFrom_redemptionTransfers hxs hfees, totalDue, List.map_map]
  exact sum_congr fun x hx => (getRedemptionAmountForRwa_inv (hxs x hx).due).symm

/-- At every point of a run in which the hub is the only minter, nothing is overwritten and no redemption is
    settled at a price above that of a mint, the collateral owed for all the settlements is at most the
    deposits of all the mints. -/
theorem solvent (hX : RwaToken X balance) {acts : List (Action T)} (h₀ : Deployed s₀)
    (hsupply : ∀ a, balance s₀.tokens a = 0) (h : Run X (onlyMinter balance) s₀ acts s) (hprices : NonRising s.events) :
    totalDue s.decimalsMultiplier s.events ≤ totalClaimed s.events := by
  have hr : Reachable X (onlyMinter balance) s := ⟨s₀, acts, h₀, h⟩
  have hdeposits : Reachable X noOverwriteDepositor s :=
    hr.mono (fun _ _ call hrule => by cases call <;> first | exact hrule | trivial) fun _ _ _ _ => trivial
  have hredemptions : Reachable X noOverwriteRedeemer s :=
    hr.mono (fun _ _ call hrule => by cases call <;> first | exact hrule | trivial) fun _ _ _ _ => trivial
  have hminted := hdeposits.totalMinted_eq
  have hburned := hredemptions.settled_le
  have hsupply := hX.supply_le h₀ hsupply h
  rw [totalDue_eq, totalClaimed_eq]
  refine Exchange.totalWorth_le (fun q hq p hp => ?_) (by omega)
  obtain ⟨e, he, hq⟩ := List.mem_filterMap.mp hq
  obtain ⟨x, hx, hp⟩ := List.mem_filterMap.mp hp
  exact hprices e he x hx q hq p hp

theorem Sample.tokens_rwaToken : RwaToken Sample.tokens id where
  mint h := (Option.some.inj h).symm
  burnFrom h := by
    simp only [Sample.tokens, Option.ite_none_right_eq_some, Option.some.injEq] at h
    exact ⟨h.1, h.2.symm⟩
  transferFrom h := (Option.some.inj h).symm

theorem solvent_history :
    totalDue (run Sample.tokens Sample.state Sample.history).decimalsMultiplier
        (run Sample.tokens Sample.state Sample.history).events ≤
      totalClaimed (run Sample.tokens Sample.state Sample.history).events := by
  have hrun : (onlyMinter id).AllowsAll Sample.tokens Sample.state Sample.history :=
    Sample.history_allowed.of_any (by simp [Sample.history, onlyMinter, or_imp, forall_and]) (by simp [Sample.history])
  have hprices : NonRising (run Sample.tokens Sample.state Sample.history).events := by
    unfold NonRising
    decide +kernel
  exact solvent Sample.tokens_rwaToken Sample.state_deployed (fun _ => rfl) (run_path hrun) hprices

end Usdy
