import Usdy.Theorems.Acceptance
import Usdy.Theorems.Collateral
import Usdy.Theorems.Regroup

/-! Which lists of redemptions `claimRedemption` accepts, where the pricer answers for every price id and the
    collateral is a plain token: lists of different ids, each of which may be settled by itself, when the asset
    sender holds, and lets the manager move, what is due for all of them together. -/

namespace Usdy
open Checked Function State

variable {T : Type} {X : Tokens T} {rules : Rules T} {s t : State T} {price : Uint256 → Uint256} {id : Bytes32}
  {ids : List Bytes32}

/-- The collateral that is due for the redemption under the id, its fee included. -/
def State.due (s : State T) (price : Uint256 → Uint256) (id : Bytes32) : Nat :=
  (s.redemptionIdToRedeemer id).amountRwaTokenBurned.toNat * (price (s.redemptionIdToRedeemer id).priceId).toNat /
    10 ^ 18 / s.decimalsMultiplier.toNat

/-- The fee on it. -/
def State.dueFee (s : State T) (price : Uint256 → Uint256) (id : Bytes32) : Nat :=
  s.due price id * s.redemptionFee.toNat / 10000

/-- The redemption under the id may be settled now. -/
structure State.Settleable (s : State T) (price : Uint256 → Uint256) (id : Bytes32) : Prop where
  unblocked : s.checkRestrictions (s.redemptionIdToRedeemer id).user = .ok ()
  priced : (s.redemptionIdToRedeemer id).priceId ≠ 0
  user : (s.redemptionIdToRedeemer id).user ≠ 0
  fits : (s.redemptionIdToRedeemer id).amountRwaTokenBurned.toNat *
    (price (s.redemptionIdToRedeemer id).priceId).toNat < 2 ^ 256
  feeFits : s.due price id * s.redemptionFee.toNat < 2 ^ 256

/-- What is due for all ids of a list. -/
def State.totalDue (s : State T) (price : Uint256 → Uint256) (ids : List Bytes32) : Nat := (ids.map (s.due price)).sum

/-- The fees on it. -/
def State.totalFee (s : State T) (price : Uint256 → Uint256) (ids : List Bytes32) : Nat := (ids.map (s.dueFee price)).sum

/-- What an account receives for its redemptions of the list. -/
def State.paidTo (s : State T) (price : Uint256 → Uint256) (ids : List Bytes32) (account : Address) : Nat :=
  (ids.map fun id =>
    if account = (s.redemptionIdToRedeemer id).user then s.due price id - s.dueFee price id else 0).sum

/-- The redemptions of the list are deleted. -/
def Ledgers.redeemed (g : Ledgers) (ids : List Bytes32) : Ledgers :=
  { g with redemptionIdToRedeemer := fun id => if ids.contains id then 0 else g.redemptionIdToRedeemer id }

theorem Ledgers.foldl_settled : ∀ (ids : List Bytes32) (g : Ledgers), ids.foldl Ledgers.settled g = g.redeemed ids
  | [], g => by simp [redeemed]
  | redemptionId :: ids, g => by
    rw [List.foldl_cons, foldl_settled]
    simp only [redeemed, settled, Ledgers.mk.injEq, and_true, true_and]
    funext id
    by_cases h : id = redemptionId
    · simp [h]
    · simp [h]

/-! ### One settlement -/

theorem internalGrantRole_config {role : Role} {account sender : Address} :
    (s.internalGrantRole role account sender).toConfig = s.toConfig := by
  obtain ⟨roles, new, heq, -⟩ := internalGrantRole_inv s role account sender
  rw [heq]

/-- The multiplier is a power of ten. -/
theorem Deployed.decimalsMultiplier_ne_zero (h : Deployed s) : s.decimalsMultiplier ≠ 0 := by
  obtain ⟨d, now, views, tokens, h⟩ := h
  simp only [deploy, bind_eq_ok, exists_unit_iff, revertIf_eq_ok, pure_eq_ok] at h
  obtain ⟨-, -, -, -, -, decimals, -, multiplier, hpow, -, rfl⟩ := h
  have hpow : multiplier.toNat = (10 : Uint256).toNat ^ decimals.toNat := wordOr_eq_ok.mp hpow
  have hpos : 0 < multiplier.toNat := hpow ▸ Nat.pow_pos (by decide)
  simp only [emit, setRoleAdmin, internalGrantRole_config]
  rintro (rfl : multiplier = 0)
  exact Nat.lt_irrefl 0 hpos

theorem Reachable.decimalsMultiplier_ne_zero (h : Reachable X rules s) : s.decimalsMultiplier ≠ 0 := by
  refine h.invariant (I := fun s => s.decimalsMultiplier ≠ 0) (fun s hs => hs.decimalsMultiplier_ne_zero)
    (fun s t sender call _ ih _ hexec => ?_) (fun _ _ ih _ => ih) fun _ _ _ ih _ => ih
  obtain ⟨new, moved, hb, -⟩ := exec_booked sender.ne_zero hexec
  exact hb.decimalsMultiplier ▸ ih

theorem settlement_amounts {x : Settlement} (hprice : s.Quotes price)
    (h : s.settlement id (s.redemptionIdToRedeemer id) = .ok x) :
    x.user = (s.redemptionIdToRedeemer id).user ∧ x.fee.toNat = s.dueFee price id ∧
      x.paid.toNat + s.dueFee price id = s.due price id := by
  obtain ⟨rfl, hof⟩ := Settlement.of_ok h
  have hquote := Option.some.inj ((hprice _).symm.trans hof.quoted)
  have hdue : x.due.toNat = s.due price x.redemptionId := by
    rw [getRedemptionAmountForRwa_inv hof.due, hof.burned, ← hquote]
    rfl
  have hfee : x.fee.toNat = s.dueFee price x.redemptionId := by
    rw [hof.fee, hdue]
    rfl
  exact ⟨hof.user, hfee, by rw [← hfee, hof.paid, hdue]⟩

/-- A settlement exists whenever the amounts fit: its fee is a part of what is due. The token also asks for a receiver. -/
theorem settleable_iff (hm : s.decimalsMultiplier ≠ 0) (hfee : s.redemptionFee.toNat ≤ 10000) (hprice : s.Quotes price) :
    s.Settleable price id ↔ (s.redemptionIdToRedeemer id).user ≠ 0 ∧
      ∃ x, s.settlement id (s.redemptionIdToRedeemer id) = .ok x := by
  simp only [settlement, bind_eq_ok, exists_unit_iff, revertIf_eq_ok, getPrice_eq_ok, getRedemptionFees, pure_eq_ok]
  constructor
  · rintro ⟨hcheck, hpriced, huser, hfits, hfeeFits⟩
    obtain ⟨due, hdue⟩ := exists_getRedemptionAmountForRwa.mpr ⟨hfits, hm⟩
    have hdueNat : due.toNat = s.due price id := getRedemptionAmountForRwa_inv hdue
    have hle := Nat.div_le_self (due.toNat * s.redemptionFee.toNat) 10000
    rw [← hdueNat] at hfeeFits
    obtain ⟨fee, hfeeNat⟩ := exists_word (Nat.lt_of_le_of_lt hle hfeeFits)
    have hfeeOk : basisPoints due s.redemptionFee = .ok fee := basisPoints_eq_ok.mpr ⟨hfeeFits, hfeeNat⟩
    obtain ⟨paid, hpaid⟩ := subOr_fee hfee hfeeOk
    exact ⟨huser, _, hcheck, hpriced, _, hprice _, due, hdue, fee, hfeeOk, paid, hpaid, rfl⟩
  · rintro ⟨huser, x, hcheck, hpriced, p, hquote, due, hdue, fee, hfeeOk, paid, -, -⟩
    obtain rfl := Option.some.inj ((hprice _).symm.trans hquote)
    obtain ⟨hfits, -, hdueNat⟩ := getRedemptionAmountForRwa_eq_ok.mp hdue
    refine ⟨hcheck, hpriced, huser, hfits, ?_⟩
    rw [State.due, ← hdueNat]
    exact (basisPoints_eq_ok.mp hfeeOk).1

/-! ### The bill -/

section Bill
variable {keepsMax : Bool} {xs : List (Bytes32 × Settlement)} (hprice : s.Quotes price)
  (hxs : ∀ x ∈ xs, s.settlement x.1 (s.redemptionIdToRedeemer x.1) = .ok x.2)
include hprice hxs

theorem fees_settled : Settlement.fees (xs.map Prod.snd) = s.totalFee price (xs.map Prod.fst) := by
  rw [Settlement.fees, totalFee, List.map_map, List.map_map]
  exact congrArg List.sum (List.map_congr_left fun x hx => (settlement_amounts hprice (hxs x hx)).2.1)

theorem outlay_bill :
    PlainToken.outlay ((Settlement.batch s keepsMax).bill (xs.map Prod.snd)) = s.totalDue price (xs.map Prod.fst) := by
  rw [Settlement.batch, PlainToken.outlay_append_due, fees_settled hprice hxs, PlainToken.outlay, totalFee, totalDue,
    List.map_map, List.map_map, List.map_map, List.map_map, ← List.sum_map_add]
  exact congrArg List.sum (List.map_congr_left fun x hx => (settlement_amounts hprice (hxs x hx)).2.2)

theorem received_bill (a : Address) :
    PlainToken.received a ((Settlement.batch s keepsMax).bill (xs.map Prod.snd)) =
      s.paidTo price (xs.map Prod.fst) a + if a = s.feeRecipient then s.totalFee price (xs.map Prod.fst) else 0 := by
  rw [Settlement.batch, PlainToken.received_append_due, fees_settled hprice hxs, PlainToken.received, paidTo,
    List.map_map, List.map_map, List.map_map]
  congr 2
  refine List.map_congr_left fun x hx => ?_
  obtain ⟨huser, -, hpaid⟩ := settlement_amounts hprice (hxs x hx)
  simp only [comp_apply, Settlement.payment, huser]
  split <;> omega

/-- The payments of the bill go to other accounts exactly when there is somebody to pay, and somebody to receive
    the fees. -/
theorem payable_bill (hne : s.assetSender ≠ s.feeRecipient)
    (hapart : ∀ x ∈ xs, (s.redemptionIdToRedeemer x.1).user ≠ s.assetSender) :
    (∀ p ∈ (Settlement.batch s keepsMax).bill (xs.map Prod.snd), p.1 ≠ 0 ∧ p.1 ≠ s.assetSender) ↔
      (∀ x ∈ xs, (s.redemptionIdToRedeemer x.1).user ≠ 0) ∧
        (0 < s.totalFee price (xs.map Prod.fst) → s.feeRecipient ≠ 0) := by
  rw [Settlement.batch, List.forall_mem_append, PlainToken.forall_mem_due, fees_settled hprice hxs,
    List.forall_mem_map, List.forall_mem_map]
  refine and_congr (forall₂_congr fun x hx => ?_) (imp_congr_right fun _ => and_iff_left hne.symm)
  rw [Settlement.payment, (settlement_amounts hprice (hxs x hx)).1]
  exact and_iff_left (hapart x hx)

end Bill

/-! ### Acceptance -/

/-- Redemptions are running, the list names different redemptions, each of which may be settled, and the asset sender
    can pay for all of them. -/
structure State.Redeems (P : PlainCollateral X) (s : State T) (price : Uint256 → Uint256) (ids : List Bytes32) :
    Prop where
  running : s.redemptionPaused = false
  nodup : ids.Nodup
  settleable : ∀ id ∈ ids, s.Settleable price id
  feeRecipient : 0 < s.totalFee price ids → s.feeRecipient ≠ 0
  balance : s.totalDue price ids ≤ (P.token s.tokens).balances s.assetSender
  allowance : s.totalDue price ids ≤ (P.token s.tokens).allowances s.assetSender

section Acceptance
variable {P : PlainCollateral X}

/-- The asset sender can pay the whole bill exactly when it covers the sum, in whatever order the parts are paid. -/
theorem settles_iff (hm : s.decimalsMultiplier ≠ 0) (hfee : s.redemptionFee.toNat ≤ 10000) (hprice : s.Quotes price)
    (hne : s.assetSender ≠ s.feeRecipient) (hapart : ∀ id ∈ ids, (s.redemptionIdToRedeemer id).user ≠ s.assetSender) :
    (s.redemptionPaused = false ∧ ∃ b, (Settlement.batch s P.keepsMax).Settles (P.view s) ids b) ↔
      s.Redeems P price ids := by
  simp only [Batch.settles_iff]
  constructor
  · rintro ⟨hpaused, ⟨g, u⟩, hnodup, -, xs, rfl, hxs, hpay⟩
    have hxs : ∀ x ∈ xs, s.settlement x.1 (s.redemptionIdToRedeemer x.1) = .ok x.2 := hxs
    have hapart := List.forall_mem_map.mp hapart
    obtain ⟨hpayable, hbalance, hallowance⟩ := PlainToken.exists_pays_iff.mp ⟨u, hpay⟩
    obtain ⟨husers, hrecipient⟩ := (payable_bill hprice hxs hne hapart).mp hpayable
    rw [outlay_bill hprice hxs] at hbalance hallowance
    exact ⟨hpaused, hnodup,
      List.forall_mem_map.mpr fun x hx => (settleable_iff hm hfee hprice).mpr ⟨husers x hx, x.2, hxs x hx⟩,
      hrecipient, hbalance, hallowance⟩
  · rintro ⟨hpaused, hnodup, hsettleable, hrecipient, hbalance, hallowance⟩
    -- Different ids read different records, so what each settlement is does not depend on the ones before it.
    obtain ⟨xs, rfl, hxs⟩ : ∃ xs : List (Bytes32 × Settlement), xs.map Prod.fst = ids ∧
        ∀ x ∈ xs, s.settlement x.1 (s.redemptionIdToRedeemer x.1) = .ok x.2 :=
      Batch.exists_items (B := Settlement.batch s P.keepsMax) (g := s.toLedgers) fun id hid =>
        ((settleable_iff hm hfee hprice).mp (hsettleable id hid)).2
    have hapart := List.forall_mem_map.mp hapart
    have husers : ∀ x ∈ xs, (s.redemptionIdToRedeemer x.1).user ≠ 0 := fun x hx =>
      (hsettleable x.1 (List.mem_map_of_mem hx)).user
    have houtlay : PlainToken.outlay ((Settlement.batch s P.keepsMax).bill (xs.map Prod.snd)) =
        s.totalDue price (xs.map Prod.fst) := outlay_bill hprice hxs
    rw [← houtlay] at hbalance hallowance
    obtain ⟨u, hpay⟩ := PlainToken.exists_pays_iff.mpr
      ⟨(payable_bill hprice hxs hne hapart).mpr ⟨husers, hrecipient⟩, hbalance, hallowance⟩
    exact ⟨hpaused, (_, u), hnodup, rfl, xs, rfl, hxs, hpay⟩

/-- Between calls, `claimRedemption` succeeds exactly for lists of different redemptions that may be settled, while
    redemptions run and the asset sender can pay what is due for all of them. It then deletes the listed redemptions
    and nothing else, takes what is due from the asset sender, and pays every other account what it is due for its
    redemptions of the list, and the fees to their recipient; otherwise it changes nothing. -/
theorem claimRedemption_accepted_iff (h : Reachable X rules s) (hprice : s.Quotes price)
    (hne : s.assetSender ≠ s.feeRecipient) (sender : Sender) (ids : List Bytes32)
    (hapart : ∀ id ∈ ids, (s.redemptionIdToRedeemer id).user ≠ s.assetSender) :
    ((∃ t, exec X sender.address (.claimRedemption ids) s = .ok t) ↔ s.Redeems P price ids) ∧
    (∀ t, exec X sender.address (.claimRedemption ids) s = .ok t → ∃ tokens calls events,
      t = { s.moved (s.toLedgers.redeemed ids) tokens calls events with status := 1 } ∧
        (P.token tokens).balances s.assetSender + s.totalDue price ids = (P.token s.tokens).balances s.assetSender ∧
        ∀ a, a ≠ s.assetSender → (P.token tokens).balances a = (P.token s.tokens).balances a +
          (s.paidTo price ids a + if a = s.feeRecipient then s.totalFee price ids else 0)) ∧
    (¬s.Redeems P price ids → step X s (.call sender (.claimRedemption ids)) = s) := by
  have hpriced : Settlement.Apart s.assetSender ids s.toLedgers := fun id hid _ => hapart id hid
  have hiff : (∃ t, exec X sender.address (.claimRedemption ids) s = .ok t) ↔ s.Redeems P price ids := by
    rw [← settles_iff h.decimalsMultiplier_ne_zero h.feesBounded.redemptionFee hprice hne hapart]
    constructor
    · rintro ⟨t, ht⟩
      obtain ⟨⟨-, hpaused⟩, hsettles, -⟩ := PlainCollateral.settles_of_claim (P := P) hne.symm hpriced ht
      exact ⟨hpaused, _, hsettles⟩
    · rintro ⟨hpaused, b, hsettles⟩
      obtain ⟨t, ht, -⟩ := PlainCollateral.claim_of_settles hne.symm h.not_entered hpaused hsettles
      exact ⟨t, ht⟩
  refine ⟨hiff, fun t ht => ?_, fun hnot => ?_⟩
  · obtain ⟨-, hsettles, hleft⟩ := PlainCollateral.settles_of_claim (P := P) hne.symm hpriced ht
    obtain ⟨-, hledgers, xs, rfl, hxs, hpay⟩ := Batch.settles_iff.mp hsettles
    have hxs : ∀ x ∈ xs, s.settlement x.1 (s.redemptionIdToRedeemer x.1) = .ok x.2 := hxs
    have hledgers : t.toLedgers = s.toLedgers.redeemed (xs.map Prod.fst) :=
      Eq.trans hledgers (Ledgers.foldl_settled _ _)
    obtain ⟨hpaid, hreceived⟩ := PlainToken.Pays.balances_eq hpay
    rw [outlay_bill hprice hxs] at hpaid
    refine ⟨t.tokens, t.calls, t.events, ?_, hpaid, fun a ha => ?_⟩
    · rw [← hledgers]
      exact hleft
    · rw [← received_bill hprice hxs]
      exact hreceived a ha
  · cases ht : exec X sender.address (.claimRedemption ids) s with
    | ok t => exact absurd (hiff.mp ⟨t, ht⟩) hnot
    | error e => exact step_of_error ht

end Acceptance

theorem Sample.claimable_reachable : Reachable Sample.plainTokens Rules.any Sample.claimable := by
  refine (Reachable.of_deployed ⟨deployment, 1000, views, (collateral, rwa), eq_ok_get deploy_plain_isSome⟩).run
    (run_path ⟨trivial, trivial, trivial, trivial, trivial, trivial, trivial, ?_, trivial⟩)
  unfold Rules.Allows
  decide +kernel

theorem claimRedemption_accepted_iff_claimable :
    let s := Sample.claimable
    (∃ t, exec Sample.plainTokens Sample.bob.address (.claimRedemption [2, 1]) s = .ok t ∧ ∃ tokens calls events,
      t = { s.moved (s.toLedgers.redeemed [2, 1]) tokens calls events with status := 1 } ∧
        tokens.1.balances s.assetSender + s.totalDue Sample.pricer.getPrice [2, 1] =
          s.tokens.1.balances s.assetSender ∧
        ∀ a, a ≠ s.assetSender → tokens.1.balances a = s.tokens.1.balances a +
          (s.paidTo Sample.pricer.getPrice [2, 1] a +
            if a = s.feeRecipient then s.totalFee Sample.pricer.getPrice [2, 1] else 0)) ∧
    step Sample.plainTokens s (.call Sample.bob (.claimRedemption [1, 1])) = s := by
  intro s
  have hprice : s.Quotes Sample.pricer.getPrice := fun _ => rfl
  have hne : s.assetSender ≠ s.feeRecipient := by decide +kernel
  have hfirst : (s.redemptionIdToRedeemer 1).user ≠ s.assetSender := by decide +kernel
  have hsecond : (s.redemptionIdToRedeemer 2).user ≠ s.assetSender := by decide +kernel
  obtain ⟨hiff, hpaid, -⟩ := claimRedemption_accepted_iff (P := Sample.plainCollateral) Sample.claimable_reachable
    hprice hne Sample.bob [2, 1] (List.forall_mem_cons.mpr ⟨hsecond, List.forall_mem_singleton.mpr hfirst⟩)
  obtain ⟨-, -, hkept⟩ := claimRedemption_accepted_iff (P := Sample.plainCollateral) Sample.claimable_reachable
    hprice hne Sample.bob [1, 1] (List.forall_mem_cons.mpr ⟨hfirst, List.forall_mem_singleton.mpr hfirst⟩)
  have hsettleable : ∀ id ∈ [2, 1], s.Settleable Sample.pricer.getPrice id := by
    refine List.forall_mem_cons.mpr ⟨⟨rfl, ?_, ?_, ?_, ?_⟩, List.forall_mem_singleton.mpr ⟨rfl, ?_, ?_, ?_, ?_⟩⟩ <;>
      decide +kernel
  have hredeems : s.Redeems Sample.plainCollateral Sample.pricer.getPrice [2, 1] :=
    ⟨by decide +kernel, by decide, hsettleable, fun _ => by decide +kernel, by decide +kernel, by decide +kernel⟩
  obtain ⟨t, ht⟩ := hiff.mpr hredeems
  exact ⟨⟨t, ht, hpaid t ht⟩, hkept fun h => absurd h.nodup (by decide)⟩

end Usdy
