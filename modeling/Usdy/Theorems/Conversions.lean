import Usdy.Lib.Evm
import Usdy.Lib.Exchange
import Usdy.Lib.Rounding
import Usdy.Theorems.Collateral

/-! What rounding costs. A deposit that is minted and redeemed again brings back no more than was paid, and
    loses at most one price of a token; splitting a request gains at most one unit of collateral for every
    part but one. -/

namespace Usdy
open Checked State

variable {T : Type} {X : Tokens T} {s t : State T}

/-! ### Credits and payouts -/

namespace State

/-- What a subscription credits: the deposit without its fee. -/
def credit (s : State T) (amount : Uint256) : Except Err Uint256 := do
  let fee ← s.getMintFees amount
  subOr .arithmetic amount fee

/-- What a redemption pays: the collateral that is due, without its fee. -/
def payout (s : State T) (rwaTokenAmountBurned price : Uint256) : Except Err Uint256 := do
  let due ← s.getRedemptionAmountForRwa rwaTokenAmountBurned price
  let fee ← s.getRedemptionFees due
  subOr .arithmetic due fee

end State

variable {amount rate left price due paid credited minted : Uint256}

theorem fee_taken_eq_ok (hrate : rate.toNat ≤ 10000) :
    (basisPoints amount rate >>= fun fee => subOr Err.arithmetic amount fee) = .ok left ↔
      amount.toNat * rate.toNat < 2 ^ 256 ∧ left.toNat = Rounding.rest rate.toNat 10000 amount.toNat := by
  simp only [bind_eq_ok, basisPoints_eq_ok, subOr_eq_ok]
  have hsplit := Rounding.rest_add_share (a := amount.toNat) hrate
  constructor
  · rintro ⟨fee, ⟨hfits, hfee⟩, hleft⟩
    have hfee : fee.toNat = Rounding.share rate.toNat 10000 amount.toNat := hfee
    exact ⟨hfits, by omega⟩
  · rintro ⟨hfits, hleft⟩
    obtain ⟨fee, hfee⟩ := exists_word (w := 256) (Nat.lt_of_le_of_lt (Rounding.share_le hrate) amount.isLt)
    exact ⟨fee, ⟨hfits, hfee⟩, by omega⟩

theorem credit_eq_ok (hfee : s.mintFee.toNat ≤ 10000) :
    s.credit amount = .ok credited ↔
      amount.toNat * s.mintFee.toNat < 2 ^ 256 ∧
        credited.toNat = Rounding.rest s.mintFee.toNat 10000 amount.toNat := fee_taken_eq_ok hfee

theorem payout_eq_ok (hfee : s.redemptionFee.toNat ≤ 10000) :
    s.payout amount price = .ok paid ↔
      ∃ due, s.getRedemptionAmountForRwa amount price = .ok due ∧ due.toNat * s.redemptionFee.toNat < 2 ^ 256 ∧
        paid.toNat = Rounding.rest s.redemptionFee.toNat 10000 due.toNat := by
  rw [payout, bind_eq_ok]
  exact exists_congr fun due => and_congr_right fun _ => fee_taken_eq_ok hfee

/-- A subscription records the credit of its amount. -/
theorem RWAHub.requestSubscription_credit {caller : Address} (h : requestSubscription X caller amount s = .ok t) :
    ∃ credited, s.credit amount = .ok credited ∧
      t.depositIdToDepositor s.subscriptionRequestCounter = ⟨caller, credited, 0⟩ := by
  simp only [requestSubscription, nonReentrant_eq_ok] at h
  obtain ⟨-, u, h, rfl⟩ := h
  simp only [bind_eq_ok, exists_unit_iff] at h
  obtain ⟨-, -, -, -, fee, hfee, after, hafter, counter, -, v, hv, w, hw, hu⟩ := h
  obtain ⟨tokens, -, rfl⟩ := transfer_if_positive_eq_ok.mp hv
  obtain ⟨tokens', -, rfl⟩ := safeTransferFrom_eq_ok.mp hw
  obtain rfl := pure_eq_ok.mp hu
  exact ⟨after, bind_eq_ok.mpr ⟨fee, hfee, hafter⟩, Function.update_self ..⟩

/-- A settlement pays the payout of what was burned. -/
theorem settlement_payout {redemptionId : Bytes32} {member : Redeemer} {x : Settlement}
    (h : s.settlement redemptionId member = .ok x) : s.payout x.burned x.price = .ok x.paid := by
  simp only [settlement, bind_eq_ok, exists_unit_iff, pure_eq_ok] at h
  obtain ⟨-, -, price, -, due, hdue, fee, hfee, paid, hpaid, rfl⟩ := h
  exact bind_eq_ok.mpr ⟨due, hdue, bind_eq_ok.mpr ⟨fee, hfee, hpaid⟩⟩

/-- The conversions as purchases and sales, at a scale that covers the decimals of both tokens. -/
theorem minted_eq (h : s.getMintAmountForPrice amount price = .ok minted) :
    minted.toNat = Exchange.bought (10 ^ 18 * s.decimalsMultiplier.toNat) amount.toNat price.toNat := by
  rw [(getMintAmountForPrice_inv h).2, Nat.mul_assoc, Nat.mul_comm s.decimalsMultiplier.toNat]
  rfl

theorem due_eq (h : s.getRedemptionAmountForRwa amount price = .ok due) :
    due.toNat = Exchange.worth (10 ^ 18 * s.decimalsMultiplier.toNat) amount.toNat price.toNat := by
  rw [getRedemptionAmountForRwa_inv h, Nat.div_div_eq_div_mul]
  rfl

/-! ### There and back -/

/-- Minting a deposit and redeeming what was minted, at a price that is no higher, brings back no more than
    the deposit, and at the same price all of it but one price of a token, rounded up; redeeming tokens and
    minting for what they were worth gives no more tokens. -/
theorem conversions_gain_nothing (hm : s.decimalsMultiplier ≠ 0) :
    (∀ deposit price price' : Uint256, price' ≠ 0 → price' ≤ price →
      deposit.toNat * s.decimalsMultiplier.toNat * 10 ^ 18 < 2 ^ 256 →
        ∃ minted back, s.getMintAmountForPrice deposit price = .ok minted ∧
          s.getRedemptionAmountForRwa minted price' = .ok back ∧ back.toNat ≤ deposit.toNat ∧
          (price' = price →
            deposit.toNat ≤ back.toNat + (price.toNat - 1) ⌈/⌉ (10 ^ 18 * s.decimalsMultiplier.toNat : Nat))) ∧
    ∀ burned price : Uint256, price ≠ 0 → burned.toNat * price.toNat < 2 ^ 256 →
      ∃ due minted, s.getRedemptionAmountForRwa burned price = .ok due ∧
        s.getMintAmountForPrice due price = .ok minted ∧ minted.toNat ≤ burned.toNat := by
  have hscale : 0 < 10 ^ 18 * s.decimalsMultiplier.toNat := Nat.mul_pos (by decide) (Evm.toNat_pos hm)
  refine ⟨fun deposit price price' hpos hle hfits => ?_, fun burned price hpos hfits => ?_⟩
  · have hle : price'.toNat ≤ price.toNat := hle
    have hprice := Nat.lt_of_lt_of_le (Evm.toNat_pos hpos) hle
    have hne : price ≠ 0 := by
      rintro rfl
      exact absurd hprice (by decide)
    obtain ⟨minted, hminted⟩ := exists_getMintAmountForPrice.mpr ⟨hfits, hne⟩
    have hbought := minted_eq hminted
    have hworth : minted.toNat * price'.toNat < 2 ^ 256 :=
      calc minted.toNat * price'.toNat
        _ ≤ deposit.toNat * (10 ^ 18 * s.decimalsMultiplier.toNat) := hbought ▸ Exchange.bought_mul_le hle
        _ = deposit.toNat * s.decimalsMultiplier.toNat * 10 ^ 18 := by ring
        _ < 2 ^ 256 := hfits
    obtain ⟨back, hback⟩ := exists_getRedemptionAmountForRwa.mpr ⟨hworth, hm⟩
    have hsold := due_eq hback
    rw [hbought] at hsold
    refine ⟨minted, back, hminted, hback, hsold ▸ Exchange.worth_bought_le hle, ?_⟩
    rintro rfl
    exact hsold ▸ Exchange.le_worth_bought hscale hprice
  · obtain ⟨due, hdue⟩ := exists_getRedemptionAmountForRwa.mpr ⟨hfits, hm⟩
    have hworth := due_eq hdue
    have hback : due.toNat * s.decimalsMultiplier.toNat * 10 ^ 18 < 2 ^ 256 :=
      calc due.toNat * s.decimalsMultiplier.toNat * 10 ^ 18
        _ = due.toNat * (10 ^ 18 * s.decimalsMultiplier.toNat) := by ring
        _ ≤ burned.toNat * price.toNat := hworth ▸ Exchange.worth_mul_le (Nat.le_refl _)
        _ < 2 ^ 256 := hfits
    obtain ⟨minted, hminted⟩ := exists_getMintAmountForPrice.mpr ⟨hback, hpos⟩
    have hbought := minted_eq hminted
    rw [hworth] at hbought
    exact ⟨due, minted, hdue, hminted, hbought ▸ Exchange.bought_worth_le⟩

theorem conversions_gain_nothing_sample :
    (∃ minted back, Sample.state.getMintAmountForPrice 1000 (3 * e18) = .ok minted ∧
      Sample.state.getRedemptionAmountForRwa minted (3 * e18) = .ok back ∧ back.toNat ≤ 1000 ∧
      1000 ≤ back.toNat + 3) ∧
    ∃ due minted, Sample.state.getRedemptionAmountForRwa 1000 (3 * e18) = .ok due ∧
      Sample.state.getMintAmountForPrice due (3 * e18) = .ok minted ∧ minted.toNat ≤ 1000 := by
  obtain ⟨hforth, hback⟩ := conversions_gain_nothing (s := Sample.state) (by decide +kernel)
  obtain ⟨minted, back, hminted, hredeemed, hle, hdust⟩ :=
    hforth 1000 (3 * e18) (3 * e18) (by decide) (BitVec.le_refl _) (by decide +kernel)
  exact ⟨⟨minted, back, hminted, hredeemed, hle, hdust rfl⟩, hback 1000 (3 * e18) (by decide) (by decide)⟩

/-! ### Splitting

A part of an amount is converted wherever the amount is. -/

variable {amounts : List Uint256} {a total : Uint256}

theorem toNat_le_total (htotal : total.toNat = (amounts.map (·.toNat)).sum) (ha : a ∈ amounts) :
    a.toNat ≤ total.toNat := by
  rw [htotal]
  exact List.single_le_sum (fun _ _ => Nat.zero_le _) _ (List.mem_map_of_mem ha)

theorem credit_part (hfee : s.mintFee.toNat ≤ 10000) (h : s.credit total = .ok credited) (hle : a.toNat ≤ total.toNat) :
    ∃ c, s.credit a = .ok c ∧ c.toNat = Rounding.rest s.mintFee.toNat 10000 a.toNat := by
  obtain ⟨hfits, -⟩ := (credit_eq_ok hfee).mp h
  have hlt : Rounding.rest s.mintFee.toNat 10000 a.toNat < 2 ^ 256 := Nat.lt_of_le_of_lt Rounding.rest_le a.isLt
  obtain ⟨c, hc⟩ := exists_word hlt
  exact ⟨c, (credit_eq_ok hfee).mpr ⟨Nat.lt_of_le_of_lt (Nat.mul_le_mul_right _ hle) hfits, hc⟩, hc⟩

theorem mint_part (h : s.getMintAmountForPrice total price = .ok minted) (hle : a.toNat ≤ total.toNat) :
    ∃ c, s.getMintAmountForPrice a price = .ok c ∧
      c.toNat = Rounding.share (10 ^ 18 * s.decimalsMultiplier.toNat) price.toNat a.toNat := by
  obtain ⟨hfits, hprice, -⟩ := getMintAmountForPrice_eq_ok.mp h
  have hle := Nat.mul_le_mul_right (10 ^ 18) (Nat.mul_le_mul_right s.decimalsMultiplier.toNat hle)
  obtain ⟨c, hc⟩ := exists_getMintAmountForPrice.mpr ⟨Nat.lt_of_le_of_lt hle hfits, hprice⟩
  exact ⟨c, hc, minted_eq hc⟩

theorem due_part (h : s.getRedemptionAmountForRwa total price = .ok due) (hle : a.toNat ≤ total.toNat) :
    ∃ c, s.getRedemptionAmountForRwa a price = .ok c ∧
      c.toNat = Rounding.share price.toNat (10 ^ 18 * s.decimalsMultiplier.toNat) a.toNat := by
  obtain ⟨hfits, hm, -⟩ := getRedemptionAmountForRwa_eq_ok.mp h
  have hle := Nat.mul_le_mul_right price.toNat hle
  obtain ⟨c, hc⟩ := exists_getRedemptionAmountForRwa.mpr ⟨Nat.lt_of_le_of_lt hle hfits, hm⟩
  exact ⟨c, hc, due_eq hc⟩

theorem payout_part (hfee : s.redemptionFee.toNat ≤ 10000) (h : s.payout total price = .ok paid)
    (hle : a.toNat ≤ total.toNat) :
    ∃ c, s.payout a price = .ok c ∧
      c.toNat = Rounding.rest s.redemptionFee.toNat 10000
        (Rounding.share price.toNat (10 ^ 18 * s.decimalsMultiplier.toNat) a.toNat) := by
  obtain ⟨due, hdue, hfits, -⟩ := (payout_eq_ok hfee).mp h
  obtain ⟨d, hd, hshare⟩ := due_part hdue hle
  have hle : d.toNat ≤ due.toNat := by
    rw [hshare, due_eq hdue]
    exact Rounding.share_mono hle
  have hlt : Rounding.rest s.redemptionFee.toNat 10000 d.toNat < 2 ^ 256 := Nat.lt_of_le_of_lt Rounding.rest_le d.isLt
  obtain ⟨c, hc⟩ := exists_word hlt
  refine ⟨c, (payout_eq_ok hfee).mpr ⟨d, hd, Nat.lt_of_le_of_lt (Nat.mul_le_mul_right _ hle) hfits, hc⟩, ?_⟩
  rw [hc, hshare]

/-- What is converted part by part. -/
theorem exists_parts {f : Uint256 → Except Err Uint256} {g : Nat → Nat}
    (h : ∀ a ∈ amounts, ∃ c, f a = .ok c ∧ c.toNat = g a.toNat) :
    ∃ parts, amounts.mapM f = .ok parts ∧ parts.map (·.toNat) = (amounts.map (·.toNat)).map g := by
  obtain ⟨parts, hparts, hmap⟩ := exists_mapM h
  exact ⟨parts, hparts, by rw [hmap, List.map_map]; rfl⟩

/-- Requests in parts, with `n` amounts for one total, where nothing the total takes part in overflows: their
    credits are at least that of the total and at most `n - 1` units more, and buy no more tokens than the
    credit of the total with these units; the collateral due for the parts is at most what is due for the
    total, and their payouts at most `n - 1` units above its payout. -/
theorem splitting_gains_dust (s : State T) (hmintFee : s.mintFee.toNat ≤ 10000)
    (hredemptionFee : s.redemptionFee.toNat ≤ 10000) {amounts : List Uint256} {total : Uint256}
    (htotal : total.toNat = (amounts.map (·.toNat)).sum) (price : Uint256) :
    (∀ credited, s.credit total = .ok credited →
      ∃ credits, amounts.mapM s.credit = .ok credits ∧ credited.toNat ≤ (credits.map (·.toNat)).sum ∧
        (credits.map (·.toNat)).sum ≤ credited.toNat + (amounts.length - 1) ∧
        ∀ bound minted, bound.toNat = credited.toNat + (amounts.length - 1) →
          s.getMintAmountForPrice bound price = .ok minted →
            ∃ mints, credits.mapM (s.getMintAmountForPrice · price) = .ok mints ∧
              (mints.map (·.toNat)).sum ≤ minted.toNat) ∧
    ∀ due paid, s.getRedemptionAmountForRwa total price = .ok due → s.payout total price = .ok paid →
      ∃ dues payouts, amounts.mapM (s.getRedemptionAmountForRwa · price) = .ok dues ∧
        amounts.mapM (s.payout · price) = .ok payouts ∧ (dues.map (·.toNat)).sum ≤ due.toNat ∧
        (payouts.map (·.toNat)).sum ≤ paid.toNat + (amounts.length - 1) := by
  refine ⟨fun credited hcredited => ?_, fun due paid hdue hpaid => ?_⟩
  · obtain ⟨credits, hcredits, hparts⟩ := exists_parts fun a ha =>
      credit_part hmintFee hcredited (toNat_le_total htotal ha)
    have hlow : credited.toNat ≤ (credits.map (·.toNat)).sum := by
      rw [hparts, ((credit_eq_ok hmintFee).mp hcredited).2, htotal]
      exact Rounding.rest_sum_le hmintFee
    have hhigh : (credits.map (·.toNat)).sum ≤ credited.toNat + (amounts.length - 1) := by
      rw [hparts, ((credit_eq_ok hmintFee).mp hcredited).2, htotal]
      simpa using Rounding.sum_rest_le (l := amounts.map (·.toNat)) hmintFee
    refine ⟨credits, hcredits, hlow, hhigh, fun bound minted hbound hminted => ?_⟩
    have hle : ∀ c ∈ credits, c.toNat ≤ bound.toNat := fun c hc =>
      (List.single_le_sum (fun _ _ => Nat.zero_le _) _ (List.mem_map_of_mem hc)).trans (hbound ▸ hhigh)
    obtain ⟨mints, hmints, hshares⟩ := exists_parts fun c hc => mint_part hminted (hle c hc)
    refine ⟨mints, hmints, ?_⟩
    rw [hshares, minted_eq hminted]
    exact Rounding.sum_share_le.trans (Rounding.share_mono (hbound ▸ hhigh))
  · obtain ⟨dues, hdues, hshares⟩ := exists_parts fun a ha => due_part hdue (toNat_le_total htotal ha)
    obtain ⟨payouts, hpayouts, hrests⟩ := exists_parts (f := (s.payout · price))
      (g := Rounding.rest s.redemptionFee.toNat 10000 ∘
        Rounding.share price.toNat (10 ^ 18 * s.decimalsMultiplier.toNat))
      fun a ha => payout_part hredemptionFee hpaid (toNat_le_total htotal ha)
    have hsum : (dues.map (·.toNat)).sum ≤ due.toNat := by
      rw [hshares, due_eq hdue, htotal]
      exact Rounding.sum_share_le
    refine ⟨dues, payouts, hdues, hpayouts, hsum, ?_⟩
    obtain ⟨due', hdue', -, hrest⟩ := (payout_eq_ok hredemptionFee).mp hpaid
    obtain rfl : due = due' := Except.ok.inj (hdue.symm.trans hdue')
    have hsplit := Rounding.sum_rest_le (l := dues.map (·.toNat)) hredemptionFee
    have hpay : payouts.map (·.toNat) = (dues.map (·.toNat)).map (Rounding.rest s.redemptionFee.toNat 10000) := by
      rw [hrests, ← List.map_map, ← hshares]
    have hlength : dues.length = amounts.length := by simpa using congrArg List.length hshares
    rw [hpay, hrest]
    simp only [List.length_map, hlength] at hsplit
    exact hsplit.trans (Nat.add_le_add_right (Rounding.rest_mono hredemptionFee hsum) _)

theorem splitting_gains_dust_sample :
    let s : State (Address → Nat) := { Sample.state with mintFee := 100, redemptionFee := 200 }
    let amounts : List Uint256 := [333, 334, 333]
    (∃ credits, amounts.mapM s.credit = .ok credits ∧ 990 ≤ (credits.map (·.toNat)).sum ∧
      (credits.map (·.toNat)).sum ≤ 992 ∧
      ∃ mints, credits.mapM (s.getMintAmountForPrice · (3 * e18)) = .ok mints ∧ (mints.map (·.toNat)).sum ≤ 330) ∧
    ∃ dues payouts, amounts.mapM (s.getRedemptionAmountForRwa · (3 * e18)) = .ok dues ∧
      amounts.mapM (s.payout · (3 * e18)) = .ok payouts ∧ (dues.map (·.toNat)).sum ≤ 3000 ∧
      (payouts.map (·.toNat)).sum ≤ 2942 := by
  intro s amounts
  have htotal : (1000 : Uint256).toNat = (amounts.map (·.toNat)).sum := rfl
  obtain ⟨hcredits, hpayouts⟩ := splitting_gains_dust s (by decide +kernel) (by decide +kernel) htotal (3 * e18)
  obtain ⟨credits, hok, hlow, hhigh, hmints⟩ := hcredits 990 (by decide +kernel)
  exact ⟨⟨credits, hok, hlow, hhigh, hmints 992 330 rfl (by decide +kernel)⟩,
    hpayouts 3000 2940 (by decide +kernel) (by decide +kernel)⟩

end Usdy
