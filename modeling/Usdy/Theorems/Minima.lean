import Usdy.Lib.Evm
import Usdy.Theorems.Settings

/-! Small requests and their fees. A fee is at least one unit where a request is of 10000 units or more, and
    the setters of two minima accept no less. The setter of the minimum for subscriptions serviced off chain
    accepts anything, and the minimum for redemptions counts units of the RWA token, while their fee is a
    share of the collateral that these are worth. -/

namespace Usdy
open Checked State

variable {T : Type} {X : Tokens T} {rules : Rules T} {s t : State T} {caller : Address} {call : Call}

/-- The log tells that each of the three minima was set. -/
structure MinimaSet (log : List Entry) : Prop where
  deposit : lastSet .minimumDepositAmount log ≠ none
  redemption : lastSet .minimumRedemptionAmount log ≠ none
  offChainSubscription : lastSet .minimumOffChainSubscriptionAmount log ≠ none

/-- The fee that an event tells for a subscription. -/
def Event.feeAmount : Event → Option Uint256
  | .mintRequested _ _ _ _ feeAmount => some feeAmount
  | .subscriptionRequestedServicedOffChain _ _ _ feeAmount _ => some feeAmount
  | _ => none

/-- The subscription that led from `s` to `t` was charged a fee. -/
def Charged (s t : State T) : Prop :=
  ∃ e ∈ t.events.drop s.events.length, ∃ fee, e.event.feeAmount = some fee ∧ 1 ≤ fee.toNat

/-- Every subscription that is accepted in the state is charged a fee, when there is a fee. -/
def SubscriptionsCharged (X : Tokens T) (s : State T) : Prop :=
  s.mintFee ≠ 0 → ∀ (sender : Sender) (amount : Uint256) (t : State T),
    exec X sender.address (.requestSubscription amount) s = .ok t → Charged s t

/-- The same for the subscriptions serviced off chain, where their amount is covered. -/
def ServicedSubscriptionsCharged (X : Tokens T) (covered : Uint256 → Prop) (s : State T) : Prop :=
  s.mintFee ≠ 0 → ∀ (sender : Sender) (user : Address) (amount : Uint256) (offChainDestination : Bytes32) (t : State T),
    exec X sender.address (.requestSubscriptionServicedOffchain user amount offChainDestination) s = .ok t →
      covered amount → Charged s t

/-- A redemption that was accepted in `s` and is settled, at any later time and a price of one unit or more,
    pays less than what is due for it, where its amount is covered: `covered requested settled` speaks of the
    amount it was requested with and of the one it is settled with. -/
def RedemptionsCharged (X : Tokens T) (covered : Uint256 → Uint256 → Prop) (s : State T) : Prop :=
  ∀ (sender : Sender) (requested : Uint256) (t : State T),
    exec X sender.address (.requestRedemption requested) s = .ok t →
    ∀ (acts : List (Action T)) (u : State T), Run X Rules.any t acts u → u.redemptionFee ≠ 0 →
      ∀ (claimer : Sender) (ids : List Bytes32) (v : State T),
        exec X claimer.address (.claimRedemption ids) u = .ok v →
        ∀ e ∈ v.events.drop u.events.length, ∀ (user : Address) (settled paid price : Uint256),
          e.event = .redemptionCompleted user s.redemptionRequestCounter settled paid price →
          covered requested settled → 10 ^ 18 ≤ price.toNat →
          paid.toNat + 1 ≤ settled.toNat * price.toNat / 10 ^ 18 / u.decimalsMultiplier.toNat

/-! ### The minima -/

/-- The minima that were set through a setter with a bound. -/
structure MinimaBounded (s : State T) : Prop where
  deposit : lastSet .minimumDepositAmount s.events ≠ none → 10000 ≤ s.minimumDepositAmount.toNat
  redemption : lastSet .minimumRedemptionAmount s.events ≠ none → 10000 ≤ s.minimumRedemptionAmount.toNat

theorem lastSet_concat {v : Setting} {log : List Entry} {time : Uint256} {event : Event} (h : event.sets v = none) :
    lastSet v (log ++ [⟨time, event⟩]) = lastSet v log := by
  rw [lastSet_append, lastSet_single, h, Option.none_or]

theorem not_lt_bpsDenominator {minimum : Uint256} (h : revertIf (minimum < bpsDenominator) Err.amountTooSmall = .ok ()) :
    10000 ≤ minimum.toNat := by
  have hle : ¬minimum.toNat < bpsDenominator.toNat := revertIf_eq_ok.mp h
  rw [bpsDenominator_toNat] at hle
  exact Nat.not_lt.mp hle

/-- Only its setter writes a minimum and tells it, and the setter checks it. -/
theorem AdminCall.exec_minimaBounded {call : AdminCall} (hs : MinimaBounded s) (h : call.exec caller s = .ok t) :
    MinimaBounded t := by
  cases call with
  | setMinimumDepositAmount minimum =>
    obtain ⟨-, hcheck, rfl⟩ := configure_eq_ok.mp h
    refine ⟨fun _ => not_lt_bpsDenominator hcheck, fun hset => hs.redemption ?_⟩
    rwa [lastSet_concat rfl] at hset
  | setMinimumRedemptionAmount minimum =>
    obtain ⟨-, hcheck, rfl⟩ := configure_eq_ok.mp h
    refine ⟨fun hset => hs.deposit ?_, fun _ => not_lt_bpsDenominator hcheck⟩
    rwa [lastSet_concat rfl] at hset
  | _ =>
    obtain ⟨-, -, rfl⟩ := configure_eq_ok.mp h
    refine ⟨fun hset => hs.deposit ?_, fun hset => hs.redemption ?_⟩
    · rwa [lastSet_concat rfl] at hset
    · rwa [lastSet_concat rfl] at hset

theorem exec_minimaBounded {sender : Sender} (hs : MinimaBounded s) (h : exec X sender.address call s = .ok t) :
    MinimaBounded t := by
  by_cases hadmin : ∃ a, call = .admin a
  · obtain ⟨a, rfl⟩ := hadmin
    exact AdminCall.exec_minimaBounded hs h
  · obtain ⟨new, moved, heffect⟩ := exec_effect sender.ne_zero h
    have hnone : ∀ v, lastSet v new = none := fun v =>
      lastSet_eq_none fun e he => (heffect.emits e he).change hadmin
    have hconfig := heffect.config.resolve_left hadmin
    have hlog : ∀ v, lastSet v t.events = lastSet v s.events := fun v => by
      rw [heffect.events, lastSet_append, hnone v, Option.none_or]
    refine ⟨fun hset => ?_, fun hset => ?_⟩
    · rw [hlog] at hset
      exact hconfig ▸ hs.deposit hset
    · rw [hlog] at hset
      exact hconfig ▸ hs.redemption hset

/-- The constructor tells of roles and of the blocklist only. -/
theorem Deployed.lastSet_eq_none (h : Deployed s) {v : Setting} (hv : v ≠ .blocklist) : lastSet v s.events = none := by
  rw [lastSet, List.filterMap_eq_nil_iff.mpr fun e he => ?_, List.getLast?_nil]
  obtain ⟨-, ⟨_, _, _, h⟩ | ⟨_, _, _, h⟩ | ⟨_, _, h⟩⟩ := h.fresh.events e he
  · rw [h]
    rfl
  · rw [h]
    rfl
  · rw [h, Event.sets_eq rfl]
    exact if_neg hv.symm

theorem Reachable.minimaBounded (h : Reachable X rules s) : MinimaBounded s := by
  refine h.invariant (fun s hs => ?_) (fun s t sender call _ ih _ hexec => exec_minimaBounded ih hexec)
    (fun _ _ ih _ => ⟨ih.deposit, ih.redemption⟩) fun _ _ _ ih _ => ⟨ih.deposit, ih.redemption⟩
  exact ⟨fun hset => absurd (hs.lastSet_eq_none (by decide)) hset,
    fun hset => absurd (hs.lastSet_eq_none (by decide)) hset⟩

/-! ### Fees -/

theorem one_le_fee {amount rate : Nat} (hamount : 10000 ≤ amount) (hrate : 0 < rate) : 1 ≤ amount * rate / 10000 :=
  (Nat.one_le_div_iff (by decide)).mpr (hamount.trans (Nat.le_mul_of_pos_right _ hrate))

theorem mem_new {e : Entry} (h : t.events = s.events ++ [e]) : e ∈ t.events.drop s.events.length := by
  rw [h, List.drop_left]
  exact List.mem_singleton_self e

theorem subscriptions_charged (hmin : 10000 ≤ s.minimumDepositAmount.toNat) : SubscriptionsCharged X s := by
  intro hfee sender amount t h
  obtain ⟨trackers, -, h⟩ := exec_request_inv rfl h
  obtain ⟨fee, after, counter, tokens, moved, -, -, -, hamount, -, hshare, -, -, -, -, rfl⟩ :=
    RWAHub.requestSubscription_inv h
  have hamount : ¬amount.toNat < s.minimumDepositAmount.toNat := hamount
  refine ⟨_, mem_new rfl, fee, rfl, ?_⟩
  rw [hshare]
  exact one_le_fee (by omega) (Evm.toNat_pos hfee)

/-- The amount is enough, whatever the minimum in force. -/
theorem serviced_subscriptions_charged : ServicedSubscriptionsCharged X (fun amount => 10000 ≤ amount.toNat) s := by
  intro hfee sender user amount offChainDestination t h hamount
  obtain ⟨trackers, -, h⟩ := exec_request_inv rfl h
  obtain ⟨fee, after, -, -, -, -, -, -, -, hshare, -, rfl⟩ :=
    RWAHubOffChainRedemptions.requestSubscriptionServicedOffchain_inv h
  refine ⟨_, mem_new rfl, fee, rfl, ?_⟩
  rw [hshare]
  exact one_le_fee hamount (Evm.toNat_pos hfee)

theorem Run.decimalsMultiplier_eq {acts : List (Action T)} (h : Run X rules s acts t) :
    t.decimalsMultiplier = s.decimalsMultiplier := by
  refine h.invariant (I := fun t => t.decimalsMultiplier = s.decimalsMultiplier) rfl
    (fun _ _ sender _ ih _ hexec => ?_) (fun _ _ ih _ => ih) fun _ _ _ ih _ => ih
  obtain ⟨new, moved, hb, -⟩ := exec_booked sender.ne_zero hexec
  exact hb.decimalsMultiplier.trans ih

/-- At a price of one unit or more, enough units of the RWA token are worth 10000 units of collateral. -/
theorem le_due {amount price m : Nat} (hm : 0 < m) (hamount : 10000 * m ≤ amount) (hprice : 10 ^ 18 ≤ price) :
    10000 ≤ amount * price / 10 ^ 18 / m := by
  rw [Nat.div_div_eq_div_mul, Nat.le_div_iff_mul_le (Nat.mul_pos (by decide) hm)]
  calc 10000 * (10 ^ 18 * m)
    _ = 10000 * m * 10 ^ 18 := by omega
    _ ≤ amount * price := Nat.mul_le_mul hamount hprice

theorem redemptions_charged {covered : Uint256 → Uint256 → Prop}
    (hcovered : ∀ requested settled : Uint256, covered requested settled → s.minimumRedemptionAmount ≤ requested →
      10000 * s.decimalsMultiplier.toNat ≤ settled.toNat) : RedemptionsCharged X covered s := by
  intro sender requested t h acts u hrun hfee claimer ids v hclaim e he user settled paid price hevent hc hprice
  have hm : u.decimalsMultiplier = s.decimalsMultiplier := by
    obtain ⟨new, moved, hb, -⟩ := exec_booked sender.ne_zero h
    exact hrun.decimalsMultiplier_eq.trans hb.decimalsMultiplier
  obtain ⟨trackers, -, h⟩ := exec_request_inv rfl h
  obtain ⟨counter, tokens, -, -, hmin, -⟩ := RWAHub.requestRedemption_inv h
  have hsettled := hcovered requested settled hc (BitVec.not_lt.mp hmin)
  obtain ⟨xs, fees, -, -, hxs, -, -, hb⟩ := claimRedemption_booked hclaim
  rw [hb.events, List.drop_left] at he
  obtain ⟨x, hx, rfl⟩ := List.mem_map.mp he
  obtain ⟨-, -, rfl, rfl, rfl⟩ := Event.redemptionCompleted.inj hevent
  obtain ⟨-, hpos, hdue⟩ := getRedemptionAmountForRwa_eq_ok.mp (hxs x hx).due
  have hle : 10000 ≤ x.due.toNat := by
    rw [hdue]
    exact le_due (Evm.toNat_pos hpos) (hm ▸ hsettled) hprice
  have hone : 1 ≤ x.fee.toNat := by
    rw [(hxs x hx).fee]
    exact one_le_fee hle (Evm.toNat_pos hfee)
  have hpaid := (hxs x hx).paid
  omega

/-- Where the three minima were set, every subscription is charged its fee, and so are subscriptions serviced
    off chain of 10000 units or more, and redemptions settled with an amount that covers 10000 units of collateral
    at the price of one unit. Where the two tokens have the same decimals, these are all that are settled with what
    was requested, or more. -/
theorem requests_charged (h : Reachable X rules s) (hset : MinimaSet s.events) :
    SubscriptionsCharged X s ∧
    ServicedSubscriptionsCharged X (fun amount => 10000 ≤ amount.toNat) s ∧
    RedemptionsCharged X (fun _ settled => 10000 * s.decimalsMultiplier.toNat ≤ settled.toNat) s ∧
    (s.decimalsMultiplier = 1 → RedemptionsCharged X (fun requested settled => requested ≤ settled) s) := by
  have hminima := h.minimaBounded
  refine ⟨subscriptions_charged (hminima.deposit hset.deposit), serviced_subscriptions_charged,
    redemptions_charged fun _ _ hc _ => hc, fun hm => redemptions_charged fun requested settled hle hmin => ?_⟩
  have hmin : s.minimumRedemptionAmount.toNat ≤ requested.toNat := hmin
  have hle : requested.toNat ≤ settled.toNat := hle
  have hone : s.decimalsMultiplier.toNat = 1 := by rw [hm]; rfl
  have hbound := hminima.redemption hset.redemption
  omega

namespace Sample

/-- Both fees are on, and the three minima are set: to 10000, to 10000 and to 1. -/
def minima : List (Action (Address → Nat)) :=
  [.call admin (.grantRole .relayer admin.address),
   .call admin (.grantRole .priceIdSetter admin.address),
   .call admin (.admin (.setMintFee 1)),
   .call admin (.admin (.setRedemptionFee 100)),
   .call admin (.admin (.setMinimumDepositAmount 10000)),
   .call admin (.admin (.setMinimumRedemptionAmount 10000)),
   .call admin (.admin (.setOffChainSubscriptionMinimum 1))]

theorem minima_reachable {s : State (Address → Nat)} (h : Deployed s) :
    Reachable tokens Rules.any (run tokens s minima) := by
  refine (Reachable.of_deployed h).run (run_path ?_)
  exact ⟨trivial, trivial, trivial, trivial, trivial, trivial, trivial, trivial⟩

/-- A deployment whose collateral has 6 decimals. -/
def coarse : Deployment := { deployment with collateralDecimals := 6 }

theorem coarse_isSome : (deploy coarse 1000 views fun _ : Address => 20000).toOption.isSome = true := by
  decide +kernel

/-- Its state once the minima are set, when everybody holds some RWA tokens. -/
def coarseState : State (Address → Nat) :=
  run tokens ((deploy coarse 1000 views fun _ => 20000).toOption.get coarse_isSome) minima

theorem coarseState_reachable : Reachable tokens Rules.any coarseState :=
  minima_reachable ⟨coarse, 1000, views, fun _ => 20000, eq_ok_get coarse_isSome⟩

theorem coarseState_set : MinimaSet coarseState.events where
  deposit := by decide +kernel
  redemption := by decide +kernel
  offChainSubscription := by decide +kernel

theorem serviced_isSome : (exec tokens admin.address (.requestSubscriptionServicedOffchain alice.address 1 5)
    coarseState).toOption.isSome = true := by
  decide +kernel

/-- A subscription of one unit is serviced off chain. -/
def serviced : State (Address → Nat) :=
  (exec tokens admin.address (.requestSubscriptionServicedOffchain alice.address 1 5) coarseState).toOption.get
    serviced_isSome

theorem requested_isSome :
    (exec tokens alice.address (.requestRedemption 10000) coarseState).toOption.isSome = true := by
  decide +kernel

/-- A redemption of the minimum is requested. -/
def requested : State (Address → Nat) :=
  (exec tokens alice.address (.requestRedemption 10000) coarseState).toOption.get requested_isSome

/-- The redemption gets a price. -/
def pricing : List (Action (Address → Nat)) := [.call admin (.setPriceIdForRedemptions [1] [1])]

theorem settled_isSome :
    (exec tokens bob.address (.claimRedemption [1]) (run tokens requested pricing)).toOption.isSome = true := by
  decide +kernel

theorem fine_isSome : (deploy deployment 1000 views fun _ : Address => 20000).toOption.isSome = true := by
  decide +kernel

/-- The same where both tokens have the same decimals. -/
def fineState : State (Address → Nat) :=
  run tokens ((deploy deployment 1000 views fun _ => 20000).toOption.get fine_isSome) minima

example : fineState.decimalsMultiplier = 1 := by decide +kernel

theorem fineState_reachable : Reachable tokens Rules.any fineState :=
  minima_reachable ⟨deployment, 1000, views, fun _ => 20000, eq_ok_get fine_isSome⟩

theorem fineState_set : MinimaSet fineState.events where
  deposit := by decide +kernel
  redemption := by decide +kernel
  offChainSubscription := by decide +kernel

theorem fine_requested_isSome :
    (exec tokens alice.address (.requestRedemption 10000) fineState).toOption.isSome = true := by
  decide +kernel

/-- A redemption of 10000 units is requested. -/
def fineRequested : State (Address → Nat) :=
  (exec tokens alice.address (.requestRedemption 10000) fineState).toOption.get fine_requested_isSome

theorem fine_subscribed_isSome :
    (exec tokens alice.address (.requestSubscription 10000) fineState).toOption.isSome = true := by
  decide +kernel

/-- A subscription of 10000 units is accepted. -/
def fineSubscribed : State (Address → Nat) :=
  (exec tokens alice.address (.requestSubscription 10000) fineState).toOption.get fine_subscribed_isSome

theorem fine_serviced_isSome : (exec tokens admin.address
    (.requestSubscriptionServicedOffchain alice.address 10000 5) fineState).toOption.isSome = true := by
  decide +kernel

/-- One of 10000 units is serviced off chain. -/
def fineServiced : State (Address → Nat) :=
  (exec tokens admin.address (.requestSubscriptionServicedOffchain alice.address 10000 5) fineState).toOption.get
    fine_serviced_isSome

theorem fine_priced_isSome :
    (exec tokens bob.address (.claimRedemption [1]) (run tokens fineRequested pricing)).toOption.isSome = true := by
  decide +kernel

/-- The redemption is priced and claimed. -/
def finePriced : State (Address → Nat) :=
  (exec tokens bob.address (.claimRedemption [1]) (run tokens fineRequested pricing)).toOption.get fine_priced_isSome

/-- The admin overwrites the redemption with one unit. -/
def overwriting : List (Action (Address → Nat)) := [.call admin (.overwriteRedeemer 1 alice.address 1 1)]

theorem fine_settled_isSome :
    (exec tokens bob.address (.claimRedemption [1]) (run tokens fineRequested overwriting)).toOption.isSome = true := by
  decide +kernel

end Sample

/-- The minimum for subscriptions serviced off chain is one unit here, and what is serviced is charged all the same. -/
theorem requests_charged_minima :
    Charged Sample.fineState Sample.fineSubscribed ∧ Charged Sample.fineState Sample.fineServiced ∧
      ∃ paid : Uint256, paid.toNat + 1 ≤ 10000 ∧ ⟨1000, .redemptionCompleted Sample.alice.address 1 10000 paid e18⟩ ∈
        Sample.finePriced.events.drop (run Sample.tokens Sample.fineRequested Sample.pricing).events.length := by
  obtain ⟨hsubscribed, hserviced, -, hredeemed⟩ := requests_charged Sample.fineState_reachable Sample.fineState_set
  have hrun : Rules.any.AllowsAll Sample.tokens Sample.fineRequested Sample.pricing := ⟨trivial, trivial⟩
  have hfee : Sample.fineState.mintFee ≠ 0 := by decide +kernel
  have hsettled : ⟨1000, .redemptionCompleted Sample.alice.address 1 10000 9900 e18⟩ ∈
      Sample.finePriced.events.drop (run Sample.tokens Sample.fineRequested Sample.pricing).events.length := by
    decide +kernel
  refine ⟨hsubscribed hfee Sample.alice 10000 _ (eq_ok_get Sample.fine_subscribed_isSome),
    hserviced hfee Sample.admin Sample.alice.address 10000 5 _ (eq_ok_get Sample.fine_serviced_isSome) (by decide),
    9900, ?_, hsettled⟩
  have hless := hredeemed (by decide +kernel) Sample.alice 10000 _ (eq_ok_get Sample.fine_requested_isSome)
    Sample.pricing _ (run_path hrun) (by decide +kernel) Sample.bob [1] _ (eq_ok_get Sample.fine_priced_isSome) _
    hsettled Sample.alice.address 10000 9900 e18 rfl (BitVec.le_refl _) (by decide)
  exact hless.trans (by decide +kernel)

/-- A subscription of one unit is serviced off chain without a fee; so is a redemption of the minimum, which is
    worth less than a unit of a collateral with fewer decimals; and so is, whatever the decimals, a redemption
    whose amount was overwritten. -/
theorem small_requests_uncharged :
    (¬∀ s : State (Address → Nat), Reachable Sample.tokens Rules.any s → MinimaSet s.events →
      ServicedSubscriptionsCharged Sample.tokens (fun _ => True) s) ∧
    (¬∀ s : State (Address → Nat), Reachable Sample.tokens Rules.any s → MinimaSet s.events →
      RedemptionsCharged Sample.tokens (fun requested settled => requested ≤ settled) s) ∧
    ¬∀ s : State (Address → Nat), Reachable Sample.tokens Rules.any s → MinimaSet s.events →
      s.decimalsMultiplier = 1 → RedemptionsCharged Sample.tokens (fun _ _ => True) s := by
  refine ⟨fun h => ?_, fun h => ?_, fun h => ?_⟩
  · obtain ⟨e, he, fee, hfee, hone⟩ := h _ Sample.coarseState_reachable Sample.coarseState_set (by decide +kernel)
      Sample.admin Sample.alice.address 1 5 _ (eq_ok_get Sample.serviced_isSome) trivial
    have hnew : Sample.serviced.events.drop Sample.coarseState.events.length =
        [⟨1000, .subscriptionRequestedServicedOffChain Sample.alice.address 1 1 0 5⟩] := by decide +kernel
    obtain rfl := List.mem_singleton.mp (hnew ▸ he)
    cases hfee
    exact absurd hone (by decide)
  · have hrun : Rules.any.AllowsAll Sample.tokens Sample.requested Sample.pricing := ⟨trivial, trivial⟩
    have hless := h _ Sample.coarseState_reachable Sample.coarseState_set Sample.alice 10000 _
      (eq_ok_get Sample.requested_isSome) Sample.pricing _ (run_path hrun) (by decide +kernel) Sample.bob [1] _
      (eq_ok_get Sample.settled_isSome) ⟨1000, .redemptionCompleted Sample.alice.address 1 10000 0 e18⟩
      (by decide +kernel) Sample.alice.address 10000 0 e18 rfl (BitVec.le_refl _) (by decide)
    revert hless
    decide +kernel
  · have hrun : Rules.any.AllowsAll Sample.tokens Sample.fineRequested Sample.overwriting := ⟨trivial, trivial⟩
    have hless := h _ Sample.fineState_reachable Sample.fineState_set (by decide +kernel) Sample.alice 10000 _
      (eq_ok_get Sample.fine_requested_isSome) Sample.overwriting _ (run_path hrun) (by decide +kernel) Sample.bob
      [1] _ (eq_ok_get Sample.fine_settled_isSome) ⟨1000, .redemptionCompleted Sample.alice.address 1 1 1 e18⟩
      (by decide +kernel) Sample.alice.address 1 1 e18 rfl trivial (by decide)
    revert hless
    decide +kernel

end Usdy
