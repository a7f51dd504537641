import Usdy.PricedManager
import Usdy.Theorems.Booked
import Usdy.Theorems.LatestPrice
import Usdy.Lib.Drift

/-! The manager pays by the oracle. Where prices come from the oracle only, every deposit that is minted and every
    redemption that is paid has a price that the oracle can reach at 1% a day, in the days that its updates took. -/

namespace Usdy
open Checked Function

/-! ### Prices from the oracle -/

namespace PricerWithOracle
variable {s t : System} {a : Action}

/-- The action adds no price but the oracle's: a price that is added is to become the latest, which only the oracle's
    can. -/
def fromOracle (s : System) : Action → Prop
  | .call _ (.addPrice _ timestamp) => s.latest.timestamp < timestamp
  | .call _ (.updatePrice ..) => False
  | _ => True

instance (s : System) : (a : Action) → Decidable (fromOracle s a)
  | .call _ (.addPrice _ timestamp) => inferInstanceAs (Decidable (s.latest.timestamp < timestamp))
  | .call _ (.updatePrice ..) => .isFalse id
  | .call _ .addLatestOraclePrice | .call _ (.grantRole ..) | .call _ (.revokeRole ..) | .call _ (.renounceRole ..)
  | .oracle .. | .block _ => .isTrue trivial

/-- A band that widens by 1% with each window of 23 hours. -/
abbrev Reach (p : Uint256) (windows : Nat) (price : Uint256) : Prop := Band 99 100 101 p.toNat windows price.toNat

/-- The windows between a time and the last update of the oracle. -/
def System.windows (t₀ : Uint256) (s : System) : Nat := (s.rwaOracle.priceTimestamp.toNat - t₀.toNat) / 82800

/-- The oracle went from `p` at the time `t₀` to its price, and no stored price is further. -/
structure Reached (p t₀ : Uint256) (s : System) : Prop extends Inv s where
  since : t₀.toNat ≤ s.rwaOracle.priceTimestamp.toNat
  oracle : Reach p (s.windows t₀) s.rwaOracle.rwaPrice
  book : ∀ id, s.pricer.getPrice id = 0 ∨ Reach p (s.windows t₀) (s.pricer.getPrice id)

theorem Reach.succ {p price newPrice : Uint256} {windows : Nat} (h : Reach p windows price)
    (hchange : |(newPrice.toNat : Int) - price.toNat| * 100 ≤ price.toNat) : Reach p (windows + 1) newPrice := by
  have hrise := le_abs_self ((newPrice.toNat : Int) - price.toNat)
  have hfall := neg_abs_le ((newPrice.toNat : Int) - price.toNat)
  exact Band.succ h (by omega) (by omega)

theorem Reach.widen {p price : Uint256} {n m : Nat} (hnm : n ≤ m) (h : Reach p n price) : Reach p m price :=
  Band.mono (by decide) (by decide) hnm h

theorem windows_le {t₀ : Uint256} (h : s.rwaOracle.priceTimestamp.toNat ≤ t.rwaOracle.priceTimestamp.toNat) :
    s.windows t₀ ≤ t.windows t₀ := Nat.div_le_div_right (Nat.sub_le_sub_right h _)

/-- An accepted price is 1% further, and a window later. -/
theorem Reached.setPrice {p t₀ : Uint256} {caller : Address} {newPrice : Int256} (hs : Reached p t₀ s)
    (hset : s.rwaOracle.setPrice caller newPrice s.now = .ok t.rwaOracle) :
    s.rwaOracle.priceTimestamp.toNat ≤ t.rwaOracle.priceTimestamp.toNat ∧ t.rwaOracle.rwaPrice = newPrice ∧
      Reach p (t.windows t₀) newPrice := by
  obtain ⟨-, hpos, hwindow, hchange, ho⟩ := RWAOracleRateCheck.setPrice_inv hset
  have htime : t.rwaOracle.priceTimestamp = s.now := congrArg RWAOracleRateCheck.priceTimestamp ho
  have hsince := hs.since
  have hchange := hchange hs.price
  rw [← toNat_eq_toInt hpos.le, ← toNat_eq_toInt hs.price.le] at hchange
  have hwindows : s.windows t₀ + 1 ≤ t.windows t₀ := by
    rw [System.windows, System.windows, htime]
    omega
  rw [htime]
  exact ⟨by omega, congrArg RWAOracleRateCheck.rwaPrice ho, (hs.oracle.succ hchange).widen hwindows⟩

/-- What a step has to do for the prices to stay within reach. -/
theorem Reached.of {p t₀ : Uint256} (hs : Reached p t₀ s) (hinv : Inv t)
    (hlater : s.rwaOracle.priceTimestamp.toNat ≤ t.rwaOracle.priceTimestamp.toNat)
    (horacle : Reach p (t.windows t₀) t.rwaOracle.rwaPrice)
    (hbook : ∀ id, t.pricer.getPrice id = s.pricer.getPrice id ∨ t.pricer.getPrice id = t.rwaOracle.rwaPrice) :
    Reached p t₀ t := by
  refine ⟨hinv, hs.since.trans hlater, horacle, fun id => ?_⟩
  rcases hbook id with hid | hid
  · rw [hid]
    exact (hs.book id).imp_right fun h => h.widen (windows_le hlater)
  · rw [hid]
    exact .inr horacle

theorem Added.getPrice {price timestamp : Uint256} (h : Added s price timestamp t) (id : Uint256) :
    t.pricer.getPrice id = s.pricer.getPrice id ∨ t.pricer.getPrice id = price := by
  by_cases hid : id = t.pricer.currentPriceId
  · rw [Pricer.getPrice, hid, h.prices, update_self]
    exact .inr rfl
  · exact .inl (congrArg PriceInfo.price (h.prices_of_ne hid))

theorem Reached.effect {p t₀ : Uint256} (hs : Reached p t₀ s) (hrule : fromOracle s a) (h : Effect s a t) :
    Reached p t₀ t := by
  have hinv := hs.toInv.effect h
  cases h with
  | addNewer hadded hlatest hlt hsync hset =>
    obtain ⟨hlater, hprice, hreach⟩ := hs.setPrice hset
    exact hs.of hinv hlater (hprice ▸ hreach) fun id => hprice ▸ hadded.getPrice id
  | addOlder hadded hlatest hle horacle => exact absurd hrule (BitVec.not_lt.mpr hle)
  | addOracle hadded hlatest horacle =>
    refine hs.of hinv ?_ ?_ fun id => ?_
    · rw [horacle]
    · rw [System.windows, horacle]
      exact hs.oracle
    · rw [horacle]
      exact hadded.getPrice id
  | update => exact hrule.elim
  | setOracle hset =>
    obtain ⟨hlater, hprice, hreach⟩ := hs.setPrice (t := { s with rwaOracle := _ }) hset
    exact hs.of hinv hlater (hprice ▸ hreach) fun id => .inl rfl
  | other hother hkept =>
    refine hs.of hinv ?_ ?_ fun id => .inl ?_
    · rw [hkept.priceTimestamp]
    · rw [System.windows, hkept.priceTimestamp, hkept.rwaPrice]
      exact hs.oracle
    · rw [Pricer.getPrice, hkept.prices]
      rfl

/-- The only price of a pair as constructed is the oracle's. -/
theorem Constructed.reached (h : Constructed s) : Reached s.rwaOracle.rwaPrice s.rwaOracle.priceTimestamp s := by
  obtain ⟨hinv, -⟩ := h.start
  obtain ⟨setterAdmin, setter, p₀, t₀, o, acts, address, admin, pricer, ho, hs⟩ := h
  simp only [construct, bind_eq_ok, Prod.exists, setPriceInfo_eq_ok, pure_eq_ok] at hs
  obtain ⟨priceId, P, ⟨hid, rfl⟩, rfl⟩ := hs
  have hreach : ∀ n p, Reach p n p := fun n p => Reach.widen (Nat.zero_le n) Band.refl
  refine ⟨hinv, le_rfl, hreach _ _, fun id => ?_⟩
  by_cases hid : id = priceId
  · subst hid
    refine .inr ?_
    simp only [Pricer.getPrice, update_self]
    exact hreach _ _
  · refine .inl ?_
    simp only [Pricer.getPrice, update_of_ne hid]
    rfl

theorem Effect.later (h : Effect s a t) :
    s.rwaOracle.priceTimestamp.toNat ≤ t.rwaOracle.priceTimestamp.toNat := by
  cases h with
  | addNewer hadded hlatest hlt hsync hset =>
    obtain ⟨-, -, hwindow, -, ho⟩ := RWAOracleRateCheck.setPrice_inv hset
    rw [ho]
    exact Nat.le_of_add_right_le hwindow
  | setOracle hset =>
    obtain ⟨-, -, hwindow, -, rfl⟩ := RWAOracleRateCheck.setPrice_inv hset
    exact Nat.le_of_add_right_le hwindow
  | addOlder hadded hlatest hle horacle => rw [horacle]
  | addOracle hadded hlatest horacle => rw [horacle]
  | update => exact le_rfl
  | other hother hkept => rw [hkept.priceTimestamp]

theorem act_address (h : act s a = some t) : t.address = s.address := by
  cases a with
  | call sender call =>
    have h := toOption_eq_some.mp h
    cases call with
    | addPrice price timestamp =>
      simp only [exec, addPrice, bind_eq_ok, exists_unit_iff, Prod.exists] at h
      obtain ⟨-, -, priceId, P, -, h⟩ := h
      split at h
      · simp only [updateOraclePrice, bind_eq_ok, exists_unit_iff, pure_eq_ok] at h
        obtain ⟨_, ⟨-, o, -, rfl⟩, rfl⟩ := h
        rfl
      · obtain rfl := pure_eq_ok.mp h
        rfl
    | addLatestOraclePrice =>
      simp only [exec, addLatestOraclePrice, bind_eq_ok, exists_unit_iff, Prod.exists, pure_eq_ok] at h
      obtain ⟨-, -, priceId, P, -, rfl⟩ := h
      rfl
    | _ =>
      obtain ⟨P, -, rfl⟩ := inherited_eq_ok.mp h
      rfl
  | oracle sender call =>
    obtain ⟨o, -, rfl⟩ := map_toOption_eq_some.mp h
    rfl
  | block time =>
    simp only [act, Option.ite_none_right_eq_some, Option.some.injEq] at h
    obtain ⟨-, rfl⟩ := h
    rfl

end PricerWithOracle

/-! ### What the manager pays -/

open PricerWithOracle (Reach Reached)

variable {T : Type} {X : Tokens T}

/-- What an entry of the log says: a price within reach, and amounts that are no more than the price makes them. -/
def Event.Fair (p : Uint256) (windows : Nat) (m : Uint256) : Event → Prop
  | .mintCompleted _ _ out deposited price _ =>
    Reach p windows price ∧ out.toNat * price.toNat ≤ deposited.toNat * m.toNat * 10 ^ 18
  | .redemptionCompleted _ _ burned paid price =>
    (price = 0 ∨ Reach p windows price) ∧ paid.toNat * m.toNat * 10 ^ 18 ≤ burned.toNat * price.toNat
  | _ => True

theorem Event.Fair.widen {p m : Uint256} {n n' : Nat} (hn : n ≤ n') {e : Event} (h : e.Fair p n m) : e.Fair p n' m := by
  cases e with
  | mintCompleted user id out deposited price priceId => exact ⟨h.1.widen hn, h.2⟩
  | redemptionCompleted user id burned paid price => exact ⟨h.1.imp_right fun h => h.widen hn, h.2⟩
  | _ => trivial

theorem Posts.fair {p m : Uint256} {n : Nat} {quote : Uint256 → Option Uint256} {g h : Ledgers} {e : Entry}
    (hquote : ∀ id price, quote id = some price → price = 0 ∨ Reach p n price) (hp : Posts m quote g e h) :
    e.event.Fair p n m := by
  cases hp with
  | mintCompleted set passed priced quoted positive owed =>
    refine ⟨(hquote _ _ quoted).resolve_left positive, ?_⟩
    rw [owed]
    exact Nat.div_mul_le_self _ _
  | redemptionCompleted priced quoted due =>
    have hdue := Nat.mul_le_of_le_div _ _ _ due
    exact ⟨hquote _ _ quoted, Nat.mul_le_of_le_div _ _ _ hdue⟩
  | other hother =>
    obtain ⟨time, event⟩ := e
    cases event <;> trivial
  | _ => trivial

/-- The pricer that a call sets. -/
def Call.newPricer : Call → Option Address
  | .admin (.setPricer newPricer) => some newPricer
  | _ => none

namespace PricedManager

/-- Prices come from the oracle, and the manager stays with its pricer. -/
def paysByOracle (w : PricedManager T) : Action T → Prop
  | .manager _ call => call.newPricer = none ∨ call.newPricer = some w.prices.address
  | .prices action => PricerWithOracle.fromOracle w.prices action
  | .world .. => True

instance (w : PricedManager T) : (a : Action T) → Decidable (paysByOracle w a)
  | .manager _ call =>
    inferInstanceAs (Decidable (call.newPricer = none ∨ call.newPricer = some w.prices.address))
  | .prices action => inferInstanceAs (Decidable (PricerWithOracle.fromOracle w.prices action))
  | .world .. => .isTrue trivial

/-- The oracle has drifted no further than its windows allow, and so have the prices that were paid. -/
structure Banded (w₀ w : PricedManager T) : Prop where
  reached : Reached w₀.prices.rwaOracle.rwaPrice w₀.prices.rwaOracle.priceTimestamp w.prices
  pricer : w.manager.pricer = w.prices.address
  decimalsMultiplier : w.manager.decimalsMultiplier = w₀.manager.decimalsMultiplier
  log : ∃ new, w.manager.events = w₀.manager.events ++ new ∧ ∀ e ∈ new, e.event.Fair w₀.prices.rwaOracle.rwaPrice
    (w.prices.windows w₀.prices.rwaOracle.priceTimestamp) w₀.manager.decimalsMultiplier

variable {w₀ w u : PricedManager T}

theorem exec_pricer {caller : Address} {call : Call} {s t : State T} (hc : caller ≠ 0) (h : exec X caller call s = .ok t) :
    t.pricer = s.pricer ∨ call = .admin (.setPricer t.pricer) := by
  rcases exec_config hc h with ⟨call, rfl⟩ | hconfig
  · cases call <;> obtain ⟨-, -, rfl⟩ := configure_eq_ok.mp h <;> first | exact .inl rfl | exact .inr rfl
  · exact .inl (congrArg Config.pricer hconfig)

theorem Banded.manager {sender : Sender} {call : Call} (hw : Banded w₀ w) (hrule : paysByOracle w (.manager sender call))
    (h : act X w (.manager sender call) = some u) : Banded w₀ u := by
  obtain ⟨t, ht, rfl⟩ := map_toOption_eq_some.mp h
  obtain ⟨new, moved, hb, -⟩ := exec_booked sender.ne_zero ht
  obtain ⟨old, hold, hfair⟩ := hw.log
  refine ⟨hw.reached, ?_, hb.decimalsMultiplier.trans hw.decimalsMultiplier, old ++ new, ?_, fun e he => ?_⟩
  · rcases exec_pricer sender.ne_zero ht with hsame | rfl
    · exact hsame.trans hw.pricer
    · exact Option.some.inj (hrule.resolve_left (Option.some_ne_none _))
  · have hevents : t.events = w.manager.events ++ new := hb.events
    rw [hevents, hold, List.append_assoc]
  · rcases List.mem_append.mp he with he | he
    · exact hfair e he
    · obtain ⟨g, g', hpost⟩ := hb.posts.of_mem he
      rw [← hw.decimalsMultiplier]
      refine hpost.fair fun id price hquote => ?_
      have hprice : w.views.getPrice w.manager.pricer id = some price := hquote
      rw [hw.pricer, views_getPrice, Option.some.injEq] at hprice
      exact hprice ▸ hw.reached.book id

theorem Banded.act {a : Action T} (hw : Banded w₀ w) (hrule : paysByOracle w a) (h : act X w a = some u) :
    Banded w₀ u := by
  cases a with
  | manager sender call => exact hw.manager hrule h
  | prices action =>
    obtain ⟨s, hs, rfl⟩ := Option.map_eq_some_iff.mp h
    obtain ⟨new, hnew, hfair⟩ := hw.log
    have hreached := hw.reached.effect hrule (PricerWithOracle.act_effect hw.reached.ids hs)
    refine ⟨hreached, hw.pricer.trans (PricerWithOracle.act_address hs).symm, hw.decimalsMultiplier, new, hnew,
      fun e he => (hfair e he).widen (PricerWithOracle.windows_le ?_)⟩
    exact (PricerWithOracle.act_effect hw.reached.ids hs).later
  | world isBlocked otherPrice tokens =>
    cases h
    exact ⟨hw.reached, hw.pricer, hw.decimalsMultiplier, hw.log⟩

/-- From a pricer as constructed on, while prices come from the oracle: whatever the manager mints for a deposit or pays
    for a redemption, it does so at a price that the oracle reaches from its first one at 1% for each 23 hours that its
    updates took, and so no more tokens are minted, and no more collateral is paid, than at the ends of that band. -/
theorem paid_within_band (hprices : PricerWithOracle.Constructed w.prices) (hpricer : w.manager.pricer = w.prices.address)
    (acts : List (Action T)) (hobeys : Machine.Obeys (act X) paysByOracle w acts) :
    let t := Machine.run (act X) w acts
    let p := w.prices.rwaOracle.rwaPrice
    let n := (t.prices.rwaOracle.priceTimestamp.toNat - w.prices.rwaOracle.priceTimestamp.toNat) / 82800
    let m := w.manager.decimalsMultiplier
    ∃ new, t.manager.events = w.manager.events ++ new ∧
      (∀ time user id out deposited price priceId,
        ⟨time, .mintCompleted user id out deposited price priceId⟩ ∈ new →
          99 ^ n * p.toNat ≤ 100 ^ n * price.toNat ∧ 100 ^ n * price.toNat ≤ 101 ^ n * p.toNat ∧
          99 ^ n * p.toNat * out.toNat ≤ 100 ^ n * (deposited.toNat * m.toNat * 10 ^ 18)) ∧
      ∀ time user id burned paid price, ⟨time, .redemptionCompleted user id burned paid price⟩ ∈ new →
        100 ^ n * (paid.toNat * m.toNat * 10 ^ 18) ≤ 101 ^ n * p.toNat * burned.toNat := by
  intro t p n m
  have hstart : Banded w w := ⟨hprices.reached, hpricer, rfl, [], (List.append_nil _).symm, fun _ he => absurd he List.not_mem_nil⟩
  obtain ⟨-, -, -, new, hnew, hfair⟩ : Banded w t :=
    (Machine.invariant hobeys hstart fun _ _ _ hs hrule hact => hs.act hrule hact).1
  refine ⟨new, hnew, fun time user id out deposited price priceId he => ?_, fun time user id burned paid price he => ?_⟩
  · obtain ⟨hreach, hout⟩ := hfair _ he
    refine ⟨hreach.lower, hreach.upper, ?_⟩
    calc 99 ^ n * p.toNat * out.toNat ≤ 100 ^ n * price.toNat * out.toNat := Nat.mul_le_mul_right _ hreach.lower
      _ = 100 ^ n * (out.toNat * price.toNat) := by ring
      _ ≤ 100 ^ n * (deposited.toNat * m.toNat * 10 ^ 18) := Nat.mul_le_mul_left _ hout
  · obtain ⟨hreach, hpaid⟩ := hfair _ he
    have hprice : 100 ^ n * price.toNat ≤ 101 ^ n * p.toNat := by
      rcases hreach with rfl | hreach
      · exact (Nat.mul_zero _).le.trans (Nat.zero_le _)
      · exact hreach.upper
    calc 100 ^ n * (paid.toNat * m.toNat * 10 ^ 18) ≤ 100 ^ n * (burned.toNat * price.toNat) := Nat.mul_le_mul_left _ hpaid
      _ = 100 ^ n * price.toNat * burned.toNat := by ring
      _ ≤ 101 ^ n * p.toNat * burned.toNat := Nat.mul_le_mul_right _ hprice

namespace Sample

/-- The sample manager with the sample pricer, which gets a price at the next window. -/
def desk : PricedManager (Address → Nat) where
  manager := { Usdy.Sample.state with pricer := PricerWithOracle.Sample.pair.address }
  prices := PricerWithOracle.Sample.pair
  isBlocked _ _ := some false
  otherPrice _ _ := none

/-- A deposit serviced off chain, priced by a later price of the oracle, and minted. -/
def mint : List (PricedManager.Action (Address → Nat)) :=
  [.manager Usdy.Sample.admin (.grantRole .relayer Usdy.Sample.admin.address),
   .manager Usdy.Sample.admin (.grantRole .priceIdSetter Usdy.Sample.admin.address),
   .manager Usdy.Sample.admin (.grantRole .timestampSetter Usdy.Sample.admin.address),
   .manager Usdy.Sample.admin (.requestSubscriptionServicedOffchain Usdy.Sample.alice.address 1000 5),
   .prices (.block 83800),
   .prices (.call 6 (.addPrice 10100 83700)),
   .manager Usdy.Sample.admin (.setPriceIdForDeposits [5] [2]),
   .manager Usdy.Sample.admin (.setClaimableTimestamp 83800 [5]),
   .manager Usdy.Sample.bob (.claimMint [5])]

/-- The windows that the updates took. -/
theorem mint_windows : ((Machine.run (act Usdy.Sample.tokens) desk mint).prices.rwaOracle.priceTimestamp.toNat -
    desk.prices.rwaOracle.priceTimestamp.toNat) / 82800 = 1 := by
  decide +kernel

end Sample

theorem paid_within_band_mint :
    let t := Machine.run (act Usdy.Sample.tokens) Sample.desk Sample.mint
    t.manager.events.getLast?.map (·.event) =
        some (.mintCompleted Usdy.Sample.alice.address 5 99009900990099009 1000 10100 2) ∧
      ∃ new, t.manager.events = Sample.desk.manager.events ++ new ∧
        ∀ time user id out deposited price priceId,
          ⟨time, .mintCompleted user id out deposited price priceId⟩ ∈ new → 99 * 10000 ≤ 100 * price.toNat := by
  have hobeys : Machine.Obeys (act Usdy.Sample.tokens) paysByOracle Sample.desk Sample.mint := by decide +kernel
  obtain ⟨new, hnew, hmints, -⟩ :=
    paid_within_band PricerWithOracle.Sample.pair_constructed rfl Sample.mint hobeys
  refine ⟨by decide +kernel, new, hnew, fun time user id out deposited price priceId he => ?_⟩
  obtain ⟨hlower, -⟩ := hmints time user id out deposited price priceId he
  rw [Sample.mint_windows, pow_one, pow_one] at hlower
  exact hlower

end PricedManager

end Usdy
