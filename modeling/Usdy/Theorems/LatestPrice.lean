import Usdy.Theorems.RateDrift
import Usdy.PricerWithOracle

/-! The latest price of a `PricerWithOracle` against the price of its oracle: how far one `addPrice` moves both,
    when the timestamps of the two stay in order, and when their prices stay equal. -/

namespace Usdy
open Checked Function

namespace PricerWithOracle
variable {s t : System} {a : Action} {price timestamp : Uint256}

theorem Added.prices_of_ne (h : Added s price timestamp t) {id : Uint256} (hne : id ≠ t.pricer.currentPriceId) :
    t.pricer.prices id = s.pricer.prices id := by
  rw [h.prices, update_of_ne hne]

theorem Added.latest_new (h : Added s price timestamp t) (hlatest : t.pricer.latestPriceId = t.pricer.currentPriceId) :
    t.latest = ⟨price, timestamp⟩ := by
  rw [System.latest, hlatest, h.prices, update_self]

theorem Added.latest_kept (h : Added s price timestamp t)
    (hle : s.pricer.latestPriceId.toNat ≤ s.pricer.currentPriceId.toNat)
    (hlatest : t.pricer.latestPriceId = s.pricer.latestPriceId) : t.latest = s.latest := by
  rw [System.latest, hlatest, h.prices_of_ne (ne_of_next hle h.next), System.latest]

theorem Kept.latest (h : Kept s t) : t.latest = s.latest := by
  rw [System.latest, System.latest, h.prices, h.latestPriceId]

/-! ### Every reachable pair -/

/-- The oracle has a price, and the latest id is one of those given out. -/
structure Inv (s : System) : Prop where
  price : 0 < s.rwaOracle.rwaPrice.toInt
  stored : 0 < s.pricer.latestPriceId.toNat
  ids : s.pricer.latestPriceId.toNat ≤ s.pricer.currentPriceId.toNat

theorem Inv.effect (hs : Inv s) (h : Effect s a t) : Inv t := by
  cases h with
  | addNewer hadded hlatest hlt hsync hset =>
    obtain ⟨-, hpos, -, -, ho⟩ := RWAOracleRateCheck.setPrice_inv hset
    have hnext := hadded.next
    exact ⟨ho ▸ hpos, by rw [hlatest]; omega, (congrArg BitVec.toNat hlatest).le⟩
  | addOlder hadded hlatest hle horacle =>
    have hids := hs.ids
    have hnext := hadded.next
    exact ⟨horacle ▸ hs.price, hlatest ▸ hs.stored, by rw [hlatest]; omega⟩
  | addOracle hadded hlatest horacle =>
    have hnext := hadded.next
    exact ⟨horacle ▸ hs.price, by rw [hlatest]; omega, (congrArg BitVec.toNat hlatest).le⟩
  | update => exact ⟨hs.price, hs.stored, hs.ids⟩
  | setOracle hset =>
    obtain ⟨-, hpos, -, -, rfl⟩ := RWAOracleRateCheck.setPrice_inv hset
    exact ⟨hpos, hs.stored, hs.ids⟩
  | other hother hkept =>
    refine ⟨hkept.rwaPrice ▸ hs.price, hkept.latestPriceId ▸ hs.stored, ?_⟩
    rw [hkept.latestPriceId, hkept.currentPriceId]
    exact hs.ids

/-- A pair as constructed: the only price is that of the oracle. -/
theorem Constructed.start (h : Constructed s) :
    Inv s ∧ s.latest = ⟨s.rwaOracle.rwaPrice, s.rwaOracle.priceTimestamp⟩ ∧
      ∀ id, (s.pricer.prices id).timestamp ≤ s.latest.timestamp := by
  obtain ⟨setterAdmin, setter, p₀, t₀, o, acts, address, admin, pricer, ho, hs⟩ := h
  obtain ⟨hp₀, rfl, rfl⟩ := RWAOracleRateCheck.deploy_inv ho
  obtain ⟨hpos, -⟩ := RWAOracleRateCheck.updates_trail (s := ⟨o, o.priceTimestamp⟩) hp₀ acts
  simp only [construct, bind_eq_ok, Prod.exists, setPriceInfo_eq_ok, pure_eq_ok] at hs
  obtain ⟨priceId, P, ⟨hid, rfl⟩, rfl⟩ := hs
  simp only [System.latest, update_self]
  refine ⟨⟨hpos, hid ▸ Nat.succ_pos _, le_rfl⟩, rfl, fun id => ?_⟩
  by_cases hid : id = priceId
  · rw [hid, update_self]
    exact BitVec.le_def.mpr le_rfl
  · rw [update_of_ne hid]
    exact BitVec.le_def.mpr (Nat.zero_le _)

theorem Constructed.run_inv (h : Constructed s) (acts : List Action) : Inv (Machine.run act s acts) :=
  (Machine.invariant_any h.start.1 fun _ _ _ hs hact => hs.effect (act_effect hs.ids hact)).1

namespace Sample

/-- A pricer at the address that may set the price of the oracle, constructed at its deployment. -/
def pair : System where
  address := 2
  pricer := { Pricer.deploy 5 6 with
    currentPriceId := 1
    prices := update (fun _ => 0) 1 ⟨10000, 1000⟩
    priceIds := [1]
    latestPriceId := 1 }
  rwaOracle := RWAOracleRateCheck.Sample.oracle
  now := 1000

theorem pair_constructed : Constructed pair :=
  ⟨1, 2, 10000, 1000, RWAOracleRateCheck.Sample.oracle, [], 2, 5, 6, RWAOracleRateCheck.Sample.oracle_deployed, rfl⟩

-- Account 9 becomes another setter of the oracle, after whose update the pricer has to catch up.
def history : List Action :=
  [.block 83800, .call 6 (.addPrice 10100 83700), .oracle 1 (.role (.grantRole .setter 9)), .block 166600,
    .oracle 9 (.setPrice 10150), .call 6 (.addPrice 10200 166600), .call 6 .addLatestOraclePrice,
    .call 6 (.addPrice 9000 70000), .call 6 (.updatePrice 1 9500), .block 249400]

end Sample

/-! ### One `addPrice` -/

/-- From any reachable state, an `addPrice` that moves the latest price starts from the oracle's and moves both by
    at most 1%; one that does not move it leaves both prices alone. -/
theorem addPrice_bounded (hs : Constructed s) (acts : List Action) {caller : Address} {price timestamp : Uint256} :
    let u := Machine.run act s acts
    addPrice caller price timestamp u = .ok t →
      (t.pricer.latestPriceId ≠ u.pricer.latestPriceId →
        u.pricer.getLatestPrice = u.rwaOracle.getPriceData.1 ∧
        |(price.toNat : Int) - u.pricer.getLatestPrice.toNat| * 100 ≤ u.pricer.getLatestPrice.toNat ∧
        u.rwaOracle.priceTimestamp.toNat + 82800 ≤ u.now.toNat ∧
        t.rwaOracle.getPriceData.1 = price ∧ t.pricer.getLatestPrice = price) ∧
      (t.pricer.latestPriceId = u.pricer.latestPriceId →
        t.rwaOracle = u.rwaOracle ∧ t.pricer.getLatestPrice = u.pricer.getLatestPrice) := by
  intro u h
  have hu : Inv u := hs.run_inv acts
  cases addPrice_effect hu.ids h with
  | addNewer hadded hlatest hlt hsync hset =>
    have hne := ne_of_next hu.ids hadded.next
    rw [← hlatest] at hne
    refine ⟨fun _ => ?_, fun heq => absurd heq.symm hne⟩
    obtain ⟨-, hpos, hwindow, hchange, ho⟩ := RWAOracleRateCheck.setPrice_inv hset
    have hold : u.pricer.getLatestPrice = u.rwaOracle.rwaPrice := hsync
    have hnew : t.pricer.getLatestPrice = price := congrArg PriceInfo.price (hadded.latest_new hlatest)
    have hchange := hchange hu.price
    rw [← toNat_eq_toInt hpos.le, ← toNat_eq_toInt hu.price.le] at hchange
    exact ⟨hold, hold ▸ hchange, hwindow, congrArg RWAOracleRateCheck.rwaPrice ho, hnew⟩
  | addOlder hadded hlatest hle horacle =>
    refine ⟨fun hne => absurd hlatest hne, fun _ => ⟨horacle, ?_⟩⟩
    exact congrArg PriceInfo.price (hadded.latest_kept hu.ids hlatest)
  | other hother => cases hother

theorem addPrice_bounded_history :
    let u := Machine.run act Sample.pair Sample.history
    ∃ t, addPrice 6 10250 249000 u = .ok t ∧ u.pricer.getLatestPrice = 10150 ∧ u.rwaOracle.getPriceData.1 = 10150 ∧
      t.pricer.getLatestPrice = 10250 ∧ t.rwaOracle.getPriceData.1 = 10250 := by
  obtain ⟨t, ht, hid⟩ : ∃ t, addPrice 6 10250 249000 (Machine.run act Sample.pair Sample.history) = .ok t ∧
      t.pricer.latestPriceId ≠ (Machine.run act Sample.pair Sample.history).pricer.latestPriceId :=
    ⟨_, eq_ok_get (by decide +kernel), by decide +kernel⟩
  obtain ⟨hmoved, -⟩ := addPrice_bounded Sample.pair_constructed Sample.history ht
  obtain ⟨-, -, -, horacle, hlatest⟩ := hmoved hid
  exact ⟨t, ht, by decide +kernel, by decide +kernel, hlatest, horacle⟩

/-! ### Timestamps -/

/-- A price that becomes the latest is not from the future. -/
def stampsPast (s : System) : Action → Prop
  | .call _ (.addPrice _ timestamp) => timestamp ≤ s.now ∨ timestamp ≤ s.latest.timestamp
  | _ => True

/-- The latest price is not newer than the oracle's, and no stored price is newer than it. -/
structure Stamped (s : System) : Prop extends Inv s where
  oracle : s.latest.timestamp ≤ s.rwaOracle.priceTimestamp
  newest : ∀ id, (s.pricer.prices id).timestamp ≤ s.latest.timestamp

theorem Added.newest (h : Added s price timestamp t) (hlast : s.latest.timestamp ≤ t.latest.timestamp)
    (hnew : timestamp ≤ t.latest.timestamp) (hs : ∀ id, (s.pricer.prices id).timestamp ≤ s.latest.timestamp)
    (id : Uint256) : (t.pricer.prices id).timestamp ≤ t.latest.timestamp := by
  by_cases hid : id = t.pricer.currentPriceId
  · rw [hid, h.prices, update_self]
    exact hnew
  · rw [h.prices_of_ne hid]
    exact BitVec.le_trans (hs id) hlast

/-- A new latest price keeps the order when it lies between the old one and the oracle's. -/
theorem Added.stamped_new (h : Added s price timestamp t) (hlatest : t.pricer.latestPriceId = t.pricer.currentPriceId)
    (hs : Stamped s) (hinv : Inv t) (hle : s.latest.timestamp ≤ timestamp)
    (horacle : timestamp ≤ t.rwaOracle.priceTimestamp) : Stamped t := by
  have htime : t.latest.timestamp = timestamp := congrArg PriceInfo.timestamp (h.latest_new hlatest)
  refine ⟨hinv, ?_, h.newest ?_ ?_ hs.newest⟩
  · rw [htime]
    exact horacle
  · rw [htime]
    exact hle
  · rw [htime]
    exact BitVec.le_refl _

theorem Stamped.effect (hs : Stamped s) (hrule : stampsPast s a) (h : Effect s a t) : Stamped t := by
  have hinv := hs.toInv.effect h
  cases h with
  | addNewer hadded hlatest hlt hsync hset =>
    obtain ⟨-, -, -, -, ho⟩ := RWAOracleRateCheck.setPrice_inv hset
    refine hadded.stamped_new hlatest hs hinv (BitVec.le_of_lt hlt) ?_
    rw [ho]
    exact hrule.resolve_right (BitVec.not_le.mpr hlt)
  | addOlder hadded hlatest hle horacle =>
    have hlatest := hadded.latest_kept hs.ids hlatest
    refine ⟨hinv, ?_, hadded.newest ?_ ?_ hs.newest⟩
    · rw [hlatest, horacle]
      exact hs.oracle
    · rw [hlatest]
      exact BitVec.le_refl _
    · rw [hlatest]
      exact hle
  | addOracle hadded hlatest horacle =>
    refine hadded.stamped_new hlatest hs hinv hs.oracle ?_
    rw [horacle]
    exact BitVec.le_refl _
  | @update sender priceId price =>
    have hsame : ∀ id, (update s.pricer.prices priceId ⟨price, (s.pricer.prices priceId).timestamp⟩ id).timestamp =
        (s.pricer.prices id).timestamp := by
      intro id
      by_cases hid : id = priceId
      · rw [hid, update_self]
      · rw [update_of_ne hid]
    refine ⟨hinv, ?_, fun id => ?_⟩
    · rw [System.latest, hsame]
      exact hs.oracle
    · rw [System.latest, hsame, hsame]
      exact hs.newest id
  | setOracle hset =>
    obtain ⟨-, -, hwindow, -, rfl⟩ := RWAOracleRateCheck.setPrice_inv hset
    refine ⟨hinv, BitVec.le_trans hs.oracle ?_, hs.newest⟩
    exact BitVec.le_def.mpr (Nat.le_of_add_right_le hwindow)
  | other hother hkept =>
    refine ⟨hinv, ?_, fun id => ?_⟩
    · rw [hkept.latest, hkept.priceTimestamp]
      exact hs.oracle
    · rw [hkept.latest, hkept.prices]
      exact hs.newest id

/-- While no price from the future becomes the latest, the latest price is not newer than the oracle's and no
    stored price is newer than it; and a price from the future is exactly what breaks this. -/
theorem latest_stamped (hs : Constructed s) (acts : List Action) (hacts : Machine.Obeys act stampsPast s acts) :
    let u := Machine.run act s acts
    u.latest.timestamp ≤ u.rwaOracle.priceTimestamp ∧
      (0 < u.pricer.latestPriceId.toNat ∧ u.pricer.latestPriceId.toNat ≤ u.pricer.currentPriceId.toNat) ∧
      (∀ id, (u.pricer.prices id).timestamp ≤ u.latest.timestamp) ∧
      (∀ caller t, addLatestOraclePrice caller u = .ok t → u.latest.timestamp ≤ t.latest.timestamp) ∧
      ∀ caller price timestamp t, addPrice caller price timestamp u = .ok t →
        (t.latest.timestamp ≤ t.rwaOracle.priceTimestamp ↔ timestamp ≤ u.now ∨ timestamp ≤ u.latest.timestamp) := by
  intro u
  obtain ⟨hinv, hlatest, hnewest⟩ := hs.start
  have hstart : Stamped s := ⟨hinv, hlatest ▸ BitVec.le_refl _, hnewest⟩
  have hu : Stamped u := (Machine.invariant hacts hstart fun s a t hs hrule hact =>
    hs.effect hrule (act_effect hs.ids hact)).1
  refine ⟨hu.oracle, ⟨hu.stored, hu.ids⟩, hu.newest, fun caller t h => ?_, fun caller price timestamp t h => ?_⟩
  · cases addLatestOraclePrice_effect h with
    | addOracle hadded hlatest horacle =>
      rw [hadded.latest_new hlatest]
      exact hu.oracle
    | other hother => cases hother
  · have heffect := addPrice_effect hu.ids h
    refine ⟨fun hle => ?_, fun hrule =>
      (hu.effect (a := .call caller (.addPrice price timestamp)) hrule heffect).oracle⟩
    cases heffect with
    | addNewer hadded hlatest hlt hsync hset =>
      obtain ⟨-, -, -, -, ho⟩ := RWAOracleRateCheck.setPrice_inv hset
      rw [hadded.latest_new hlatest, ho] at hle
      exact .inl hle
    | addOlder hadded hlatest hle horacle => exact .inr hle
    | other hother => cases hother

instance (s : System) : (a : Action) → Decidable (stampsPast s a)
  | .call _ (.addPrice _ timestamp) =>
    inferInstanceAs (Decidable (timestamp ≤ s.now ∨ timestamp ≤ s.latest.timestamp))
  | .call _ .addLatestOraclePrice | .call _ (.updatePrice ..) | .call _ (.grantRole ..) | .call _ (.revokeRole ..)
  | .call _ (.renounceRole ..) | .oracle .. | .block _ => .isTrue trivial

theorem latest_stamped_history :
    let u := Machine.run act Sample.pair Sample.history
    u.latest.timestamp = 166600 ∧ u.latest.timestamp ≤ u.rwaOracle.priceTimestamp ∧
      ∀ id, (u.pricer.prices id).timestamp ≤ u.latest.timestamp := by
  have hobeys : Machine.Obeys act stampsPast Sample.pair Sample.history := by decide +kernel
  obtain ⟨horacle, -, hnewest, -⟩ := latest_stamped Sample.pair_constructed Sample.history hobeys
  exact ⟨by decide +kernel, horacle, hnewest⟩

/-- A price of the year 33658 becomes the latest, while the oracle's is of now. -/
theorem latest_unstamped :
    ¬∀ (s : System) (acts : List Action), Constructed s →
      (Machine.run act s acts).latest.timestamp ≤ (Machine.run act s acts).rwaOracle.priceTimestamp := by
  intro h
  have hle := h Sample.pair [.block 83800, .call 6 (.addPrice 10100 1000000000000)] Sample.pair_constructed
  exact absurd hle (by decide +kernel)

/-! ### Prices -/

/-- The latest price is the price of the oracle. -/
def InSync (s : System) : Prop := s.pricer.getLatestPrice = s.rwaOracle.getPriceData.1

/-- Somebody sets the oracle directly, past the pricer. -/
def Action.setsOracle : Action → Bool
  | .oracle _ (.setPrice _) => true
  | _ => false

/-- Nobody else sets the price of the oracle, and the latest price is updated to the oracle's price only. -/
def keepsSync (s : System) : Action → Prop
  | .oracle _ (.setPrice _) => False
  | .call _ (.updatePrice priceId price) => priceId = s.pricer.latestPriceId → price = s.rwaOracle.getPriceData.1
  | _ => True

instance (s : System) : (a : Action) → Decidable (keepsSync s a)
  | .oracle _ (.setPrice _) => .isFalse id
  | .call _ (.updatePrice priceId price) =>
    inferInstanceAs (Decidable (priceId = s.pricer.latestPriceId → price = s.rwaOracle.getPriceData.1))
  | .call _ (.addPrice ..) | .call _ .addLatestOraclePrice | .call _ (.grantRole ..) | .call _ (.revokeRole ..)
  | .call _ (.renounceRole ..) | .oracle _ (.role _) | .block _ => .isTrue trivial

theorem InSync.effect (hs : InSync s) (hids : s.pricer.latestPriceId.toNat ≤ s.pricer.currentPriceId.toNat)
    (hrule : keepsSync s a) (h : Effect s a t) : InSync t := by
  have hlast : s.latest.price = s.rwaOracle.rwaPrice := hs
  have goal : t.latest.price = t.rwaOracle.rwaPrice := by
    cases h with
    | addNewer hadded hlatest hlt hsync hset =>
      obtain ⟨-, -, -, -, ho⟩ := RWAOracleRateCheck.setPrice_inv hset
      rw [hadded.latest_new hlatest, ho]
    | addOlder hadded hlatest hle horacle => rw [hadded.latest_kept hids hlatest, horacle, hlast]
    | addOracle hadded hlatest horacle => rw [hadded.latest_new hlatest, horacle]
    | @update sender priceId price =>
      by_cases hid : s.pricer.latestPriceId = priceId
      · simp only [System.latest, hid, update_self]
        exact hrule hid.symm
      · simp only [System.latest, update_of_ne hid]
        exact hs
    | setOracle hset => exact hrule.elim
    | other hother hkept => rw [hkept.latest, hkept.rwaPrice, hlast]
  exact goal

theorem updateOraclePrice_avoids {latestPriceId : Uint256}
    (h : (s.pricer.prices latestPriceId).price = s.rwaOracle.getPriceData.1) :
    Avoids .latestPriceMismatch (updateOraclePrice price latestPriceId s) :=
  .bind (.revertIf_of fun _ => not_not.mpr h) fun _ _ => .bind (.raise fun _ => nofun) fun _ _ => .ok

theorem InSync.addPrice_avoids (hs : InSync s) (hids : s.pricer.latestPriceId.toNat ≤ s.pricer.currentPriceId.toNat)
    {caller : Address} : Avoids .latestPriceMismatch (addPrice caller price timestamp s) := by
  refine .bind (.raise fun _ => nofun) fun _ _ => .bind (.revertIf nofun) fun _ _ => .bind ?_ fun x hx => ?_
  · exact .bind (.addOr nofun) fun _ _ => .ok
  · obtain ⟨priceId, P⟩ := x
    obtain ⟨hnext, rfl⟩ := setPriceInfo_eq_ok.mp hx
    have hold := update_of_ne (ne_of_next hids hnext) (⟨price, timestamp⟩ : PriceInfo) s.pricer.prices
    dsimp only
    split
    · exact .bind (updateOraclePrice_avoids ((congrArg PriceInfo.price hold).trans hs)) fun _ _ => .ok
    · exact .ok

theorem addLatestOraclePrice_inSync {caller : Address} (h : addLatestOraclePrice caller s = .ok t) : InSync t := by
  cases addLatestOraclePrice_effect h with
  | addOracle hadded hlatest horacle =>
    have hprice : t.latest.price = t.rwaOracle.rwaPrice := by rw [hadded.latest_new hlatest, horacle]
    exact hprice
  | other hother => cases hother

/-- The pair is constructed in sync, `addLatestOraclePrice` brings it back into sync from any state, and from
    there it stays in sync, and no `addPrice` meets a mismatch, until somebody else sets the oracle's price or the
    latest price is updated to another one. -/
theorem prices_in_sync (hs : Constructed s) :
    InSync s ∧
      (∀ past caller t, addLatestOraclePrice caller (Machine.run act s past) = .ok t → InSync t) ∧
      ∀ past acts, InSync (Machine.run act s past) → Machine.Obeys act keepsSync (Machine.run act s past) acts →
        let u := Machine.run act s (past ++ acts)
        InSync u ∧ ∀ caller price timestamp, addPrice caller price timestamp u ≠ .error .latestPriceMismatch := by
  obtain ⟨-, hlatest, -⟩ := hs.start
  refine ⟨congrArg PriceInfo.price hlatest, fun past caller t h => addLatestOraclePrice_inSync h, ?_⟩
  intro past acts hsync hacts
  have hu : Inv (Machine.run act s past) := hs.run_inv past
  rw [Machine.run_append]
  obtain ⟨⟨hinv, hsync⟩, -⟩ := Machine.invariant (I := fun s => Inv s ∧ InSync s) hacts ⟨hu, hsync⟩ fun s a t hs hrule hact => by
    have heffect := act_effect hs.1.ids hact
    exact ⟨hs.1.effect heffect, hs.2.effect hs.1.ids hrule heffect⟩
  exact ⟨hsync, fun caller price timestamp => hsync.addPrice_avoids hinv.ids⟩

theorem prices_in_sync_history :
    let u := Machine.run act Sample.pair
      (Sample.history ++ [.call 6 (.addPrice 10250 249000), .call 6 (.updatePrice 1 9000)])
    u.pricer.getLatestPrice = 10250 ∧ InSync u ∧
      ∀ caller price timestamp, addPrice caller price timestamp u ≠ .error .latestPriceMismatch := by
  have hsync : InSync (Machine.run act Sample.pair Sample.history) := by
    unfold InSync
    decide +kernel
  exact ⟨by decide +kernel, (prices_in_sync Sample.pair_constructed).2.2 Sample.history _ hsync (by decide +kernel)⟩

/-- Updating the latest price leaves the oracle behind, and the next newer price is rejected. -/
theorem out_of_sync :
    (¬∀ (s : System) (acts : List Action), Constructed s → (∀ a ∈ acts, a.setsOracle = false) →
      InSync (Machine.run act s acts)) ∧
    ¬∀ (s : System) (acts : List Action), Constructed s → (∀ a ∈ acts, a.setsOracle = false) →
      ∀ caller price timestamp, addPrice caller price timestamp (Machine.run act s acts) ≠ .error .latestPriceMismatch := by
  constructor
  · intro h
    have hsync := h Sample.pair [.call 6 (.updatePrice 1 10100)] Sample.pair_constructed (by decide)
    exact absurd hsync (by unfold InSync; decide +kernel)
  · intro h
    exact h Sample.pair [.call 6 (.updatePrice 1 10100), .block 83800] Sample.pair_constructed (by decide) 6 10200 83800 rfl

end PricerWithOracle
end Usdy
