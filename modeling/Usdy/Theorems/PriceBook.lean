import Usdy.Lib.Machine
import Usdy.Pricer

/-! The book of a `Pricer` over any run: its ids are those that the counter handed out, a timestamp never
    changes, and the latest id is the first of those with the largest timestamp. -/

namespace Usdy
open Checked Function

namespace Pricer
variable {P Q : Pricer} {caller : Address} {call : Call} {id : Uint256}

/-- A call to the pricer, when it succeeds. -/
def act (P : Pricer) (call : Address × Call) : Option Pricer := (exec call.1 call.2 P).toOption

/-- The calls that write a price. -/
def Call.setsPrice : Call → Bool
  | .addPrice .. | .updatePrice .. => true
  | _ => false

/-- The price that a successful call writes under an id. -/
def written (id : Uint256) : Machine.Success Pricer (Address × Call) → Option Uint256
  | ⟨_, (_, .addPrice price _), after⟩ => if after.currentPriceId = id then some price else none
  | ⟨_, (_, .updatePrice priceId price), _⟩ => if priceId = id then some price else none
  | _ => none

theorem written_eq_none (h : call.setsPrice = false) : written id ⟨P, (caller, call), Q⟩ = none := by
  cases call with
  | addPrice | updatePrice => cases h
  | _ => rfl

/-! ### What a call does -/

/-- What a successful call does to the pricer. -/
inductive Effect (P : Pricer) : Call → Pricer → Prop
  | added {price timestamp priceId : Uint256} (hprice : price ≠ 0)
      (hnext : priceId.toNat = P.currentPriceId.toNat + 1) :
      Effect P (.addPrice price timestamp) { P with
        currentPriceId := priceId
        prices := update P.prices priceId ⟨price, timestamp⟩
        priceIds := P.priceIds ++ [priceId]
        latestPriceId := if timestamp > (P.prices P.latestPriceId).timestamp then priceId else P.latestPriceId }
  | updated {priceId price : Uint256} (hprice : price ≠ 0) (hold : P.getPrice priceId ≠ 0) :
      Effect P (.updatePrice priceId price) { P with
        prices := update P.prices priceId ⟨price, (P.prices priceId).timestamp⟩ }
  | other {call : Call} {access : AccessControl} (hother : call.setsPrice = false) :
      Effect P call { P with toAccessControl := access }

/-- The new id is not the latest one, so the comparison of `addPrice` reads the old latest timestamp. -/
theorem addPrice_effect {price timestamp : Uint256} (hle : P.latestPriceId.toNat ≤ P.currentPriceId.toNat)
    (h : addPrice caller price timestamp P = .ok Q) : Effect P (.addPrice price timestamp) Q := by
  simp only [addPrice, onlyRole, bind_eq_ok, exists_unit_iff, revertIf_eq_ok, addOr_eq_ok, pure_eq_ok,
    Bool.not_eq_false] at h
  obtain ⟨-, hprice, priceId, hnext, rfl⟩ := h
  have hnext : priceId.toNat = P.currentPriceId.toNat + 1 := hnext
  have hne : P.latestPriceId ≠ priceId := by
    rintro rfl
    omega
  have heffect : Effect P (.addPrice price timestamp) _ := .added hprice hnext
  rw [update_of_ne hne]
  split at heffect
  · rename_i hlt
    rw [if_pos hlt]
    exact heffect
  · rename_i hlt
    rw [if_neg hlt]
    exact heffect

theorem exec_effect (hle : P.latestPriceId.toNat ≤ P.currentPriceId.toNat) (h : exec caller call P = .ok Q) :
    Effect P call Q := by
  cases call with
  | addPrice price timestamp => exact addPrice_effect hle h
  | updatePrice priceId price =>
    obtain ⟨-, hprice, hold, rfl⟩ := updatePrice_inv h
    exact .updated hprice hold
  | grantRole role account | revokeRole role account | renounceRole role account =>
    obtain ⟨_, -, h⟩ := bind_eq_ok.mp h
    obtain rfl := pure_eq_ok.mp h
    exact .other rfl

theorem Effect.stamp (h : Effect P call Q) (hid : id.toNat ≤ P.currentPriceId.toNat) :
    (Q.prices id).timestamp = (P.prices id).timestamp ∧ P.currentPriceId.toNat ≤ Q.currentPriceId.toNat := by
  cases h with
  | @added price timestamp priceId hprice hnext =>
    have hne : id ≠ priceId := by
      rintro rfl
      omega
    exact ⟨by simp only [update_of_ne hne], by simp only; omega⟩
  | @updated priceId price hprice hold =>
    refine ⟨?_, Nat.le_refl _⟩
    by_cases heq : id = priceId
    · simp only [heq, update_self]
    · simp only [update_of_ne heq]
  | other hother => exact ⟨rfl, Nat.le_refl _⟩

theorem Effect.written (h : Effect P call Q) :
    (Q.prices id).price = (written id ⟨P, (caller, call), Q⟩).getD (P.prices id).price := by
  cases h with
  | @added price timestamp priceId hprice hnext =>
    by_cases heq : priceId = id
    · subst heq
      simp [Pricer.written]
    · simp only [Pricer.written, if_neg heq, update_of_ne (Ne.symm heq), Option.getD_none]
  | @updated priceId price hprice hold =>
    by_cases heq : priceId = id
    · subst heq
      simp [Pricer.written]
    · simp only [Pricer.written, if_neg heq, update_of_ne (Ne.symm heq), Option.getD_none]
  | other hother => rw [written_eq_none hother, Option.getD_none]

/-! ### The latest id -/

/-- The timestamp of the id is the largest, and that of every earlier id is smaller. -/
structure Latest (prices : Uint256 → PriceInfo) (latest : Uint256) : Prop where
  newest : ∀ id, (prices id).timestamp.toNat ≤ (prices latest).timestamp.toNat
  first : ∀ id, id.toNat < latest.toNat → (prices id).timestamp.toNat < (prices latest).timestamp.toNat

namespace Latest
variable {prices prices' : Uint256 → PriceInfo} {latest priceId price timestamp : Uint256}

theorem newer (h : Latest prices latest) (hlt : (prices latest).timestamp.toNat < timestamp.toNat) :
    Latest (update prices priceId ⟨price, timestamp⟩) priceId := by
  have hold : ∀ id, id ≠ priceId → (update prices priceId ⟨price, timestamp⟩ id).timestamp.toNat < timestamp.toNat := by
    intro id hid
    rw [update_of_ne hid]
    exact Nat.lt_of_le_of_lt (h.newest id) hlt
  constructor
  · intro id
    rw [update_self]
    by_cases hid : id = priceId
    · rw [hid, update_self]
    · exact (hold id hid).le
  · intro id hid
    rw [update_self]
    refine hold id fun heq => ?_
    exact Nat.lt_irrefl _ (heq ▸ hid)

theorem older (h : Latest prices latest) (hle : timestamp.toNat ≤ (prices latest).timestamp.toNat)
    (hlatest : latest.toNat < priceId.toNat) : Latest (update prices priceId ⟨price, timestamp⟩) latest := by
  have hne : latest ≠ priceId := fun heq => Nat.lt_irrefl _ (heq ▸ hlatest)
  constructor
  · intro id
    rw [update_of_ne hne]
    by_cases hid : id = priceId
    · rw [hid, update_self]
      exact hle
    · rw [update_of_ne hid]
      exact h.newest id
  · intro id hid
    have hid' : id ≠ priceId := by
      rintro rfl
      omega
    rw [update_of_ne hne, update_of_ne hid']
    exact h.first id hid

theorem congr (h : Latest prices latest) (hp : ∀ id, (prices' id).timestamp = (prices id).timestamp) :
    Latest prices' latest := by
  constructor
  · intro id
    rw [hp, hp]
    exact h.newest id
  · intro id hid
    rw [hp, hp]
    exact h.first id hid

end Latest

/-! ### The book -/

/-- What the fields of a pricer have to do with each other. -/
structure Book (P : Pricer) : Prop where
  ids : P.priceIds = (List.range' 1 P.currentPriceId.toNat).map (BitVec.ofNat 256)
  priced : P.Priced
  unset : ∀ id, P.getPrice id = 0 → P.prices id = 0
  known : P.latestPriceId.toNat ≤ P.currentPriceId.toNat
  latest : Latest P.prices P.latestPriceId

theorem book_deploy (admin pricer : Address) : (deploy admin pricer).Book := by
  refine ⟨rfl, fun id => ?_, fun _ _ => rfl, Nat.le_refl _, fun _ => Nat.le_refl _, fun id hid => ?_⟩
  · refine ⟨fun h => absurd rfl h, fun h => ?_⟩
    have hid : id.toNat ≤ 0 := h.2
    omega
  · exact absurd hid (Nat.not_lt_zero _)

theorem unset_update {prices : Uint256 → PriceInfo} {priceId : Uint256} {info : PriceInfo} (hinfo : info.price ≠ 0)
    (h : ∀ id, (prices id).price = 0 → prices id = 0) {id : Uint256} (h0 : (update prices priceId info id).price = 0) :
    update prices priceId info id = 0 := by
  by_cases hid : id = priceId
  · rw [hid, update_self] at h0
    exact absurd h0 hinfo
  · rw [update_of_ne hid] at h0 ⊢
    exact h id h0

theorem Book.exec (hP : P.Book) (h : exec caller call P = .ok Q) : Q.Book := by
  have hpriced := exec_priced hP.priced h
  have hknown := hP.known
  cases exec_effect hP.known h with
  | @added price timestamp priceId hprice hnext =>
    have hids : P.priceIds ++ [priceId] = (List.range' 1 priceId.toNat).map (BitVec.ofNat 256) := by
      rw [hnext, List.range'_concat, List.map_append, ← hP.ids, Nat.one_mul, Nat.add_comm 1, ← hnext]
      simp
    refine ⟨hids, hpriced, fun id => unset_update hprice hP.unset, ?_, ?_⟩
    · simp only
      split <;> omega
    · by_cases hlt : timestamp > (P.prices P.latestPriceId).timestamp
      · simp only [if_pos hlt]
        exact hP.latest.newer hlt
      · simp only [if_neg hlt]
        exact hP.latest.older (BitVec.not_lt.mp hlt) (by omega)
  | @updated priceId price hprice hold =>
    refine ⟨hP.ids, hpriced, fun id => unset_update hprice hP.unset, hP.known, hP.latest.congr fun id => ?_⟩
    by_cases heq : id = priceId
    · simp only [heq, update_self]
    · simp only [update_of_ne heq]
  | other hother => exact ⟨hP.ids, hpriced, hP.unset, hP.known, hP.latest⟩

/-! ### Runs -/

theorem run_book {acts : List (Address × Call)} (hP : P.Book) : (Machine.run act P acts).Book :=
  (Machine.invariant_any hP fun _ _ _ hP h => hP.exec (toOption_eq_some.mp h)).1

theorem run_timestamp {acts : List (Address × Call)} (hP : P.Book) (hid : id.toNat ≤ P.currentPriceId.toNat) :
    ((Machine.run act P acts).prices id).timestamp = (P.prices id).timestamp := by
  refine (Machine.invariant_any (I := fun Q : Pricer => Q.Book ∧ id.toNat ≤ Q.currentPriceId.toNat ∧
    (Q.prices id).timestamp = (P.prices id).timestamp) ⟨hP, hid, rfl⟩ ?_).1.2.2
  rintro Q a R ⟨hQ, hid, hstamp⟩ h
  have h := toOption_eq_some.mp h
  obtain ⟨hkept, hgrown⟩ := (exec_effect hQ.known h).stamp hid
  exact ⟨hQ.exec h, hid.trans hgrown, hkept.trans hstamp⟩

theorem run_price {acts : List (Address × Call)} (hP : P.Book) :
    ((Machine.run act P acts).prices id).price =
      ((Machine.successes act P acts).filterMap (written id)).getLast?.getD (P.prices id).price := by
  refine Machine.last_write (I := Book) (f := fun P : Pricer => (P.prices id).price) hP ?_ ?_
  · intro P a Q hP h
    exact hP.exec (toOption_eq_some.mp h)
  · intro P a Q hP h
    exact (exec_effect hP.known (toOption_eq_some.mp h)).written

/-- What the storage of a pricer is after any calls, whatever prices and timestamps they give. -/
theorem price_book (admin pricer : Address) (acts : List (Address × Call)) :
    let P := Machine.run act (deploy admin pricer) acts
    P.priceIds = (List.range' 1 P.currentPriceId.toNat).map (BitVec.ofNat 256) ∧
      (∀ id, (P.prices id).price ≠ 0 ↔ 1 ≤ id.toNat ∧ id.toNat ≤ P.currentPriceId.toNat) ∧ P.prices 0 = 0 ∧
      (∀ id, id.toNat ≤ P.currentPriceId.toNat → ∀ later,
        ((Machine.run act P later).prices id).timestamp = (P.prices id).timestamp) ∧
      ((∀ id, (P.prices id).timestamp = 0) ∧ P.latestPriceId = 0 ∨
        0 < (P.prices P.latestPriceId).timestamp ∧ P.latestPriceId ∈ P.priceIds ∧
          (∀ id, (P.prices id).timestamp ≤ (P.prices P.latestPriceId).timestamp) ∧
          ∀ id, (P.prices id).timestamp = (P.prices P.latestPriceId).timestamp → P.latestPriceId ≤ id) ∧
      P.getLatestPrice =
        ((Machine.successes act (deploy admin pricer) acts).filterMap (written P.latestPriceId)).getLast?.getD 0 := by
  intro P
  have hP : P.Book := run_book (book_deploy admin pricer)
  have hzero : P.prices 0 = 0 := by
    refine hP.unset 0 (by_contra fun hne => ?_)
    exact absurd ((hP.priced 0).mp hne).1 (by decide)
  refine ⟨hP.ids, hP.priced, hzero, fun id hid later => run_timestamp hP hid, ?_, run_price (book_deploy admin pricer)⟩
  by_cases hlatest : P.latestPriceId = 0
  · refine .inl ⟨fun id => ?_, hlatest⟩
    have hle := hP.latest.newest id
    rw [hlatest, hzero] at hle
    exact BitVec.eq_of_toNat_eq (Nat.le_zero.mp hle)
  · have hpos : 0 < P.latestPriceId.toNat :=
      Nat.pos_of_ne_zero fun h => hlatest (BitVec.eq_of_toNat_eq h)
    have hstamp := hP.latest.first 0 hpos
    refine .inr ⟨Nat.lt_of_le_of_lt (Nat.zero_le _) hstamp, ?_, fun id => hP.latest.newest id, fun id heq => ?_⟩
    · rw [hP.ids]
      refine List.mem_map.mpr ⟨P.latestPriceId.toNat, List.mem_range'_1.mpr ⟨hpos, ?_⟩, ?_⟩
      · have hknown := hP.known
        omega
      · rw [BitVec.ofNat_toNat, BitVec.setWidth_eq]
    · refine BitVec.not_lt.mp fun hlt => ?_
      exact absurd (congrArg BitVec.toNat heq) (hP.latest.first id hlt).ne

end Pricer

end Usdy
