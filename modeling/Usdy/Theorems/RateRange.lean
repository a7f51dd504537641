import Usdy.Lib.Walk
import Usdy.Theorems.RateDrift
import Usdy.Theorems.Roles

/-! Which prices `RWAOracleRateCheck` can ever reach. A change is rounded up, so a price below 100 never changes again;
    from 100 on every price is reached, upwards as far as the type goes, downwards to 99. -/

namespace Usdy
open Checked

namespace RWAOracleRateCheck

/-! ### Which update is accepted -/

/-- How far two prices are apart. -/
def distance (p q : Nat) : Nat := q - p + (p - q)

/-- The price `q` may be set after the price `p`: the change is within 1%, and the division that measures it does not
    overflow. -/
structure Follows (p q : Nat) : Prop where
  pos : 0 < q
  fits : q < 2 ^ 255
  change : distance p q * 100 ≤ p
  measured : distance p q * 10000 < 2 ^ 256

variable {previousPrice newPrice : Int256}

theorem toNat_of_pos (h : 0 < newPrice.toInt) : newPrice.toInt = newPrice.toNat ∧ newPrice.toNat < 2 ^ 255 := by
  have hint := toNat_eq_toInt h.le
  have hlt := BitVec.toInt_lt (x := newPrice)
  exact ⟨hint.symm, by omega⟩

theorem toInt_of_lt {x : Uint256} (h : x.toNat < 2 ^ 255) : x.toInt = x.toNat :=
  BitVec.toInt_eq_toNat_of_lt (by omega)

theorem getPriceChangeBps_eq_ok (hprev : 0 < previousPrice.toInt) (hnew : 0 < newPrice.toInt) {z : Uint256} :
    getPriceChangeBps previousPrice newPrice = .ok z ↔
      distance previousPrice.toNat newPrice.toNat * 10000 < 2 ^ 256 ∧
        z.toNat = (distance previousPrice.toNat newPrice.toNat * 10000) ⌈/⌉ previousPrice.toNat := by
  obtain ⟨hp, hplt⟩ := toNat_of_pos hprev
  obtain ⟨hq, hqlt⟩ := toNat_of_pos hnew
  have hlt : distance previousPrice.toNat newPrice.toNat < 2 ^ 255 := by
    rw [distance]
    omega
  obtain ⟨change, hchange⟩ : ∃ change : Uint256, change.toNat = distance previousPrice.toNat newPrice.toNat :=
    exists_word (by omega)
  have hint : change.toInt = change.toNat := toInt_of_lt (hchange ▸ hlt)
  have hsub : (if newPrice.toInt > previousPrice.toInt then subIntOr Err.arithmetic newPrice previousPrice
      else subIntOr .arithmetic previousPrice newPrice) = .ok change := by
    rw [distance] at hchange
    split
    · exact subIntOr_eq_ok.mpr (by omega)
    · exact subIntOr_eq_ok.mpr (by omega)
  have hne : previousPrice ≠ 0 := by
    rintro rfl
    exact absurd hprev (by decide)
  have hden : bpsDenominator.toNat = 10000 := rfl
  rw [getPriceChangeBps, hsub, ok_bind, mulDivUp_eq_ok, hchange, hden]
  exact and_iff_right hne

variable {o o' : RWAOracleRateCheck} {caller : Address} {now : Uint256}

theorem setPrice_eq_ok (hprev : 0 < o.rwaPrice.toInt) :
    setPrice caller newPrice now o = .ok o' ↔
      o.hasRole .setter caller = true ∧ 0 < newPrice.toInt ∧ o.priceTimestamp.toNat + 82800 ≤ now.toNat ∧
        Follows o.rwaPrice.toNat newPrice.toNat ∧
        o' = { o with
          rwaPrice := newPrice
          priceTimestamp := now
          events := o.events ++ [.rwaPriceSet o.rwaPrice newPrice now] } := by
  simp only [setPrice, bind_eq_ok, exists_unit_iff, raise_eq_ok, AccessControl.onlyRole_eq_ok, revertIf_eq_ok,
    subOr_eq_ok, pure_eq_ok, not_le]
  refine and_congr_right fun _ => and_congr_right fun hnew => ?_
  have hpos : 0 < o.rwaPrice.toNat := by
    have hp := (toNat_of_pos hprev).1
    omega
  obtain ⟨hq, hqlt⟩ := toNat_of_pos hnew
  constructor
  · rintro ⟨elapsed, helapsed, hwindow, changeBps, hbps, hmax, rfl⟩
    have hwindow : ¬elapsed.toNat < 82800 := hwindow
    have hmax : changeBps.toNat ≤ 100 := BitVec.not_lt.mp hmax
    obtain ⟨hmeasured, hceil⟩ := (getPriceChangeBps_eq_ok hprev hnew).mp hbps
    rw [hceil, ceilDiv_le_iff_le_mul hpos] at hmax
    exact ⟨by omega, ⟨by omega, hqlt, by omega, hmeasured⟩, rfl⟩
  · rintro ⟨hwindow, ⟨-, -, hchange, hmeasured⟩, rfl⟩
    have hnow := now.isLt
    obtain ⟨elapsed, helapsed⟩ : ∃ elapsed : Uint256, elapsed.toNat = now.toNat - o.priceTimestamp.toNat :=
      exists_word (by omega)
    have hceil : (distance o.rwaPrice.toNat newPrice.toNat * 10000) ⌈/⌉ o.rwaPrice.toNat ≤ 100 := by
      rw [ceilDiv_le_iff_le_mul hpos]
      omega
    obtain ⟨changeBps, hbps⟩ : ∃ changeBps : Uint256,
        changeBps.toNat = (distance o.rwaPrice.toNat newPrice.toNat * 10000) ⌈/⌉ o.rwaPrice.toNat :=
      exists_word (by omega)
    refine ⟨elapsed, by omega, ?_, changeBps, (getPriceChangeBps_eq_ok hprev hnew).mpr ⟨hmeasured, hbps⟩, ?_, rfl⟩
    · show ¬elapsed.toNat < 82800
      omega
    · exact BitVec.not_lt.mpr (BitVec.le_def.mpr (hbps ▸ hceil))

/-! ### What updates lead to -/

/-- How far a price of at least `a` may always move. -/
def reach (a : Nat) : Nat := min (a / 100) ((2 ^ 256 - 1) / 10000)

theorem follows_of_reach {a p q : Nat} (ha : 100 ≤ a) (hp : a ≤ p) (hq : a ≤ q) (hfits : q < 2 ^ 255)
    (hup : q ≤ p + reach a) (hdown : p ≤ q + reach a) : Follows p q := by
  rw [reach] at hup hdown
  refine ⟨by omega, hfits, ?_, ?_⟩
  · rw [distance]
    omega
  · rw [distance]
    omega

/-- From 100 on any two prices are a bounded number of updates apart. -/
theorem walk_of_le {q : Nat} (hq : 100 ≤ q) (hfits : q < 2 ^ 255) :
    Walk Follows (5001 * 249) 100 q ∧ Walk Follows (5001 * 249) q 100 := by
  refine @Walk.of_double Follows 100 5001 (2 ^ 255 - 1) (by decide) (fun a x y ha hx hxle hxfits hy hyle hyfits => ?_)
    249 q hq ?_ ?_
  · have hcover : a ≤ 5001 * reach a := by
      rw [reach]
      omega
    refine @Walk.of_size Follows a (reach a) 5001 x y (fun p q hp hpmax hq hqmax hup hdown => ?_) hx hy (by omega)
      (by omega)
    exact follows_of_reach ha hp hq (by omega) hup hdown
  · exact hfits.le.trans (by decide)
  · exact Nat.le_sub_one_of_lt hfits

/-- The prices that a price leads to. -/
def Reaches (p q : Nat) : Prop := q = p ∨ 100 ≤ p ∧ 99 ≤ q

theorem Follows.reaches {p q : Nat} (h : Follows p q) : Reaches p q := by
  have hchange := h.change
  rw [distance] at hchange
  rw [Reaches]
  omega

theorem Reaches.trans {p q r : Nat} (h : Reaches p q) (h' : Reaches q r) : Reaches p r := by
  rw [Reaches] at h h' ⊢
  omega

theorem Reaches.walk {p q : Nat} (h : Reaches p q) (hp : p < 2 ^ 255) (hq : q < 2 ^ 255) :
    Walk Follows (5001 * 498 + 1) p q := by
  rcases h with rfl | ⟨hlow, hge⟩
  · exact .refl
  · have hdown : Walk Follows (5001 * 249) p 100 := (walk_of_le hlow hp).2
    rcases Nat.lt_or_ge q 100 with hlt | hge'
    · obtain rfl : q = 99 := by omega
      have hlast : Follows 100 99 := ⟨by decide, by decide, by decide, by decide⟩
      exact (hdown.trans (.single hlast)).mono (by decide)
    · exact (hdown.trans (walk_of_le hge' hq).1).mono (by decide)

/-! ### Runs -/

variable {s : System} {sender : Address}

/-- Updates that may follow one another are made in the blocks that the window leaves for them. -/
theorem exists_run {n p q : Nat} (h : Walk Follows n p q) :
    ∀ {s : System}, 0 < s.oracle.rwaPrice.toInt → s.oracle.rwaPrice.toNat = p → s.oracle.hasRole .setter sender = true →
      s.oracle.priceTimestamp ≤ s.now → s.now.toNat + n * 82800 < 2 ^ 256 →
      ∃ acts, (Machine.run act s acts).oracle.rwaPrice.toNat = q := by
  induction h with
  | refl => exact fun _ hprice _ _ _ => ⟨[], hprice⟩
  | @step n p u q hfollows _ ih =>
    intro s hpos hprice hrole hpast htime
    have hnext : s.now.toNat + 82800 + n * 82800 < 2 ^ 256 := by omega
    obtain ⟨time, hlater⟩ : ∃ time : Uint256, time.toNat = s.now.toNat + 82800 :=
      exists_word (Nat.lt_of_le_of_lt (Nat.le_add_right ..) hnext)
    have hu := hfollows.pos
    have hfits := hfollows.fits
    obtain ⟨newPrice, hnew⟩ : ∃ newPrice : Int256, newPrice.toNat = u := exists_word (by omega)
    have hint : newPrice.toInt = newPrice.toNat := toInt_of_lt (hnew ▸ hfits)
    have hnewPos : 0 < newPrice.toInt := by omega
    have hpast : s.oracle.priceTimestamp.toNat ≤ s.now.toNat := hpast
    have hblock : act s (.block time) = some { s with now := time } := if_pos (BitVec.le_def.mpr (by omega))
    let o : RWAOracleRateCheck := { s.oracle with
      rwaPrice := newPrice
      priceTimestamp := time
      events := s.oracle.events ++ [.rwaPriceSet s.oracle.rwaPrice newPrice time] }
    have hset : setPrice sender newPrice time s.oracle = .ok o :=
      (setPrice_eq_ok hpos).mpr ⟨hrole, hnewPos, by omega, by rwa [hprice, hnew], rfl⟩
    have hcall : act { s with now := time } (.call sender (.setPrice newPrice)) = some ⟨o, time⟩ :=
      act_call.mpr ⟨o, hset, rfl⟩
    obtain ⟨acts, hacts⟩ := ih (s := ⟨o, time⟩) hnewPos hnew hrole (BitVec.le_refl time) (hlater ▸ hnext)
    refine ⟨.block time :: .call sender (.setPrice newPrice) :: acts, ?_⟩
    rw [Machine.run_cons, hblock, Option.getD_some, Machine.run_cons, hcall, Option.getD_some]
    exact hacts

theorem run_reaches (hpos : 0 < s.oracle.rwaPrice.toInt) (acts : List Action) :
    0 < (Machine.run act s acts).oracle.rwaPrice.toInt ∧
      Reaches s.oracle.rwaPrice.toNat (Machine.run act s acts).oracle.rwaPrice.toNat := by
  refine (Machine.invariant_any (I := fun t : System => 0 < t.oracle.rwaPrice.toInt ∧
    Reaches s.oracle.rwaPrice.toNat t.oracle.rwaPrice.toNat) ⟨hpos, .inl rfl⟩ fun t a u ht hact => ?_).1
  rcases act_inv hact with ⟨sender, newPrice, o, -, ho, rfl⟩ | ⟨-, hprice, -⟩
  · obtain ⟨-, hnew, -, hfollows, rfl⟩ := (setPrice_eq_ok ht.1).mp ho
    exact ⟨hnew, ht.2.trans hfollows.reaches⟩
  · rw [hprice]
    exact ht

/-- The prices that an oracle ever reaches: from 100 on, all prices from 99 up to the largest of the type; below 100, only
    the one it was deployed with. -/
theorem reachable_prices {admin setter : Address} {p₀ : Int256} {t₀ : Uint256} {o : RWAOracleRateCheck}
    (h : deploy admin setter p₀ t₀ = .ok o) (ht₀ : t₀.toNat < 2 ^ 255) (q : Int256) :
    (∃ acts, (Machine.run act ⟨o, t₀⟩ acts).oracle.rwaPrice = q) ↔ q = p₀ ∨ 100 ≤ p₀.toInt ∧ 99 ≤ q.toInt := by
  have hrole : o.hasRole .setter setter = true := by
    simp only [deploy, bind_eq_ok, exists_unit_iff, revertIf_eq_ok, pure_eq_ok] at h
    obtain ⟨-, rfl⟩ := h
    exact (AccessControl.setRole_hasRole ..).trans (if_pos ⟨rfl, rfl⟩)
  obtain ⟨hp₀, rfl, rfl⟩ := deploy_inv h
  obtain ⟨hp, hplt⟩ := toNat_of_pos hp₀
  constructor
  · rintro ⟨acts, rfl⟩
    obtain ⟨hpos, hreaches⟩ := run_reaches (s := ⟨o, o.priceTimestamp⟩) hp₀ acts
    obtain ⟨hq, -⟩ := toNat_of_pos hpos
    refine hreaches.imp BitVec.eq_of_toNat_eq fun hrange => ?_
    have hlow : 100 ≤ o.rwaPrice.toNat := hrange.1
    exact ⟨by omega, by omega⟩
  · intro hq
    have hqpos : 0 < q.toInt := by
      rcases hq with rfl | ⟨-, hge⟩
      · exact hp₀
      · omega
    obtain ⟨hqint, hqlt⟩ := toNat_of_pos hqpos
    have hreaches : Reaches o.rwaPrice.toNat q.toNat := by
      refine hq.imp (congrArg BitVec.toNat) fun hrange => ?_
      have hlow := hrange.1
      exact ⟨by omega, by omega⟩
    have htime : o.priceTimestamp.toNat + (5001 * 498 + 1) * 82800 < 2 ^ 256 := by omega
    obtain ⟨acts, hacts⟩ := exists_run (s := ⟨o, o.priceTimestamp⟩) (hreaches.walk hplt hqlt) hp₀ rfl hrole
      (BitVec.le_refl _) htime
    exact ⟨acts, BitVec.eq_of_toNat_eq hacts⟩

/-- The sample oracle reaches the largest price, and never 98. -/
theorem reachable_prices_sample :
    (∃ acts, (Machine.run act ⟨Sample.oracle, 1000⟩ acts).oracle.rwaPrice = BitVec.intMax 256) ∧
      ¬∃ acts, (Machine.run act ⟨Sample.oracle, 1000⟩ acts).oracle.rwaPrice = 98 := by
  refine ⟨(reachable_prices Sample.oracle_deployed (by decide) _).mpr (.inr ⟨by decide, by decide⟩), fun h => ?_⟩
  rcases (reachable_prices Sample.oracle_deployed (by decide) _).mp h with heq | ⟨-, hge⟩
  · exact absurd heq (by decide)
  · exact absurd hge (by decide)

end RWAOracleRateCheck

end Usdy
