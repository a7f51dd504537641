import Usdy.Theorems.Redemptions

/-! Price ids of redemptions. Those of deposits are only set where a deposit is recorded; those of
    redemptions may be set anywhere. Where they are set for recorded redemptions only, a record that has a
    price id belongs to a user, and a request never finds a price id in the slot that it takes. -/

namespace Usdy
open Checked Function

variable {T : Type} {X : Tokens T} {s t : State T}

/-- Every redemption entry with a price id is that of a recorded redemption. -/
def PricesRecorded (g : Ledgers) : Prop :=
  ∀ d, (g.redemptionIdToRedeemer d).priceId ≠ 0 → (g.redemptionIdToRedeemer d).user ≠ 0

/-- Price ids are set for recorded redemptions, and no redemption is overwritten. -/
def pricesRecorded : Rules T where
  call s _ call :=
    match call with
    | .overwriteRedeemer .. => False
    | .setPriceIdForRedemptions redemptionIds priceIds =>
      ∀ x ∈ redemptionIds.zip priceIds, x.2 ≠ 0 → (s.redemptionIdToRedeemer x.1).user ≠ 0
    | _ => True

/-! ### Setting price ids -/

/-- What the loop of `setPriceIdForRedemptions` leaves of a record: its user, and a price id where there
    was one or the list sets one. -/
theorem setPriceIdForRedemptions_record {d : Bytes32} : ∀ {entries : List (Bytes32 × Uint256)} {s : State T},
    entries.foldlM RWAHub.setPriceIdForRedemption s = .ok t →
      (t.redemptionIdToRedeemer d).user = (s.redemptionIdToRedeemer d).user ∧
      ((t.redemptionIdToRedeemer d).priceId ≠ 0 ↔
        (s.redemptionIdToRedeemer d).priceId ≠ 0 ∨ ∃ x ∈ entries, x.1 = d ∧ x.2 ≠ 0)
  | [], s, h => by
    rw [List.foldlM_nil, pure_eq_ok] at h
    subst h
    exact ⟨rfl, by simp⟩
  | (id, priceId) :: entries, s, h => by
    rw [List.foldlM_cons, bind_eq_ok] at h
    obtain ⟨u, hu, h⟩ := h
    obtain ⟨hunset, rfl⟩ := RWAHub.setPriceIdForRedemption_eq_ok.mp hu
    obtain ⟨huser, hprice⟩ := setPriceIdForRedemptions_record (d := d) h
    rw [huser, hprice]
    by_cases hd : d = id
    · subst hd
      simp only [update_self, List.mem_cons, exists_eq_or_imp, hunset, ne_eq, not_true_eq_false, false_or, true_and,
        and_self]
    · have hd' : id ≠ d := Ne.symm hd
      simp only [update_of_ne hd, List.mem_cons, exists_eq_or_imp, hd', false_and, false_or, true_and]

theorem setPriceIdForRedemptions_prices {caller : Address} {redemptionIds : List Bytes32} {priceIds : List Uint256}
    (h : exec X caller (.setPriceIdForRedemptions redemptionIds priceIds) s = .ok t)
    (hs : PricesRecorded s.toLedgers) :
    PricesRecorded t.toLedgers ↔
      ∀ x ∈ redemptionIds.zip priceIds, x.2 ≠ 0 → (s.redemptionIdToRedeemer x.1).user ≠ 0 := by
  obtain ⟨-, -, h⟩ := RWAHub.setPriceIdForRedemptions_inv h
  constructor
  · intro ht x hx hne
    obtain ⟨huser, hprice⟩ := setPriceIdForRedemptions_record (d := x.1) h
    exact huser ▸ ht x.1 (hprice.mpr (.inr ⟨x, hx, rfl, hne⟩))
  · intro hrecorded d hd
    obtain ⟨huser, hprice⟩ := setPriceIdForRedemptions_record (d := d) h
    rw [huser]
    rcases hprice.mp hd with hd | ⟨x, hx, rfl, hne⟩
    · exact hs d hd
    · exact hrecorded x hx hne

/-! ### Every other call -/

theorem RedemptionStep.priceRecorded {d : Bytes32} {r r' : Redeemer} {e : Event} (h : RedemptionStep d r e r')
    (hkeeps : e.KeepsRedeemers) (hset : ∀ priceId, e ≠ .priceIdSetForRedemption d priceId)
    (hr : r.priceId ≠ 0 → r.user ≠ 0) : r'.priceId ≠ 0 → r'.user ≠ 0 := by
  cases h with
  | requested known => exact fun _ => known
  | settled => exact fun h => absurd rfl h
  | priced => exact absurd rfl (hset _)
  | overwritten => exact absurd rfl (hkeeps _ _ _ _ _ _ _)
  | kept => exact hr

theorem Call.Emits.priceIdSetForRedemption {caller : Address} {call : Call} {d : Bytes32} {priceId : Uint256}
    (h : call.Emits caller (.priceIdSetForRedemption d priceId)) :
    ∃ redemptionIds priceIds, call = .setPriceIdForRedemptions redemptionIds priceIds := by
  cases call <;> simp_all [Call.Emits, Event.posted]

/-- Only an overwrite or a price id puts a price id where no user is. -/
theorem exec_pricesRecorded {sender : Sender} {call : Call} (h : exec X sender.address call s = .ok t)
    (hrule : (pricesRecorded (T := T)).call s sender call) (hs : PricesRecorded s.toLedgers) :
    PricesRecorded t.toLedgers := by
  by_cases hcall : ∃ redemptionIds priceIds, call = .setPriceIdForRedemptions redemptionIds priceIds
  · obtain ⟨redemptionIds, priceIds, rfl⟩ := hcall
    exact (setPriceIdForRedemptions_prices h hs).mpr hrule
  · obtain ⟨new, moved, hb, hemits⟩ := exec_booked sender.ne_zero h
    have hposts : Trail (fun g e h => Posts s.decimalsMultiplier (s.views.getPrice s.pricer) g e h ∧
        call.Emits sender.address e.event) s.toLedgers new t.toLedgers :=
      hb.posts.mono fun g e h he hp => ⟨hp, hemits e he⟩
    refine hposts.preserves hs fun g e g' hg hstep d => ?_
    obtain ⟨hp, hemit⟩ := hstep
    refine (hp.redemptionStep d).priceRecorded ?_ ?_ (hg d)
    · intro _ _ _ _ _ _ _ heq
      rw [heq] at hemit
      rw [hemit.redeemerOverwritten] at hrule
      exact hrule
    · intro _ heq
      rw [heq] at hemit
      exact hcall hemit.priceIdSetForRedemption

/-! ### Runs -/

theorem Reachable.pricesRecorded (h : Reachable X pricesRecorded s) : PricesRecorded s.toLedgers := by
  refine h.invariant (I := fun s => PricesRecorded s.toLedgers) (fun s hs d hd => ?_)
    (fun s t sender call _ ih hrule hexec => exec_pricesRecorded hexec hrule ih) (fun _ _ ih _ => ih) fun _ _ _ ih _ => ih
  rw [hs.fresh.ledgers] at hd
  exact absurd rfl hd

/-- The slot that the next redemption takes was never requested, so no user is recorded in it. -/
theorem Reachable.counter_unrecorded (h : Reachable X noOverwriteRedeemer s) :
    (s.redemptionIdToRedeemer s.redemptionRequestCounter).user = 0 := by
  have hlt := (redemptionIds_nodup (h.redemption_posts.mono fun _ _ _ _ hstep => hstep.1)).2
  have hpath : Trail (Unrequested s.redemptionRequestCounter) 0 s.events
      (s.redemptionIdToRedeemer s.redemptionRequestCounter) :=
    (h.redemption s.redemptionRequestCounter).mono fun _ e _ he hs => ⟨hs, fun hid =>
      absurd (hlt _ (List.mem_filterMap.mpr ⟨e, he, hid⟩)) (Nat.lt_irrefl _)⟩
  exact (stays_empty hpath rfl rfl).1

/-- In a run that sets price ids for recorded redemptions only, a redemption entry with a price id has a
    user, and the slot of the next redemption has no price id. From there a list of price ids keeps it so
    exactly when it sets them for recorded redemptions. -/
theorem price_recorded (h : Reachable X pricesRecorded s) :
    (∀ d, (s.redemptionIdToRedeemer d).priceId ≠ 0 → (s.redemptionIdToRedeemer d).user ≠ 0) ∧
      (s.redemptionIdToRedeemer s.redemptionRequestCounter).priceId = 0 ∧
      ∀ (sender : Sender) (redemptionIds : List Bytes32) (priceIds : List Uint256) (t : State T),
        exec X sender.address (.setPriceIdForRedemptions redemptionIds priceIds) s = .ok t →
          ((∀ d, (t.redemptionIdToRedeemer d).priceId ≠ 0 → (t.redemptionIdToRedeemer d).user ≠ 0) ↔
            ∀ x ∈ redemptionIds.zip priceIds, x.2 ≠ 0 → (s.redemptionIdToRedeemer x.1).user ≠ 0) := by
  have hrecorded := h.pricesRecorded
  have huser : (s.redemptionIdToRedeemer s.redemptionRequestCounter).user = 0 := by
    refine (h.mono (fun s sender call hcall => ?_) fun _ _ _ _ => trivial).counter_unrecorded
    cases call with
    | overwriteRedeemer => exact hcall
    | _ => trivial
  exact ⟨hrecorded, by_contra fun hne => hrecorded _ hne huser,
    fun _ _ _ _ hexec => setPriceIdForRedemptions_prices hexec hrecorded⟩

theorem price_recorded_history :
    let s := run Sample.tokens Sample.state (Sample.history.take 14)
    (∀ d, (s.redemptionIdToRedeemer d).priceId ≠ 0 → (s.redemptionIdToRedeemer d).user ≠ 0) ∧
      (s.redemptionIdToRedeemer s.redemptionRequestCounter).priceId = 0 ∧
      ∀ (sender : Sender) (redemptionIds : List Bytes32) (priceIds : List Uint256) (t : State (Address → Nat)),
        exec Sample.tokens sender.address (.setPriceIdForRedemptions redemptionIds priceIds) s = .ok t →
          ((∀ d, (t.redemptionIdToRedeemer d).priceId ≠ 0 → (t.redemptionIdToRedeemer d).user ≠ 0) ↔
            ∀ x ∈ redemptionIds.zip priceIds, x.2 ≠ 0 → (s.redemptionIdToRedeemer x.1).user ≠ 0) := by
  have hrun : pricesRecorded.AllowsAll Sample.tokens Sample.state (Sample.history.take 14) := by
    refine ⟨trivial, trivial, trivial, trivial, trivial, trivial, trivial, trivial, trivial, ?_, trivial, trivial,
      trivial, ?_, trivial⟩
    · unfold Rules.Allows
      decide +kernel
    · rintro x hx -
      obtain rfl : x = (1, 1) := List.mem_singleton.mp hx
      decide +kernel
  exact price_recorded ((Reachable.of_deployed Sample.state_deployed).run (run_path hrun))

/-- A price id can be set for a redemption that nobody requested. -/
theorem price_unrecorded :
    ¬∀ s : State (Address → Nat), Reachable Sample.tokens noOverwriteRedeemer s →
      ∀ d, (s.redemptionIdToRedeemer d).priceId ≠ 0 → (s.redemptionIdToRedeemer d).user ≠ 0 := by
  intro h
  let acts : List (Action (Address → Nat)) :=
    [.call Sample.admin (.grantRole .priceIdSetter Sample.admin.address),
     .call Sample.admin (.setPriceIdForRedemptions [1] [7])]
  have hrun : noOverwriteRedeemer.AllowsAll Sample.tokens Sample.state acts := ⟨trivial, trivial, trivial⟩
  have huser := h (run Sample.tokens Sample.state acts)
    ((Reachable.of_deployed Sample.state_deployed).run (run_path hrun)) 1 (by decide +kernel)
  revert huser
  decide +kernel

end Usdy
