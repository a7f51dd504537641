import Usdy.Theorems.Mints
import Usdy.Theorems.Redemptions
import Usdy.Theorems.Roles

/-! What is left to those who hold no role: to make requests, and to claim what was priced before. While nobody else
    calls the manager, the roles and the configuration stay, and what is minted and settled for a user comes out of the
    records that had a price id at the start. -/

namespace Usdy
open Checked Function State

variable {T : Type} {X : Tokens T} {s t : State T}

/-! ### Claims on the ledgers -/

/-- What can be claimed under a record for the user: nothing until its price id is set. -/
def Depositor.claimable (user : Address) (d : Depositor) : Nat :=
  if d.user = user ∧ d.priceId ≠ 0 then d.amountDepositedMinusFees.toNat else 0

/-- The same for a redemption. -/
def Redeemer.claimable (user : Address) (r : Redeemer) : Nat :=
  if r.user = user ∧ r.priceId ≠ 0 then r.amountRwaTokenBurned.toNat else 0

/-- What a user can claim under all deposits. -/
def claimableDeposits (user : Address) (g : Ledgers) : Nat :=
  Slots.total (Depositor.claimable user) g.depositIdToDepositor

/-- What a user can claim under all redemptions. -/
def claimableRedemptions (user : Address) (g : Ledgers) : Nat :=
  Slots.total (Redeemer.claimable user) g.redemptionIdToRedeemer

/-- What only holders of a role make the manager emit about a deposit or a redemption. -/
def Event.privileged : Event → Bool
  | .subscriptionRequestedServicedOffChain .. | .priceIdSetForDeposit .. | .priceIdSetForRedemption ..
  | .depositorOverwritten .. | .redeemerOverwritten .. | .claimableTimestampSet .. => true
  | _ => false

section Ledgers
variable {m : Uint256} {quote : Uint256 → Option Uint256} {g h : Ledgers} {e : Entry} {l : List Entry}

theorem Depositor.claimable_unpriced {user : Address} {d : Depositor} (hd : d.priceId = 0) : d.claimable user = 0 :=
  if_neg fun h => h.2 hd

theorem Redeemer.claimable_unpriced {user : Address} {r : Redeemer} (hr : r.priceId = 0) : r.claimable user = 0 :=
  if_neg fun h => h.2 hr

/-- A mint is of what can be claimed, and a request adds nothing to it. -/
theorem Posts.claimableDeposits_le (hp : Posts m quote g e h) (he : e.event.privileged = false) (user : Address) :
    e.event.mintedAgainst user + claimableDeposits user h ≤ claimableDeposits user g := by
  unfold claimableDeposits
  cases hp with
  | mintRequested =>
    show 0 + _ ≤ _
    rw [Nat.zero_add]
    exact (Nat.le_add_left ..).trans_eq (Slots.total_clear (Depositor.claimable_unpriced rfl))
  | @mintCompleted time id out price set passed priced =>
    have hzero : Depositor.claimable user 0 = 0 := Depositor.claimable_unpriced rfl
    have hclear := Slots.total_clear (f := g.depositIdToDepositor) (i := id) hzero
    rw [Depositor.claimable] at hclear
    simp only [priced, ne_eq, not_false_iff, and_true] at hclear
    exact hclear.le
  | redemptionRequested | redemptionRequestedServicedOffChain | redemptionCompleted => exact Nat.le_of_eq (Nat.zero_add _)
  | other h => rw [(Event.deposits_of_posted user h).1, Nat.zero_add]
  | _ => cases he

theorem Posts.claimableRedemptions_le (hp : Posts m quote g e h) (he : e.event.privileged = false) (user : Address) :
    e.event.settledFor user + claimableRedemptions user h ≤ claimableRedemptions user g := by
  unfold claimableRedemptions
  cases hp with
  | redemptionRequested =>
    show 0 + _ ≤ _
    rw [Nat.zero_add]
    exact (Nat.le_add_left ..).trans_eq (Slots.total_clear (Redeemer.claimable_unpriced rfl))
  | @redemptionCompleted time id paid price priced =>
    have hzero : Redeemer.claimable user 0 = 0 := Redeemer.claimable_unpriced rfl
    have hclear := Slots.total_clear (f := g.redemptionIdToRedeemer) (i := id) hzero
    rw [Redeemer.claimable] at hclear
    simp only [priced, ne_eq, not_false_iff, and_true] at hclear
    exact hclear.le
  | mintRequested | mintCompleted | redemptionRequestedServicedOffChain => exact Nat.le_of_eq (Nat.zero_add _)
  | other h => rw [(Event.redemptions_of_posted user h).2, Nat.zero_add]
  | _ => cases he

/-- Mints clear timestamps; only the holders of a role set them. -/
theorem Posts.timestamp_kept (hp : Posts m quote g e h) (he : e.event.privileged = false) (id : Bytes32)
    (hset : h.depositIdToClaimableTimestamp id ≠ 0) :
    h.depositIdToClaimableTimestamp id = g.depositIdToClaimableTimestamp id := by
  cases hp with
  | @mintCompleted time id' =>
    by_cases hid : id = id'
    · subst hid
      exact absurd (update_self ..) hset
    · exact update_of_ne hid ..
  | _ => first | rfl | cases he

/-- What entries that no holder of a role makes leave of what can be claimed. -/
structure Draws (g : Ledgers) (l : List Entry) (h : Ledgers) : Prop where
  deposits : ∀ user, minted user l + claimableDeposits user h ≤ claimableDeposits user g
  redemptions : ∀ user, settledRedemptions user l + claimableRedemptions user h ≤ claimableRedemptions user g
  timestamps : ∀ id, h.depositIdToClaimableTimestamp id ≠ 0 →
    h.depositIdToClaimableTimestamp id = g.depositIdToClaimableTimestamp id

theorem draws (hl : Trail (fun g e h => Posting m g e h ∧ e.event.privileged = false) g l h) : Draws g l h := by
  refine hl.invariant (I := Draws g)
    ⟨fun _ => Nat.le_of_eq (Nat.zero_add _), fun _ => Nat.le_of_eq (Nat.zero_add _), fun _ _ => rfl⟩
    fun l h e k _ ih hstep => ?_
  obtain ⟨⟨quote, hp⟩, he⟩ := hstep
  refine ⟨fun user => ?_, fun user => ?_, fun id hset => ?_⟩
  · have := ih.deposits user
    have := hp.claimableDeposits_le he user
    simp only [minted, List.map_append, List.sum_append, List.map_cons, List.map_nil, List.sum_singleton] at *
    omega
  · have := ih.redemptions user
    have := hp.claimableRedemptions_le he user
    simp only [settledRedemptions, List.map_append, List.sum_append, List.map_cons, List.map_nil,
      List.sum_singleton] at *
    omega
  · have hkept := hp.timestamp_kept he id hset
    exact hkept.trans (ih.timestamps id (hkept ▸ hset))

end Ledgers

/-! ### Calls without a role -/

/-- No call of a holder of a role. -/
def outsiders : Rules T where
  call s sender _ := ∀ role, s.hasRole role sender.address = false

section Calls
variable {caller : Address} {call : Call}

theorem demanded_none (hroles : ∀ role, s.hasRole role caller = false) (h : exec X caller call s = .ok t) :
    call.demanded s.toAccessControl = none := by
  cases hdemanded : call.demanded s.toAccessControl with
  | none => rfl
  | some role =>
    have hrole := exec_hasRole h hdemanded
    rw [hroles role] at hrole
    cases hrole

theorem Call.Emits.unprivileged {e : Event} (he : call.Emits caller e)
    (hdemanded : call.demanded s.toAccessControl = none) : e.privileged = false := by
  cases call with
  | requestSubscription | requestRedemption | requestRedemptionServicedOffchain | claimMint | claimRedemption =>
    cases e <;> first | rfl | cases he
  | renounceRole role account => cases he; rfl
  | _ => cases hdemanded

/-- A caller without a role posts unprivileged entries, and leaves roles and configuration alone. -/
theorem exec_outsider (hc : caller ≠ 0) (hroles : ∀ role, s.hasRole role caller = false)
    (h : exec X caller call s = .ok t) :
    t.toAccessControl = s.toAccessControl ∧ t.toConfig = s.toConfig ∧ ∃ new, t.events = s.events ++ new ∧
      Trail (fun g e h => Posting s.decimalsMultiplier g e h ∧ e.event.privileged = false) s.toLedgers new
        t.toLedgers := by
  have hdemanded := demanded_none hroles h
  refine ⟨?_, ?_, ?_⟩
  · rw [exec_roles hc h]
    cases call with
    | renounceRole role account =>
      obtain ⟨rfl, -⟩ := renounceRole_inv h
      exact AccessControl.setRole_of_eq (hroles role)
    | _ => first | rfl | cases hdemanded
  · rcases exec_config hc h with ⟨a, rfl⟩ | hconfig
    · cases hdemanded
    · exact hconfig
  · obtain ⟨new, moved, hb, hemits⟩ := exec_booked hc h
    exact ⟨new, hb.events, hb.posts.mono fun g e h hmem hp => ⟨⟨_, hp⟩, (hemits e hmem).unprivileged hdemanded⟩⟩

end Calls

/-- While only accounts without a role call the manager, in any order and at any time, and whatever the other
    contracts answer: roles and configuration stay, no claimable timestamp is set or moved, though one can be cleared, and
    what is minted or settled for a user comes out of the records that had a price id at the start, each unit of them
    at most once. -/
theorem outsiders_draw_priced {acts : List (Action T)} (h : Run X outsiders s acts t) :
    t.toAccessControl = s.toAccessControl ∧ t.toConfig = s.toConfig ∧
      (∀ id, t.depositIdToClaimableTimestamp id ≠ 0 →
        t.depositIdToClaimableTimestamp id = s.depositIdToClaimableTimestamp id) ∧
      ∃ new, t.events = s.events ++ new ∧ ∀ user,
        minted user new + claimableDeposits user t.toLedgers ≤ claimableDeposits user s.toLedgers ∧
          settledRedemptions user new + claimableRedemptions user t.toLedgers ≤
            claimableRedemptions user s.toLedgers := by
  have hrun : t.toAccessControl = s.toAccessControl ∧ t.toConfig = s.toConfig ∧ ∃ new, t.events = s.events ++ new ∧
      Trail (fun g e h => Posting s.decimalsMultiplier g e h ∧ e.event.privileged = false) s.toLedgers new
        t.toLedgers := by
    refine h.invariant (I := fun t => t.toAccessControl = s.toAccessControl ∧ t.toConfig = s.toConfig ∧
      ∃ new, t.events = s.events ++ new ∧
        Trail (fun g e h => Posting s.decimalsMultiplier g e h ∧ e.event.privileged = false) s.toLedgers new
          t.toLedgers) ⟨rfl, rfl, [], (List.append_nil _).symm, .nil _⟩ (fun u v sender call ih hrule hexec => ?_)
      (fun _ _ ih _ => ih) fun _ _ _ ih _ => ih
    obtain ⟨hroles, hconfig, new, hnew, htrail⟩ := ih
    obtain ⟨hroles', hconfig', new', hnew', htrail'⟩ := exec_outsider sender.ne_zero hrule hexec
    rw [show u.decimalsMultiplier = s.decimalsMultiplier from congrArg Config.decimalsMultiplier hconfig] at htrail'
    exact ⟨hroles'.trans hroles, hconfig'.trans hconfig, new ++ new', by rw [hnew', hnew, List.append_assoc],
      htrail.append htrail'⟩
  obtain ⟨hroles, hconfig, new, hnew, htrail⟩ := hrun
  have hdraws := draws htrail
  exact ⟨hroles, hconfig, hdraws.timestamps, new, hnew, fun user => ⟨hdraws.deposits user, hdraws.redemptions user⟩⟩

namespace Sample

/-- Two deposits that are priced and due. -/
def due : State (Address → Nat) := run tokens state (history.take 10)

/-- Bob claims both, asks for another one, and tries to claim again. -/
def claims : List (Action (Address → Nat)) :=
  [.call bob (.claimMint [5, 1]), .call bob (.requestSubscription 500), .call bob (.claimMint [5])]

theorem claims_allowed : outsiders.AllowsAll tokens due claims :=
  ⟨fun role => by cases role <;> rfl, fun role => by cases role <;> rfl, fun role => by cases role <;> rfl, trivial⟩

end Sample

theorem outsiders_draw_priced_claims :
    let t := run Sample.tokens Sample.due Sample.claims
    claimableDeposits 0xa t.toLedgers ≤ claimableDeposits 0xa Sample.due.toLedgers ∧
      minted 0xa (t.events.drop Sample.due.events.length) = 990 := by
  intro t
  obtain ⟨-, -, -, new, -, hdraws⟩ := outsiders_draw_priced (run_path Sample.claims_allowed)
  exact ⟨Nat.le_trans (Nat.le_add_left _ _) (hdraws 0xa).1, by decide +kernel⟩

end Usdy
