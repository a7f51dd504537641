import Usdy.Lib.Slots
import Usdy.Pricer
import Usdy.Theorems.Log

/-! The life of a redemption. Its id comes from a counter that both kinds of requests share, so it is
    recorded once, and it stays recorded until a claim settles it; what is settled afterwards under the
    same id is an empty record. -/

namespace Usdy
open Function

variable {T : Type} {X : Tokens T} {rules : Rules T} {s t : State T}

/-- What an entry about redemption `d` does to its record; every other entry keeps it. -/
inductive RedemptionStep (d : Bytes32) : Redeemer → Event → Redeemer → Prop
  | requested {r : Redeemer} {user : Address} {amount : Uint256} (known : user ≠ 0) :
      RedemptionStep d r (.redemptionRequested user d amount) ⟨user, amount, 0⟩
  | settled {r : Redeemer} {paid price : Uint256} (priced : r.priceId ≠ 0)
      (nothing : r.amountRwaTokenBurned = 0 → paid = 0) :
      RedemptionStep d r (.redemptionCompleted r.user d r.amountRwaTokenBurned paid price) 0
  | priced {r : Redeemer} {priceId : Uint256} (unset : r.priceId = 0) :
      RedemptionStep d r (.priceIdSetForRedemption d priceId) { r with priceId }
  | overwritten {r : Redeemer} {user : Address} {amount priceId : Uint256} :
      RedemptionStep d r (.redeemerOverwritten d r.user user r.priceId priceId r.amountRwaTokenBurned amount)
        ⟨user, amount, priceId⟩
  | kept {r : Redeemer} {e : Event} (other : e.redeemerId ≠ some d) : RedemptionStep d r e r

theorem RedemptionStep.update {f : Bytes32 → Redeemer} {id d : Bytes32} {e : Event} {r : Redeemer}
    (he : e.redeemerId = some id) (h : RedemptionStep id (f id) e r) : RedemptionStep d (f d) e (update f id r d) :=
  Slots.step_update .kept he h

theorem Posts.redemptionStep {m : Uint256} {quote : Uint256 → Option Uint256} {g h : Ledgers} {e : Entry}
    (hp : Posts m quote g e h) (d : Bytes32) :
    RedemptionStep d (g.redemptionIdToRedeemer d) e.event (h.redemptionIdToRedeemer d) := by
  cases hp with
  | redemptionRequested known next => exact .update rfl (.requested known)
  | redemptionCompleted priced quoted due =>
    refine .update rfl (.settled priced fun h0 => ?_)
    simp only [h0, show (0 : Uint256).toNat = 0 from rfl, Nat.zero_mul, Nat.zero_div] at due
    exact BitVec.eq_of_toNat_eq (Nat.le_zero.mp due)
  | priceIdSetForRedemption unset => exact .update rfl (.priced unset)
  | redeemerOverwritten => exact .update rfl .overwritten
  | other h =>
    refine .kept fun hd => ?_
    cases hevent : e.event <;> rw [hevent] at h hd <;> simp_all [Event.posted, Event.redeemerId]
  | _ => exact .kept (by simp [Event.redeemerId])

/-! ### Runs without overwritten redemptions -/

theorem Call.Emits.redeemerOverwritten {caller old user : Address} {call : Call} {d : Bytes32}
    {oldPriceId priceId oldAmount amount : Uint256}
    (h : call.Emits caller (.redeemerOverwritten d old user oldPriceId priceId oldAmount amount)) :
    call = .overwriteRedeemer d user amount priceId := by
  cases call <;> simp_all [Call.Emits, Event.posted]

/-- The event is no overwrite of a redemption. -/
def Event.KeepsRedeemers (e : Event) : Prop :=
  ∀ d old user oldPriceId priceId oldAmount amount,
    e ≠ .redeemerOverwritten d old user oldPriceId priceId oldAmount amount

theorem Reachable.redemption_posts (h : Reachable X noOverwriteRedeemer s) :
    Trail (fun g e h => Posting s.decimalsMultiplier g e h ∧ e.event.KeepsRedeemers) .empty s.events s.toLedgers := by
  refine h.posts (fun e he => ?_) ?_
  · rintro _ _ _ _ _ _ _ rfl
    cases he
  · rintro s sender call e hrule hemits d _ _ _ _ _ _ rfl
    rw [hemits.redeemerOverwritten] at hrule
    exact hrule.elim

theorem Reachable.redemption (h : Reachable X noOverwriteRedeemer s) (d : Bytes32) :
    Trail (fun r e r' => RedemptionStep d r e.event r' ∧ e.event.KeepsRedeemers) 0 s.events
      (s.redemptionIdToRedeemer d) := by
  refine h.redemption_posts.map (f := fun g => g.redemptionIdToRedeemer d) fun g e g' hstep => ?_
  obtain ⟨⟨quote, hp⟩, hkeeps⟩ := hstep
  exact ⟨hp.redemptionStep d, hkeeps⟩

/-! ### Ids -/

/-- The ids that redemption requests of both kinds took. -/
def redemptionIds (log : List Entry) : List Bytes32 := log.filterMap (·.event.redemptionId)

/-- A request takes the value of the counter and moves it on; every other entry keeps it. -/
theorem Posts.redemptionId_inv {m : Uint256} {quote : Uint256 → Option Uint256} {g h : Ledgers} {e : Entry}
    (hp : Posts m quote g e h) :
    (e.event.redemptionId = some g.redemptionRequestCounter ∧
      h.redemptionRequestCounter.toNat = g.redemptionRequestCounter.toNat + 1) ∨
    (e.event.redemptionId = none ∧ h.redemptionRequestCounter = g.redemptionRequestCounter) := by
  cases hp with
  | redemptionRequested known next => exact .inl ⟨rfl, next⟩
  | redemptionRequestedServicedOffChain next => exact .inl ⟨rfl, next⟩
  | other h =>
    refine .inr ⟨?_, rfl⟩
    cases hevent : e.event <;> rw [hevent] at h <;> simp_all [Event.posted, Event.redemptionId]
  | _ => exact .inr ⟨rfl, rfl⟩

/-- The ids taken so far differ, and are below the counter. -/
theorem redemptionIds_nodup {m : Uint256} {g : Ledgers} {log : List Entry} (h : Trail (Posting m) .empty log g) :
    (redemptionIds log).Nodup ∧ ∀ d ∈ redemptionIds log, d.toNat < g.redemptionRequestCounter.toNat := by
  refine h.invariant (I := fun log g =>
    (redemptionIds log).Nodup ∧ ∀ d ∈ redemptionIds log, d.toNat < g.redemptionRequestCounter.toNat)
    ⟨List.nodup_nil, by simp [redemptionIds]⟩ fun log g e g' _ ih hp => ?_
  obtain ⟨hnodup, hlt⟩ := ih
  obtain ⟨quote, hp⟩ := hp
  rcases hp.redemptionId_inv with ⟨hid, hnext⟩ | ⟨hid, hnext⟩
  · have hids : redemptionIds (log ++ [e]) = redemptionIds log ++ [g.redemptionRequestCounter] := by
      simp [redemptionIds, hid]
    rw [hids]
    refine ⟨List.nodup_append.mpr ⟨hnodup, List.nodup_singleton _, ?_⟩, fun d hd => ?_⟩
    · rintro d hd _ hd' rfl
      have := hlt d hd
      rw [List.mem_singleton.mp hd'] at this
      exact absurd this (Nat.lt_irrefl _)
    · rcases List.mem_append.mp hd with hd | hd
      · have := hlt d hd
        omega
      · rw [List.mem_singleton.mp hd]
        omega
  · have hids : redemptionIds (log ++ [e]) = redemptionIds log := by simp [redemptionIds, hid]
    rw [hids, hnext]
    exact ⟨hnodup, hlt⟩

/-- A log in which one entry takes an id has no other entry that takes it. -/
theorem not_taken {l₁ l₂ : List Entry} {c : Entry} {d : Bytes32} (h : (redemptionIds (l₁ ++ c :: l₂)).Nodup)
    (hc : c.event.redemptionId = some d) : ∀ e ∈ l₁ ++ l₂, e.event.redemptionId ≠ some d := by
  have hids : redemptionIds (l₁ ++ c :: l₂) = redemptionIds l₁ ++ d :: redemptionIds l₂ := by
    simp [redemptionIds, hc]
  rw [hids, List.nodup_middle, List.nodup_cons] at h
  intro e he hd
  refine h.1 ?_
  have hmem : d ∈ redemptionIds (l₁ ++ l₂) := List.mem_filterMap.mpr ⟨e, he, hd⟩
  rwa [redemptionIds, List.filterMap_append] at hmem

/-! ### Settlements -/

/-- The record of a redemption in a run, without the entries that request it. -/
abbrev Unrequested (d : Bytes32) (r : Redeemer) (e : Entry) (r' : Redeemer) : Prop :=
  (RedemptionStep d r e.event r' ∧ e.event.KeepsRedeemers) ∧ e.event.redemptionId ≠ some d

/-- An empty record stays empty until it is requested, and what is settled meanwhile is nothing. -/
theorem stays_empty {d : Bytes32} {r₀ r : Redeemer} {l : List Entry} (h : Trail (Unrequested d) r₀ l r)
    (huser : r₀.user = 0) (hburned : r₀.amountRwaTokenBurned = 0) :
    r.user = 0 ∧ r.amountRwaTokenBurned = 0 ∧ ∀ e ∈ l, e.event.Settles d → e.event.SettlesNothing := by
  refine h.invariant (I := fun l r =>
    r.user = 0 ∧ r.amountRwaTokenBurned = 0 ∧ ∀ e ∈ l, e.event.Settles d → e.event.SettlesNothing)
    ⟨huser, hburned, by simp⟩ fun l r e r' _ ih hstep => ?_
  obtain ⟨huser, hburned, hnothing⟩ := ih
  obtain ⟨⟨hs, hkeeps⟩, hnot⟩ := hstep
  have hmem : (e.event.Settles d → e.event.SettlesNothing) →
      ∀ x ∈ l ++ [e], x.event.Settles d → x.event.SettlesNothing := fun he x hx => by
    rcases List.mem_append.mp hx with hx | hx
    · exact hnothing x hx
    · exact List.mem_singleton.mp hx ▸ he
  generalize e.event = event at *
  cases hs with
  | requested => exact absurd rfl hnot
  | settled priced nothing => exact ⟨rfl, rfl, hmem fun _ => ⟨huser, hburned, nothing hburned⟩⟩
  | priced => exact ⟨huser, hburned, hmem nofun⟩
  | overwritten => exact absurd rfl (hkeeps _ _ _ _ _ _ _)
  | kept other =>
    refine ⟨huser, hburned, hmem fun h => ?_⟩
    obtain ⟨_, _, _, _, rfl⟩ := h.eq
    exact absurd rfl other

/-- What became of a redemption after the entries `l` that follow its request: it is pending as it was
    requested, or it was settled once, and what is settled under its id since is nothing. -/
inductive Life (d : Bytes32) (user : Address) (amount : Uint256) : List Entry → Redeemer → Prop
  | pending {l : List Entry} {r : Redeemer} (unsettled : ∀ e ∈ l, ¬e.event.Settles d) (user_eq : r.user = user)
      (burned_eq : r.amountRwaTokenBurned = amount) : Life d user amount l r
  | settled {l₁ l₂ : List Entry} {r : Redeemer} {time paid price : Uint256}
      (unsettled : ∀ e ∈ l₁, ¬e.event.Settles d)
      (nothing : ∀ e ∈ l₂, e.event.Settles d → e.event.SettlesNothing) (user_eq : r.user = 0)
      (burned_eq : r.amountRwaTokenBurned = 0) :
      Life d user amount (l₁ ++ ⟨time, .redemptionCompleted user d amount paid price⟩ :: l₂) r

theorem Life.of_path {d : Bytes32} {user : Address} {amount : Uint256} {r : Redeemer} {l : List Entry}
    (h : Trail (Unrequested d) ⟨user, amount, 0⟩ l r) : Life d user amount l r := by
  refine h.invariant (I := Life d user amount) (.pending (by simp) rfl rfl) fun l r e r' _ ih hstep => ?_
  cases ih with
  | pending unsettled user_eq burned_eq =>
    obtain ⟨⟨hs, hkeeps⟩, hnot⟩ := hstep
    have hkept : ¬e.event.Settles d → ∀ x ∈ l ++ [e], ¬x.event.Settles d := fun he x hx => by
      rcases List.mem_append.mp hx with hx | hx
      · exact unsettled x hx
      · exact List.mem_singleton.mp hx ▸ he
    obtain ⟨time, event⟩ := e
    cases hs with
    | requested => exact absurd rfl hnot
    | settled priced nothing =>
      subst user_eq burned_eq
      exact .settled unsettled (by simp) rfl rfl
    | priced => exact .pending (hkept nofun) user_eq burned_eq
    | overwritten => exact absurd rfl (hkeeps _ _ _ _ _ _ _)
    | kept other =>
      refine .pending (hkept fun h => ?_) user_eq burned_eq
      obtain ⟨_, _, _, _, rfl⟩ := h.eq
      exact absurd rfl other
  | @settled l₁ l₂ _ time paid price unsettled nothing user_eq burned_eq =>
    obtain ⟨huser, hburned, hnothing⟩ := stays_empty (.single hstep) user_eq burned_eq
    rw [List.append_assoc, List.cons_append]
    refine .settled unsettled (fun x hx => ?_) huser hburned
    rcases List.mem_append.mp hx with hx | hx
    · exact nothing x hx
    · exact hnothing x hx

/-! ### Sums for a user -/

/-- What a log burns of a user on request. -/
def requestedRedemptions (user : Address) (log : List Entry) : Nat := (log.map fun e => e.event.requestedBy user).sum

/-- What a log settles for a user. -/
def settledRedemptions (user : Address) (log : List Entry) : Nat := (log.map fun e => e.event.settledFor user).sum

/-- What a record still owes a user. -/
def Redeemer.owes (user : Address) (r : Redeemer) : Nat := if r.user = user then r.amountRwaTokenBurned.toNat else 0

/-- The redemptions of a user that are not settled yet. -/
def pendingRedemptions (user : Address) (g : Ledgers) : Nat :=
  Slots.total (Redeemer.owes user) g.redemptionIdToRedeemer

theorem Redeemer.owes_of_burned {r : Redeemer} (h : r.amountRwaTokenBurned = 0) (user : Address) :
    Redeemer.owes user r = 0 := by
  unfold Redeemer.owes
  rw [h]
  split <;> rfl

/-- From the counter on, no redemption is recorded. -/
theorem unrecorded {m : Uint256} {g : Ledgers} {log : List Entry}
    (h : Trail (fun g e h => Posting m g e h ∧ e.event.KeepsRedeemers) .empty log g) :
    ∀ d, g.redemptionRequestCounter.toNat ≤ d.toNat → (g.redemptionIdToRedeemer d).amountRwaTokenBurned = 0 := by
  refine h.preserves (I := fun g => ∀ d : Bytes32, g.redemptionRequestCounter.toNat ≤ d.toNat →
    (g.redemptionIdToRedeemer d).amountRwaTokenBurned = 0) (fun _ _ => rfl) fun g e g' ih hstep d hd => ?_
  obtain ⟨⟨quote, hp⟩, hkeeps⟩ := hstep
  have hid := hp.redemptionId_inv
  have hold : (g.redemptionIdToRedeemer d).amountRwaTokenBurned = 0 := ih d <| by
    rcases hid with ⟨-, hnext⟩ | ⟨-, hnext⟩
    · omega
    · rwa [← hnext]
  have hs := hp.redemptionStep d
  generalize g.redemptionIdToRedeemer d = r at hs hold
  generalize g'.redemptionIdToRedeemer d = r' at hs ⊢
  generalize e.event = event at *
  cases hs with
  | requested =>
    rcases hid with ⟨hid, hnext⟩ | ⟨hid, -⟩
    · obtain rfl := Option.some.inj hid
      omega
    · cases hid
  | settled => rfl
  | priced => exact hold
  | overwritten => exact absurd rfl (hkeeps _ _ _ _ _ _ _)
  | kept => exact hold

theorem Event.redemptions_of_posted (user : Address) {e : Event} (h : e.posted = false) :
    e.requestedBy user = 0 ∧ e.settledFor user = 0 := by
  cases e <;> simp_all [Event.posted, Event.requestedBy, Event.settledFor]

/-- A posting moves what a user is owed from a request to the pending redemptions, and from these to a
    settlement. -/
theorem Posts.pendingRedemptions_eq {m : Uint256} {quote : Uint256 → Option Uint256} {g h : Ledgers} {e : Entry}
    (hp : Posts m quote g e h) (hkeeps : e.event.KeepsRedeemers)
    (hfree : (g.redemptionIdToRedeemer g.redemptionRequestCounter).amountRwaTokenBurned = 0) (user : Address) :
    e.event.requestedBy user + pendingRedemptions user g =
      e.event.settledFor user + pendingRedemptions user h := by
  unfold pendingRedemptions
  cases hp with
  | @redemptionRequested time owner amount =>
    have hold := Redeemer.owes_of_burned hfree user
    have := Slots.total_update (w := Redeemer.owes user) (f := g.redemptionIdToRedeemer)
      (i := g.redemptionRequestCounter) (b := ⟨owner, amount, 0⟩)
    simp only [Event.requestedBy, Event.settledFor]
    rw [hold] at this
    simp only [Redeemer.owes] at this ⊢
    omega
  | @redemptionCompleted time id =>
    have := Slots.total_update (w := Redeemer.owes user) (f := g.redemptionIdToRedeemer) (i := id) (b := 0)
    simp only [Event.requestedBy, Event.settledFor]
    rw [Redeemer.owes_of_burned (r := 0) rfl] at this
    unfold Redeemer.owes at this ⊢
    omega
  | @priceIdSetForRedemption time id priceId =>
    have := Slots.total_update (w := Redeemer.owes user) (f := g.redemptionIdToRedeemer) (i := id)
      (b := { g.redemptionIdToRedeemer id with priceId })
    simp only [Event.requestedBy, Event.settledFor, Redeemer.owes] at this ⊢
    omega
  | redeemerOverwritten => exact absurd rfl (hkeeps _ _ _ _ _ _ _)
  | other h =>
    obtain ⟨hrequested, hsettled⟩ := Event.redemptions_of_posted user h
    rw [hrequested, hsettled]
  | _ => rfl

theorem requested_eq (h : Reachable X noOverwriteRedeemer s) (user : Address) :
    requestedRedemptions user s.events = settledRedemptions user s.events + pendingRedemptions user s.toLedgers := by
  refine h.redemption_posts.invariant (I := fun log g =>
    requestedRedemptions user log = settledRedemptions user log + pendingRedemptions user g) ?_
    fun log g e g' hpath ih hstep => ?_
  · have hempty : pendingRedemptions user .empty = 0 :=
      Slots.total_of_forall fun _ => Redeemer.owes_of_burned rfl user
    simp [requestedRedemptions, settledRedemptions, hempty]
  · obtain ⟨⟨quote, hp⟩, hkeeps⟩ := hstep
    have := hp.pendingRedemptions_eq hkeeps (unrecorded hpath _ (Nat.le_refl _)) user
    simp only [requestedRedemptions, settledRedemptions, List.map_append, List.sum_append, List.map_cons,
      List.map_nil, List.sum_cons, List.sum_nil] at ih ⊢
    omega

/-! ### The redemptions of a run -/

/-- The account of the redemptions of a state. -/
structure RedemptionsSettled (X : Tokens T) (s : State T) : Prop where
  /-- Requests of both kinds take different ids. -/
  ids : (redemptionIds s.events).Nodup
  /-- A redemption is pending as it was requested until a claim settles it, which happens once: all else that
      is settled under its id is nothing. -/
  life : ∀ l₁ l₂ time user d amount, s.events = l₁ ++ ⟨time, .redemptionRequested user d amount⟩ :: l₂ →
    user ≠ 0 ∧ (∀ e ∈ l₁, e.event.Settles d → e.event.SettlesNothing) ∧
      Life d user amount l₂ (s.redemptionIdToRedeemer d)
  /-- Nothing is settled under the id of a redemption serviced off chain. -/
  offChain : ∀ e ∈ s.events, ∀ user d amount offChainDestination,
    e.event = .redemptionRequestedServicedOffChain user d amount offChainDestination →
    ∀ x ∈ s.events, x.event.Settles d → x.event.SettlesNothing
  /-- Settlements happen in `claimRedemption`, under the ids of its list. -/
  settles : ∀ (sender : Sender) (call : Call) (t : State T), exec X sender.address call s = .ok t →
    ∀ e ∈ t.events.drop s.events.length, ∀ d, e.event.Settles d → ∃ ids, call = .claimRedemption ids ∧ d ∈ ids
  /-- The RWA token was asked to burn what the log tells. -/
  rwaCalls : s.calls.filter TokenCall.isRwa = s.events.filterMap (·.event.rwaCall)
  /-- What a user burned to redeem is settled or pending. -/
  sum : ∀ user,
    requestedRedemptions user s.events = settledRedemptions user s.events + pendingRedemptions user s.toLedgers

theorem Call.Emits.settles {caller : Address} {call : Call} {e : Event} {d : Bytes32} (h : call.Emits caller e)
    (hd : e.Settles d) : ∃ ids, call = .claimRedemption ids ∧ d ∈ ids := by
  obtain ⟨user, burned, paid, price, rfl⟩ := hd.eq
  cases call <;> simp_all [Call.Emits, Event.posted]

theorem redemptions_settled (h : Reachable X noOverwriteRedeemer s) : RedemptionsSettled X s := by
  have hids := (redemptionIds_nodup (h.redemption_posts.mono fun _ _ _ _ hstep => hstep.1)).1
  refine ⟨hids, fun l₁ l₂ time user d amount hlog => ?_, fun e he user d amount destination hevent => ?_, ?_,
    h.rwaCalls, requested_eq h⟩
  · rw [hlog] at hids
    have hnot := not_taken hids rfl
    have hpath := h.redemption d
    rw [hlog] at hpath
    obtain ⟨r, r', hbefore, hstep, hafter⟩ := hpath.split_at
    have hbefore : Trail (Unrequested d) 0 l₁ r :=
      hbefore.mono fun _ e _ he hs => ⟨hs, hnot e (List.mem_append_left _ he)⟩
    have hafter : Trail (Unrequested d) r' l₂ (s.redemptionIdToRedeemer d) :=
      hafter.mono fun _ e _ he hs => ⟨hs, hnot e (List.mem_append_right _ he)⟩
    obtain ⟨hs, -⟩ := hstep
    cases hs with
    | requested known => exact ⟨known, (stays_empty hbefore rfl rfl).2.2, .of_path hafter⟩
    | kept other => exact absurd rfl other
  · obtain ⟨l₁, l₂, hlog⟩ := List.append_of_mem he
    rw [hlog] at hids
    have hnot := not_taken hids (d := d) (by rw [hevent]; rfl)
    have hpath := h.redemption d
    rw [hlog] at hpath
    obtain ⟨r, r', hbefore, ⟨hs, -⟩, hafter⟩ := hpath.split_at
    have hbefore : Trail (Unrequested d) 0 l₁ r :=
      hbefore.mono fun _ e _ he hs => ⟨hs, hnot e (List.mem_append_left _ he)⟩
    have hafter : Trail (Unrequested d) r' l₂ (s.redemptionIdToRedeemer d) :=
      hafter.mono fun _ e _ he hs => ⟨hs, hnot e (List.mem_append_right _ he)⟩
    obtain ⟨huser, hburned, hnothing⟩ := stays_empty hbefore rfl rfl
    rw [hevent] at hs
    cases hs with
    | kept =>
      intro x hx hd
      rw [hlog] at hx
      rcases List.mem_append.mp hx with hx | hx
      · exact hnothing x hx hd
      · rcases List.mem_cons.mp hx with rfl | hx
        · rw [hevent] at hd
          cases hd
        · exact (stays_empty hafter huser hburned).2.2 x hx hd
  · intro sender call t hexec e he d hd
    obtain ⟨new, moved, hb, hemits⟩ := exec_booked sender.ne_zero hexec
    rw [hb.events, List.drop_left] at he
    exact (hemits e he).settles hd

theorem redemptions_settled_history :
    RedemptionsSettled Sample.tokens (run Sample.tokens Sample.state Sample.history) := by
  have hrun : noOverwriteRedeemer.AllowsAll Sample.tokens Sample.state Sample.history :=
    Sample.history_allowed.of_any (by simp [Sample.history, noOverwriteRedeemer, or_imp, forall_and])
      fun _ _ _ _ => trivial
  exact redemptions_settled ((Reachable.of_deployed Sample.state_deployed).run (run_path hrun))

/-! ### Prices of settlements -/

/-- The manager's pricer is `P`. -/
def Wired (s : State T) (P : Pricer) : Prop :=
  ∀ priceId, s.views.getPrice s.pricer priceId = some (P.getPrice priceId)

/-- The call that led from `s` to `t` settled every id of the list at a price other than 0. -/
def SettledAtPrice (s t : State T) (ids : List Bytes32) : Prop :=
  ∀ id ∈ ids, ∃ e ∈ t.events.drop s.events.length, ∃ user burned paid price,
    e.event = .redemptionCompleted user id burned paid price ∧ price ≠ 0

/-- A settlement is made at the pricer's price for the price id of its record. -/
theorem Settlement.Of.price_eq {P : Pricer} {x : Settlement} (h : x.Of s) (hw : Wired s P) :
    x.price = P.getPrice (s.redemptionIdToRedeemer x.redemptionId).priceId :=
  (Option.some.inj ((hw _).symm.trans h.quoted)).symm

/-- A claim of redemptions settles them at a price exactly when the pricer has handed out all their price
    ids. -/
theorem settled_at_price_iff {P : Pricer} (hP : P.Reachable) (hw : Wired s P) {sender : Sender} {ids : List Bytes32}
    (h : exec X sender.address (.claimRedemption ids) s = .ok t) :
    SettledAtPrice s t ids ↔
      ∀ id ∈ ids, (s.redemptionIdToRedeemer id).priceId.toNat ≤ P.currentPriceId.toNat := by
  obtain ⟨xs, fees, rfl, -, hxs, -, -, hb⟩ := claimRedemption_booked h
  have hprice : ∀ x ∈ xs, x.price ≠ 0 ↔
      (s.redemptionIdToRedeemer x.redemptionId).priceId.toNat ≤ P.currentPriceId.toNat := fun x hx => by
    have hpos : (s.redemptionIdToRedeemer x.redemptionId).priceId.toNat ≠ 0 := fun h0 =>
      (hxs x hx).priced (BitVec.eq_of_toNat_eq h0)
    rw [(hxs x hx).price_eq hw, hP.priced]
    omega
  unfold SettledAtPrice
  rw [hb.events, List.drop_left]
  simp only [List.forall_mem_map]
  refine forall₂_congr fun x hx => ?_
  rw [← hprice x hx]
  constructor
  · rintro ⟨e, he, user, burned, paid, price, hevent, hne⟩
    obtain ⟨y, hy, rfl⟩ := List.mem_map.mp he
    obtain ⟨-, hid, -, -, rfl⟩ := Event.redemptionCompleted.inj hevent
    rwa [(hxs x hx).price_eq hw, ← hid, ← (hxs y hy).price_eq hw]
  · exact fun hne => ⟨_, List.mem_map_of_mem hx, _, _, _, _, rfl, hne⟩

namespace Sample

theorem claim_isSome :
    (exec tokens bob.address (.claimRedemption [1]) (run tokens state (history.take 14))).toOption.isSome = true := by
  decide +kernel

/-- Bob claims alice's redemption, once it is priced. -/
def claimed : State (Address → Nat) :=
  (exec tokens bob.address (.claimRedemption [1]) (run tokens state (history.take 14))).toOption.get claim_isSome

/-- Alice's redemption, with a price id that has no price yet. -/
def unpriced : List (Action (Address → Nat)) :=
  history.take 13 ++ [.call admin (.setPriceIdForRedemptions [1] [2])]

theorem unpriced_isSome :
    (exec tokens bob.address (.claimRedemption [1]) (run tokens state unpriced)).toOption.isSome = true := by
  decide +kernel

/-- The same with the price id that has no price. -/
def claimedUnpriced : State (Address → Nat) :=
  (exec tokens bob.address (.claimRedemption [1]) (run tokens state unpriced)).toOption.get unpriced_isSome

end Sample

theorem settled_at_price_iff_history :
    SettledAtPrice (run Sample.tokens Sample.state (Sample.history.take 14)) Sample.claimed [1] ↔
      ∀ id ∈ [(1 : Bytes32)],
        ((run Sample.tokens Sample.state (Sample.history.take 14)).redemptionIdToRedeemer id).priceId.toNat ≤
          Sample.pricer.currentPriceId.toNat :=
  settled_at_price_iff Sample.pricer_reachable (fun _ => rfl) (Checked.eq_ok_get Sample.claim_isSome)

/-- The redemption path multiplies by the price where the mint path divides: bob settles alice's redemption
    under a price id without a price, and alice is paid nothing. -/
theorem settled_without_price :
    ¬∀ (s t : State (Address → Nat)) (P : Pricer) (sender : Sender) (ids : List Bytes32),
      Reachable Sample.tokens Rules.any s → P.Reachable → Wired s P →
      exec Sample.tokens sender.address (.claimRedemption ids) s = .ok t → SettledAtPrice s t ids := by
  intro h
  have hrun : Rules.any.AllowsAll Sample.tokens Sample.state Sample.unpriced :=
    (Sample.history_allowed.take 13).append ⟨trivial, trivial⟩
  obtain ⟨e, he, user, burned, paid, price, hevent, hprice⟩ :=
    h (run Sample.tokens Sample.state Sample.unpriced) Sample.claimedUnpriced Sample.pricer Sample.bob [1]
      ((Reachable.of_deployed Sample.state_deployed).run (run_path hrun)) Sample.pricer_reachable (fun _ => rfl)
      (Checked.eq_ok_get Sample.unpriced_isSome) 1 (by simp)
  have hnew : Sample.claimedUnpriced.events.drop (run Sample.tokens Sample.state Sample.unpriced).events.length =
      [⟨2000, .redemptionCompleted Sample.alice.address 1 400 0 0⟩] := by decide +kernel
  rw [hnew, List.mem_singleton] at he
  subst he
  exact hprice (Event.redemptionCompleted.inj hevent).2.2.2.2.symm

end Usdy
