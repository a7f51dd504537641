import Usdy.Lib.Slots
import Usdy.Theorems.Log

/-! The life of a deposit. The entries of a log about one deposit id drive one record: a request credits
    it, a price id is set on it once, and a mint deletes it. -/

namespace Usdy
open Function

variable {T : Type} {X : Tokens T} {rules : Rules T} {s t : State T}

/-- What an entry about deposit `d` does to its record; every other entry keeps it. -/
inductive DepositStep (d : Bytes32) : Depositor → Event → Depositor → Prop
  | requested {r : Depositor} {user : Address} {amount after fee : Uint256} (known : user ≠ 0) :
      DepositStep d r (.mintRequested user d amount after fee) ⟨user, after, 0⟩
  | servicedOffChain {r : Depositor} {user : Address} {amount after fee : Uint256} (free : r.user = 0) :
      DepositStep d r (.subscriptionRequestedServicedOffChain user amount after fee d) ⟨user, after, 0⟩
  | minted {r : Depositor} {out price : Uint256} (priced : r.priceId ≠ 0) :
      DepositStep d r (.mintCompleted r.user d out r.amountDepositedMinusFees price r.priceId) 0
  | priced {r : Depositor} {priceId : Uint256} (known : r.user ≠ 0) (unset : r.priceId = 0) :
      DepositStep d r (.priceIdSetForDeposit d priceId) { r with priceId }
  | overwritten {r : Depositor} {user : Address} {amount priceId : Uint256} :
      DepositStep d r (.depositorOverwritten d r.user user r.priceId priceId r.amountDepositedMinusFees amount)
        ⟨user, amount, priceId⟩
  | kept {r : Depositor} {e : Event} (other : e.depositId ≠ some d) : DepositStep d r e r

theorem DepositStep.update {f : Bytes32 → Depositor} {id d : Bytes32} {e : Event} {r : Depositor}
    (he : e.depositId = some id) (h : DepositStep id (f id) e r) : DepositStep d (f d) e (update f id r d) :=
  Slots.step_update .kept he h

theorem DepositStep.of_credit {d : Bytes32} {r r' : Depositor} {e : Event} {user : Address} {amount : Uint256}
    (h : DepositStep d r e r') (hc : e.credit = some ⟨d, user, amount⟩) : r' = ⟨user, amount, 0⟩ := by
  cases h with
  | requested | servicedOffChain =>
    simp only [Event.credit, Option.some.injEq, Credit.mk.injEq, true_and] at hc
    rw [hc.1, hc.2]
  | kept other => cases e <;> simp_all [Event.credit, Event.depositId]
  | _ => cases hc

theorem DepositStep.user_ne_zero_of_proof {d : Bytes32} {r r' : Depositor} {e : Event} (h : DepositStep d r e r')
    (hc : e.CreditsProof d) : r'.user ≠ 0 := by
  cases h with
  | servicedOffChain => exact hc.2
  | kept other => cases e <;> simp_all [Event.CreditsProof, Event.depositId]
  | _ => cases hc

theorem Posts.depositStep {m : Uint256} {quote : Uint256 → Option Uint256} {g h : Ledgers} {e : Entry}
    (hp : Posts m quote g e h) (d : Bytes32) :
    DepositStep d (g.depositIdToDepositor d) e.event (h.depositIdToDepositor d) := by
  cases hp with
  | mintRequested known split next => exact .update rfl (.requested known)
  | subscriptionRequestedServicedOffChain free split => exact .update rfl (.servicedOffChain free)
  | mintCompleted set passed priced quoted positive owed => exact .update rfl (.minted priced)
  | priceIdSetForDeposit known unset => exact .update rfl (.priced known unset)
  | depositorOverwritten => exact .update rfl .overwritten
  | other h =>
    refine .kept fun hd => ?_
    cases hevent : e.event <;> rw [hevent] at h hd <;> simp_all [Event.posted, Event.depositId]
  | _ => exact .kept (by simp [Event.depositId])

theorem Call.Emits.mintRequested {caller user : Address} {call : Call} {d : Bytes32} {amount after fee : Uint256}
    (h : call.Emits caller (.mintRequested user d amount after fee)) :
    call = .requestSubscription amount ∧ user = caller := by
  cases call <;> simp_all [Call.Emits, Event.posted]

theorem Call.Emits.depositorOverwritten {caller old user : Address} {call : Call} {d : Bytes32}
    {oldPriceId priceId oldAmount amount : Uint256}
    (h : call.Emits caller (.depositorOverwritten d old user oldPriceId priceId oldAmount amount)) :
    call = .overwriteDepositor d user amount priceId := by
  cases call <;> simp_all [Call.Emits, Event.posted]

/-- The event is no overwrite of a deposit. -/
def Event.KeepsDepositors (e : Event) : Prop :=
  ∀ d old user oldPriceId priceId oldAmount amount,
    e ≠ .depositorOverwritten d old user oldPriceId priceId oldAmount amount

theorem Event.keepsDepositors_of_posted {e : Event} (h : e.posted = false) : e.KeepsDepositors := by
  rintro _ _ _ _ _ _ _ rfl
  cases h

theorem Reachable.deposit_posts (h : Reachable X noOverwriteDepositor s) :
    Trail (fun g e h => Posting s.decimalsMultiplier g e h ∧ e.event.KeepsDepositors) .empty s.events s.toLedgers := by
  refine h.posts (fun e => Event.keepsDepositors_of_posted) ?_
  rintro s sender call e hrule hemits d _ _ _ _ _ _ rfl
  rw [hemits.depositorOverwritten] at hrule
  exact hrule.elim

/-- A step of a record that does not overwrite it. -/
structure OpenStep (d : Bytes32) (r : Depositor) (e : Event) (r' : Depositor) : Prop where
  step : DepositStep d r e r'
  keeps : e.KeepsDepositors

theorem Reachable.deposit (h : Reachable X noOverwriteDepositor s) (d : Bytes32) :
    Trail (fun r e r' => OpenStep d r e.event r') 0 s.events (s.depositIdToDepositor d) := by
  refine h.deposit_posts.map (f := fun g => g.depositIdToDepositor d) fun g e g' hstep => ?_
  obtain ⟨⟨quote, hp⟩, hkeeps⟩ := hstep
  exact ⟨hp.depositStep d, hkeeps⟩

/-! ### A deposit stays until it is minted -/

/-- No record is overwritten, and a subscription takes its id from the counter only where no deposit is
    recorded under that id. -/
def freshIds : Rules T where
  call s _ call :=
    match call with
    | .overwriteDepositor .. => False
    | .requestSubscription _ => (s.depositIdToDepositor s.subscriptionRequestCounter).user = 0
    | _ => True

/-- The postings that `freshIds` leaves: requests only take free slots, and nothing is overwritten. -/
structure FreshPosting (g : Ledgers) (e : Entry) : Prop where
  free : ∀ {user d amount after fee}, e.event = .mintRequested user d amount after fee →
    (g.depositIdToDepositor d).user = 0
  keeps : e.event.KeepsDepositors

theorem Reachable.fresh_posts (h : Reachable X freshIds s) :
    Trail (fun g e h => Posting s.decimalsMultiplier g e h ∧ FreshPosting g e) .empty s.events s.toLedgers := by
  refine h.posts_guarded (fun g e he => ⟨fun h => ?_, Event.keepsDepositors_of_posted he⟩)
    fun s t sender call new moved hrule hexec hb he => ?_
  · rw [h] at he
    cases he
  by_cases hreq : ∃ amount, call = .requestSubscription amount
  · obtain ⟨amount, rfl⟩ := hreq
    obtain ⟨event, moved', -, -, -, hb', -, hevent, -⟩ := exec_request_booked sender.ne_zero rfl hexec
    obtain rfl := hb.new_eq hb'
    have hp := hb.posts.single_inv
    refine .single ⟨⟨_, hp⟩, fun h => ?_, ?_⟩
    · subst h
      exact hp.requested_id ▸ hrule
    · rintro _ _ _ _ _ _ _ rfl
      cases hevent
  · refine hb.posts.mono fun g e h hmem hp => ⟨⟨_, hp⟩, fun h => ?_, fun _ _ _ _ _ _ _ h => ?_⟩
    · have := he e hmem
      rw [h] at this
      exact absurd ⟨_, this.mintRequested.1⟩ hreq
    · have := he e hmem
      rw [h] at this
      rw [this.depositorOverwritten] at hrule
      exact hrule.elim

/-- A step of a record that moreover credits it only when it is free. -/
structure FreshStep (d : Bytes32) (r : Depositor) (e : Event) (r' : Depositor) : Prop extends OpenStep d r e r' where
  free : e.Credits d → r.user = 0

theorem Reachable.fresh_deposit (h : Reachable X freshIds s) (d : Bytes32) :
    Trail (fun r e r' => FreshStep d r e.event r') 0 s.events (s.depositIdToDepositor d) := by
  refine h.fresh_posts.map (f := fun g => g.depositIdToDepositor d) fun g e g' hstep => ?_
  obtain ⟨⟨quote, hp⟩, hfresh⟩ := hstep
  refine ⟨⟨hp.depositStep d, hfresh.keeps⟩, fun hc => ?_⟩
  obtain ⟨time, event⟩ := e
  obtain ⟨_, _, _, _, rfl⟩ | ⟨_, _, _, _, rfl⟩ := hc.cases
  · exact hfresh.free rfl
  · exact hp.serviced_free

/-- The record under an id after its credit, as long as no mint deletes it. -/
theorem FreshStep.path_keeps {d : Bytes32} {r₀ r : Depositor} {l : List Entry} (hu : r₀.user ≠ 0)
    (h : Trail (fun r e r' => FreshStep d r e.event r') r₀ l r) (hmint : ∀ e ∈ l, ¬e.event.Mints d) :
    r.user = r₀.user ∧ r.amountDepositedMinusFees = r₀.amountDepositedMinusFees ∧ ∀ e ∈ l, ¬e.event.Credits d := by
  revert hmint
  refine h.invariant (I := fun l r => (∀ e ∈ l, ¬e.event.Mints d) → r.user = r₀.user ∧
      r.amountDepositedMinusFees = r₀.amountDepositedMinusFees ∧ ∀ e ∈ l, ¬e.event.Credits d)
    (fun _ => ⟨rfl, rfl, by simp⟩) fun l r e r' _ ih hstep hmint => ?_
  obtain ⟨huser, hamount, hcredits⟩ := ih fun e he => hmint e (List.mem_append_left _ he)
  have hcredit : ¬e.event.Credits d := fun hc => hu (huser ▸ hstep.free hc)
  have hmint : ¬e.event.Mints d := hmint e (by simp)
  have hcredits' : ∀ x ∈ l ++ [e], ¬x.event.Credits d := fun x hx => by
    rcases List.mem_append.mp hx with hx | hx
    · exact hcredits x hx
    · exact List.mem_singleton.mp hx ▸ hcredit
  have hkeeps := hstep.keeps
  have hs := hstep.step
  generalize e.event = event at *
  cases hs with
  | requested => exact absurd ⟨_, _, rfl⟩ hcredit
  | servicedOffChain => exact absurd ⟨_, _, rfl⟩ hcredit
  | minted => exact absurd rfl hmint
  | priced => exact ⟨huser, hamount, hcredits'⟩
  | overwritten => exact absurd rfl (hkeeps _ _ _ _ _ _ _)
  | kept => exact ⟨huser, hamount, hcredits'⟩

/-- With fresh ids, a deposit recorded for a user stays as it was recorded until it is minted, and no
    later request takes its id. -/
theorem deposit_kept (h : Reachable X freshIds s) {l₁ l₂ : List Entry} {c : Entry} {d : Bytes32} {user : Address}
    {amount : Uint256} (hlog : s.events = l₁ ++ c :: l₂) (hc : c.event.credit = some ⟨d, user, amount⟩)
    (hu : user ≠ 0) (hmint : ∀ e ∈ l₂, ¬e.event.Mints d) :
    (s.depositIdToDepositor d).user = user ∧ (s.depositIdToDepositor d).amountDepositedMinusFees = amount ∧
      ∀ e ∈ l₂, ¬e.event.Credits d := by
  have hpath := h.fresh_deposit d
  rw [hlog] at hpath
  obtain ⟨r, r', -, hstep, hpath⟩ := hpath.split_at
  obtain rfl := hstep.step.of_credit hc
  exact FreshStep.path_keeps hu hpath hmint

theorem deposit_kept_history :
    ((run Sample.tokens Sample.state (Sample.history.take 8)).depositIdToDepositor 5).user = Sample.alice.address ∧
      ((run Sample.tokens Sample.state (Sample.history.take 8)).depositIdToDepositor 5).amountDepositedMinusFees =
        990 ∧
      ∀ e ∈ ((run Sample.tokens Sample.state (Sample.history.take 8)).events.drop 13), ¬e.event.Credits 5 := by
  have hrun : freshIds.AllowsAll Sample.tokens Sample.state (Sample.history.take 8) := by
    refine ⟨trivial, trivial, trivial, trivial, trivial, trivial, ?_, trivial, trivial⟩
    unfold Rules.Allows freshIds
    decide +kernel
  have hlog : (run Sample.tokens Sample.state (Sample.history.take 8)).events =
      (run Sample.tokens Sample.state (Sample.history.take 8)).events.take 12 ++
        ⟨1000, .subscriptionRequestedServicedOffChain Sample.alice.address 1000 990 10 5⟩ ::
          (run Sample.tokens Sample.state (Sample.history.take 8)).events.drop 13 := by decide +kernel
  exact deposit_kept ((Reachable.of_deployed Sample.state_deployed).run (run_path hrun)) hlog rfl
    Sample.alice.ne_zero (by decide +kernel)

/-- Without fresh ids the statement fails: the relayer credits a deposit under the next value of the
    counter, and the next request on chain replaces it. -/
theorem deposit_replaced :
    ¬∀ s : State (Address → Nat), Reachable Sample.tokens noOverwriteDepositor s →
      ∀ (l₁ l₂ : List Entry) (c : Entry) (d : Bytes32) (user : Address) (amount : Uint256),
        s.events = l₁ ++ c :: l₂ → c.event.credit = some ⟨d, user, amount⟩ → user ≠ 0 →
        (∀ e ∈ l₂, ¬e.event.Mints d) →
        (s.depositIdToDepositor d).user = user ∧ (s.depositIdToDepositor d).amountDepositedMinusFees = amount := by
  intro h
  let acts : List (Action (Address → Nat)) :=
    [.call Sample.admin (.grantRole .relayer Sample.admin.address),
     .call Sample.admin (.requestSubscriptionServicedOffchain Sample.alice.address 1000 1),
     .call Sample.bob (.requestSubscription 500)]
  have hrun : noOverwriteDepositor.AllowsAll Sample.tokens Sample.state acts := ⟨trivial, trivial, trivial, trivial⟩
  have hlog := h (run Sample.tokens Sample.state acts)
    ((Reachable.of_deployed Sample.state_deployed).run (run_path hrun))
    ((run Sample.tokens Sample.state acts).events.take 8) [⟨1000, .mintRequested Sample.bob.address 1 500 500 0⟩]
    ⟨1000, .subscriptionRequestedServicedOffChain Sample.alice.address 1000 1000 0 1⟩ 1 Sample.alice.address 1000
    (by decide +kernel) rfl Sample.alice.ne_zero (by decide)
  revert hlog
  decide +kernel

/-! ### A proof of an off-chain deposit -/

/-- A deposit that is recorded for a user stays recorded for some user until it is minted: a request on
    chain may replace it. -/
theorem OpenStep.user_ne_zero {d : Bytes32} {r₀ r : Depositor} {l : List Entry} (hu : r₀.user ≠ 0)
    (h : Trail (fun r e r' => OpenStep d r e.event r') r₀ l r) (hmint : ∀ e ∈ l, ¬e.event.Mints d) : r.user ≠ 0 := by
  revert hmint
  refine h.invariant (I := fun l r => (∀ e ∈ l, ¬e.event.Mints d) → r.user ≠ 0) (fun _ => hu)
    fun l r e r' _ ih hstep hmint => ?_
  have huser := ih fun e he => hmint e (List.mem_append_left _ he)
  have hmint : ¬e.event.Mints d := hmint e (by simp)
  obtain ⟨hs, hkeeps⟩ := hstep
  generalize e.event = event at *
  cases hs with
  | requested known => exact known
  | servicedOffChain free => exact absurd free huser
  | minted => exact absurd rfl hmint
  | priced => exact huser
  | overwritten => exact absurd rfl (hkeeps _ _ _ _ _ _ _)
  | kept => exact huser

/-- How often a log credits a proof. -/
def proofCredits (offChainDestination : Bytes32) (log : List Entry) : Nat :=
  log.countP fun e => e.event.CreditsProof offChainDestination

theorem proofCredits_append {d : Bytes32} {l l' : List Entry} :
    proofCredits d (l ++ l') = proofCredits d l + proofCredits d l' := List.countP_append

theorem proofCredits_of_forall {d : Bytes32} {log : List Entry} (h : ∀ e ∈ log, ¬e.event.CreditsProof d) :
    proofCredits d log = 0 :=
  List.countP_eq_zero.mpr fun e he hc => h e he (of_decide_eq_true hc)

/-- A proof was credited and a mint under its id followed. -/
def Claimed (offChainDestination : Bytes32) (log : List Entry) : Prop :=
  ∃ l₁ c l₂, log = l₁ ++ c :: l₂ ∧ c.event.CreditsProof offChainDestination ∧
    ∃ m ∈ l₂, m.event.Mints offChainDestination

/-- The relayer submits no proof whose deposit was claimed, and nothing is overwritten. -/
def proofsUnclaimed : Rules T where
  call s _ call :=
    match call with
    | .overwriteDepositor .. => False
    | .requestSubscriptionServicedOffchain _ _ offChainDestination => ¬Claimed offChainDestination s.events
    | _ => True

theorem Reachable.of_proofsUnclaimed (h : Reachable X proofsUnclaimed s) : Reachable X noOverwriteDepositor s :=
  Reachable.mono (fun s sender call hc => by cases call <;> first | exact hc | trivial) (fun _ _ _ _ => trivial) h

theorem Call.Emits.creditsProof {caller : Address} {call : Call} {d : Bytes32} {e : Event}
    (h : call.Emits caller e) (hc : e.CreditsProof d) :
    ∃ user amount, call = .requestSubscriptionServicedOffchain user amount d ∧ user ≠ 0 := by
  obtain ⟨user, amount, after, fee, rfl, hu⟩ := hc.eq
  cases call <;> simp_all [Call.Emits, Event.posted]

/-- Only a mint frees the slot of a credited proof. -/
theorem claimed_of_free (h : Reachable X noOverwriteDepositor s) {d : Bytes32}
    (hcredited : 0 < proofCredits d s.events) (hfree : (s.depositIdToDepositor d).user = 0) : Claimed d s.events := by
  obtain ⟨c, hc, hproof⟩ := List.countP_pos_iff.mp hcredited
  have hproof := of_decide_eq_true hproof
  obtain ⟨l₁, l₂, hlog⟩ := List.append_of_mem hc
  by_contra hnot
  have hpath := h.deposit d
  rw [hlog] at hpath
  obtain ⟨r, r', -, hstep, hpath⟩ := hpath.split_at
  exact OpenStep.user_ne_zero (hstep.step.user_ne_zero_of_proof hproof) hpath
    (fun m hm hmint => hnot ⟨l₁, c, l₂, hlog, hproof, m, hm, hmint⟩) hfree

/-- A request that succeeds found the slot of its proof free, and credits the proof once. -/
theorem proof_request_inv {sender : Sender} {user : Address} {amount : Uint256} {d : Bytes32} (hu : user ≠ 0)
    (h : exec X sender.address (.requestSubscriptionServicedOffchain user amount d) s = .ok t) :
    (s.depositIdToDepositor d).user = 0 ∧ proofCredits d t.events = proofCredits d s.events + 1 := by
  obtain ⟨trackers, -, h⟩ := exec_request_inv (r := ⟨.deposit, user, amount⟩) rfl h
  obtain ⟨fee, after, -, -, -, -, hfree, -, -, -, -, rfl⟩ :=
    RWAHubOffChainRedemptions.requestSubscriptionServicedOffchain_inv h
  refine ⟨hfree, ?_⟩
  have hone : proofCredits d [⟨s.now, .subscriptionRequestedServicedOffChain user amount after fee d⟩] = 1 :=
    List.countP_cons_of_pos (decide_eq_true ⟨rfl, hu⟩)
  rw [proofCredits_append, hone]

/-- While the relayer submits no claimed proof, every proof is credited at most once; and the next request
    that carries a proof keeps it so exactly when that proof is not claimed yet. -/
theorem proof_credited_once (h : Reachable X proofsUnclaimed s) (offChainDestination : Bytes32) :
    proofCredits offChainDestination s.events ≤ 1 ∧
      ∀ (sender : Sender) (user : Address) (amount : Uint256) (t : State T), user ≠ 0 →
        exec X sender.address (.requestSubscriptionServicedOffchain user amount offChainDestination) s = .ok t →
        (proofCredits offChainDestination t.events ≤ 1 ↔ ¬Claimed offChainDestination s.events) := by
  have honce : ∀ {s : State T}, Reachable X proofsUnclaimed s → proofCredits offChainDestination s.events ≤ 1 := by
    intro s h
    refine h.invariant (I := fun s => proofCredits offChainDestination s.events ≤ 1) (fun s hs => ?_)
      (fun s t sender call hr ih hrule hexec => ?_) (fun _ _ ih _ => ih) fun _ _ _ ih _ => ih
    · rw [proofCredits_of_forall fun e he hc => ?_]
      · exact Nat.zero_le _
      · obtain ⟨user, amount, after, fee, hevent, -⟩ := hc.eq
        exact absurd (hs.fresh.posted he) (by rw [hevent]; nofun)
    · obtain ⟨new, moved, hb, hemits⟩ := exec_booked sender.ne_zero hexec
      by_cases hproof : ∃ e ∈ new, e.event.CreditsProof offChainDestination
      · obtain ⟨e, he, hc⟩ := hproof
        obtain ⟨user, amount, rfl, hu⟩ := (hemits e he).creditsProof hc
        obtain ⟨hfree, hcount⟩ := proof_request_inv hu hexec
        have hnone : ¬0 < proofCredits offChainDestination s.events := fun hpos =>
          hrule (claimed_of_free hr.of_proofsUnclaimed hpos hfree)
        omega
      · rw [hb.events, proofCredits_append, proofCredits_of_forall fun e he hc => hproof ⟨e, he, hc⟩]
        exact ih
  refine ⟨honce h, fun sender user amount t hu hexec => ⟨fun ht hclaimed => ?_, fun hclaimed => ?_⟩⟩
  · obtain ⟨l₁, c, l₂, hlog, hc, -⟩ := hclaimed
    have hpos : 0 < proofCredits offChainDestination s.events :=
      List.countP_pos_iff.mpr ⟨c, by simp [hlog], decide_eq_true hc⟩
    have := (proof_request_inv hu hexec).2
    omega
  · exact honce (h.step (.call hexec hclaimed))

theorem proof_credited_once_history :
    proofCredits 5 (run Sample.tokens Sample.state (Sample.history.take 7)).events ≤ 1 ∧
      ∀ (sender : Sender) (user : Address) (amount : Uint256) (t : State (Address → Nat)), user ≠ 0 →
        exec Sample.tokens sender.address (.requestSubscriptionServicedOffchain user amount 5)
          (run Sample.tokens Sample.state (Sample.history.take 7)) = .ok t →
        (proofCredits 5 t.events ≤ 1 ↔
          ¬Claimed 5 (run Sample.tokens Sample.state (Sample.history.take 7)).events) := by
  have hrun : proofsUnclaimed.AllowsAll Sample.tokens Sample.state (Sample.history.take 7) := by
    refine ⟨trivial, trivial, trivial, trivial, trivial, ?_, trivial, trivial⟩
    rintro ⟨l₁, c, l₂, hlog, hc, -⟩
    have hnone : ∀ e ∈ (run Sample.tokens Sample.state (Sample.history.take 5)).events, ¬e.event.CreditsProof 5 := by
      decide +kernel
    exact hnone c (hlog ▸ by simp) hc
  exact proof_credited_once ((Reachable.of_deployed Sample.state_deployed).run (run_path hrun)) 5

/-- The claim of a mint deletes the record that the check for duplicates reads: the relayer submits the
    proof of alice's deposit again, and it is credited again. -/
theorem proof_credited_twice :
    ¬∀ s : State (Address → Nat), Reachable Sample.tokens noOverwriteDepositor s →
      ∀ offChainDestination : Bytes32, proofCredits offChainDestination s.events ≤ 1 := by
  intro h
  let acts : List (Action (Address → Nat)) :=
    Sample.history.take 11 ++
      [.call Sample.admin (.requestSubscriptionServicedOffchain Sample.alice.address 1000 5)]
  have hany : Rules.any.AllowsAll Sample.tokens Sample.state acts :=
    (Sample.history_allowed.take 11).append ⟨trivial, trivial⟩
  have hrun : noOverwriteDepositor.AllowsAll Sample.tokens Sample.state acts :=
    hany.of_any (by simp [acts, Sample.history, noOverwriteDepositor, or_imp, forall_and]) fun _ _ _ _ => trivial
  have honce := h _ ((Reachable.of_deployed Sample.state_deployed).run (run_path hrun)) 5
  revert honce
  decide +kernel

end Usdy
