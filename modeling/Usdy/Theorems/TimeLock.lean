import Usdy.Theorems.Mints

/-! The time lock of a deposit. A timestamp belongs to an id and not to a deposit: one that is set before
    the deposit exists, or that an earlier deposit left behind, unlocks it at once. Where deposits are only
    credited under ids without a timestamp, a mint was unlocked after its own credit. -/

namespace Usdy
open Function

variable {T : Type} {X : Tokens T} {s t : State T}

/-- Deposits are credited under ids without a timestamp, and none is overwritten. -/
def timestampsUnset : Rules T where
  call s _ call :=
    match call with
    | .overwriteDepositor .. => False
    | .requestSubscription _ => s.depositIdToClaimableTimestamp s.subscriptionRequestCounter = 0
    | .requestSubscriptionServicedOffchain _ _ offChainDestination =>
      s.depositIdToClaimableTimestamp offChainDestination = 0
    | _ => True

/-- The postings that `timestampsUnset` leaves. -/
structure UnsetPosting (g : Ledgers) (e : Entry) : Prop where
  unset : ∀ d, e.event.Credits d → g.depositIdToClaimableTimestamp d = 0
  keeps : e.event.KeepsDepositors

theorem Event.not_credits_of_posted {d : Bytes32} {e : Event} (h : e.posted = false) : ¬e.Credits d := fun hc => by
  obtain ⟨_, _, _, _, rfl⟩ | ⟨_, _, _, _, rfl⟩ := hc.cases <;> cases h

/-- Only requests credit a deposit. -/
theorem Call.Emits.credits {caller : Address} {call : Call} {d : Bytes32} {e : Event} (h : call.Emits caller e)
    (hc : e.Credits d) :
    (∃ amount user after fee, call = .requestSubscription amount ∧ e = .mintRequested user d amount after fee) ∨
      ∃ user amount, call = .requestSubscriptionServicedOffchain user amount d := by
  obtain ⟨user, amount, after, fee, rfl⟩ | ⟨user, amount, after, fee, rfl⟩ := hc.cases
  · obtain ⟨rfl, -⟩ := h.mintRequested
    exact .inl ⟨_, _, _, _, rfl, rfl⟩
  · cases call <;> simp_all [Call.Emits, Event.posted]

theorem Reachable.unset_posts (h : Reachable X timestampsUnset s) :
    Trail (fun g e h => Posting s.decimalsMultiplier g e h ∧ UnsetPosting g e) .empty s.events s.toLedgers := by
  refine h.posts_guarded (fun g e he => ⟨fun d hc => absurd hc (Event.not_credits_of_posted he),
    Event.keepsDepositors_of_posted he⟩) fun s t sender call new moved hrule hexec hb hemits => ?_
  have hkeeps : ∀ e ∈ new, e.event.KeepsDepositors := fun e he _ _ _ _ _ _ _ heq => by
    have hemit := hemits e he
    rw [heq] at hemit
    rw [hemit.depositorOverwritten] at hrule
    exact hrule
  cases hr : call.request sender.address with
  | some r =>
    -- A request posts one entry, in the ledgers that the rule speaks of.
    obtain ⟨event, moved', -, -, -, hb', -, hemit, -⟩ := exec_request_booked sender.ne_zero hr hexec
    obtain rfl := hb.new_eq hb'
    have hp := hb.posts.single_inv
    refine .single ⟨⟨_, hp⟩, fun d hc => ?_, hkeeps _ List.mem_cons_self⟩
    obtain ⟨amount, user, after, fee, rfl, rfl⟩ | ⟨user, amount, rfl⟩ := hemit.credits hc
    · exact hp.requested_id ▸ hrule
    · exact hrule
  | none =>
    refine hb.posts.mono fun g e h he hp => ⟨⟨_, hp⟩, fun d hc => ?_, hkeeps e he⟩
    obtain ⟨_, _, _, _, rfl, -⟩ | ⟨_, _, rfl⟩ := (hemits e he).credits hc <;> cases hr

/-- A credit leaves the timestamps as they are. -/
theorem Posts.timestamp_of_credit {m : Uint256} {quote : Uint256 → Option Uint256} {g h : Ledgers} {e : Entry}
    {d : Bytes32} (hp : Posts m quote g e h) (hc : e.event.Credits d) :
    h.depositIdToClaimableTimestamp = g.depositIdToClaimableTimestamp := by
  obtain ⟨time, event⟩ := e
  obtain ⟨_, _, _, _, rfl⟩ | ⟨_, _, _, _, rfl⟩ := hc.cases <;> cases hp <;> rfl

/-- A mint pays the latest credit under its id, and after that credit a timestamp was set for the id that
    the mint has reached. -/
theorem time_locked (h : Reachable X timestampsUnset s) {l₁ l₂ : List Entry} {time : Uint256} {user : Address}
    {d : Bytes32} {out amount price priceId : Uint256}
    (hlog : s.events = l₁ ++ ⟨time, .mintCompleted user d out amount price priceId⟩ :: l₂) :
    ∃ l₀ c l, l₁ = l₀ ++ c :: l ∧ c.event.credit = some ⟨d, user, amount⟩ ∧
      (∀ e ∈ l, ¬e.event.Credits d ∧ ¬e.event.Mints d) ∧
      ∃ e ∈ l, ∃ timestamp, e.event = .claimableTimestampSet timestamp d ∧ timestamp ≤ time ∧
        c.time ≤ e.time ∧ e.time ≤ time := by
  have hkeeps : Reachable X noOverwriteDepositor s := h.mono (fun s sender call hcall => by
    cases call with
    | overwriteDepositor => exact hcall
    | _ => trivial) fun _ _ _ _ => trivial
  obtain ⟨⟨l₀, c, l, rfl, hcredited⟩, -⟩ := mint_credited hkeeps hlog
  refine ⟨l₀, c, l, rfl, hcredited.credit, hcredited.latest, ?_⟩
  have hpath := h.unset_posts
  rw [hlog] at hpath
  obtain ⟨g, g', hbefore, ⟨⟨quote, hp⟩, -⟩, -⟩ := hpath.split_at
  obtain ⟨hset, hpassed, -⟩ := hp.mint_inv
  obtain ⟨g₀, g₁, -, ⟨⟨quote₀, hp₀⟩, hunset⟩, hafter⟩ := hbefore.split_at
  have hcredits : c.event.Credits d := ⟨_, _, hcredited.credit⟩
  have h₁ : g₁.depositIdToClaimableTimestamp d = 0 := by
    rw [hp₀.timestamp_of_credit hcredits]
    exact hunset.unset d hcredits
  obtain ⟨e, he, hevent⟩ := Posting.timestamp_set (hafter.mono fun g e g' _ hstep => hstep.1) h₁ hset
  have hordered := h.chronological.1
  rw [hlog, List.append_assoc, List.pairwise_append] at hordered
  obtain ⟨-, hordered, -⟩ := hordered
  rw [List.cons_append, List.pairwise_cons, List.pairwise_append] at hordered
  exact ⟨e, he, _, hevent, hpassed, hordered.1 e (List.mem_append_left _ he),
    hordered.2.2.2 e he _ List.mem_cons_self⟩

theorem time_locked_history :
    ∃ l₀ c l, (run Sample.tokens Sample.state (Sample.history.take 11)).events.take 18 = l₀ ++ c :: l ∧
      c.event.credit = some ⟨5, Sample.alice.address, 990⟩ ∧ (∀ e ∈ l, ¬e.event.Credits 5 ∧ ¬e.event.Mints 5) ∧
      ∃ e ∈ l, ∃ timestamp, e.event = .claimableTimestampSet timestamp 5 ∧ timestamp ≤ 2000 ∧
        c.time ≤ e.time ∧ e.time ≤ 2000 := by
  have hrun : timestampsUnset.AllowsAll Sample.tokens Sample.state (Sample.history.take 11) := by
    refine ⟨trivial, trivial, trivial, trivial, trivial, ?_, ?_, trivial, trivial, ?_, trivial, trivial⟩
    all_goals
      unfold Rules.Allows timestampsUnset
      decide +kernel
  have hlog : (run Sample.tokens Sample.state (Sample.history.take 11)).events =
      (run Sample.tokens Sample.state (Sample.history.take 11)).events.take 18 ++
        ⟨2000, .mintCompleted Sample.alice.address 5 990 990 e18 1⟩ ::
          (run Sample.tokens Sample.state (Sample.history.take 11)).events.drop 19 := by decide +kernel
  exact time_locked ((Reachable.of_deployed Sample.state_deployed).run (run_path hrun)) hlog

/-- A timestamp that was set before the deposit unlocks it: bob requests a deposit under an id whose
    timestamp has passed, and mints in the same block. -/
theorem time_unlocked :
    ¬∀ s : State (Address → Nat), Reachable Sample.tokens noOverwriteDepositor s →
      ∀ (l₁ l₂ : List Entry) (time : Uint256) (user : Address) (d : Bytes32) (out amount price priceId : Uint256),
        s.events = l₁ ++ ⟨time, .mintCompleted user d out amount price priceId⟩ :: l₂ →
        ∃ l₀ c l, l₁ = l₀ ++ c :: l ∧ c.event.credit = some ⟨d, user, amount⟩ ∧
          ∃ e ∈ l, ∃ timestamp, e.event = .claimableTimestampSet timestamp d ∧ timestamp ≤ time := by
  intro h
  let acts : List (Action (Address → Nat)) :=
    [.call Sample.admin (.grantRole .timestampSetter Sample.admin.address),
     .call Sample.admin (.grantRole .priceIdSetter Sample.admin.address),
     .call Sample.admin (.setClaimableTimestamp 1500 [1]),
     .block 2000,
     .call Sample.bob (.requestSubscription 500),
     .call Sample.admin (.setPriceIdForDeposits [1] [1]),
     .call Sample.bob (.claimMint [1])]
  have hrun : noOverwriteDepositor.AllowsAll Sample.tokens Sample.state acts := by
    refine ⟨trivial, trivial, trivial, ?_, trivial, trivial, trivial, trivial⟩
    unfold Rules.Allows
    decide +kernel
  obtain ⟨l₀, c, l, hl, hc, e, he, timestamp, hevent, -⟩ := h (run Sample.tokens Sample.state acts)
    ((Reachable.of_deployed Sample.state_deployed).run (run_path hrun))
    ((run Sample.tokens Sample.state acts).events.take 12) [] 2000 Sample.bob.address 1 500 500 e18 1
    (by decide +kernel)
  -- After the credit the log holds the price id of the deposit, and the mint.
  have hafter : ((run Sample.tokens Sample.state acts).events.take 12).Pairwise
      (fun c e => c.event.credit = none ∨ e.event.priceSet 1 = some 1) := by
    decide +kernel
  rw [hl, List.pairwise_append, List.pairwise_cons] at hafter
  rcases hafter.2.1.1 e he with hnone | hprice
  · rw [hc] at hnone
    cases hnone
  · rw [hevent] at hprice
    cases hprice

end Usdy
