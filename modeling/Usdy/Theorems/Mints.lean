import Usdy.Lib.Slots
import Usdy.Theorems.Deposits

/-! Where a mint comes from. The record that a mint consumes was written by the latest credit under its
    id, and priced once since; so every mint has a credit of its own, and no user mints against more than
    was credited. -/

namespace Usdy
open Function

variable {T : Type} {X : Tokens T} {rules : Rules T} {s t : State T}

/-! ### The credit behind a record -/

/-- The entry `c` credited the record `r` of deposit `d`, and the entries `l` after it are about the same
    deposit: they credit and mint nothing under `d`, and set a price id other than 0 at most once. -/
structure Credited (d : Bytes32) (r : Depositor) (c : Entry) (l : List Entry) : Prop where
  credit : c.event.credit = some ⟨d, r.user, r.amountDepositedMinusFees⟩
  latest : ∀ e ∈ l, ¬e.event.Credits d ∧ ¬e.event.Mints d
  priced : l.filterMap (fun e => e.event.priceSet d) = if r.priceId = 0 then [] else [r.priceId]

/-- The record is empty, or the log holds its credit. -/
def Backed (d : Bytes32) (log : List Entry) (r : Depositor) : Prop :=
  r = 0 ∨ ∃ l₀ c l, log = l₀ ++ c :: l ∧ Credited d r c l

theorem Event.not_about {d : Bytes32} {e : Event} (h : e.depositId ≠ some d) :
    ¬e.Credits d ∧ ¬e.Mints d ∧ e.priceSet d = none := by
  refine ⟨fun hc => ?_, fun hm => ?_, ?_⟩
  · obtain ⟨_, _, _, _, rfl⟩ | ⟨_, _, _, _, rfl⟩ := hc.cases <;> exact h rfl
  · obtain ⟨_, _, _, _, _, rfl⟩ := hm.eq
    exact h rfl
  · cases e <;> simp_all [Event.priceSet, Event.depositId]

theorem Credited.snoc {d : Bytes32} {r : Depositor} {c : Entry} {l : List Entry} {e : Entry} (h : Credited d r c l)
    (he : e.event.depositId ≠ some d) : Credited d r c (l ++ [e]) where
  credit := h.credit
  latest := fun x hx => by
    obtain ⟨hc, hm, -⟩ := Event.not_about he
    rcases List.mem_append.mp hx with hx | hx
    · exact h.latest x hx
    · exact List.mem_singleton.mp hx ▸ ⟨hc, hm⟩
  priced := by
    have hnone := (Event.not_about he).2.2
    simp [List.filterMap_append, h.priced, hnone]

theorem Credited.price {d : Bytes32} {r : Depositor} {c : Entry} {l : List Entry} {time priceId : Uint256}
    (h : Credited d r c l) (unset : r.priceId = 0) :
    Credited d { r with priceId } c (l ++ [⟨time, .priceIdSetForDeposit d priceId⟩]) where
  credit := h.credit
  latest := fun x hx => by
    rcases List.mem_append.mp hx with hx | hx
    · exact h.latest x hx
    · rw [List.mem_singleton.mp hx]
      exact ⟨nofun, id⟩
  priced := by
    rw [List.filterMap_append, h.priced, if_pos unset, List.nil_append]
    by_cases hp : priceId = 0
    · simp [Event.priceSet, hp]
    · have hp' : ¬priceId = 0#256 := hp
      simp [Event.priceSet, hp']

theorem OpenStep.backed {d : Bytes32} {log : List Entry} {r : Depositor}
    (h : Trail (fun r e r' => OpenStep d r e.event r') 0 log r) : Backed d log r := by
  refine h.invariant (I := Backed d) (.inl rfl) fun log r e r' _ ih hstep => ?_
  obtain ⟨time, event⟩ := e
  obtain ⟨hs, hkeeps⟩ := hstep
  cases hs with
  | requested | servicedOffChain => exact .inr ⟨log, _, [], rfl, rfl, by simp, rfl⟩
  | minted => exact .inl rfl
  | priced known unset =>
    rcases ih with rfl | ⟨l₀, c, l, rfl, h⟩
    · exact absurd rfl known
    · exact .inr ⟨l₀, c, _, by rw [List.append_assoc, List.cons_append], h.price unset⟩
  | overwritten => exact absurd rfl (hkeeps _ _ _ _ _ _ _)
  | kept other =>
    rcases ih with rfl | ⟨l₀, c, l, rfl, h⟩
    · exact .inl rfl
    · exact .inr ⟨l₀, c, _, by rw [List.append_assoc, List.cons_append], h.snoc other⟩

/-! ### The timestamp behind a mint -/

/-- A timestamp that was not set before is set by an entry of the log. -/
theorem Posting.timestamp_set {m : Uint256} {g₀ g : Ledgers} {log : List Entry} (h : Trail (Posting m) g₀ log g)
    {d : Bytes32} (h₀ : g₀.depositIdToClaimableTimestamp d = 0) (hset : g.depositIdToClaimableTimestamp d ≠ 0) :
    ∃ e ∈ log, e.event = .claimableTimestampSet (g.depositIdToClaimableTimestamp d) d := by
  revert hset
  refine h.invariant (I := fun log g => g.depositIdToClaimableTimestamp d ≠ 0 →
      ∃ e ∈ log, e.event = .claimableTimestampSet (g.depositIdToClaimableTimestamp d) d) (fun h => absurd h₀ h)
    fun log g e g' _ ih hp hset => ?_
  obtain ⟨quote, hp⟩ := hp
  have hold : g'.depositIdToClaimableTimestamp d = g.depositIdToClaimableTimestamp d →
      ∃ x ∈ log ++ [e], x.event = .claimableTimestampSet (g'.depositIdToClaimableTimestamp d) d := fun heq => by
    obtain ⟨x, hx, hevent⟩ := ih (heq ▸ hset)
    exact ⟨x, List.mem_append_left _ hx, heq ▸ hevent⟩
  cases hp with
  | @mintCompleted time id =>
    by_cases hd : d = id
    · subst hd
      exact absurd (update_self ..) hset
    · exact hold (update_of_ne hd ..)
  | @claimableTimestampSet time claimTimestamp id =>
    by_cases hd : d = id
    · subst hd
      exact ⟨_, List.mem_append_right _ List.mem_cons_self, by simp only [update_self]⟩
    · exact hold (update_of_ne hd ..)
  | _ => exact hold rfl

/-! ### Mints and their credits -/

/-- What the log holds before a mint: the credit it pays out, priced once since, and a timestamp that has
    passed. -/
theorem mint_credited (h : Reachable X noOverwriteDepositor s) {l₁ l₂ : List Entry} {time : Uint256} {user : Address}
    {d : Bytes32} {out amount price priceId : Uint256}
    (hlog : s.events = l₁ ++ ⟨time, .mintCompleted user d out amount price priceId⟩ :: l₂) :
    (∃ l₀ c l, l₁ = l₀ ++ c :: l ∧ Credited d ⟨user, amount, priceId⟩ c l) ∧ priceId ≠ 0 ∧
      (∃ e ∈ l₁, ∃ timestamp, e.event = .claimableTimestampSet timestamp d ∧ timestamp ≤ time) ∧ price ≠ 0 ∧
      out.toNat = amount.toNat * s.decimalsMultiplier.toNat * 10 ^ 18 / price.toNat := by
  have hpath := h.deposit_posts
  rw [hlog] at hpath
  obtain ⟨g, g', hbefore, ⟨⟨quote, hp⟩, -⟩, -⟩ := hpath.split_at
  obtain ⟨hset, hpassed, hrecord, hpriced, -, hprice, hout⟩ := hp.mint_inv
  refine ⟨?_, hpriced, ?_, hprice, hout⟩
  · have hslot : Trail (fun r e r' => OpenStep d r e.event r') 0 l₁ (g.depositIdToDepositor d) := by
      refine hbefore.map (f := fun g => g.depositIdToDepositor d) fun g e g' hstep => ?_
      obtain ⟨⟨quote, hp⟩, hkeeps⟩ := hstep
      exact ⟨hp.depositStep d, hkeeps⟩
    rcases OpenStep.backed hslot with h0 | hbacked
    · rw [hrecord] at h0
      exact absurd (congrArg Depositor.priceId h0) hpriced
    · exact hrecord ▸ hbacked
  · obtain ⟨e, he, hevent⟩ :=
      Posting.timestamp_set (hbefore.mono fun g e g' _ hstep => hstep.1) rfl hset
    exact ⟨e, he, _, hevent, hpassed⟩

/-- The entries of a log strictly between two positions. -/
def between (log : List Entry) (j i : Nat) : List Entry := (log.take i).drop (j + 1)

theorem mem_between {log : List Entry} {j k i : Nat} {e : Entry} (hjk : j < k) (hki : k < i)
    (he : log[k]? = some e) : e ∈ between log j i := by
  rw [between, List.mem_iff_getElem?]
  refine ⟨k - (j + 1), ?_⟩
  rw [List.getElem?_drop, show j + 1 + (k - (j + 1)) = k by omega, List.getElem?_take_of_lt hki, he]

/-- The credit at position `j` of the log is the one that a mint at position `i` pays out. -/
structure PaidBy (log : List Entry) (i j : Nat) (user : Address) (d : Bytes32) (amount priceId : Uint256) : Prop where
  earlier : j < i
  credit : ∃ c, log[j]? = some c ∧ c.event.credit = some ⟨d, user, amount⟩
  latest : ∀ e ∈ between log j i, ¬e.event.Credits d ∧ ¬e.event.Mints d
  priced : (between log j i).filterMap (fun e => e.event.priceSet d) = [priceId]

theorem Credited.paidBy {user : Address} {d : Bytes32} {amount priceId : Uint256} {l₀ l l₂ : List Entry}
    {c m : Entry} (h : Credited d ⟨user, amount, priceId⟩ c l) (hp : priceId ≠ 0) :
    PaidBy (l₀ ++ c :: l ++ m :: l₂) (l₀ ++ c :: l).length l₀.length user d amount priceId := by
  have hbetween : between (l₀ ++ c :: l ++ m :: l₂) l₀.length (l₀ ++ c :: l).length = l := by
    rw [between, List.take_left, List.drop_append]
    simp
  refine ⟨by simp, ⟨c, by simp, h.credit⟩, ?_, ?_⟩
  · rw [hbetween]
    exact h.latest
  · rw [hbetween, h.priced, if_neg hp]

/-- A credit pays one mint only. -/
theorem PaidBy.inj {log : List Entry} {i i' j : Nat} {user user' : Address} {d d' : Bytes32}
    {amount amount' priceId priceId' : Uint256} {m m' : Entry} (hm : log[i]? = some m) (hm' : log[i']? = some m')
    (hd : m.event.Mints d) (hd' : m'.event.Mints d') (h : PaidBy log i j user d amount priceId)
    (h' : PaidBy log i' j user' d' amount' priceId') : i = i' := by
  obtain ⟨c, hc, hcredit⟩ := h.credit
  obtain ⟨c', hc', hcredit'⟩ := h'.credit
  obtain rfl : c = c' := Option.some.inj (hc.symm.trans hc')
  obtain rfl : d = d' := congrArg Credit.depositId (Option.some.inj (hcredit.symm.trans hcredit'))
  rcases Nat.lt_trichotomy i i' with hlt | heq | hlt
  · exact absurd hd (h'.latest m (mem_between h.earlier hlt hm)).2
  · exact heq
  · exact absurd hd' (h.latest m' (mem_between h'.earlier hlt hm')).2

/-! ### Sums for a user -/

/-- What a log credits a user with. -/
def credited (user : Address) (log : List Entry) : Nat := (log.map fun e => e.event.creditedTo user).sum

/-- What a log mints against the credits of a user. -/
def minted (user : Address) (log : List Entry) : Nat := (log.map fun e => e.event.mintedAgainst user).sum

/-- What a record still owes a user. -/
def Depositor.owes (user : Address) (r : Depositor) : Nat :=
  if r.user = user then r.amountDepositedMinusFees.toNat else 0

/-- The deposits of a user that are not minted yet. -/
def pendingDeposits (user : Address) (g : Ledgers) : Nat := Slots.total (Depositor.owes user) g.depositIdToDepositor

@[simp] theorem Depositor.owes_zero (user : Address) : Depositor.owes user 0 = 0 := by
  unfold Depositor.owes
  split <;> rfl

theorem Event.deposits_of_posted (user : Address) {e : Event} (h : e.posted = false) :
    e.mintedAgainst user = 0 ∧ e.creditedTo user = 0 := by
  cases e <;> simp_all [Event.posted, Event.mintedAgainst, Event.creditedTo, Event.credit]

/-- A posting pays a mint out of a pending deposit, and replaces a pending deposit at most by a smaller
    total. -/
theorem Posts.pendingDeposits_le {m : Uint256} {quote : Uint256 → Option Uint256} {g h : Ledgers} {e : Entry}
    (hp : Posts m quote g e h) (hkeeps : e.event.KeepsDepositors) (user : Address) :
    e.event.mintedAgainst user + pendingDeposits user h ≤ e.event.creditedTo user + pendingDeposits user g := by
  unfold pendingDeposits
  cases hp with
  | @mintRequested _ owner amount after fee counter =>
    have := Slots.total_update (w := Depositor.owes user) (f := g.depositIdToDepositor)
      (i := g.subscriptionRequestCounter) (b := ⟨owner, after, 0⟩)
    simp only [Event.mintedAgainst, Event.creditedTo, Event.credit, Depositor.owes] at this ⊢
    omega
  | @subscriptionRequestedServicedOffChain time owner amount after fee destination =>
    have := Slots.total_update (w := Depositor.owes user) (f := g.depositIdToDepositor)
      (i := destination) (b := ⟨owner, after, 0⟩)
    simp only [Event.mintedAgainst, Event.creditedTo, Event.credit, Depositor.owes] at this ⊢
    omega
  | @mintCompleted time id =>
    have := Slots.total_update (w := Depositor.owes user) (f := g.depositIdToDepositor) (i := id) (b := 0)
    simp only [Event.mintedAgainst, Event.creditedTo, Event.credit, Depositor.owes_zero] at this ⊢
    unfold Depositor.owes at this ⊢
    omega
  | @priceIdSetForDeposit time id priceId =>
    have := Slots.total_update (w := Depositor.owes user) (f := g.depositIdToDepositor) (i := id)
      (b := { g.depositIdToDepositor id with priceId })
    simp only [Event.mintedAgainst, Event.creditedTo, Event.credit, Depositor.owes] at this ⊢
    omega
  | depositorOverwritten => exact absurd rfl (hkeeps _ _ _ _ _ _ _)
  | other h =>
    obtain ⟨hminted, hcredited⟩ := Event.deposits_of_posted user h
    rw [hminted, hcredited]
  | _ => exact Nat.le_refl _

theorem minted_le_credited (h : Reachable X noOverwriteDepositor s) (user : Address) :
    minted user s.events + pendingDeposits user s.toLedgers ≤ credited user s.events := by
  refine h.deposit_posts.invariant (I := fun log g => minted user log + pendingDeposits user g ≤ credited user log)
    ?_ fun log g e g' _ ih hstep => ?_
  · have hempty : pendingDeposits user .empty = 0 := Slots.total_of_forall fun _ => Depositor.owes_zero user
    simp [minted, credited, hempty]
  · obtain ⟨⟨quote, hp⟩, hkeeps⟩ := hstep
    have := hp.pendingDeposits_le hkeeps user
    simp only [minted, credited, List.map_append, List.sum_append, List.map_cons, List.map_nil, List.sum_cons,
      List.sum_nil] at ih ⊢
    omega

/-! ### The mints of a run -/

theorem Call.Emits.mintCompleted {caller user : Address} {call : Call} {d : Bytes32}
    {out amount price priceId : Uint256} (h : call.Emits caller (.mintCompleted user d out amount price priceId)) :
    ∃ ids, call = .claimMint ids ∧ d ∈ ids := by
  cases call <;> simp_all [Call.Emits, Event.posted]

/-- A mint happens in a call of `claimMint`, at the price its pricer answers in that call. -/
theorem mint_exec {sender : Sender} {call : Call} (h : exec X sender.address call s = .ok t) {e : Entry}
    (he : e ∈ t.events.drop s.events.length) {user : Address} {d : Bytes32} {out amount price priceId : Uint256}
    (hm : e.event = .mintCompleted user d out amount price priceId) :
    (∃ ids, call = .claimMint ids ∧ d ∈ ids) ∧ e.time = s.now ∧ s.getPrice priceId = .ok price := by
  obtain ⟨new, moved, hb, hemits⟩ := exec_booked sender.ne_zero h
  rw [hb.events, List.drop_left] at he
  refine ⟨(hm ▸ hemits e he).mintCompleted, hb.stamped e he, getPrice_eq_ok.mpr ?_⟩
  obtain ⟨l₁, l₂, rfl⟩ := List.append_of_mem he
  obtain ⟨g, g', -, hp, -⟩ := hb.posts.split_at
  obtain ⟨time, event⟩ := e
  obtain rfl := hm
  exact hp.mint_inv.2.2.2.2.1

theorem exists_of_getElem? {log : List Entry} {i : Nat} {e : Entry} (h : log[i]? = some e) :
    ∃ l₁ l₂, log = l₁ ++ e :: l₂ ∧ l₁.length = i := by
  obtain ⟨hi, rfl⟩ := List.getElem?_eq_some_iff.mp h
  refine ⟨log.take i, log.drop (i + 1), ?_, List.length_take_of_le (Nat.le_of_lt hi)⟩
  rw [← List.drop_eq_getElem_cons hi, List.take_append_drop]

theorem mint_at (h : Reachable X noOverwriteDepositor s) (i : Nat) :
    ∃ j, ∀ time user d out amount price priceId,
      s.events[i]? = some ⟨time, .mintCompleted user d out amount price priceId⟩ →
      PaidBy s.events i j user d amount priceId ∧ priceId ≠ 0 ∧
      (∃ e ∈ s.events.take i, ∃ timestamp, e.event = .claimableTimestampSet timestamp d ∧ timestamp ≤ time) ∧
      price ≠ 0 ∧ out.toNat = amount.toNat * s.decimalsMultiplier.toNat * 10 ^ 18 / price.toNat := by
  by_cases hm : ∃ time user d out amount price priceId,
      s.events[i]? = some ⟨time, .mintCompleted user d out amount price priceId⟩
  · obtain ⟨time, user, d, out, amount, price, priceId, hi⟩ := hm
    obtain ⟨l₁, l₂, hlog, rfl⟩ := exists_of_getElem? hi
    obtain ⟨⟨l₀, c, l, rfl, hcredited⟩, hpriced, htimestamp, hprice, hout⟩ := mint_credited h hlog
    refine ⟨l₀.length, fun _ _ _ _ _ _ _ hi' => ?_⟩
    rw [hi, Option.some.injEq, Entry.mk.injEq, Event.mintCompleted.injEq] at hi'
    obtain ⟨rfl, rfl, rfl, rfl, rfl, rfl, rfl⟩ := hi'
    rw [hlog, List.take_left]
    exact ⟨hcredited.paidBy hpriced, hpriced, htimestamp, hprice, hout⟩
  · exact ⟨0, fun _ _ _ _ _ _ _ hi => absurd ⟨_, _, _, _, _, _, _, hi⟩ hm⟩

/-- The account of the mints of a state. -/
structure MintsCredited (X : Tokens T) (s : State T) : Prop where
  /-- Every mint has a credit of its own: the latest under its id, for the same user and amount, priced once
      in between. A timestamp set for the id has passed, and the amount minted is the credit at the price. -/
  source : ∃ source : Nat → Nat,
    (∀ i i' m m' d d', s.events[i]? = some m → m.event.Mints d → s.events[i']? = some m' → m'.event.Mints d' →
      source i = source i' → i = i') ∧
    ∀ i time user d out amount price priceId,
      s.events[i]? = some ⟨time, .mintCompleted user d out amount price priceId⟩ →
      PaidBy s.events i (source i) user d amount priceId ∧ priceId ≠ 0 ∧
      (∃ e ∈ s.events.take i, ∃ timestamp, e.event = .claimableTimestampSet timestamp d ∧ timestamp ≤ time) ∧
      price ≠ 0 ∧ out.toNat = amount.toNat * s.decimalsMultiplier.toNat * 10 ^ 18 / price.toNat
  /-- Mints happen in `claimMint`, at the price its pricer answers then. -/
  price : ∀ (sender : Sender) (call : Call) (t : State T), exec X sender.address call s = .ok t →
    ∀ e ∈ t.events.drop s.events.length, ∀ user d out amount price priceId,
      e.event = .mintCompleted user d out amount price priceId →
      (∃ ids, call = .claimMint ids ∧ d ∈ ids) ∧ e.time = s.now ∧ s.getPrice priceId = .ok price
  /-- The RWA token was asked to mint what the log tells. -/
  rwaCalls : s.calls.filter TokenCall.isRwa = s.events.filterMap (·.event.rwaCall)
  /-- No user mints against more than was credited. -/
  sum : ∀ user, minted user s.events + pendingDeposits user s.toLedgers ≤ credited user s.events

theorem mints_credited (h : Reachable X noOverwriteDepositor s) : MintsCredited X s := by
  refine ⟨?_, fun _ _ _ hexec _ he _ _ _ _ _ _ => mint_exec hexec he, h.rwaCalls, minted_le_credited h⟩
  choose source hsource using mint_at h
  refine ⟨source, fun i i' m m' d d' hi hm hi' hm' heq => ?_, hsource⟩
  obtain ⟨time, event⟩ := m
  obtain ⟨time', event'⟩ := m'
  obtain ⟨user, out, amount, price, priceId, rfl⟩ := hm.eq
  obtain ⟨user', out', amount', price', priceId', rfl⟩ := hm'.eq
  have hpaid := (hsource i _ _ _ _ _ _ _ hi).1
  rw [heq] at hpaid
  exact hpaid.inj hi hi' hm hm' (hsource i' _ _ _ _ _ _ _ hi').1

theorem mints_credited_history : MintsCredited Sample.tokens (run Sample.tokens Sample.state Sample.history) := by
  have hrun : noOverwriteDepositor.AllowsAll Sample.tokens Sample.state Sample.history :=
    Sample.history_allowed.of_any (by simp [Sample.history, noOverwriteDepositor, or_imp, forall_and])
      fun _ _ _ _ => trivial
  exact mints_credited ((Reachable.of_deployed Sample.state_deployed).run (run_path hrun))

end Usdy
