import Mathlib.Data.BitVec
import Usdy.Lib.Batch
import Usdy.Lib.PlainToken
import Usdy.Theorems.Booked

/-! Claims do not depend on how they are batched. With a plain collateral token, `claimRedemption` settles a
    batch of records: each settlement takes its record out of the ledgers, and what is due to the redeemers
    and to the fee recipient is one bill. `claimMint` does the same with deposits and a plain RWA token. -/

namespace Usdy
open Checked Function

variable {T : Type} {X : Tokens T} {s t u : State T}

/-! ### Plain tokens -/

/-- Transfers of the collateral are those of a plain token, which the manager spends. -/
structure PlainCollateral (X : Tokens T) where
  token : T → PlainToken 256 Address
  keepsMax : Bool
  transferFrom (views : Views) (tokens : T) (src dst : Address) (amount : Uint256) :
    (X.transferFrom views tokens src dst amount).map token =
      (token tokens).transferFrom keepsMax src dst amount.toNat

/-- Mints of the RWA token are those of a plain token. -/
structure PlainRwa (X : Tokens T) where
  token : T → PlainToken 256 Address
  mint (views : Views) (tokens : T) (dst : Address) (amount : Uint256) :
    (X.mint views tokens dst amount).map token = (token tokens).mint dst amount.toNat

/-! ### Redemptions -/

namespace Settlement
variable {redemptionId : Bytes32} {x : Settlement}

/-- Whom a settlement pays, and how much. -/
def payment (x : Settlement) : Address × Nat := (x.user, x.paid.toNat)

/-- The fees of a list of settlements. -/
def fees (xs : List Settlement) : Nat := (xs.map (·.fee.toNat)).sum

/-- The batches of `claimRedemption`: a payment to each redeemer, and the fees of all to their recipient. -/
def batch (s : State T) (keepsMax : Bool) :
    Batch Err Bytes32 Redeemer Settlement Ledgers (PlainToken 256 Address) (Address × Nat) where
  read := Ledgers.redemptionIdToRedeemer
  delete := Ledgers.settled
  settle := s.settlement
  Pay := PlainToken.Pays keepsMax s.assetSender
  bill xs := xs.map payment ++ PlainToken.due s.feeRecipient (fees xs)
  read_delete := Ledgers.settled_of_ne
  delete_comm h := by simp only [Ledgers.settled, update_comm h]
  settle_deleted {g redemptionId x} h := (inv h).2.2 (by rw [Ledgers.settled_self]; rfl)
  pay_functional := PlainToken.Pays.functional
  pay_comm := PlainToken.Pays.comm
  bill_perm {xs ys} h := by
    rw [show fees xs = fees ys from (h.map _).sum_eq]
    exact (h.map payment).append_right _
  bill_append {xs ys t u} := by
    have hsplit : Trail (PlainToken.Pays keepsMax s.assetSender) t
          ((xs ++ ys).map payment ++ PlainToken.due s.feeRecipient (fees (xs ++ ys))) u ↔
        Trail (PlainToken.Pays keepsMax s.assetSender) t (xs.map payment ++ (ys.map payment ++
          (PlainToken.due s.feeRecipient (fees xs) ++ PlainToken.due s.feeRecipient (fees ys)))) u := by
      rw [show fees (xs ++ ys) = fees xs + fees ys by simp [fees], List.map_append, Trail.append_iff,
        ← List.append_assoc, Trail.append_iff]
      simp only [PlainToken.trail_due_add]
    -- The bills of the two parts are the payments of both, then the fees of both, in another order.
    rw [hsplit, List.append_assoc]
    refine Trail.perm_iff (fun _ _ _ _ _ => PlainToken.Pays.comm) ?_
    exact (List.perm_append_comm_assoc _ _ _).append_left _

/-- Every record that the ids name, and that is priced, is that of another account than the sender. -/
def Apart (sender : Address) (ids : List Bytes32) (g : Ledgers) : Prop :=
  ∀ id ∈ ids, (g.redemptionIdToRedeemer id).priceId ≠ 0 → (g.redemptionIdToRedeemer id).user ≠ sender

theorem Apart.settled {sender : Address} {ids : List Bytes32} {g : Ledgers} (h : Apart sender ids g) :
    Apart sender ids (g.settled redemptionId) := by
  intro id hid hpriced
  by_cases heq : id = redemptionId
  · rw [heq, Ledgers.settled_self] at hpriced
    exact absurd rfl hpriced
  · rw [Ledgers.settled_of_ne heq] at hpriced ⊢
    exact h id hid hpriced

end Settlement

namespace PlainCollateral
variable (P : PlainCollateral X)

/-- The state of the ledgers and of the collateral. -/
def view (s : State T) : Ledgers × PlainToken 256 Address := (s.toLedgers, P.token s.tokens)

variable {P}

theorem transferFrom_iff {views : Views} {tokens : T} {src dst : Address} {amount : Uint256}
    {w : PlainToken 256 Address} :
    (∃ tokens', X.transferFrom views tokens src dst amount = some tokens' ∧ P.token tokens' = w) ↔
      (P.token tokens).transferFrom P.keepsMax src dst amount.toNat = some w := by
  rw [← P.transferFrom views, Option.map_eq_some_iff]

theorem moves_due_iff {views : Views} {tokens : T} {src dst : Address} {amount : Uint256} {w : PlainToken 256 Address}
    (hne : dst ≠ src) :
    (∃ tokens', X.Moves views tokens (if amount > 0 then [.transferFrom src dst amount] else []) tokens' ∧
        P.token tokens' = w) ↔
      Trail (PlainToken.Pays P.keepsMax src) (P.token tokens) (PlainToken.due dst amount.toNat) w := by
  unfold PlainToken.due
  by_cases hpos : amount > 0
  · have hpos' : amount.toNat > 0 := hpos
    rw [if_pos hpos, if_pos hpos']
    simp only [Trail.single_iff, Tokens.exec, transferFrom_iff]
    exact ⟨fun h => ⟨hne, h⟩, fun h => h.transfer⟩
  · have hpos' : ¬amount.toNat > 0 := hpos
    rw [if_neg hpos, if_neg hpos']
    simp only [Trail.nil_iff, exists_eq_left']

/-- The loop settles a batch, and collects its fees. -/
theorem settles_of_loop : ∀ {ids : List Bytes32} {s u : State T} {fees fees' : Uint256},
    Settlement.Apart s.assetSender ids s.toLedgers →
    ids.foldlM (RWAHub.settleRedemption X) (s, fees) = .ok (u, fees') →
    ∃ (xs : List (Bytes32 × Settlement)) (calls : List TokenCall) (events : List Entry),
      u = s.moved u.toLedgers u.tokens calls events ∧ xs.map Prod.fst = ids ∧
      Trail (Settlement.batch s P.keepsMax).Takes s.toLedgers xs u.toLedgers ∧
      Trail (PlainToken.Pays P.keepsMax s.assetSender) (P.token s.tokens) ((xs.map Prod.snd).map Settlement.payment)
        (P.token u.tokens) ∧
      fees'.toNat = fees.toNat + Settlement.fees (xs.map Prod.snd)
  | [], s, u, fees, fees', _, h => by
    rw [List.foldlM_nil, pure_eq_ok, Prod.mk.injEq] at h
    obtain ⟨rfl, rfl⟩ := h
    exact ⟨[], _, _, rfl, rfl, .nil _, .nil _, rfl⟩
  | id :: ids, s, u, fees, fees', hapart, h => by
    rw [List.foldlM_cons, bind_eq_ok] at h
    obtain ⟨⟨t, fees₁⟩, ht, h⟩ := h
    obtain ⟨x, tokens, hx, hmove, hfees, rfl⟩ := RWAHub.settleRedemption_eq_ok.mp ht
    obtain ⟨-, huser, hpriced⟩ := Settlement.inv hx
    -- A record that was deleted has no price id, so what the loop reads stays apart from the sender.
    have hother : x.user ≠ s.assetSender := huser ▸ hapart _ List.mem_cons_self hpriced
    obtain ⟨xs, calls, events, hu, rfl, htake, hpay, hfees'⟩ :=
      settles_of_loop (fun k hk => hapart.settled k (List.mem_cons_of_mem _ hk)) h
    refine ⟨(id, x) :: xs, calls, events, hu, rfl, Trail.cons_iff.mpr ⟨_, ⟨hx, rfl⟩, htake⟩,
      Trail.cons_iff.mpr ⟨_, ⟨hother, transferFrom_iff.mp ⟨tokens, hmove, rfl⟩⟩, hpay⟩, ?_⟩
    rw [hfees', hfees, List.map_cons, Settlement.fees, Settlement.fees, List.map_cons, List.sum_cons, Nat.add_assoc]

/-- The loop settles every batch that can be settled, when a word holds its fees. -/
theorem loop_of_settles : ∀ {xs : List (Bytes32 × Settlement)} {s : State T} {fees : Uint256} {g : Ledgers}
    {w : PlainToken 256 Address}, Trail (Settlement.batch s P.keepsMax).Takes s.toLedgers xs g →
    Trail (PlainToken.Pays P.keepsMax s.assetSender) (P.token s.tokens) ((xs.map Prod.snd).map Settlement.payment) w →
    fees.toNat + Settlement.fees (xs.map Prod.snd) < 2 ^ 256 →
    ∃ tokens calls events, ∃ fees' : Uint256, P.token tokens = w ∧
      fees'.toNat = fees.toNat + Settlement.fees (xs.map Prod.snd) ∧
      (xs.map Prod.fst).foldlM (RWAHub.settleRedemption X) (s, fees) = .ok (s.moved g tokens calls events, fees')
  | [], s, fees, g, w, htake, hpay, _ => by
    obtain rfl := htake.eq_of_nil
    obtain rfl := hpay.eq_of_nil
    exact ⟨s.tokens, s.calls, s.events, fees, rfl, rfl, rfl⟩
  | (id, x) :: xs, s, fees, g, w, htake, hpay, hfit => by
    obtain ⟨h, hx, htake⟩ := Trail.cons_iff.mp htake
    obtain ⟨w₁, hpays, hpay⟩ := Trail.cons_iff.mp hpay
    obtain ⟨tokens, hmove, rfl⟩ := transferFrom_iff.mpr hpays.transfer
    obtain ⟨hsettles, rfl⟩ := hx
    have hsum : Settlement.fees (x :: xs.map Prod.snd) = x.fee.toNat + Settlement.fees (xs.map Prod.snd) :=
      List.sum_cons
    rw [List.map_cons, hsum] at hfit
    obtain ⟨fees₁, hfees⟩ := exists_word (n := fees.toNat + x.fee.toNat) (w := 256) (by omega)
    have hpass := RWAHub.settleRedemption_eq_ok.mpr ⟨x, tokens, hsettles, hmove, hfees, rfl⟩
    have hfit : fees₁.toNat + Settlement.fees (xs.map Prod.snd) < 2 ^ 256 := by omega
    obtain ⟨tokens', calls, events, fees', hw, hfees', hloop⟩ :=
      loop_of_settles (s := s.moved (s.toLedgers.settled id) tokens _ _) htake hpay hfit
    refine ⟨tokens', calls, events, fees', hw, by rw [List.map_cons, hsum]; omega, ?_⟩
    rw [List.map_cons, List.foldlM_cons, bind_eq_ok]
    exact ⟨_, hpass, hloop⟩

/-- A call that succeeds settles its batch, and writes nothing but the ledgers, the tokens and the logs. -/
theorem settles_of_claim {ids : List Bytes32} (hne : s.feeRecipient ≠ s.assetSender)
    (hapart : Settlement.Apart s.assetSender ids s.toLedgers) (h : RWAHub.claimRedemption X ids s = .ok t) :
    (s.status ≠ 2 ∧ s.redemptionPaused = false) ∧
      (Settlement.batch s P.keepsMax).Settles (P.view s) ids (P.view t) ∧
      t = { s with status := 1 }.moved t.toLedgers t.tokens t.calls t.events := by
  obtain ⟨u, fees, tokens, moved, hstatus, hpaused, hloop, rfl, hmoves, rfl⟩ := RWAHub.claimRedemption_eq_ok.mp h
  obtain ⟨xs, calls, events, hu, hids, htake, hpay, hfees⟩ :=
    settles_of_loop (P := P) (s := { s with status := 2 }) hapart hloop
  have hsender : u.assetSender = s.assetSender := by rw [hu]; rfl
  have hrecipient : u.feeRecipient = s.feeRecipient := by rw [hu]; rfl
  rw [hsender, hrecipient] at hmoves
  have hdue := (moves_due_iff (P := P) hne).mp ⟨tokens, hmoves, rfl⟩
  rw [hfees, show (0 : Uint256).toNat = 0 from rfl, Nat.zero_add] at hdue
  refine ⟨⟨hstatus, hpaused⟩, ⟨xs, hids, htake, hpay.append hdue⟩, ?_⟩
  rw [hu]
  rfl

/-- The batches that can be settled are settled. -/
theorem claim_of_settles {ids : List Bytes32} {b : Ledgers × PlainToken 256 Address}
    (hne : s.feeRecipient ≠ s.assetSender) (hstatus : s.status ≠ 2)
    (hpaused : s.redemptionPaused = false) (hb : (Settlement.batch s P.keepsMax).Settles (P.view s) ids b) :
    ∃ t, RWAHub.claimRedemption X ids s = .ok t ∧ P.view t = b := by
  obtain ⟨xs, rfl, htake, hpay⟩ := hb
  obtain ⟨w, hpay, hdue⟩ := hpay.split
  -- The sender has the balance to pay the fees, so their sum does not overflow.
  have hfit : (0 : Uint256).toNat + Settlement.fees (xs.map Prod.snd) < 2 ^ 256 := by
    have hlt := PlainToken.due_fits hdue
    rwa [show (0 : Uint256).toNat = 0 from rfl, Nat.zero_add]
  obtain ⟨tokens, calls, events, fees, rfl, hfees, hloop⟩ :=
    loop_of_settles (s := { s with status := 2 }) htake hpay hfit
  rw [show (0 : Uint256).toNat = 0 from rfl, Nat.zero_add] at hfees
  rw [← hfees] at hdue
  obtain ⟨tokens', hmoves, hb⟩ := (moves_due_iff hne).mpr hdue
  exact ⟨_, RWAHub.claimRedemption_eq_ok.mpr ⟨_, fees, tokens', _, hstatus, hpaused, hloop, rfl, hmoves, rfl⟩,
    Prod.ext rfl hb⟩

theorem claimRedemption_iff {ids : List Bytes32} {b : Ledgers × PlainToken 256 Address}
    (hne : s.feeRecipient ≠ s.assetSender) (hapart : Settlement.Apart s.assetSender ids s.toLedgers) :
    (∃ t, RWAHub.claimRedemption X ids s = .ok t ∧ P.view t = b) ↔
      (s.status ≠ 2 ∧ s.redemptionPaused = false) ∧ (Settlement.batch s P.keepsMax).Settles (P.view s) ids b := by
  constructor
  · rintro ⟨t, h, rfl⟩
    obtain ⟨hgate, hsettles, -⟩ := settles_of_claim (P := P) hne hapart h
    exact ⟨hgate, hsettles⟩
  · rintro ⟨⟨hstatus, hpaused⟩, hsettles⟩
    exact claim_of_settles hne hstatus hpaused hsettles

theorem claimRedemption_regroups {xs ys : List Bytes32} (hne : s.feeRecipient ≠ s.assetSender)
    (hapart : Settlement.Apart s.assetSender (xs ++ ys) s.toLedgers) :
    Regroups (RWAHub.claimRedemption X) P.view s xs ys := by
  refine Batch.regroups (fun _ _ hks => claimRedemption_iff hne fun id hid => hapart id (hks id hid)) fun u b h => ?_
  have hleft : Settlement.Apart s.assetSender xs s.toLedgers := fun id hid => hapart id (List.mem_append_left ys hid)
  obtain ⟨⟨hstatus, hpaused⟩, ⟨zs, -, htake, -⟩, hu⟩ := settles_of_claim (P := P) hne hleft h
  have hlater : Settlement.Apart s.assetSender (xs ++ ys) u.toLedgers :=
    htake.preserves hapart fun _ _ _ hg hx => hx.2 ▸ hg.settled
  -- The second batch is settled as the first state settles it: what it reads of the state is the same.
  generalize u.toLedgers = g, u.tokens = tokens, u.calls = calls, u.events = events at hu hlater
  subst hu
  have hiff := claimRedemption_iff (P := P) (b := b) (s := { s with status := 1 }.moved g tokens calls events) hne
    fun id hid => hlater id (List.mem_append_right xs hid)
  exact hiff.trans (and_congr_left' ⟨fun _ => ⟨hstatus, hpaused⟩, fun _ => ⟨(by decide : (1 : Uint256) ≠ 2), hpaused⟩⟩)

end PlainCollateral

/-! ### Mints -/

namespace Minting

/-- For whom a claim mints, and how much. -/
def payment (x : Minting) : Address × Nat := (x.user, x.rwaOwed.toNat)

/-- The batches of `claimMint`: a mint to each depositor. -/
def batch (s : State T) :
    Batch Err Bytes32 (Uint256 × Depositor) Minting Ledgers (PlainToken 256 Address) (Address × Nat) where
  read := Ledgers.deposit
  delete := Ledgers.minted
  settle := s.minting
  Pay := PlainToken.Mints
  bill := List.map payment
  read_delete := Ledgers.minted_of_ne
  delete_comm h := by simp only [Ledgers.minted, update_comm h]
  settle_deleted {g depositId x} h := (inv h).1 (by rw [Ledgers.minted_self])
  pay_functional := PlainToken.Mints.functional
  pay_comm := PlainToken.Mints.comm
  bill_perm h := h.map payment
  bill_append {xs ys t u} := by rw [List.map_append]

end Minting

namespace PlainRwa
variable (R : PlainRwa X)

/-- The state of the ledgers and of the RWA token. -/
def view (s : State T) : Ledgers × PlainToken 256 Address := (s.toLedgers, R.token s.tokens)

variable {R}

theorem mint_iff {views : Views} {tokens : T} {dst : Address} {amount : Uint256} {w : PlainToken 256 Address} :
    (∃ tokens', X.mint views tokens dst amount = some tokens' ∧ R.token tokens' = w) ↔
      (R.token tokens).mint dst amount.toNat = some w := by
  rw [← R.mint views, Option.map_eq_some_iff]

theorem settles_of_loop : ∀ {ids : List Bytes32} {s u : State T},
    ids.foldlM (fun s depositId => USDYManager.internalClaimMint X depositId s) s = .ok u →
    ∃ calls events, u = s.moved u.toLedgers u.tokens calls events ∧ (Minting.batch s).Settles (R.view s) ids (R.view u)
  | [], s, u, h => by
    rw [List.foldlM_nil, pure_eq_ok] at h
    obtain rfl := h
    exact ⟨_, _, rfl, [], rfl, .nil _, .nil _⟩
  | id :: ids, s, u, h => by
    rw [List.foldlM_cons, bind_eq_ok] at h
    obtain ⟨t, ht, h⟩ := h
    obtain ⟨x, tokens, hx, hmint, rfl⟩ := USDYManager.internalClaimMint_eq_ok.mp ht
    obtain ⟨calls, events, hu, xs, rfl, htake, hpay⟩ := settles_of_loop h
    exact ⟨calls, events, hu, (id, x) :: xs, rfl, Trail.cons_iff.mpr ⟨_, ⟨hx, rfl⟩, htake⟩,
      Trail.cons_iff.mpr ⟨_, mint_iff.mp ⟨tokens, hmint, rfl⟩, hpay⟩⟩

theorem loop_of_settles : ∀ {xs : List (Bytes32 × Minting)} {s : State T} {g : Ledgers} {w : PlainToken 256 Address},
    Trail (Minting.batch s).Takes s.toLedgers xs g →
    Trail PlainToken.Mints (R.token s.tokens) ((xs.map Prod.snd).map Minting.payment) w →
    ∃ tokens calls events, R.token tokens = w ∧
      (xs.map Prod.fst).foldlM (fun s depositId => USDYManager.internalClaimMint X depositId s) s =
        .ok (s.moved g tokens calls events)
  | [], s, g, w, htake, hpay => by
    obtain rfl := htake.eq_of_nil
    obtain rfl := hpay.eq_of_nil
    exact ⟨s.tokens, s.calls, s.events, rfl, rfl⟩
  | (id, x) :: xs, s, g, w, htake, hpay => by
    obtain ⟨h, hx, htake⟩ := Trail.cons_iff.mp htake
    obtain ⟨w₁, hmints, hpay⟩ := Trail.cons_iff.mp hpay
    obtain ⟨tokens, hmint, rfl⟩ := mint_iff.mpr hmints
    obtain ⟨hsettles, rfl⟩ := hx
    have hpass := USDYManager.internalClaimMint_eq_ok.mpr ⟨x, tokens, hsettles, hmint, rfl⟩
    obtain ⟨tokens', calls, events, hw, hloop⟩ :=
      loop_of_settles (s := s.moved (s.toLedgers.minted id) tokens _ _) htake hpay
    refine ⟨tokens', calls, events, hw, ?_⟩
    rw [List.map_cons, List.foldlM_cons, bind_eq_ok]
    exact ⟨_, hpass, hloop⟩

/-- `claimMint` succeeds on the batches that can be settled, and settles them. -/
theorem claimMint_iff {ids : List Bytes32} {b : Ledgers × PlainToken 256 Address} :
    (∃ t, USDYManager.claimMint X ids s = .ok t ∧ R.view t = b) ↔
      (s.status ≠ 2 ∧ s.subscriptionPaused = false) ∧ (Minting.batch s).Settles (R.view s) ids b := by
  constructor
  · rintro ⟨t, h, rfl⟩
    obtain ⟨u, hstatus, hpaused, hloop, rfl⟩ := RWAHub.claimMint_eq_ok.mp h
    obtain ⟨-, -, -, hsettles⟩ := settles_of_loop (R := R) hloop
    exact ⟨⟨hstatus, hpaused⟩, hsettles⟩
  · rintro ⟨⟨hstatus, hpaused⟩, xs, rfl, htake, hpay⟩
    obtain ⟨tokens, calls, events, hw, hloop⟩ := loop_of_settles (s := { s with status := 2 }) htake hpay
    exact ⟨_, RWAHub.claimMint_eq_ok.mpr ⟨_, hstatus, hpaused, hloop, rfl⟩, Prod.ext rfl hw⟩

theorem claimMint_regroups {xs ys : List Bytes32} : Regroups (USDYManager.claimMint X) R.view s xs ys := by
  refine Batch.regroups (fun _ _ _ => claimMint_iff) fun u b h => ?_
  obtain ⟨v, hstatus, hpaused, hloop, rfl⟩ := RWAHub.claimMint_eq_ok.mp h
  obtain ⟨calls, events, hv, -⟩ := settles_of_loop (R := R) hloop
  generalize v.toLedgers = g, v.tokens = tokens at hv
  subst hv
  have hiff : (∃ t, USDYManager.claimMint X ys ({ s with status := 1 }.moved g tokens calls events) = .ok t ∧
    R.view t = b) ↔ _ := claimMint_iff
  exact hiff.trans (and_congr_left' ⟨fun _ => ⟨hstatus, hpaused⟩, fun _ => ⟨(by decide : (1 : Uint256) ≠ 2), hpaused⟩⟩)

end PlainRwa

/-- Neither the order of the claims nor their grouping into batches matters: the same batches succeed, and
    they leave the same ledgers, collateral balances and allowances, or the same deposits, timestamps and RWA
    balances. -/
theorem claims_regroup (P : PlainCollateral X) (R : PlainRwa X) (s : State T) (xs ys : List Bytes32) :
    (s.assetSender ≠ s.feeRecipient → (∀ id ∈ xs ++ ys, (s.redemptionIdToRedeemer id).user ≠ s.assetSender) →
      Regroups (RWAHub.claimRedemption X) P.view s xs ys) ∧
    Regroups (USDYManager.claimMint X) R.view s xs ys :=
  ⟨fun hne hapart => PlainCollateral.claimRedemption_regroups hne.symm fun id hid _ => hapart id hid,
    PlainRwa.claimMint_regroups⟩

namespace Sample

/-- Collateral of which the asset sender holds 1000, and lets the manager move 800. -/
def collateral : PlainToken 256 Address where
  balances := PlainToken.credited (fun _ => 0) deployment.assetSender 1000
  allowances _ := 800
  supply := 1000
  backed := by
    have hnone : Slots.total id (fun _ : Address => 0) = 0 := Slots.total_of_forall fun _ => rfl
    rw [PlainToken.total_credited, hnone]
  fits := by decide
  allowed _ := by decide

/-- RWA tokens before anything is minted. -/
def rwa : PlainToken 256 Address where
  balances _ := 0
  allowances _ := 0
  supply := 0
  backed := Slots.total_of_forall fun _ => rfl
  fits := by decide
  allowed _ := by decide

/-- Both tokens are plain. Nothing burns here. -/
def plainTokens : Tokens (PlainToken 256 Address × PlainToken 256 Address) where
  mint _ tokens dst amount := (tokens.2.mint dst amount.toNat).map fun rwa => (tokens.1, rwa)
  burnFrom _ _ _ _ := none
  transferFrom _ tokens src dst amount :=
    (tokens.1.transferFrom true src dst amount.toNat).map fun collateral => (collateral, tokens.2)

/-- The collateral is the first of the two. -/
def plainCollateral : PlainCollateral plainTokens where
  token := Prod.fst
  keepsMax := true
  transferFrom _ tokens src dst amount := by simp [plainTokens, Function.comp_def]

/-- The RWA token is the second. -/
def plainRwa : PlainRwa plainTokens where
  token := Prod.snd
  mint _ tokens dst amount := by simp [plainTokens, Function.comp_def]

theorem deploy_plain_isSome : (deploy deployment 1000 views (collateral, rwa)).toOption.isSome = true := by
  decide +kernel

/-- Two redemptions and two deposits that can be claimed. -/
def claimable : State (PlainToken 256 Address × PlainToken 256 Address) :=
  run plainTokens ((deploy deployment 1000 views (collateral, rwa)).toOption.get deploy_plain_isSome)
    [.call admin (.grantRole .timestampSetter admin.address),
     .call admin (.admin (.setRedemptionFee 200)),
     .call admin (.overwriteRedeemer 1 alice.address 300 1),
     .call admin (.overwriteRedeemer 2 bob.address 400 1),
     .call admin (.overwriteDepositor 3 alice.address 500 1),
     .call admin (.overwriteDepositor 4 bob.address 600 1),
     .call admin (.setClaimableTimestamp 1500 [3, 4]),
     .block 2000]

end Sample

theorem claims_regroup_claimable :
    (RWAHub.claimRedemption Sample.plainTokens ([1] ++ [2]) Sample.claimable).toOption.isSome = true ∧
      Regroups (RWAHub.claimRedemption Sample.plainTokens) Sample.plainCollateral.view Sample.claimable [1] [2] ∧
      (USDYManager.claimMint Sample.plainTokens ([3] ++ [4]) Sample.claimable).toOption.isSome = true ∧
      Regroups (USDYManager.claimMint Sample.plainTokens) Sample.plainRwa.view Sample.claimable [3] [4] :=
  ⟨by decide +kernel,
    (claims_regroup Sample.plainCollateral Sample.plainRwa Sample.claimable [1] [2]).1 (by decide +kernel)
      (List.forall_mem_cons.mpr ⟨by decide +kernel, List.forall_mem_singleton.mpr (by decide +kernel)⟩),
    by decide +kernel, (claims_regroup Sample.plainCollateral Sample.plainRwa Sample.claimable [3] [4]).2⟩

end Usdy
