import Usdy.Reentry
import Usdy.Theorems.Roles

/-! Callbacks gain nothing. While the guard is up, an account without a role can do nothing that changes the manager,
    so a call with callbacks from such accounts leaves what the same call leaves with tokens that only return or
    revert, and every run with callbacks is a run without them. -/

namespace Usdy
open Checked Function State

variable {T : Type} {X : Tokens T} {react : Reactions T} {token : TokenStep T} {s t : State T} {a : AccessControl}
  {caller : Address} {call : Call} {amount : Uint256}

/-! ### Inside a call -/

/-- The guard is up, and the roles are those from before the call. -/
structure State.Entered (s : State T) (a : AccessControl) : Prop where
  status : s.status = 2
  roles : s.toAccessControl = a

/-- Inside a call the token does what tokens do that only return or revert. -/
def TokenStep.Plain (token : TokenStep T) (X : Tokens T) (a : AccessControl) : Prop :=
  ∀ s call, s.Entered a → token s call = X.step s call

theorem State.Entered.step {call : TokenCall} (hs : s.Entered a) (h : X.step s call = .ok t) : t.Entered a := by
  obtain ⟨tokens, -, rfl⟩ := Tokens.step_eq_ok.mp h
  exact ⟨hs.status, hs.roles⟩

namespace TokenStep.Plain
variable (h : token.Plain X a)
include h

theorem bind {β : Type} {call : TokenCall} {f g : State T → Except Err β} (hs : s.Entered a)
    (hfg : ∀ t, t.Entered a → f t = g t) : (token s call >>= f) = (X.step s call >>= g) := by
  rw [h s call hs]
  exact bind_congr_ok fun t ht => hfg t (hs.step ht)

theorem ite {c : Prop} [Decidable c] {call : TokenCall} (hs : s.Entered a) :
    (if c then token s call else pure s) = (if c then X.step s call else pure s) := by
  rw [h s call hs]

theorem ite_bind {β : Type} {c : Prop} [Decidable c] {call : TokenCall} {f g : State T → Except Err β}
    (hs : s.Entered a) (hfg : ∀ t, t.Entered a → f t = g t) :
    ((if c then token s call else pure s) >>= f) = ((if c then X.step s call else pure s) >>= g) := by
  split
  · exact h.bind hs hfg
  · exact hfg s hs

end TokenStep.Plain

theorem nonReentrant_congr {f g : State T → Except Err (State T)} (hs : s.toAccessControl = a)
    (hfg : ∀ s, s.Entered a → f s = g s) : nonReentrant f s = nonReentrant g s := by
  have hbody : f { s with status := 2 } = g { s with status := 2 } := hfg _ ⟨rfl, hs⟩
  refine bind_congr fun _ => ?_
  rw [hbody]

/-! ### The functions that call a token

They check the same before their first call to a token, whatever the token does. -/

namespace Reentry

theorem requestSubscription_congr (h : token.Plain X a) (hs : s.toAccessControl = a) :
    RWAHub.requestSubscription token caller amount s = RWAHub.requestSubscription X caller amount s := by
  refine nonReentrant_congr hs fun s hs => ?_
  repeat refine bind_congr fun _ => ?_
  exact h.ite_bind ⟨hs.status, hs.roles⟩ fun t ht => h.bind ht fun _ _ => rfl

theorem redeem_congr {paused : State T → Bool} {minimum maximum : State T → Uint256} {record : State T → Uint256 → State T}
    {event : State T → Event} (h : token.Plain X a) (hs : s.toAccessControl = a)
    (hrecord : ∀ s counter, s.Entered a → (record s counter).Entered a) :
    redeem token caller amount paused minimum maximum record event s =
      redeem X caller amount paused minimum maximum record event s := by
  refine nonReentrant_congr hs fun s hs => ?_
  repeat refine bind_congr fun _ => ?_
  exact h.bind (hrecord s _ hs) fun _ _ => rfl

theorem requestRedemption_congr (h : token.Plain X a) (hs : s.toAccessControl = a) :
    RWAHub.requestRedemption token caller amount s = RWAHub.requestRedemption X caller amount s := by
  rw [RWAHub.requestRedemption_eq, RWAHub.requestRedemption_eq]
  exact redeem_congr h hs fun _ _ hs => ⟨hs.status, hs.roles⟩

theorem requestRedemptionServicedOffchain_congr {offChainDestination : Bytes32} (h : token.Plain X a)
    (hs : s.toAccessControl = a) :
    RWAHubOffChainRedemptions.requestRedemptionServicedOffchain token caller amount offChainDestination s =
      RWAHubOffChainRedemptions.requestRedemptionServicedOffchain X caller amount offChainDestination s := by
  rw [RWAHubOffChainRedemptions.requestRedemptionServicedOffchain_eq,
    RWAHubOffChainRedemptions.requestRedemptionServicedOffchain_eq]
  exact redeem_congr h hs fun _ _ hs => ⟨hs.status, hs.roles⟩

theorem internalClaimMint_congr {depositId : Bytes32} (h : token.Plain X a) (hs : s.Entered a) :
    USDYManager.internalClaimMint token depositId s = USDYManager.internalClaimMint X depositId s := by
  have hpass : RWAHub.internalClaimMint token depositId s = RWAHub.internalClaimMint X depositId s := by
    repeat refine bind_congr fun _ => ?_
    exact h.bind ⟨hs.status, hs.roles⟩ fun _ _ => rfl
  simp only [USDYManager.internalClaimMint, hpass]

theorem claimMint_congr {depositIds : List Bytes32} (h : token.Plain X a) (hs : s.toAccessControl = a) :
    USDYManager.claimMint token depositIds s = USDYManager.claimMint X depositIds s := by
  simp only [USDYManager.claimMint, RWAHub.claimMint]
  refine nonReentrant_congr hs fun s hs => ?_
  refine bind_congr fun _ => ?_
  refine foldlM_congr (I := fun s : State T => s.Entered a) (fun s id hs => internalClaimMint_congr h hs)
    (fun s id t hs ht => ?_) hs
  obtain ⟨x, tokens, -, -, rfl⟩ := USDYManager.internalClaimMint_eq_ok.mp ht
  exact ⟨hs.status, hs.roles⟩

theorem settleRedemption_congr {acc : State T × Uint256} {redemptionId : Bytes32} (h : token.Plain X a)
    (hs : acc.1.Entered a) :
    RWAHub.settleRedemption token acc redemptionId = RWAHub.settleRedemption X acc redemptionId := by
  repeat refine bind_congr fun _ => ?_
  exact h.bind ⟨hs.status, hs.roles⟩ fun _ _ => rfl

theorem claimRedemption_congr {redemptionIds : List Bytes32} (h : token.Plain X a) (hs : s.toAccessControl = a) :
    RWAHub.claimRedemption token redemptionIds s = RWAHub.claimRedemption X redemptionIds s := by
  refine nonReentrant_congr hs fun s hs => ?_
  refine bind_congr fun _ => ?_
  have hkeeps : ∀ (acc : State T × Uint256) (id : Bytes32) (acc' : State T × Uint256), acc.1.Entered a →
      RWAHub.settleRedemption X acc id = .ok acc' → acc'.1.Entered a := by
    intro acc id acc' hacc hok
    obtain ⟨x, tokens, -, -, -, heq⟩ := RWAHub.settleRedemption_eq_ok.mp hok
    rw [heq]
    exact ⟨hacc.status, hacc.roles⟩
  rw [foldlM_congr (I := fun acc : State T × Uint256 => acc.1.Entered a)
    (fun acc id hacc => settleRedemption_congr h hacc) hkeeps hs]
  exact bind_congr_ok fun acc hacc => h.ite
    (foldlM_keeps (I := fun acc : State T × Uint256 => acc.1.Entered a) hkeeps hs hacc)

theorem serve_congr {r : Request} (h : token.Plain X a) (hs : s.toAccessControl = a)
    (hr : call.request caller = some r) : call.serve token caller s = call.serve X caller s := by
  cases call with
  | requestSubscription amount => exact requestSubscription_congr h hs
  | requestSubscriptionServicedOffchain user amount offChainDestination => rfl
  | requestRedemption amount => exact requestRedemption_congr h hs
  | requestRedemptionServicedOffchain amount offChainDestination => exact requestRedemptionServicedOffchain_congr h hs
  | _ => cases hr

/-- Where a token behaves inside of a call as one that only returns or reverts, so does the call. -/
theorem execBy_congr (h : token.Plain X a) (hs : s.toAccessControl = a) :
    execBy token caller call s = exec X caller call s := by
  cases hr : call.request caller with
  | some r =>
    rw [execBy_request hr, exec_request hr]
    refine bind_congr_ok fun u hu => ?_
    obtain ⟨trackers, rfl⟩ := Side.checkLimits_inv hu
    exact serve_congr h hs hr
  | none =>
    cases call with
    | claimMint ids => exact claimMint_congr h hs
    | claimRedemption ids => exact claimRedemption_congr h hs
    | _ => first | rfl | cases hr

/-! ### Callbacks from accounts without a role -/

theorem serve_guarded (token : TokenStep T) {r : Request} (hr : call.request caller = some r) :
    ∃ body : State T → Except Err (State T), call.serve token caller = nonReentrant body := by
  cases call with
  | requestSubscription | requestSubscriptionServicedOffchain | requestRedemption | requestRedemptionServicedOffchain =>
    simp only [Call.serve, RWAHub.requestSubscription, RWAHub.requestRedemption,
      RWAHubOffChainRedemptions.requestSubscriptionServicedOffchain,
      RWAHubOffChainRedemptions.requestRedemptionServicedOffchain]
    exact ⟨_, rfl⟩
  | _ => cases hr

end Reentry

/-- The call renounces a role of the caller, which is all that a caller without a role can do inside of a call. -/
def Call.renounces (caller : Address) : Call → Bool
  | .renounceRole _ account => account == caller
  | _ => false

theorem Reentry.execBy_entered (hs : s.Entered a) (hnone : ∀ role, a.hasRole role caller = false) :
    execBy token caller call s = .ok t ↔ call.renounces caller = true ∧ s = t := by
  cases hd : call.demanded s.toAccessControl with
  | some role =>
    -- the call demands a role
    have hexec : execBy token caller call s =
        exec ⟨fun _ _ _ _ => none, fun _ _ _ _ => none, fun _ _ _ _ _ => none⟩ caller call s := by
      cases call <;> first | rfl | cases hd
    refine ⟨fun h => ?_, fun h => ?_⟩
    · have hrole := exec_hasRole (hexec ▸ h) hd
      rw [hs.roles, hnone] at hrole
      cases hrole
    · cases call <;> first | cases h.1 | cases hd
  | none =>
    cases hr : call.request caller with
    | some r =>
      -- the guard is up, whatever the limits say
      obtain ⟨body, hbody⟩ := serve_guarded token hr
      refine ⟨fun h => ?_, fun h => ?_⟩
      · rw [execBy_request hr, hbody, bind_eq_ok] at h
        obtain ⟨u, hu, h⟩ := h
        obtain ⟨trackers, rfl⟩ := Side.checkLimits_inv hu
        exact absurd hs.status (nonReentrant_eq_ok.mp h).1
      · cases call <;> first | cases h.1 | cases hr
    | none =>
      cases call with
      | claimMint ids =>
        refine ⟨fun h => ?_, fun h => absurd h.1 Bool.false_ne_true⟩
        obtain ⟨u, hentered, -⟩ := RWAHub.claimMint_eq_ok.mp h
        exact absurd hs.status hentered
      | claimRedemption ids =>
        refine ⟨fun h => ?_, fun h => absurd h.1 Bool.false_ne_true⟩
        simp only [execBy, RWAHub.claimRedemption, nonReentrant_eq_ok] at h
        exact absurd hs.status h.1
      | renounceRole role account =>
        have hkept : s.internalRevokeRole role caller caller = s := by
          rw [internalRevokeRole, if_neg]
          rw [hs.roles, hnone]
          exact Bool.false_ne_true
        show renounceRole caller role account s = .ok t ↔ (account == caller) = true ∧ s = t
        rw [beq_iff_eq]
        simp only [renounceRole, bind_eq_ok, exists_unit_iff, revertIf_eq_ok, pure_eq_ok, ne_eq, not_not]
        refine and_congr_right fun heq => ?_
        rw [heq, hkept]
      | _ => first | (cases hr; done) | cases hd

/-! ### What the tokens do in the end -/

/-- What a reaction comes to where its callbacks change nothing, and none but the renunciations succeeds. -/
def Reaction.settle : Reaction T → Option T
  | .done tokens => some tokens
  | .revert => none
  | .call tokens sender callback next => (next tokens (callback.renounces sender.address)).settle

/-- The same tokens when every callback into the manager fails. -/
def Reactions.tokens (react : Reactions T) : Tokens T where
  mint views tokens dst amount := (react views tokens (.mint dst amount)).settle
  burnFrom views tokens src amount := (react views tokens (.burnFrom src amount)).settle
  transferFrom views tokens src dst amount := (react views tokens (.transferFrom src dst amount)).settle

/-- The callbacks come from accounts of the set. -/
def Reaction.From (senders : Address → Prop) : Reaction T → Prop
  | .done _ | .revert => True
  | .call _ sender _ next => senders sender.address ∧ ∀ tokens ok, (next tokens ok).From senders

/-- No account of the set holds a role. -/
def AccessControl.Powerless (senders : Address → Prop) (a : AccessControl) : Prop :=
  ∀ account, senders account → ∀ role, a.hasRole role account = false

section Settle
variable {senders : Address → Prop} {depth : Nat}

theorem Reentry.execute_eq_execBy (react : Reactions T) (depth : Nat) : ∃ token, execute react depth = execBy token := by
  cases depth <;> exact ⟨_, rfl⟩

theorem Reaction.run_entered (ha : a.Powerless senders) : ∀ {r : Reaction T} {s : State T}, r.From senders →
    s.Entered a → r.run (Reentry.execute react depth) s =
      (orFail .externalCall r.settle >>= fun tokens => .ok { s with tokens })
  | .done tokens, s, _, _ => rfl
  | .revert, s, _, _ => rfl
  | .call tokens sender callback next, s, hr, hs => by
    obtain ⟨token, htoken⟩ := Reentry.execute_eq_execBy react depth
    have hs' : State.Entered { s with tokens } a := ⟨hs.status, hs.roles⟩
    have hexec : ∀ t, Reentry.execute react depth sender.address callback { s with tokens } = .ok t ↔
        callback.renounces sender.address = true ∧ { s with tokens } = t := fun t => by
      rw [htoken]
      exact Reentry.execBy_entered hs' (ha sender.address hr.1)
    rw [run, settle]
    cases hx : Reentry.execute react depth sender.address callback { s with tokens } with
    | ok t =>
      obtain ⟨hrenounces, rfl⟩ := (hexec t).mp hx
      rw [hrenounces]
      exact run_entered ha (hr.2 tokens true) hs'
    | error e =>
      have hrenounces : callback.renounces sender.address = false := by
        rw [← Bool.not_eq_true]
        intro h
        rw [(hexec _).mpr ⟨h, rfl⟩] at hx
        cases hx
      rw [hrenounces]
      exact run_entered ha (hr.2 tokens false) hs'

theorem Reactions.step_plain (hreact : ∀ views tokens call, (react views tokens call).From senders)
    (ha : a.Powerless senders) : (react.step (Reentry.execute react depth)).Plain react.tokens a := by
  intro s call hs
  rw [Reactions.step, Reaction.run_entered ha (hreact _ _ _) hs, bind_assoc]
  cases call <;> rfl

/-- A call with callbacks from accounts without a role leaves what it leaves without them. -/
theorem Reentry.execute_succ (hreact : ∀ views tokens call, (react views tokens call).From senders)
    (hs : s.Powerless senders) : execute react (depth + 1) caller call s = exec react.tokens caller call s :=
  execBy_congr (Reactions.step_plain hreact hs) rfl

/-! ### Runs -/

/-- The action gives no role to an account of the set. -/
def Action.GrantsNone (senders : Address → Prop) : Action T → Prop
  | .call _ (.grantRole _ account) => ¬senders account
  | _ => True

theorem AccessControl.Powerless.setRoles (hs : a.Powerless senders)
    (hcall : ∀ role account, call = .grantRole role account → ¬senders account) : (call.setRoles a).Powerless senders := by
  intro account haccount role
  cases call with
  | grantRole r b =>
    have hne : account ≠ b := fun heq => hcall r b rfl (heq ▸ haccount)
    rw [Call.setRoles, AccessControl.setRole_hasRole, if_neg fun h => hne h.2]
    exact hs account haccount role
  | revokeRole r b | renounceRole r b =>
    rw [Call.setRoles, AccessControl.setRole_hasRole]
    split
    · rfl
    · exact hs account haccount role
  | _ => exact hs account haccount role

theorem Action.GrantsNone.powerless {act : Action T} (hs : s.Powerless senders) (hact : act.GrantsNone senders) :
    (step X s act).Powerless senders := by
  cases act with
  | call sender call =>
    cases hexec : exec X sender.address call s with
    | ok t =>
      rw [step_of_ok hexec, exec_roles sender.ne_zero hexec]
      refine AccessControl.Powerless.setRoles hs fun role account heq => ?_
      rw [heq] at hact
      exact hact
    | error e =>
      rw [step_of_error hexec]
      exact hs
  | block time =>
    simp only [Usdy.step, stepBy]
    split <;> exact hs
  | world views tokens => exact hs

/-- Callbacks gain nothing: as long as the accounts that the tokens call back from are given no role, every run with
    callbacks, of any number and to any depth, leaves what the run leaves without them. -/
theorem callbacks_harmless (hreact : ∀ views tokens call, (react views tokens call).From senders)
    {acts : List (Action T)} {s : State T} (hs : s.Powerless senders) (hacts : ∀ act ∈ acts, act.GrantsNone senders) :
    Reentry.run react (depth + 1) s acts = run react.tokens s acts := by
  induction acts generalizing s with
  | nil => rfl
  | cons act acts ih =>
    obtain ⟨hact, hacts⟩ := List.forall_mem_cons.mp hacts
    have hstep : Reentry.step react (depth + 1) s act = step react.tokens s act :=
      stepBy_congr fun _ _ => Reentry.execute_succ hreact hs
    have hnext : (step react.tokens s act).Powerless senders := hact.powerless hs
    show Reentry.run react (depth + 1) (Reentry.step react (depth + 1) s act) acts =
      run react.tokens (step react.tokens s act) acts
    rw [hstep, ih hnext hacts]

end Settle

namespace Sample

/-- Tokens whose mints call back first: bob claims again, and renounces a role he does not have. -/
def eager : Reactions (Address → Nat) := fun views balances call =>
  match tokens.exec views balances call with
  | some after => .call balances bob (.claimMint [5, 1]) fun _ claimed =>
    if claimed then .revert else .call after bob (.renounceRole .relayer bob.address) fun after _ => .done after
  | none => .revert

end Sample

theorem callbacks_harmless_history :
    Reentry.run Sample.eager 3 Sample.state Sample.history = run Sample.eager.tokens Sample.state Sample.history ∧
      (run Sample.eager.tokens Sample.state Sample.history).tokens Sample.bob.address ≠ 0 := by
  have hreact : ∀ views balances call, (Sample.eager views balances call).From (· = Sample.bob.address) := by
    intro views balances call
    unfold Sample.eager
    split
    · refine ⟨rfl, fun _ claimed => ?_⟩
      cases claimed
      · exact ⟨rfl, fun _ _ => trivial⟩
      · trivial
    · trivial
  refine ⟨callbacks_harmless hreact ?_ ?_, by decide +kernel⟩
  · rintro account rfl role
    cases role <;> rfl
  · simp only [Sample.history, List.forall_mem_cons, List.not_mem_nil, IsEmpty.forall_iff, implies_true,
      Action.GrantsNone]
    decide

end Usdy
