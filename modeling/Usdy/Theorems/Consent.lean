import Usdy.Allowlist

/-! Who is verified for which term of an `AllowlistUpgradeable`: what the last successful change said, whoever
    moves the terms and the valid indexes in between, and only ever for a term that exists. -/

namespace Usdy
open Checked Function

namespace AllowlistUpgradeable
variable {C : Crypto} {s t : AllowlistUpgradeable} {caller account a : Address} {termIndex i : Uint256}
  {status : Bool} {call : Call} {change : Option (Address × Uint256 × Bool)} {added : Option Bytes}

/-! ### What a call says -/

/-- The status that a call sets when it succeeds. -/
def Call.sets (caller : Address) : Call → Option (Address × Uint256 × Bool)
  | .addSelfToAllowlist termIndex => some (caller, termIndex, true)
  | .setAccountStatus account termIndex status => some (account, termIndex, status)
  | .addAccountToAllowlist termIndex account _ _ _ => some (account, termIndex, true)
  | _ => none

/-- The term that a call adds. -/
def Call.adds : Call → Option Bytes
  | .addTerm term => some term
  | _ => none

/-- What a change of a status says about one account and one term. -/
def statusOf (a : Address) (i : Uint256) : Option (Address × Uint256 × Bool) → Option Bool
  | some (account, termIndex, status) => if account = a ∧ termIndex = i then some status else none
  | none => none

/-- The status of the account for the term that a success sets. -/
def setsStatus (a : Address) (i : Uint256) (x : Machine.Success AllowlistUpgradeable (Address × Call)) : Option Bool :=
  statusOf a i (x.action.2.sets x.action.1)

/-- The term that a successful call added. -/
def addsTerm (x : Machine.Success AllowlistUpgradeable (Address × Call)) : Option Bytes := x.action.2.adds

/-- The ways to be verified: by oneself, by one's signature of the term, or by a setter. -/
inductive Verifies (C : Crypto) (a : Address) (i : Uint256) :
    Machine.Success AllowlistUpgradeable (Address × Call) → Prop
  | self {s t : AllowlistUpgradeable} : Verifies C a i ⟨s, (a, .addSelfToAllowlist i), t⟩
  | signature {s t : AllowlistUpgradeable} {caller : Address} {v : BitVec 8} {r z : Bytes32} {term : Bytes}
      (hterm : s.terms[i.toNat]? = some term)
      (hsigner : ECDSA.recover C (ECDSA.toEthSignedMessageHash C term) v r z = .ok a) :
      Verifies C a i ⟨s, (caller, .addAccountToAllowlist i a v r z), t⟩
  | setter {s t : AllowlistUpgradeable} {caller : Address} (hrole : s.hasRole .allowlistSetter caller = true) :
      Verifies C a i ⟨s, (caller, .setAccountStatus a i true), t⟩

theorem statusOf_eq_some : statusOf a i change = some status ↔ change = some (a, i, status) := by
  cases change with
  | none => exact ⟨nofun, nofun⟩
  | some change =>
    obtain ⟨account, termIndex, status'⟩ := change
    simp only [statusOf, Option.ite_none_right_eq_some, Option.some.injEq, Prod.mk.injEq, and_assoc]

/-! ### What a call does -/

/-- What a call does, by the status it sets and the term it adds. -/
inductive Effect (s t : AllowlistUpgradeable) : Option (Address × Uint256 × Bool) → Option Bytes → Prop
  | status {account : Address} {termIndex : Uint256} {status : Bool} (hbound : termIndex.toNat < s.terms.length)
      (hverifications : t.verifications =
        update s.verifications account (update (s.verifications account) termIndex status))
      (hterms : t.terms = s.terms) (hcurrent : t.currentTermIndex = s.currentTermIndex)
      (hvalid : t.validIndexes = s.validIndexes) : Effect s t (some (account, termIndex, status)) none
  | termAdded {term : Bytes} (hverifications : t.verifications = s.verifications)
      (hterms : t.terms = s.terms ++ [term]) (hcurrent : t.currentTermIndex.toNat = s.terms.length)
      (hvalid : t.validIndexes = s.validIndexes) : Effect s t none (some term)
  | indexesSet (hverifications : t.verifications = s.verifications) (hterms : t.terms = s.terms)
      (hcurrent : t.currentTermIndex = s.currentTermIndex ∨ t.currentTermIndex.toNat < s.terms.length)
      (hvalid : t.validIndexes = s.validIndexes ∨ ∀ i ∈ t.validIndexes, i.toNat < s.terms.length) : Effect s t none none

theorem setCurrentTermIndex_eq_ok : setCurrentTermIndex caller termIndex s = .ok t ↔
    s.hasRole .allowlistAdmin caller = true ∧ termIndex.toNat < s.terms.length ∧
      { s with currentTermIndex := termIndex }.emit (.currentTermIndexSet s.currentTermIndex termIndex) = t := by
  simp only [setCurrentTermIndex, bind_eq_ok, exists_unit_iff, raise_eq_ok, AccessControl.onlyRole_eq_ok, revertIf_eq_ok,
    pure_eq_ok, ge_iff_le, Nat.not_le]

theorem internalSetAccountStatus_eq_ok : internalSetAccountStatus account termIndex status s = .ok t ↔
    termIndex.toNat < s.terms.length ∧
      { s with verifications := update s.verifications account (update (s.verifications account) termIndex status) }.emit
        (.accountStatusSet account termIndex status) = t := by
  simp only [internalSetAccountStatus, bind_eq_ok, exists_unit_iff, revertIf_eq_ok, pure_eq_ok, ge_iff_le, Nat.not_le]

theorem internalSetAccountStatus_effect (h : internalSetAccountStatus account termIndex status s = .ok t) (event : Event) :
    Effect s (t.emit event) (some (account, termIndex, status)) none := by
  obtain ⟨hbound, rfl⟩ := internalSetAccountStatus_eq_ok.mp h
  exact .status hbound rfl rfl rfl rfl

theorem addTerm_effect {term : Bytes} (h : addTerm C caller term s = .ok t) : Effect s t none (some term) := by
  simp only [addTerm, bind_eq_ok, exists_unit_iff, wordOr_eq_ok, subOr_eq_ok, pure_eq_ok] at h
  obtain ⟨-, length, hlength, termIndex, hindex, u, h, rfl⟩ := h
  obtain ⟨-, -, rfl⟩ := setCurrentTermIndex_eq_ok.mp h
  refine .termAdded rfl rfl ?_ rfl
  have hone : (1 : Uint256).toNat = 1 := rfl
  show termIndex.toNat = s.terms.length
  omega

theorem exec_effect (h : exec C caller call s = .ok t) : Effect s t (call.sets caller) call.adds := by
  cases call with
  | init admin setter =>
    obtain ⟨_, -, h⟩ := bind_eq_ok.mp h
    obtain rfl := pure_eq_ok.mp h
    exact .indexesSet rfl rfl (.inl rfl) (.inl rfl)
  | addTerm term => exact addTerm_effect h
  | setCurrentTermIndex currentTermIndex =>
    obtain ⟨-, hbound, rfl⟩ := setCurrentTermIndex_eq_ok.mp h
    exact .indexesSet rfl rfl (.inr hbound) (.inl rfl)
  | setValidTermIndexes validIndexes =>
    simp only [exec, setValidTermIndexes, bind_eq_ok, exists_unit_iff, forM_eq_ok, revertIf_eq_ok, pure_eq_ok, ge_iff_le,
      Nat.not_le] at h
    obtain ⟨-, hbound, rfl⟩ := h
    exact .indexesSet rfl rfl (.inl rfl) (.inr hbound)
  | addSelfToAllowlist termIndex =>
    simp only [exec, addSelfToAllowlist, bind_eq_ok, exists_unit_iff, pure_eq_ok] at h
    obtain ⟨-, u, h, rfl⟩ := h
    exact internalSetAccountStatus_effect h _
  | setAccountStatus account termIndex status =>
    simp only [exec, setAccountStatus, bind_eq_ok, exists_unit_iff, pure_eq_ok] at h
    obtain ⟨-, u, h, rfl⟩ := h
    exact internalSetAccountStatus_effect h _
  | addAccountToAllowlist termIndex account v r z =>
    simp only [exec, addAccountToAllowlist, bind_eq_ok, exists_unit_iff, pure_eq_ok] at h
    obtain ⟨-, -, -, -, -, -, -, u, h, rfl⟩ := h
    exact internalSetAccountStatus_effect h _
  | role call =>
    obtain ⟨access, -, h⟩ := bind_eq_ok.mp h
    obtain rfl := pure_eq_ok.mp h
    exact .indexesSet rfl rfl (.inl rfl) (.inl rfl)

theorem addAccountToAllowlist_eq_ok {v : BitVec 8} {r z : Bytes32} :
    addAccountToAllowlist C i a v r z s = .ok t ↔ s.verifications a i = false ∧ (v = 27 ∨ v = 28) ∧
      ∃ term, s.terms[i.toNat]? = some term ∧
        ECDSA.recover C (ECDSA.toEthSignedMessageHash C term) v r z = .ok a ∧
        ∃ u, internalSetAccountStatus a i true s = .ok u ∧ u.emit (.accountAddedFromSignature a i v r z) = t := by
  simp only [addAccountToAllowlist, term, bind_eq_ok, exists_unit_iff, revertIf_eq_ok, orFail_eq_ok, raise_eq_ok,
    pure_eq_ok, Bool.not_eq_true, not_and_or, not_not]
  constructor
  · rintro ⟨hnew, hv, term, hterm, signer, hsigner, rfl, h⟩
    exact ⟨hnew, hv, term, hterm, hsigner, h⟩
  · rintro ⟨hnew, hv, term, hterm, hsigner, h⟩
    exact ⟨hnew, hv, term, hterm, a, hsigner, rfl, h⟩

theorem exec_verifies (h : exec C caller call s = .ok t) (hsets : call.sets caller = some (a, i, true)) :
    Verifies C a i ⟨s, (caller, call), t⟩ := by
  cases call with
  | addSelfToAllowlist termIndex =>
    cases hsets
    exact .self
  | setAccountStatus account termIndex status =>
    cases hsets
    simp only [exec, setAccountStatus, bind_eq_ok, exists_unit_iff, raise_eq_ok, AccessControl.onlyRole_eq_ok] at h
    exact .setter h.1
  | addAccountToAllowlist termIndex account v r z =>
    cases hsets
    obtain ⟨-, -, term, hterm, hsigner, -⟩ := addAccountToAllowlist_eq_ok.mp h
    exact .signature hterm hsigner
  | init | addTerm | setCurrentTermIndex | setValidTermIndexes | role => cases hsets

theorem Effect.statusOf (h : Effect s t change added) (a : Address) (i : Uint256) :
    t.verifications a i = (statusOf a i change).getD (s.verifications a i) := by
  cases h with
  | @status account termIndex status hbound hverifications =>
    rw [hverifications, AllowlistUpgradeable.statusOf]
    by_cases ha : account = a
    · by_cases hi : termIndex = i
      · rw [if_pos ⟨ha, hi⟩, ha, hi, update_self, update_self, Option.getD_some]
      · rw [if_neg fun h => hi h.2, ha, update_self, update_of_ne (Ne.symm hi), Option.getD_none]
    · rw [if_neg fun h => ha h.1, update_of_ne (Ne.symm ha), Option.getD_none]
  | termAdded hverifications | indexesSet hverifications =>
    rw [hverifications]
    rfl

theorem Effect.terms (h : Effect s t change added) : t.terms = s.terms ++ added.toList := by
  cases h with
  | status _ _ hterms | indexesSet _ hterms => exact hterms.trans (List.append_nil _).symm
  | termAdded _ hterms => exact hterms

theorem Effect.bound (h : Effect s t (some (a, i, status)) added) : i.toNat < s.terms.length := by
  cases h with
  | status hbound => exact hbound

/-! ### Terms -/

/-- Every index that the storage holds is that of a term. -/
structure Bounded (s : AllowlistUpgradeable) : Prop where
  current : s.currentTermIndex.toNat < s.terms.length ∨ s.terms = [] ∧ s.currentTermIndex = 0
  valid : ∀ i ∈ s.validIndexes, i.toNat < s.terms.length
  verified : ∀ a i, s.verifications a i = true → i.toNat < s.terms.length

theorem Bounded.effect (hs : s.Bounded) (h : Effect s t change added) : t.Bounded := by
  cases h with
  | @status account termIndex status hbound hverifications hterms hcurrent hvalid =>
    refine ⟨hterms ▸ hcurrent ▸ hs.current, hterms ▸ hvalid ▸ hs.valid, fun a i hv => ?_⟩
    rw [(Effect.status hbound hverifications hterms hcurrent hvalid).statusOf a i] at hv
    rw [hterms]
    cases hstatus : statusOf a i (some (account, termIndex, status)) with
    | none =>
      rw [hstatus] at hv
      exact hs.verified a i hv
    | some v =>
      cases statusOf_eq_some.mp hstatus
      exact hbound
  | @termAdded term hverifications hterms hcurrent hvalid =>
    have hlength : t.terms.length = s.terms.length + 1 := by rw [hterms, List.length_append, List.length_singleton]
    refine ⟨.inl (by omega), fun i hi => ?_, fun a i hv => ?_⟩
    · have hbound := hs.valid i (hvalid ▸ hi)
      omega
    · have hbound := hs.verified a i (hverifications ▸ hv)
      omega
  | indexesSet hverifications hterms hcurrent hvalid =>
    refine ⟨?_, fun i hi => ?_, fun a i hv => hterms ▸ hs.verified a i (hverifications ▸ hv)⟩
    · rcases hcurrent with hkept | hbound
      · exact hterms ▸ hkept ▸ hs.current
      · exact .inl (hterms ▸ hbound)
    · rcases hvalid with hkept | hbound
      · exact hterms ▸ hs.valid i (hkept ▸ hi)
      · exact hterms ▸ hbound i hi

theorem blank_bounded : blank.Bounded := ⟨.inr ⟨rfl, rfl⟩, fun i hi => absurd hi List.not_mem_nil, fun _ _ hv => by cases hv⟩

theorem run_bounded {acts : List (Address × Call)} (hs : s.Bounded) : (Machine.run (act C) s acts).Bounded :=
  (Machine.invariant_any hs fun _ _ _ hs h => hs.effect (exec_effect (toOption_eq_some.mp h))).1

/-- The terms are those that were added, in that order. -/
theorem run_terms {acts : List (Address × Call)} :
    (Machine.run (act C) s acts).terms = s.terms ++ (Machine.successes (act C) s acts).filterMap addsTerm := by
  refine Machine.successes_trail.invariant (I := fun l t => t.terms = s.terms ++ l.filterMap addsTerm)
    (List.append_nil _).symm fun l t x u _ ih hx => ?_
  obtain ⟨rfl, rfl, hact⟩ := hx
  rw [(exec_effect (toOption_eq_some.mp hact)).terms, ih, List.filterMap_append, List.append_assoc]
  cases hterm : addsTerm x with
  | none => rw [List.filterMap_cons_none hterm, List.filterMap_nil, show x.action.2.adds = none from hterm, Option.toList_none]
  | some term =>
    rw [List.filterMap_cons_some hterm, List.filterMap_nil, show x.action.2.adds = some term from hterm, Option.toList_some]

/-- After any calls the terms are those that were added, for good; every index in the storage is that of a
    term; and so is every index for which an account can be verified next. -/
theorem consent_to_existing_term (C : Crypto) (acts : List (Address × Call)) :
    let s := Machine.run (act C) blank acts
    s.terms = (Machine.successes (act C) blank acts).filterMap addsTerm ∧
      (∀ later, s.terms <+: (Machine.run (act C) s later).terms) ∧
      (∀ i ∈ s.validIndexes, i.toNat < s.terms.length) ∧
      (∀ a i, s.verifications a i = true → i.toNat < s.terms.length) ∧
      (s.currentTermIndex.toNat < s.terms.length ∨ s.terms = [] ∧ s.currentTermIndex = 0) ∧
      (s.terms ≠ [] → ∃ term, s.getCurrentTerm = .ok term) ∧
      ∀ caller call t, exec C caller call s = .ok t →
        ∀ a i status, call.sets caller = some (a, i, status) → i.toNat < s.terms.length := by
  intro s
  have hs : s.Bounded := run_bounded blank_bounded
  refine ⟨run_terms, fun later => ⟨_, run_terms.symm⟩, hs.valid, hs.verified, hs.current, fun hterms => ?_, ?_⟩
  · have hbound : s.currentTermIndex.toNat < s.terms.length := hs.current.resolve_right fun h => hterms h.1
    exact ⟨s.terms[s.currentTermIndex.toNat], orFail_eq_ok.mpr (List.getElem?_eq_getElem hbound)⟩
  · intro caller call t h a i status hsets
    have heffect := exec_effect h
    rw [hsets] at heffect
    exact heffect.bound

/-! ### Statuses -/

theorem run_status {acts : List (Address × Call)} : (Machine.run (act C) s acts).verifications a i =
    ((Machine.successes (act C) s acts).filterMap (setsStatus a i)).getLast?.getD (s.verifications a i) := by
  refine Machine.last_write (I := fun _ => True) (f := fun s : AllowlistUpgradeable => s.verifications a i) trivial
    (fun _ _ _ _ _ => trivial) ?_
  rintro s ⟨caller, call⟩ t - h
  exact (exec_effect (toOption_eq_some.mp h)).statusOf a i

theorem verifies_of_setsStatus {x : Machine.Success AllowlistUpgradeable (Address × Call)}
    (hact : act C x.before x.action = some x.after) (hsets : setsStatus a i x = some true) : Verifies C a i x := by
  obtain ⟨before, ⟨caller, call⟩, after⟩ := x
  exact exec_verifies (toOption_eq_some.mp hact) (statusOf_eq_some.mp hsets)

/-- An account without code is allowed when the last change of its status for some valid term verified it. A
    status changes only by the calls that say so, and one is verified only in the ways of `Verifies`. -/
theorem allowed_iff_last_status (C : Crypto) (acts : List (Address × Call)) :
    let s := Machine.run (act C) blank acts
    let history := Machine.successes (act C) blank acts
    (∀ isContract a, isContract a = false → (s.isAllowed isContract a = true ↔
        ∃ i ∈ s.validIndexes, (history.filterMap (setsStatus a i)).getLast? = some true)) ∧
      ∀ x ∈ history, ∀ a i, x.after.verifications a i = (setsStatus a i x).getD (x.before.verifications a i) ∧
        (setsStatus a i x = some true → Verifies C a i x) := by
  intro s history
  refine ⟨fun isContract a hcode => ?_, fun x hx a i => ⟨?_, fun hsets => ?_⟩⟩
  · have hiff : ∀ i, s.verifications a i = true ↔ (history.filterMap (setsStatus a i)).getLast? = some true := by
      intro i
      rw [run_status]
      cases (Machine.successes (act C) blank acts).filterMap (setsStatus a i) |>.getLast? with
      | none => simp [blank]
      | some v => simp
    simp only [isAllowed, hcode, Bool.false_eq_true, if_false, List.any_eq_true, hiff]
  · exact (exec_effect (toOption_eq_some.mp (Machine.act_of_mem hx))).statusOf a i
  · exact verifies_of_setsStatus (Machine.act_of_mem hx) hsets

end AllowlistUpgradeable

end Usdy
