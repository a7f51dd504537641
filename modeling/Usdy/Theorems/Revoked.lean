import Usdy.Theorems.Consent

/-! What a revocation on an `AllowlistUpgradeable` is worth. Only the calls that verify an account end it, but a
    signature that was used before is one of them: no nonce, no deadline and no record of used signatures is
    kept, and `addAccountToAllowlist` asks for nothing but the flag that the revocation cleared. -/

namespace Usdy
open Checked Function

namespace AllowlistUpgradeable
variable {C : Crypto} {s t : AllowlistUpgradeable} {caller sender a : Address} {i : Uint256}
  {acts : List (Address × Call)} {x : Machine.Success AllowlistUpgradeable (Address × Call)}

theorem terms_kept_of_mem (h : x ∈ Machine.successes (act C) s acts) :
    x.before.terms <+: (Machine.run (act C) s acts).terms := by
  refine (Machine.successes_trail.invariant (I := fun l t => ∀ x ∈ l, x.before.terms <+: t.terms) (by simp) ?_) x h
  rintro l t y u - ih ⟨rfl, rfl, hact⟩ x hx
  have hkept : y.before.terms <+: y.after.terms :=
    ⟨_, (exec_effect (toOption_eq_some.mp hact)).terms.symm⟩
  rcases List.mem_append.mp hx with hx | hx
  · exact (ih x hx).trans hkept
  · exact List.mem_singleton.mp hx ▸ hkept

theorem setAccountStatus_verifications {status : Bool} (h : setAccountStatus caller a i status s = .ok t) :
    t.verifications a i = status ∧ t.terms = s.terms := by
  simp only [setAccountStatus, bind_eq_ok, exists_unit_iff, pure_eq_ok] at h
  obtain ⟨-, u, hset, rfl⟩ := h
  obtain ⟨-, rfl⟩ := internalSetAccountStatus_eq_ok.mp hset
  refine ⟨?_, rfl⟩
  show update s.verifications a (update (s.verifications a) i status) a i = status
  rw [update_self, update_self]

/-- A signature that was accepted once is accepted whenever the account is not verified. -/
theorem accepted_again {v : BitVec 8} {r z : Bytes32}
    (h : addAccountToAllowlist C i a v r z s = .ok t) {s' : AllowlistUpgradeable} (hterms : s.terms <+: s'.terms)
    (hrevoked : s'.verifications a i = false) :
    ∃ t', addAccountToAllowlist C i a v r z s' = .ok t' ∧ t'.verifications a i = true := by
  obtain ⟨-, hv, term, hterm, hsigner, -⟩ := addAccountToAllowlist_eq_ok.mp h
  have hterm' : s'.terms[i.toNat]? = some term := by
    obtain ⟨more, hmore⟩ := hterms
    obtain ⟨hlt, -⟩ := List.getElem?_eq_some_iff.mp hterm
    rw [← hmore, List.getElem?_append_left hlt, hterm]
  obtain ⟨hbound, -⟩ := List.getElem?_eq_some_iff.mp hterm'
  refine ⟨_, addAccountToAllowlist_eq_ok.mpr
    ⟨hrevoked, hv, term, hterm', hsigner, _, internalSetAccountStatus_eq_ok.mpr ⟨hbound, rfl⟩, rfl⟩, ?_⟩
  show update s'.verifications a (update (s'.verifications a) i true) a i = true
  rw [update_self, update_self]

/-- A revoked account stays unverified until it adds itself, a setter adds it, or somebody submits a signature
    of its over the term, which may be one that was used before the revocation. -/
theorem revoked_until_verified {caller : Address} {revoked : AllowlistUpgradeable}
    (h : setAccountStatus caller a i false (Machine.run (act C) blank acts) = .ok revoked)
    (later : List (Address × Call)) :
    let s := Machine.run (act C) revoked later
    revoked.verifications a i = false ∧
      (s.verifications a i = true → ∃ x ∈ Machine.successes (act C) revoked later, Verifies C a i x) ∧
      (s.verifications a i = false → ∀ x ∈ Machine.successes (act C) blank acts, ∀ sender v r z,
        x.action = (sender, .addAccountToAllowlist i a v r z) → ∀ anyone, ∃ t,
          exec C anyone (.addAccountToAllowlist i a v r z) s = .ok t ∧ t.verifications a i = true) := by
  intro s
  obtain ⟨hrevoked, hterms⟩ := setAccountStatus_verifications h
  refine ⟨hrevoked, fun hs => ?_, fun hs x hx sender v r z haction anyone => ?_⟩
  · rw [run_status, hrevoked] at hs
    cases hlast : ((Machine.successes (act C) revoked later).filterMap (setsStatus a i)).getLast? with
    | none =>
      rw [hlast] at hs
      cases hs
    | some status =>
      rw [hlast] at hs
      obtain rfl : status = true := hs
      obtain ⟨x, hx, hsets⟩ := List.mem_filterMap.mp (List.mem_of_getLast? hlast)
      exact ⟨x, hx, verifies_of_setsStatus (Machine.act_of_mem hx) hsets⟩
  · have hact := Machine.act_of_mem hx
    rw [haction] at hact
    have hkept : x.before.terms <+: s.terms := by
      refine (terms_kept_of_mem hx).trans ?_
      rw [← hterms]
      exact ⟨_, run_terms.symm⟩
    exact accepted_again (toOption_eq_some.mp hact) hkept hs

/-! ### A signature that is used twice -/

namespace Sample

/-- The account that initializes the allowlist. -/
def admin : Address := 0xad

/-- The account that may set statuses. -/
def setter : Address := 0x5e

/-- The account that signs. -/
def bob : Address := 0xb0b

/-- The account of the private key 1. -/
def alice : Address := 0x7e5f4552091a69125d5dfcb7b8c2659029395bdf

/-- The term that is signed. -/
def term : Bytes := ECDSA.bytesOf "I agree"

/-- What the EVM answers for the term and for the signature of it by `alice`. -/
def crypto : Crypto where
  keccak256 message :=
    if message = term then 0x468a119efd264273b18010aec30a7059938232fc1882d1acc5b3a58d9041f2ad
    else if message = ECDSA.bytesOf "\x19Ethereum Signed Message:\n7I agree" then
      0x1edbaf027e70929b3acb33cddaa0df472dfc48268083c35f419eaa7feeeaa7d0
    else 0
  ecrecover hash v r s :=
    if hash = 0x1edbaf027e70929b3acb33cddaa0df472dfc48268083c35f419eaa7feeeaa7d0 ∧ v = 27 ∧
        r = 0x544e77a4dbfad982648d8e4c293bc8bb5185e04417b4b073d7155c4ee55a1350 ∧
        s = 0x19ed0825895e1e3d19ce7f530d7285d100e0e964c6664428b76a11fb8137aa2a then alice
    else 0

/-- Anybody submits the signature of `alice`. -/
def submit : Address × Call :=
  (bob, .addAccountToAllowlist 0 alice 27 0x544e77a4dbfad982648d8e4c293bc8bb5185e04417b4b073d7155c4ee55a1350
    0x19ed0825895e1e3d19ce7f530d7285d100e0e964c6664428b76a11fb8137aa2a)

/-- The term is added, and signed by bob. -/
def signed : List (Address × Call) := [(admin, .init admin setter), (admin, .addTerm term), submit]

theorem signed_successes : (Machine.successes (act crypto) blank signed).map (·.action) = signed := by decide +kernel

theorem revoke_isSome :
    (setAccountStatus setter alice 0 false (Machine.run (act crypto) blank signed)).toOption.isSome = true := by
  decide +kernel

/-- The status of bob is revoked. -/
def revoked : AllowlistUpgradeable := Option.get _ revoke_isSome

theorem submit_successes : (Machine.successes (act crypto) revoked [submit]).map (·.action) = [submit] := by decide +kernel

theorem submit_restores : (Machine.run (act crypto) revoked [submit]).verifications alice 0 = true := by decide +kernel

end Sample

theorem revoked_until_submitted :
    ∃ x ∈ Machine.successes (act Sample.crypto) Sample.revoked [Sample.submit], Verifies Sample.crypto Sample.alice 0 x :=
  (revoked_until_verified (eq_ok_get Sample.revoke_isSome) [Sample.submit]).2.1 Sample.submit_restores

/-- A third party restores a revoked account with the signature that verified it before. -/
theorem used_signature_restores :
    ¬∀ (C : Crypto) (acts later : List (Address × Call)) (caller a : Address) (i : Uint256) (revoked : AllowlistUpgradeable),
      setAccountStatus caller a i false (Machine.run (act C) blank acts) = .ok revoked →
        (Machine.run (act C) revoked later).verifications a i = true →
          ∃ x ∈ Machine.successes (act C) revoked later, Verifies C a i x ∧
            ∀ sender v r z, x.action = (sender, .addAccountToAllowlist i a v r z) →
              ∀ y ∈ Machine.successes (act C) blank acts, y.action.2 ≠ .addAccountToAllowlist i a v r z := by
  intro h
  obtain ⟨x, hx, -, hfresh⟩ := h Sample.crypto Sample.signed [Sample.submit] Sample.setter Sample.alice 0 Sample.revoked
    (eq_ok_get Sample.revoke_isSome) Sample.submit_restores
  have haction : x.action = Sample.submit := by
    have hmem := List.mem_map_of_mem (f := (·.action)) hx
    rw [Sample.submit_successes] at hmem
    exact List.mem_singleton.mp hmem
  have hused : Sample.submit ∈ (Machine.successes (act Sample.crypto) blank Sample.signed).map (·.action) := by
    rw [Sample.signed_successes]
    simp [Sample.signed]
  obtain ⟨y, hy, hyaction⟩ := List.mem_map.mp hused
  refine hfresh _ _ _ _ haction y hy ?_
  rw [hyaction]
  rfl

end AllowlistUpgradeable

end Usdy
