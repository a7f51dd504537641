import Usdy.Strings
import Mathlib.Data.Nat.Digits.Lemmas

/-! What the texts say. The loops of `Strings` stay inside their buffers and write the number; the revert text of
    `AccessControl` names the account and the role, and the message that is signed for a term is the message of no
    other term. -/

namespace Usdy
open Checked

namespace Strings

variable {b c : Bytes} {x : BitVec 8} {value length : Uint256}

theorem write_append (b c : Bytes) (x symbol : BitVec 8) : write (b ++ x :: c) b.length symbol = .ok (b ++ symbol :: c) := by
  simp [write, revertIf, bind, Except.bind, pure, Except.pure]

/-! ### Decimals -/

/-- The decimal digits of a number. -/
def decimal (n : Nat) : Bytes := (Nat.toDigits 10 n).map fun c => BitVec.ofNat 8 c.toNat

theorem bytesOf_toString (n : Nat) : ECDSA.bytesOf (ToString.toString n) = decimal n := by
  rw [ECDSA.bytesOf, decimal, Nat.toString_eq_ofList_toDigits, String.toList_ofList]

theorem decimal_of_le {n : Nat} (h : 10 ≤ n) :
    decimal n = decimal (n / 10) ++ [BitVec.ofNat 8 (Nat.digitChar (n % 10)).toNat] := by
  rw [decimal, Nat.toDigits_of_base_le (by decide) h, List.map_append]
  rfl

theorem decimal_of_lt {n : Nat} (h : n < 10) : decimal n = [BitVec.ofNat 8 (Nat.digitChar n).toNat] := by
  rw [decimal, Nat.toDigits_of_lt_base h]
  rfl

theorem toNat_div : (value / 10).toNat = value.toNat / 10 := BitVec.toNat_udiv ..

theorem digit_eq : (48 + value % 10).setWidth 8 = BitVec.ofNat 8 (Nat.digitChar (value.toNat % 10)).toNat := by
  rw [Nat.toNat_digitChar_of_lt_ten (Nat.mod_lt _ (by decide))]
  refine BitVec.eq_of_toNat_eq ?_
  have hdigit : (value % 10).toNat = value.toNat % 10 := BitVec.toNat_umod ..
  have hoffset : (48 : Uint256).toNat = 48 := rfl
  rw [BitVec.toNat_setWidth, BitVec.toNat_add, BitVec.toNat_ofNat, hdigit, hoffset]
  omega

theorem div_eq_zero : value / 10 = 0 ↔ value.toNat < 10 := by
  have hzero : (0 : Uint256).toNat = 0 := rfl
  rw [← BitVec.toNat_inj, toNat_div, hzero]
  omega

theorem countDigits_eq (h : value ≠ 0) : countDigits value = (decimal value.toNat).length := by
  induction hn : value.toNat using Nat.strong_induction_on generalizing value with
  | _ n ih =>
    rw [countDigits, dif_neg h]
    rcases Nat.lt_or_ge n 10 with hlt | hle
    · rw [div_eq_zero.mpr (hn ▸ hlt), countDigits, dif_pos rfl, decimal_of_lt hlt]
      rfl
    · have hpos : value / 10 ≠ 0 := fun h => by
        have hlt := div_eq_zero.mp h
        omega
      rw [ih (value / 10).toNat (by rw [toNat_div]; omega) hpos rfl, toNat_div, hn, decimal_of_le hle,
        List.length_append]
      rfl

theorem writeDigits_zero {digits : Nat} : writeDigits b digits 0 = .ok b := by
  rw [writeDigits, dif_pos rfl]

theorem writeDigits_snoc (h : value ≠ 0) : writeDigits (b ++ x :: c) (b.length + 1) value =
    writeDigits (b ++ BitVec.ofNat 8 (Nat.digitChar (value.toNat % 10)).toNat :: c) b.length (value / 10) := by
  rw [writeDigits, dif_neg h, ← digit_eq]
  simp only [Nat.add_sub_cancel, write_append]
  rfl

theorem writeDigits_eq (h : value ≠ 0) (hlength : b.length = (decimal value.toNat).length) :
    writeDigits (b ++ c) b.length value = .ok (decimal value.toNat ++ c) := by
  induction hn : value.toNat using Nat.strong_induction_on generalizing value b c with
  | _ n ih =>
    rw [hn] at hlength
    rcases Nat.lt_or_ge n 10 with hlt | hle
    · rw [decimal_of_lt hlt] at hlength ⊢
      obtain ⟨x, rfl⟩ := List.length_eq_one_iff.mp hlength
      have hpass := writeDigits_snoc (b := []) (x := x) (c := c) h
      rw [hn, Nat.mod_eq_of_lt hlt, div_eq_zero.mpr (hn ▸ hlt), writeDigits_zero] at hpass
      exact hpass
    · -- this pass writes the last place that is left
      rw [decimal_of_le hle] at hlength ⊢
      obtain ⟨d, x, rfl⟩ : ∃ d x, b = d ++ [x] := by
        rcases List.eq_nil_or_concat b with rfl | ⟨d, x, rfl⟩
        · simp at hlength
        · exact ⟨d, x, List.concat_eq_append⟩
      have hpos : value / 10 ≠ 0 := fun h => by
        have hlt := div_eq_zero.mp h
        omega
      have hrest : d.length = (decimal (value / 10).toNat).length := by
        rw [toNat_div, hn]
        simpa using hlength
      rw [List.append_assoc, List.length_append]
      show writeDigits (d ++ x :: c) (d.length + 1) value = _
      rw [writeDigits_snoc h, hn, ih (value / 10).toNat (by rw [toNat_div]; omega) hpos hrest rfl, toNat_div, hn,
        List.append_assoc]
      rfl

/-- The loops of `toString` write the decimal digits of the value. -/
theorem toString_eq (value : Uint256) : toString value = .ok (decimal value.toNat) := by
  rw [toString]
  split
  · rename_i h
    subst h
    rfl
  · rename_i h
    have hlength := countDigits_eq h
    have hwritten := writeDigits_eq (b := List.replicate (countDigits value) 0) (c := []) h (by simpa using hlength)
    simpa using hwritten

/-! ### Hexadecimals -/

/-- The character of a digit. -/
def hexSymbol (digit : Nat) : BitVec 8 := hexSymbols.getD digit 0

/-- The lowest `n` hexadecimal digits of a number, the highest of them first. -/
def hexText : Nat → Nat → Bytes
  | 0, _ => []
  | n + 1, v => hexText n (v / 16) ++ [hexSymbol (v % 16)]

/-- The number that a text of hexadecimal digits stands for. -/
def ofHex (text : Bytes) : Option Nat :=
  text.foldlM (fun v symbol => (hexSymbols.idxOf? symbol).map (16 * v + ·)) 0

theorem length_hexText : ∀ n v : Nat, (hexText n v).length = n
  | 0, _ => rfl
  | n + 1, v => by rw [hexText, List.length_append, length_hexText, List.length_singleton]

theorem idxOf_hexSymbol : ∀ digit < 16, hexSymbols.idxOf? (hexSymbol digit) = some digit := by decide

theorem ofHex_hexText : ∀ n v : Nat, ofHex (hexText n v) = some (v % 16 ^ n)
  | 0, v => by
    rw [pow_zero, Nat.mod_one]
    rfl
  | n + 1, v => by
    have hrest : ofHex (hexText n (v / 16)) = some (v / 16 % 16 ^ n) := ofHex_hexText n (v / 16)
    rw [ofHex] at hrest
    have hlast : (hexSymbols.idxOf? (hexSymbol (v % 16))).map (16 * (v / 16 % 16 ^ n) + ·) = some (v % 16 ^ (n + 1)) := by
      rw [idxOf_hexSymbol _ (Nat.mod_lt _ (by decide)), pow_succ', Nat.mod_mul, Nat.add_comm (v % 16)]
      rfl
    rw [ofHex, hexText, List.foldlM_append, hrest, ← hlast]
    exact bind_pure (m := Option) _

theorem low_eq : (value &&& 0xf).toNat = value.toNat % 16 := by
  rw [BitVec.toNat_and]
  exact Nat.and_two_pow_sub_one_eq_mod value.toNat 4

theorem shift_eq : (value >>> 4).toNat = value.toNat / 16 := by
  rw [BitVec.toNat_ushiftRight, Nat.shiftRight_eq_div_pow]

theorem symbol_eq : hexSymbols[(value &&& 0xf).toNat]? = some (hexSymbol (value.toNat % 16)) := by
  have hlt : value.toNat % 16 < 16 := Nat.mod_lt _ (by decide)
  rw [low_eq, hexSymbol, List.getD_eq_getElem?_getD, List.getElem?_eq_getElem (by exact hlt)]
  rfl

theorem writeHex_eq {y : BitVec 8} : ∀ {n : Nat} {b c : Bytes} {value : Uint256}, b.length = n →
    writeHex (x :: y :: b ++ c) (n + 1) value = .ok (x :: y :: hexText n value.toNat ++ c, value >>> (4 * n))
  | 0, b, c, value, hb => by
    obtain rfl := List.eq_nil_of_length_eq_zero hb
    simp [writeHex, hexText]
  | n + 1, b, c, value, hb => by
    obtain ⟨d, z, rfl⟩ : ∃ d z, b = d ++ [z] := by
      rcases List.eq_nil_or_concat b with rfl | ⟨d, z, rfl⟩
      · cases hb
      · exact ⟨d, z, List.concat_eq_append⟩
    have hd : d.length = n := by simpa using hb
    have hwrite : write (x :: y :: (d ++ [z]) ++ c) (n + 2) (hexSymbol (value.toNat % 16)) =
        .ok (x :: y :: d ++ hexSymbol (value.toNat % 16) :: c) := by
      rw [← hd, List.cons_append, List.cons_append, List.append_assoc]
      exact write_append (x :: y :: d) c z _
    rw [writeHex, symbol_eq]
    show (write _ _ _ >>= fun buffer => writeHex buffer (n + 1) (value >>> 4)) = _
    rw [hwrite]
    show writeHex (x :: y :: d ++ hexSymbol (value.toNat % 16) :: c) (n + 1) (value >>> 4) = _
    rw [writeHex_eq hd, shift_eq, hexText, ← BitVec.shiftRight_add, Nat.mul_add, Nat.mul_one, Nat.add_comm (4 * n)]
    simp only [List.cons_append, List.append_assoc, List.nil_append]

/-- `toHexString` writes the digits of a value that fits in the length, and fails for any other value. -/
theorem toHexString_eq (h : 2 * length.toNat + 2 < 2 ^ 256) : toHexString value length =
    if value.toNat < 16 ^ (2 * length.toNat) then .ok (48 :: 120 :: hexText (2 * length.toNat) value.toNat)
      else .error .hexLengthInsufficient := by
  have hone : (1 : Uint256).toNat = 1 := rfl
  have htwo : (2 : Uint256).toNat = 2 := rfl
  obtain ⟨twice, htwice⟩ : ∃ twice : Uint256, twice.toNat = 2 * length.toNat := exists_word (by omega)
  obtain ⟨size, hsize⟩ : ∃ size : Uint256, size.toNat = 2 * length.toNat + 2 := exists_word h
  obtain ⟨last, hlast⟩ : ∃ last : Uint256, last.toNat = 2 * length.toNat + 1 := exists_word (by omega)
  have hmul : mulOr Err.arithmetic 2 length = .ok twice := mulOr_eq_ok.mpr (by rw [htwice, htwo])
  have hadd : addOr Err.arithmetic twice 2 = .ok size := addOr_eq_ok.mpr (by rw [hsize, htwice, htwo])
  have hadd' : addOr Err.arithmetic twice 1 = .ok last := addOr_eq_ok.mpr (by rw [hlast, htwice, hone])
  let rest : Bytes := List.replicate (2 * length.toNat) 0
  have hfirst : write (List.replicate size.toNat 0) 0 48 = .ok (48 :: 0 :: rest) := by
    rw [hsize]
    exact write_append [] (0 :: rest) 0 48
  have hsecond : write (48 :: 0 :: rest) 1 120 = .ok (48 :: 120 :: rest) := write_append [48] rest 0 120
  have hloop : writeHex (48 :: 120 :: rest) last.toNat value =
      .ok (48 :: 120 :: hexText (2 * length.toNat) value.toNat, value >>> (4 * (2 * length.toNat))) := by
    have heq : writeHex (48 :: 120 :: rest ++ []) (2 * length.toNat + 1) value =
        .ok (48 :: 120 :: hexText (2 * length.toNat) value.toNat ++ [], value >>> (4 * (2 * length.toNat))) :=
      writeHex_eq List.length_replicate
    rw [List.append_nil, List.append_nil] at heq
    rw [hlast, heq]
  have hleft : value >>> (4 * (2 * length.toNat)) = 0 ↔ value.toNat < 16 ^ (2 * length.toNat) := by
    rw [← BitVec.toNat_inj, BitVec.toNat_ushiftRight, Nat.shiftRight_eq_div_pow, Nat.pow_mul]
    exact Nat.div_eq_zero_iff_lt (Nat.pow_pos (by decide))
  rw [toHexString, hmul, ok_bind, hadd, ok_bind, hfirst, ok_bind, hsecond, ok_bind, hadd', ok_bind, hloop, ok_bind]
  simp only [revertIf, ne_eq, hleft, ite_not]
  split <;> rfl

end Strings

/-! ### The texts -/

open Strings

theorem AccessControl.missingRoleText_eq (account : Address) (role : Bytes32) :
    missingRoleText account role = .ok (ECDSA.bytesOf "AccessControl: account 0x" ++ hexText 40 account.toNat ++
      (ECDSA.bytesOf " is missing role 0x" ++ hexText 64 role.toNat)) := by
  have haccount : (account.setWidth 256).toNat = account.toNat := by
    rw [BitVec.toNat_setWidth]
    omega
  have hfirst : toHexString (account.setWidth 256) 20 = .ok (48 :: 120 :: hexText 40 account.toNat) := by
    rw [toHexString_eq (by decide), haccount]
    exact if_pos (lt_of_lt_of_le account.isLt (by decide))
  have hsecond : toHexString role 32 = .ok (48 :: 120 :: hexText 64 role.toNat) := by
    rw [toHexString_eq (by decide)]
    exact if_pos (lt_of_lt_of_le role.isLt (by decide))
  have haccountText : ECDSA.bytesOf "AccessControl: account 0x" = ECDSA.bytesOf "AccessControl: account " ++ [48, 120] := by
    decide
  have hroleText : ECDSA.bytesOf " is missing role 0x" = ECDSA.bytesOf " is missing role " ++ [48, 120] := by decide
  rw [missingRoleText, hfirst, ok_bind, hsecond, ok_bind, haccountText, hroleText]
  simp only [pure, Except.pure, List.append_assoc, List.cons_append, List.nil_append]

/-- The revert text of a missing role has the form that the contract documents, with the account and the role in
    hexadecimal digits, and no other account or role has it. -/
theorem AccessControl.missingRoleText_names (account : Address) (role : Bytes32) :
    ∃ accountText roleText, missingRoleText account role = .ok (ECDSA.bytesOf "AccessControl: account 0x" ++ accountText ++
        (ECDSA.bytesOf " is missing role 0x" ++ roleText)) ∧
      accountText.length = 40 ∧ roleText.length = 64 ∧
      ofHex accountText = some account.toNat ∧ ofHex roleText = some role.toNat ∧
      ∀ account' role', missingRoleText account' role' = missingRoleText account role → account' = account ∧ role' = role := by
  have hvalue : ∀ account : Address, ofHex (hexText 40 account.toNat) = some account.toNat := fun account => by
    rw [ofHex_hexText, Nat.mod_eq_of_lt (lt_of_lt_of_le account.isLt (by decide))]
  have hvalue' : ∀ role : Bytes32, ofHex (hexText 64 role.toNat) = some role.toNat := fun role => by
    rw [ofHex_hexText, Nat.mod_eq_of_lt (lt_of_lt_of_le role.isLt (by decide))]
  refine ⟨_, _, missingRoleText_eq account role, length_hexText .., length_hexText .., hvalue account, hvalue' role,
    fun account' role' h => ?_⟩
  rw [missingRoleText_eq, missingRoleText_eq, Except.ok.injEq] at h
  obtain ⟨hfirst, hsecond⟩ := List.append_inj h (by simp only [List.length_append, length_hexText])
  have haccount := List.append_cancel_left hfirst
  have hrole := List.append_cancel_left hsecond
  constructor
  · refine BitVec.eq_of_toNat_eq (Option.some.inj ?_)
    rw [← hvalue, ← hvalue, haccount]
  · refine BitVec.eq_of_toNat_eq (Option.some.inj ?_)
    rw [← hvalue', ← hvalue', hrole]

theorem Strings.length_decimal_le {m n : Nat} (h : m ≤ n) : (decimal m).length ≤ (decimal n).length := by
  have hpos : 0 < (Nat.toDigits 10 n).length := Nat.length_toDigits_pos
  rw [decimal, decimal, List.length_map, List.length_map, Nat.length_toDigits_le_iff (by decide) hpos]
  exact lt_of_le_of_lt h ((Nat.length_toDigits_le_iff (by decide) hpos).mp le_rfl)

theorem ECDSA.signedText_eq {message : Bytes} (h : message.length < 2 ^ 256) :
    signedText message =
      .ok (bytesOf "\x19Ethereum Signed Message:\n" ++ decimal message.length ++ message) := by
  rw [signedText, toString_eq, BitVec.toNat_ofNat, Nat.mod_eq_of_lt h]
  rfl

/-- What an account signs for a term is the text that is hashed, and it is the text of no other term: the length in it
    tells where the term begins. -/
theorem ECDSA.signedText_binds (C : Crypto) {message : Bytes} (h : message.length < 2 ^ 256) :
    ∃ text, signedText message = .ok text ∧ toEthSignedMessageHash C message = C.keccak256 text ∧
      ∀ message', message'.length < 2 ^ 256 → signedText message' = .ok text → message' = message := by
  refine ⟨_, signedText_eq h, ?_, fun message' h' heq => ?_⟩
  · rw [toEthSignedMessageHash, bytesOf_toString]
  · rw [signedText_eq h', Except.ok.injEq, List.append_assoc, List.append_assoc] at heq
    have heq := List.append_cancel_left heq
    have htotal := congrArg List.length heq
    rw [List.length_append, List.length_append] at htotal
    have hlength : message'.length = message.length := by
      rcases Nat.lt_trichotomy message'.length message.length with hlt | heq | hlt
      · have hdigits := length_decimal_le hlt.le
        omega
      · exact heq
      · have hdigits := length_decimal_le hlt.le
        omega
    rw [hlength] at heq
    exact List.append_cancel_left heq

/-- A hash that tells no more than the length. -/
def ECDSA.Sample.lengths : Crypto where
  keccak256 text := BitVec.ofNat 256 text.length
  ecrecover _ _ _ _ := 0

theorem ECDSA.signedText_binds_terms :
    ∃ text, signedText [0x31, 0x32] = .ok text ∧
      toEthSignedMessageHash Sample.lengths [0x31, 0x32] = Sample.lengths.keccak256 text ∧
      signedText [0x32] ≠ .ok text := by
  obtain ⟨text, htext, hhash, hbinds⟩ :=
    signedText_binds Sample.lengths (show ([0x31, 0x32] : Bytes).length < 2 ^ 256 by decide)
  exact ⟨text, htext, hhash, fun h => absurd (hbinds [0x32] (by decide) h) (by decide)⟩

end Usdy
