import Usdy.Allowlist

/-! `Strings`: numbers as text, written into a buffer from its end. The text is part of what the contracts answer:
    of the error of `AccessControl`, and of the message that an account signs for the allowlist. -/

namespace Usdy
open Checked

namespace Strings

inductive Err
  -- the panics of arithmetic and of an array
  | arithmetic
  | indexOutOfBounds
  | hexLengthInsufficient
  deriving DecidableEq

/-- `_HEX_SYMBOLS`. -/
def hexSymbols : Bytes := ECDSA.bytesOf "0123456789abcdef"

/-- `buffer[i] = symbol`, which panics beyond the end. -/
def write (buffer : Bytes) (i : Nat) (symbol : BitVec 8) : Except Err Bytes := do
  revertIf (i ≥ buffer.length) .indexOutOfBounds
  return buffer.set i symbol

theorem div_toNat_lt {value : Uint256} (h : ¬value = 0) : (value / 10).toNat < value.toNat := by
  have hpos : value.toNat ≠ 0 := fun heq => h (BitVec.eq_of_toNat_eq heq)
  rw [BitVec.toNat_udiv]
  exact Nat.div_lt_self (Nat.pos_of_ne_zero hpos) (by decide)

/-! ### Decimals -/

/-- The first loop of `toString`. -/
def countDigits (temp : Uint256) : Nat := if _ : temp = 0 then 0 else countDigits (temp / 10) + 1
termination_by temp.toNat
decreasing_by exact div_toNat_lt ‹_›

/-- The second loop. -/
def writeDigits (buffer : Bytes) (digits : Nat) (value : Uint256) : Except Err Bytes :=
  if _ : value = 0 then .ok buffer else do
    revertIf (digits = 0) .arithmetic
    let digits := digits - 1
    let buffer ← write buffer digits ((48 + value % 10).setWidth 8)
    writeDigits buffer digits (value / 10)
termination_by value.toNat
decreasing_by exact div_toNat_lt ‹_›

def toString (value : Uint256) : Except Err Bytes :=
  if value = 0 then .ok (ECDSA.bytesOf "0") else
    let digits := countDigits value
    writeDigits (List.replicate digits 0) digits value

/-! ### Hexadecimals -/

/-- The loop of `toHexString` down to the index 2, and what it leaves of the value. -/
def writeHex (buffer : Bytes) : Nat → Uint256 → Except Err (Bytes × Uint256)
  | i + 2, value => do
    let symbol ← orFail .indexOutOfBounds hexSymbols[(value &&& 0xf).toNat]?
    let buffer ← write buffer (i + 2) symbol
    writeHex buffer (i + 1) (value >>> 4)
  | _, value => .ok (buffer, value)

def toHexString (value length : Uint256) : Except Err Bytes := do
  let twice ← mulOr .arithmetic 2 length
  let size ← addOr .arithmetic twice 2
  -- "0" and "x"
  let buffer ← write (List.replicate size.toNat 0) 0 48
  let buffer ← write buffer 1 120
  let last ← addOr .arithmetic twice 1
  let (buffer, value) ← writeHex buffer last.toNat value
  revertIf (value ≠ 0) .hexLengthInsufficient
  return buffer

end Strings

/-! ### Texts -/

/-- The text that `_checkRole` reverts with. -/
def AccessControl.missingRoleText (account : Address) (role : Bytes32) : Except Strings.Err Bytes := do
  let accountText ← Strings.toHexString (account.setWidth 256) 20
  let roleText ← Strings.toHexString role 32
  return ECDSA.bytesOf "AccessControl: account " ++ accountText ++ ECDSA.bytesOf " is missing role " ++ roleText

/-- What `toEthSignedMessageHash` hashes. -/
def ECDSA.signedText (message : Bytes) : Except Strings.Err Bytes := do
  let length ← Strings.toString (BitVec.ofNat 256 message.length)
  return bytesOf "\x19Ethereum Signed Message:\n" ++ length ++ message

end Usdy
