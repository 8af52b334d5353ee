/-
# Names on the wire

`smb/wire/fscc.go`: `UTF16FromBytes` and `UTF16ToBytes`.  A Go string is its
UTF-8 bytes, so that the server compares names byte by byte; the two functions
go between these bytes and the UTF-16 code units of a client.

`UTF16FromBytes` takes each 16-bit unit as a rune of its own: `WriteRune` turns
the two halves of a surrogate pair into two replacement characters.
`UTF16ToBytes` ranges over the runes of its string, a byte that starts no valid
UTF-8 sequence counting as the replacement character, and keeps the low 16
bits of each.
-/

import SmbServer.Lib.Bytes

namespace SmbServer
open List

/-- A Go `string`: any sequence of bytes. -/
abbrev GoString := Bytes

namespace Wire

/-- The UTF-8 bytes `WriteRune` writes for a 16-bit rune; a surrogate is written
as U+FFFD. -/
def encodeRune (r : ℕ) : Bytes :=
  if r < 0x80 then [UInt8.ofNat r]
  else if r < 0x800 then [UInt8.ofNat (0xC0 + r / 64), UInt8.ofNat (0x80 + r % 64)]
  else if 0xD800 ≤ r ∧ r < 0xE000 then [0xEF, 0xBF, 0xBD]
  else [UInt8.ofNat (0xE0 + r / 4096), UInt8.ofNat (0x80 + r / 64 % 64), UInt8.ofNat (0x80 + r % 64)]

/-- `UTF16FromBytes`. -/
def utf16FromBytes : Bytes → GoString
  | lo :: hi :: rest => encodeRune (lo.toNat + 256 * hi.toNat) ++ utf16FromBytes rest
  | _ => []

/-- A UTF-8 continuation byte, and its six bits. -/
def contByte (b : UInt8) : Option ℕ :=
  if 0x80 ≤ b ∧ b ≤ 0xBF then some (b.toNat - 0x80) else none

/-- The lead byte of a longer sequence: how many continuation bytes follow, the
bits it contributes, and the range its second byte must lie in. -/
def leadByte (b : UInt8) : Option (ℕ × ℕ × UInt8 × UInt8) :=
  if 0xC2 ≤ b ∧ b ≤ 0xDF then some (1, b.toNat - 0xC0, 0x80, 0xBF)
  else if b = 0xE0 then some (2, 0, 0xA0, 0xBF)
  else if b = 0xED then some (2, 0xD, 0x80, 0x9F)
  else if 0xE1 ≤ b ∧ b ≤ 0xEF then some (2, b.toNat - 0xE0, 0x80, 0xBF)
  else if b = 0xF0 then some (3, 0, 0x90, 0xBF)
  else if 0xF1 ≤ b ∧ b ≤ 0xF3 then some (3, b.toNat - 0xF0, 0x80, 0xBF)
  else if b = 0xF4 then some (3, 4, 0x80, 0x8F)
  else none

/-- The value of `n` continuation bytes after `acc`. -/
def contBytes : ℕ → ℕ → Bytes → Option ℕ
  | 0, acc, _ => some acc
  | _ + 1, _, [] => none
  | n + 1, acc, b :: bs => (contByte b).bind fun v => contBytes n (64 * acc + v) bs

/-- The first rune of `b :: bs` and how many bytes of `bs` belong to it. -/
def decodeRune (b : UInt8) (bs : Bytes) : ℕ × ℕ :=
  if b < 0x80 then (b.toNat, 0)
  else
    match leadByte b, bs with
    | some (n, acc, lo, hi), c :: _ =>
      if lo ≤ c ∧ c ≤ hi then
        match contBytes n acc bs with
        | some r => (r, n)
        | none => (0xFFFD, 0)
      else (0xFFFD, 0)
    | _, _ => (0xFFFD, 0)

/-- `for _, r := range s`, at most `fuel` runes of it. -/
def runesAux : ℕ → GoString → List ℕ
  | 0, _ => []
  | _ + 1, [] => []
  | fuel + 1, b :: bs => (decodeRune b bs).1 :: runesAux fuel (bs.drop (decodeRune b bs).2)

/-- The runes of a string.  A string has at most as many runes as bytes. -/
def runes (s : GoString) : List ℕ := runesAux s.length s

/-- `UTF16ToBytes`. -/
def utf16ToBytes (s : GoString) : Bytes := (runes s).flatMap fun r => leBytes 2 r

theorem length_runesAux_le (fuel : ℕ) (s : GoString) : (runesAux fuel s).length ≤ fuel := by
  induction fuel generalizing s with
  | zero => simp [runesAux]
  | succ fuel ih =>
    cases s with
    | nil => simp [runesAux]
    | cons b bs =>
      rw [runesAux, length_cons]
      exact Nat.succ_le_succ (ih _)

theorem length_utf16ToBytes (s : GoString) : (utf16ToBytes s).length = 2 * (runes s).length := by
  simp [utf16ToBytes, length_flatMap, Nat.mul_comm]

/-- A name takes at most two bytes of UTF-16 for each byte of UTF-8. -/
theorem length_utf16ToBytes_le (s : GoString) : (utf16ToBytes s).length ≤ 2 * s.length := by
  have h := length_runesAux_le s.length s
  rw [length_utf16ToBytes, runes]
  omega

theorem length_utf16ToBytes_replicate (n : ℕ) : (utf16ToBytes (replicate n 0x61)).length = 2 * n := by
  have haux : ∀ n, (runesAux n (replicate n 0x61)).length = n := by
    intro n
    induction n with
    | zero => rfl
    | succ n ih => exact congrArg Nat.succ ih
  rw [length_utf16ToBytes, runes, length_replicate, haux]

example : utf16FromBytes [0x61, 0, 0x5C, 0, 0x62, 0] = [0x61, 0x5C, 0x62] := by decide

end Wire

end SmbServer
