/-
# SPNEGO tokens

`smb/ntlmssp/spnego.go`: `unwrapSPNEGOToken` looks for an NTLMSSP message in the token of
a SESSION_SETUP.  A token that is one is taken as it is.  In a token with the tag of an
InitialContextToken, and else in the whole token, the server scans for a byte `A2`, the
tag of a mechToken and of a responseToken, and reads what stands behind it as a length
and a value; no other part of the structure is checked.

| bytes of a value | length field | value starts at |
| --- | --- | --- |
| up to 127 | one byte | 2 |
| any | `80 + n`, then `n` bytes, most significant first | `2 + n` |

`parseContextTag` folds the `n` bytes into an `int`, which is 64 bits wide and signed.

`encoding/asn1` is the structure `Asn1`: what `Unmarshal` finds in a token that it
accepts, and what `Marshal` writes.
-/

import SmbServer.Lib.Go

namespace SmbServer
namespace Ntlm

/-- `ntlmSignature`: `NTLMSSP` and a zero. -/
def ntlmSignature : Bytes := [0x4E, 0x54, 0x4C, 0x4D, 0x53, 0x53, 0x50, 0x00]

/-- `isNTLMSSP`. -/
def isNTLMSSP (b : Bytes) : Bool := decide (8 ≤ b.length) && decide (slice b 0 8 = ntlmSignature)

/-- The errors of the package, by the place they are made. -/
inductive Error where
  | shortTag
  | truncatedLength
  | truncatedValue
  | notLocated
  | shortMessage
  | badSignature
  | badType
  | fieldOutOfRange
  deriving DecidableEq, Repr

/-! ### Tags -/

/-- The `int` that arithmetic on `int`s leaves, which are 64 bits wide. -/
def toInt (x : ℤ) : ℤ := x.bmod (2 ^ 64)

/-- `length<<8 | int(b)`. -/
def shiftIn (length : ℤ) (b : UInt8) : ℤ := toInt (length * 256 + b.toNat)

/-- The end of `parseContextTag`: the value from `idx` on.  The sum of the two `int`s wraps, and
a slice whose end lies before its start is a panic. -/
def tagValue (b : Bytes) (idx : ℕ) (length : ℤ) : Res Error Bytes :=
  let stop := toInt (idx + length)
  if (b.length : ℤ) < stop then .err .truncatedValue
  else if (idx : ℤ) ≤ stop then .ok (slice b idx (stop - idx).toNat)
  else .panic

/-- `parseContextTag`. -/
def parseContextTag (b : Bytes) : Res Error Bytes :=
  if b.length < 2 then .err .shortTag
  else
    let length := (u8At b 1).toNat
    if length &&& 0x80 ≠ 0 then
      let n := length &&& 0x7F
      if b.length < 2 + n then .err .truncatedLength
      else tagValue b (2 + n) ((slice b 2 n).foldl shiftIn 0)
    else tagValue b 2 length

/-! ### The scans -/

/-- What `scanTag2OctetString` does with the value of a tag: the message in it, if there is one. -/
def octetString (inner : Bytes) : Res Error (Option Bytes) :=
  let whole := if isNTLMSSP inner then some inner else none
  if inner.length < 2 then .ok none
  else if u8At inner 0 = 0x04 then
    match parseContextTag inner with
    | .panic => .panic
    | .err _ => .ok whole
    | .ok token => .ok (if isNTLMSSP token then some token else whole)
  else .ok whole

/-- A position of a scan: what `k` makes of the value, if a tag `A2` stands there. -/
def tagAt (k : Bytes → Res Error (Option Bytes)) (b : Bytes) : Res Error (Option Bytes) :=
  if b.head? ≠ some 0xA2 then .ok none
  else
    match parseContextTag b with
    | .panic => .panic
    | .err _ => .ok none
    | .ok inner => k inner

/-- The loop of both scans: the positions in turn that have at least `n` bytes behind them, up
to one that returns something. -/
def scan (n : ℕ) (k : Bytes → Res Error (Option Bytes)) : Bytes → Res Error (Option Bytes)
  | [] => .ok none
  | x :: rest =>
    if rest.length < n then .ok none
    else
      match tagAt k (x :: rest) with
      | .ok none => scan n k rest
      | r => r

/-- `scanTag2OctetString`, which is also `scanForMechToken` and `scanForRespToken`. -/
def scanTag2OctetString (raw : Bytes) : Res Error (Option Bytes) := scan 2 octetString raw

/-- `findContextTag2`. -/
def findContextTag2 (raw : Bytes) : Res Error (Option Bytes) := scan 1 (fun inner => .ok (some inner)) raw

/-! ### Tokens -/

/-- `encoding/asn1` as far as it is used. -/
structure Asn1 where
  /-- The `Init.Bytes` and `Resp.Bytes` of an InitialContextToken. -/
  contextToken : Bytes → Option (Bytes × Bytes)
  /-- The `ResponseToken` of a NegTokenResp. -/
  negTokenResp : Bytes → Option Bytes
  /-- A NegTokenResp with a state and a token; the mechanism is NTLMSSP. -/
  marshal : ℕ → Bytes → Bytes

/-- The token under the tag of a SEQUENCE, as `Unmarshal` gets it. -/
def sequenceOf (token : Bytes) : Bytes := 0x30 :: token.drop 1

/-- The part of `unwrapSPNEGOToken` for an InitialContextToken. -/
def mechToken (asn : Asn1) (token : Bytes) : Res Error (Option Bytes) :=
  if token.head? = some 0x60 then
    match asn.contextToken (sequenceOf token) with
    | none => .ok none
    | some (init, resp) => do
        match ← scanTag2OctetString init with
        | some m => return some m
        | none => scanTag2OctetString resp
  else .ok none

/-- The end of `unwrapSPNEGOToken`, for a NegTokenResp. -/
def responseToken (asn : Asn1) (token : Bytes) : Res Error Bytes :=
  if token.head? = some 0xA1 then
    match asn.negTokenResp (sequenceOf token) with
    | some m => if isNTLMSSP m then .ok m else .err .notLocated
    | none => .err .notLocated
  else .err .notLocated

/-- `unwrapSPNEGOToken`. -/
def unwrapSPNEGOToken (asn : Asn1) (token : Bytes) : Res Error Bytes :=
  if isNTLMSSP token then .ok token
  else do
    match ← mechToken asn token with
    | some m => return m
    | none =>
      match ← findContextTag2 token with
      | some m => if isNTLMSSP m then return m else responseToken asn token
      | none => responseToken asn token

/-- The bytes of a length, most significant first: eight are enough for an `int`. -/
def lengthBytes : ℕ → ℕ → Bytes → Bytes
  | 0, _, buf => buf
  | fuel + 1, n, buf => if n = 0 then buf else lengthBytes fuel (n / 256) (UInt8.ofNat n :: buf)

/-- `derLength`. -/
def derLength (n : ℕ) : Bytes :=
  if n < 0x80 then [UInt8.ofNat n]
  else
    let buf := lengthBytes 8 n []
    UInt8.ofNat (0x80 + buf.length) :: buf

/-- `wrapNegTokenResp`. -/
def wrapNegTokenResp (asn : Asn1) (negState : ℕ) (responseToken : Bytes) : Bytes :=
  let content := asn.marshal negState responseToken
  0xA1 :: derLength content.length ++ content

/-- `wrapSPNEGOChallenge`. -/
def wrapSPNEGOChallenge (asn : Asn1) (challenge : Bytes) : Bytes := wrapNegTokenResp asn 1 challenge

/-- `wrapSPNEGOAccept`. -/
def wrapSPNEGOAccept (asn : Asn1) : Bytes := wrapNegTokenResp asn 0 []

end Ntlm
end SmbServer
