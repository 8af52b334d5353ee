/-
# The TRANSFORM envelope

`smb/encryption/encryption.go` and `ccm.go`: AES-128-CCM over a whole SMB2
message, wrapped in a 52-byte transform header (`TransformHeaderSize`).

| bytes | field |
| --- | --- |
| 0 to 3 | `FD 'S' 'M' 'B'` |
| 4 to 19 | the CCM tag |
| 20 to 35 | the nonce, 11 bytes and 5 zeros |
| 36 to 39 | `OriginalMessageSize` |
| 42 to 43 | flags, always `1` |
| 44 to 51 | the session whose key seals the message |

Bytes 20 to 51 are the associated data.  `Seal` draws its nonce with
`rand.Read`, which fills its buffer and does not fail; the nonce is an argument
here.
-/

import SmbServer.Crypto.Signing

namespace SmbServer
namespace Encryption

/-- `TransformHeaderSize`. -/
def transformHeaderSize : ℕ := 52

/-- `transformProtocolId`. -/
def transformProtocolId : Bytes := [0xFD, 0x53, 0x4D, 0x42]

/-- `putBE`: the `w` low bytes of `n`, most significant first. -/
def beBytes (w n : ℕ) : Bytes := (leBytes w n).reverse

/-- The counter block `A_i`: flags, nonce, counter. -/
def ctrBlock (nonce : Bytes) (counter : ℕ) : Block :=
  let l := 15 - nonce.length
  blockOf ([UInt8.ofNat (l - 1)] ++ nonce ++ beBytes l counter)

/-- `ctrXorInPlace`, a block of data at a time from `counter` on. -/
def ctrXor (E : Block → Block) (nonce : Bytes) : ℕ → ℕ → Bytes → Bytes
  | 0, _, _ => []
  | fuel + 1, counter, data =>
    if data = [] then []
    else List.zipWith (· ^^^ ·) (data.take 16) (List.ofFn (E (ctrBlock nonce counter))) ++
      ctrXor E nonce fuel (counter + 1) (data.drop 16)

/-- `macBlocks`: the last block is padded with zeros. -/
def macBlocks (E : Block → Block) : ℕ → Block → Bytes → Block
  | 0, state, _ => state
  | fuel + 1, state, buf =>
    if buf = [] then state
    else macBlocks E fuel (E (xorBlock state (blockOf (buf.take 16)))) (buf.drop 16)

/-- `encodeAADLengthInto`. -/
def encodeAADLength (aad : Bytes) : Bytes :=
  (if aad.length < 0xFF00 then beBytes 2 aad.length else [0xFF, 0xFE] ++ beBytes 4 aad.length) ++ aad

/-- `cbcMac`, with the block `B_0` in front. -/
def cbcMac (E : Block → Block) (nonce aad data : Bytes) : Block :=
  let l := 15 - nonce.length
  let flags : ℕ := (if 0 < aad.length then 0x40 else 0) + 7 * 8 + (l - 1)
  let b0 := blockOf ([UInt8.ofNat flags] ++ nonce ++ beBytes l data.length)
  let x := E b0
  let x :=
    if 0 < aad.length then
      macBlocks E (encodeAADLength aad).length x (encodeAADLength aad)
    else x
  macBlocks E data.length x data

/-- `ccmEncryptInPlace`: the tag and the ciphertext. -/
def ccmEncrypt (E : Block → Block) (nonce aad data : Bytes) : Block × Bytes :=
  (xorBlock (cbcMac E nonce aad data) (E (ctrBlock nonce 0)), ctrXor E nonce data.length 1 data)

/-- `ccmDecryptInPlace`: the plaintext, `none` when authentication fails. -/
def ccmDecrypt (E : Block → Block) (nonce aad data tag : Bytes) : Option Bytes :=
  let plain := ctrXor E nonce data.length 1 data
  let expectedTag := xorBlock (blockOf tag) (E (ctrBlock nonce 0))
  if constantEqual (List.ofFn expectedTag) (List.ofFn (cbcMac E nonce aad plain)) then some plain
  else none

/-- `AESCCM`: a cipher, which is its key. -/
structure AESCCM where
  key : Bytes

/-- `NewAESCCM`; `none` is its error. -/
def newAESCCM (key : Bytes) : Option AESCCM := if key.length ≠ 16 then none else some ⟨key⟩

/-- `AESCCM.Seal` with the nonce `rand.Read` returned. -/
def AESCCM.seal (cr : Crypto) (c : AESCCM) (nonce : Fin 11 → UInt8) (msg : Bytes)
    (sessionID : UInt64) : Bytes :=
  let ccmNonce := List.ofFn nonce
  let aad := ccmNonce ++ zeros 5 ++ put32 (UInt32.ofNat msg.length) ++ zeros 2 ++ put16 1 ++
    put64 sessionID
  let (tag, ct) := ccmEncrypt (cr.aes c.key) ccmNonce aad msg
  transformProtocolId ++ List.ofFn tag ++ aad ++ ct

/-- `AESCCM.Open`; `none` is any of its errors. -/
def AESCCM.open (cr : Crypto) (c : AESCCM) (transform : Bytes) : Option Bytes :=
  if transform.length < transformHeaderSize then none
  else if slice transform 0 4 ≠ transformProtocolId then none
  else if transform.length - transformHeaderSize ≠ (u32At transform 36).toNat then none
  else
    ccmDecrypt (cr.aes c.key) (slice transform 20 11) (slice transform 20 32)
      (transform.drop transformHeaderSize) (slice transform 4 16)

/-- `DeriveServerEncryptionKey`: the label is `SMB2AESCCM`, the context `ServerOut`. -/
def deriveServerEncryptionKey (cr : Crypto) (sessionKey : Bytes) : Bytes :=
  kdfCounter cr sessionKey
    [0x53, 0x4D, 0x42, 0x32, 0x41, 0x45, 0x53, 0x43, 0x43, 0x4D, 0x00]
    [0x53, 0x65, 0x72, 0x76, 0x65, 0x72, 0x4F, 0x75, 0x74, 0x00]

/-- `DeriveServerDecryptionKey`: the context is `ServerIn `. -/
def deriveServerDecryptionKey (cr : Crypto) (sessionKey : Bytes) : Bytes :=
  kdfCounter cr sessionKey
    [0x53, 0x4D, 0x42, 0x32, 0x41, 0x45, 0x53, 0x43, 0x43, 0x4D, 0x00]
    [0x53, 0x65, 0x72, 0x76, 0x65, 0x72, 0x49, 0x6E, 0x20, 0x00]

end Encryption
end SmbServer
