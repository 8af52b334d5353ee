/-
# NTLM messages

`smb/ntlmssp/messages.go` and what it needs of `crypto.go`.  A field of a message is its
length, the same again, and the offset of its bytes in the message.

| message | type | fixed part | fields |
| --- | --- | --- | --- |
| NEGOTIATE | 1 | 32 | domain at 16, workstation at 24 |
| CHALLENGE | 2 | 56 | target name at 12, target info at 40 |
| AUTHENTICATE | 3 | 88 | LM response at 12, NT response at 20, domain at 28, user at 36, workstation at 44, session key at 52 |

A slice of a Go program may be `nil` where it has no bytes; nothing here asks for the
difference.
-/

import SmbServer.Ntlm.Spnego
import SmbServer.Wire.Header
import SmbServer.Wire.Text

namespace SmbServer
open Res
namespace Ntlm

open Wire (utf16ToBytes)

def msgNegotiate : UInt32 := 0x00000001
def msgChallenge : UInt32 := 0x00000002
def msgAuthenticate : UInt32 := 0x00000003

def flagNegotiateKeyExch : UInt32 := 0x40000000

/-- `serverChallengeFlags`: Unicode, RequestTarget, NTLM, Sign, Seal, AlwaysSign, ExtSecurity,
TargetInfo, 128, Version and KeyExch. -/
def serverChallengeFlags : UInt32 :=
  0x00000001 ||| 0x00000004 ||| 0x00000200 ||| 0x00000010 ||| 0x00000020 ||| 0x00008000 ||| 0x00080000 |||
    0x00800000 ||| 0x20000000 ||| 0x02000000 ||| flagNegotiateKeyExch

/-- `extractPayload`: the bytes a field names. -/
def extractPayload (msg fields : Bytes) : Res Error Bytes := do
  let l ← Res.u16 fields 0
  let o ← Res.u32 fields 4
  if l = 0 then return []
  else if msg.length < o.toNat + l.toNat then Res.throw .fieldOutOfRange
  else Res.slice msg o.toNat l.toNat

/-- The field of `msg` at `o`. -/
def payloadAt (msg : Bytes) (o : ℕ) : Res Error Bytes := do extractPayload msg (← Res.slice msg o 8)

/-- The test that all parsers start with. -/
def checkHeader (b : Bytes) (fixedLen : ℕ) (msgType : UInt32) : Res Error Unit := do
  if b.length < fixedLen then Res.throw .shortMessage
  else
    let signature ← Res.slice b 0 8
    if signature ≠ ntlmSignature then Res.throw .badSignature
    else
      let mt ← Res.u32 b 8
      if mt ≠ msgType then Res.throw .badType

/-- `negotiateMessage`. -/
structure NegotiateMessage where
  flags : UInt32
  domainName : GoString
  workstation : GoString

def negotiateFixedLen : ℕ := 32

/-- A field that may be out of range: it is then left empty. -/
def optionalPayload (msg : Bytes) (o : ℕ) : Res Error Bytes :=
  match payloadAt msg o with
  | .err _ => .ok []
  | r => r

/-- `parseNegotiateMessage`. -/
def parseNegotiateMessage (b : Bytes) : Res Error NegotiateMessage := do
  checkHeader b negotiateFixedLen msgNegotiate
  let flags ← Res.u32 b 12
  let domainName ← optionalPayload b 16
  let workstation ← optionalPayload b 24
  return { flags, domainName, workstation }

/-- `challengeMessage`. -/
structure ChallengeMessage where
  flags : UInt32
  serverChallenge : Arr 8
  targetName : GoString
  targetInfo : Bytes

def challengeFixedLen : ℕ := 56

/-- `challengeMessage.Marshal`, which does not fail. -/
def ChallengeMessage.marshal (m : ChallengeMessage) : Bytes :=
  let target := utf16ToBytes m.targetName
  ntlmSignature ++ put32 msgChallenge ++
    put16 (UInt16.ofNat target.length) ++ put16 (UInt16.ofNat target.length) ++ put32 (UInt32.ofNat challengeFixedLen) ++
    put32 m.flags ++ m.serverChallenge.1 ++ zeros 8 ++
    put16 (UInt16.ofNat m.targetInfo.length) ++ put16 (UInt16.ofNat m.targetInfo.length) ++
    put32 (UInt32.ofNat (challengeFixedLen + target.length)) ++ zeros 8 ++ target ++ m.targetInfo

/-- `authenticateMessage`. -/
structure AuthenticateMessage where
  flags : UInt32
  domainName : Bytes
  userName : Bytes
  workstation : Bytes
  lmChallengeResponse : Bytes
  ntChallengeResponse : Bytes
  encryptedSessionKey : Bytes
  mic : Bytes

def authenticateFixedLen : ℕ := 88

/-- `parseAuthenticateMessage`. -/
def parseAuthenticateMessage (b : Bytes) : Res Error AuthenticateMessage := do
  checkHeader b authenticateFixedLen msgAuthenticate
  let flags ← Res.u32 b 60
  let lmChallengeResponse ← payloadAt b 12
  let ntChallengeResponse ← payloadAt b 20
  let domainName ← payloadAt b 28
  let userName ← payloadAt b 36
  let workstation ← payloadAt b 44
  let encryptedSessionKey ← payloadAt b 52
  let mic ← Res.slice b 64 16
  return { flags, domainName, userName, workstation
           lmChallengeResponse, ntChallengeResponse, encryptedSessionKey, mic }

/-! ### The parsers do not panic -/

theorem payloadAt_safe {msg : Bytes} {o : ℕ} (h : o + 8 ≤ msg.length) : (payloadAt msg o).Safe := by
  refine .bind (.slice h) fun fields hfields => ?_
  obtain ⟨rfl, -⟩ := slice_eq_ok hfields
  have hlen : (slice msg o 8).length = 8 := by rw [length_slice]; omega
  unfold extractPayload
  rw [u16_bind (by omega), u32_bind (by omega)]
  split_ifs with h1 h2
  · exact .ok _
  · exact .throw _
  · exact .slice (by omega)

theorem optionalPayload_safe {msg : Bytes} {o : ℕ} (h : o + 8 ≤ msg.length) : (optionalPayload msg o).Safe := by
  have hsafe := payloadAt_safe h
  unfold optionalPayload
  cases hp : payloadAt msg o with
  | ok a => exact .ok a
  | err e => exact .ok []
  | panic => exact absurd hp hsafe

theorem checkHeader_safe (b : Bytes) {fixedLen : ℕ} (msgType : UInt32) (h : 12 ≤ fixedLen) :
    (checkHeader b fixedLen msgType).Safe := by
  unfold checkHeader
  split_ifs with hlen
  · exact .throw _
  · refine .bind (.slice (by omega)) fun signature _ => ?_
    split_ifs
    · exact .throw _
    · rw [u32_bind (by omega)]
      split_ifs
      · exact .throw _
      · exact .ok _

theorem length_of_checkHeader {b : Bytes} {fixedLen : ℕ} {msgType : UInt32} {u : Unit}
    (h : checkHeader b fixedLen msgType = .ok u) : fixedLen ≤ b.length := by
  unfold checkHeader at h
  split_ifs at h with hlen
  · cases h
  · omega

theorem parseNegotiateMessage_safe (b : Bytes) : (parseNegotiateMessage b).Safe := by
  refine .bind (checkHeader_safe b _ (by decide)) fun _ h => ?_
  have hlen : 32 ≤ b.length := length_of_checkHeader h
  rw [u32_bind (by omega)]
  refine .bind (optionalPayload_safe (by omega)) fun _ _ => ?_
  exact .bind (optionalPayload_safe (by omega)) fun _ _ => .ok _

theorem parseAuthenticateMessage_safe (b : Bytes) : (parseAuthenticateMessage b).Safe := by
  refine .bind (checkHeader_safe b _ (by decide)) fun _ h => ?_
  have hlen : 88 ≤ b.length := length_of_checkHeader h
  rw [u32_bind (by omega)]
  refine .bind (payloadAt_safe (by omega)) fun _ _ => ?_
  refine .bind (payloadAt_safe (by omega)) fun _ _ => ?_
  refine .bind (payloadAt_safe (by omega)) fun _ _ => ?_
  refine .bind (payloadAt_safe (by omega)) fun _ _ => ?_
  refine .bind (payloadAt_safe (by omega)) fun _ _ => ?_
  refine .bind (payloadAt_safe (by omega)) fun _ _ => ?_
  exact .bind (.slice (by omega)) fun _ _ => .ok _

end Ntlm
end SmbServer
