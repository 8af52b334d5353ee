/-
# The SMB2 header

`smb/wire/header.go` and `smb/wire/constants.go`: the 64-byte header every SMB2
message starts with, its commands and flags, and the two halves of its codec,
`Header.EncodeAt` (`Header.encode`) and `Header.Parse` (`Header.parse`).  The
status codes are those of `smb/wire/status.go`.

Bytes 32 to 39 hold an `AsyncId` when `FlagAsyncCommand` is set and a reserved
word with the `TreeId` otherwise, so a header parsed from an asynchronous
message has the `TreeId` `0` of the zeroed Go struct.  `Header.ProtocolId` is
written by `Parse` and read by nobody, and is left out.
-/

import SmbServer.Lib.Go

namespace SmbServer
open Res

/-- A Go array `[n]byte`. -/
abbrev Arr (n : ℕ) := { b : Bytes // b.length = n }

/-- The zero value of `[n]byte`. -/
def Arr.zero (n : ℕ) : Arr n := ⟨zeros n, length_zeros n⟩

/-- `copy(a[:], b[o:])` into a fresh `[n]byte`, a panic when it is out of range. -/
def Res.arr {ε : Type} (b : Bytes) (o n : ℕ) : Res ε (Arr n) :=
  if h : o + n ≤ b.length then .ok ⟨SmbServer.slice b o n, by rw [length_slice]; omega⟩ else .panic

theorem Res.arr_bind {ε β : Type} {b : Bytes} {o n : ℕ} (h : o + n ≤ b.length)
    (f : Arr n → Res ε β) :
    (arr b o n >>= f) = f ⟨SmbServer.slice b o n, by rw [length_slice]; omega⟩ := by
  rw [arr, dif_pos h, ok_bind]

namespace Wire

/-- `HeaderSize`. -/
def headerSize : ℕ := 64

/-- `SMB2ProtocolId`. -/
def smb2ProtocolId : Bytes := [0xFE, 0x53, 0x4D, 0x42]

/-! ### Commands -/

def cmdNegotiate : UInt16 := 0x0000
def cmdSessionSetup : UInt16 := 0x0001
def cmdLogoff : UInt16 := 0x0002
def cmdTreeConnect : UInt16 := 0x0003
def cmdTreeDisconnect : UInt16 := 0x0004
def cmdCreate : UInt16 := 0x0005
def cmdClose : UInt16 := 0x0006
def cmdFlush : UInt16 := 0x0007
def cmdRead : UInt16 := 0x0008
def cmdWrite : UInt16 := 0x0009
def cmdLock : UInt16 := 0x000A
def cmdIoctl : UInt16 := 0x000B
def cmdCancel : UInt16 := 0x000C
def cmdEcho : UInt16 := 0x000D
def cmdQueryDirectory : UInt16 := 0x000E
def cmdChangeNotify : UInt16 := 0x000F
def cmdQueryInfo : UInt16 := 0x0010
def cmdSetInfo : UInt16 := 0x0011
def cmdOplockBreak : UInt16 := 0x0012

/-! ### Flags -/

def flagServerToRedir : UInt32 := 0x00000001
def flagAsyncCommand : UInt32 := 0x00000002
def flagRelatedOps : UInt32 := 0x00000004
def flagSigned : UInt32 := 0x00000008

/-! ### Status codes -/

def statusSuccess : UInt32 := 0x00000000
def statusPending : UInt32 := 0x00000103
def statusCancelled : UInt32 := 0xC0000120
def statusInvalidHandle : UInt32 := 0xC0000008
def statusNotImplemented : UInt32 := 0xC0000002
def statusInvalidParameter : UInt32 := 0xC000000D
def statusInvalidDeviceRequest : UInt32 := 0xC0000010
def statusEndOfFile : UInt32 := 0xC0000011
def statusMoreProcessingRequired : UInt32 := 0xC0000016
def statusAccessDenied : UInt32 := 0xC0000022
def statusObjectNameNotFound : UInt32 := 0xC0000034
def statusObjectNameCollision : UInt32 := 0xC0000035
def statusNotSupported : UInt32 := 0xC00000BB
def statusLogonFailure : UInt32 := 0xC000006D
def statusBadNetworkName : UInt32 := 0xC00000CC
def statusNetworkNameDeleted : UInt32 := 0xC00000C9
def statusLockConflict : UInt32 := 0xC0000054
def statusNoMoreFiles : UInt32 := 0x80000006
def statusUserSessionDeleted : UInt32 := 0xC0000203

/-- The errors of the decoders.  Every caller turns one into a status without
looking at it. -/
inductive Error where
  | short (need got : ℕ)
  | badProtocolId
  | structureSize (got want : UInt16)
  | outOfRange
  deriving DecidableEq, Repr

/-- `Header`. -/
structure Header where
  structureSize : UInt16 := 0
  creditCharge : UInt16 := 0
  status : UInt32 := 0
  command : UInt16 := 0
  credit : UInt16 := 0
  flags : UInt32 := 0
  nextCommand : UInt32 := 0
  messageId : UInt64 := 0
  asyncId : UInt64 := 0
  treeId : UInt32 := 0
  sessionId : UInt64 := 0
  signature : Arr 16 := Arr.zero 16
  deriving DecidableEq

/-- Bytes 32 to 39 of the header. -/
def Header.encodeId (h : Header) : Bytes :=
  if h.flags &&& flagAsyncCommand ≠ 0 then put64 h.asyncId else put32 0 ++ put32 h.treeId

/-- The 64 bytes `Header.EncodeAt` writes. -/
def Header.encode (h : Header) : Bytes :=
  smb2ProtocolId ++ put16 64 ++ put16 h.creditCharge ++ put32 h.status ++ put16 h.command ++
    put16 h.credit ++ put32 h.flags ++ put32 h.nextCommand ++ put64 h.messageId ++ h.encodeId ++
    put64 h.sessionId ++ h.signature.1

/-- `Header.Parse` into a fresh header. -/
def Header.parse (b : Bytes) : Res Error Header := do
  if b.length < headerSize then Res.throw (.short headerSize b.length)
  if slice b 0 4 ≠ smb2ProtocolId then Res.throw .badProtocolId
  let structureSize ← Res.u16 b 4
  let creditCharge ← Res.u16 b 6
  let status ← Res.u32 b 8
  let command ← Res.u16 b 12
  let credit ← Res.u16 b 14
  let flags ← Res.u32 b 16
  let nextCommand ← Res.u32 b 20
  let messageId ← Res.u64 b 24
  let async := flags &&& flagAsyncCommand ≠ 0
  let asyncId ← if async then Res.u64 b 32 else pure 0
  let treeId ← if async then pure 0 else Res.u32 b 36
  let sessionId ← Res.u64 b 40
  let signature ← Res.arr b 48 16
  return { structureSize, creditCharge, status, command, credit, flags, nextCommand, messageId,
           asyncId, treeId, sessionId, signature }

@[simp] theorem Header.length_encodeId (h : Header) : h.encodeId.length = 8 := by
  unfold Header.encodeId
  split_ifs <;> simp

@[simp] theorem Header.length_encode (h : Header) : h.encode.length = 64 := by
  simp [Header.encode, smb2ProtocolId, h.signature.2]

/-- The fields of a header, where `EncodeAt` puts them. -/
structure Header.Written (h : Header) (b : Bytes) : Prop where
  protocolId : slice b 0 4 = smb2ProtocolId
  structureSize : u16At b 4 = 64
  creditCharge : u16At b 6 = h.creditCharge
  status : u32At b 8 = h.status
  command : u16At b 12 = h.command
  credit : u16At b 14 = h.credit
  flags : u32At b 16 = h.flags
  nextCommand : u32At b 20 = h.nextCommand
  messageId : u64At b 24 = h.messageId
  id : slice b 32 8 = h.encodeId
  sessionId : u64At b 40 = h.sessionId
  signature : slice b 48 16 = h.signature.1

theorem Header.written_encode (h : Header) : h.Written h.encode := by
  have hproto : smb2ProtocolId.length = 4 := rfl
  have hsig : slice h.signature.1 0 16 = h.signature.1 := List.take_of_length_le h.signature.2.le
  unfold Header.encode
  simp only [List.append_assoc]
  constructor <;>
    simp [slice_head, slice_append_right, u16At_append_right, u32At_append_right, u64At_append_right,
      u16At_put16, u32At_put32, u64At_put64, hproto, hsig]

theorem Header.Written.asyncId {h : Header} {b : Bytes} (hw : h.Written b)
    (hasync : h.flags &&& flagAsyncCommand ≠ 0) : u64At b 32 = h.asyncId :=
  u64At_of_slice (by rw [hw.id, Header.encodeId, if_pos hasync])

theorem Header.Written.treeId {h : Header} {b : Bytes} (hw : h.Written b)
    (hsync : h.flags &&& flagAsyncCommand = 0) : u32At b 36 = h.treeId := by
  have hid : slice (b.drop 32) 0 8 = put32 0 ++ put32 h.treeId := by
    have := hw.id
    rwa [Header.encodeId, if_neg (not_not.2 hsync)] at this
  refine u32At_of_slice ?_
  calc slice b 36 4 = slice (slice (b.drop 32) 0 8) 4 4 := by
        rw [slice_slice _ (by decide), slice, slice, List.drop_drop]
    _ = put32 h.treeId := by
        rw [hid, slice_append_right _ _ (by simp), length_put32, Nat.sub_self]
        exact List.take_of_length_le (by simp)

/-- What `Parse` reads from a buffer that starts with the protocol id. -/
theorem Header.parse_ok {b : Bytes} (hb : 64 ≤ b.length) (hp : slice b 0 4 = smb2ProtocolId) :
    Header.parse b = .ok
      { structureSize := u16At b 4
        creditCharge := u16At b 6
        status := u32At b 8
        command := u16At b 12
        credit := u16At b 14
        flags := u32At b 16
        nextCommand := u32At b 20
        messageId := u64At b 24
        asyncId := if u32At b 16 &&& flagAsyncCommand ≠ 0 then u64At b 32 else 0
        treeId := if u32At b 16 &&& flagAsyncCommand ≠ 0 then 0 else u32At b 36
        sessionId := u64At b 40
        signature := ⟨slice b 48 16, by rw [length_slice]; omega⟩ } := by
  have hlt : ¬ b.length < headerSize := by unfold headerSize; omega
  simp only [Header.parse, u16, u32, u64, arr, hlt, if_false, hp, ne_eq,
    not_true_eq_false, pure_eq, ok_bind, show 4 + 2 ≤ b.length by omega,
    show 6 + 2 ≤ b.length by omega, show 8 + 4 ≤ b.length by omega,
    show 12 + 2 ≤ b.length by omega, show 14 + 2 ≤ b.length by omega,
    show 16 + 4 ≤ b.length by omega, show 20 + 4 ≤ b.length by omega,
    show 24 + 8 ≤ b.length by omega, show 32 + 8 ≤ b.length by omega,
    show 40 + 8 ≤ b.length by omega, show 48 + 16 ≤ b.length by omega, if_true, dite_true]
  by_cases hf : u32At b 16 &&& flagAsyncCommand = 0 <;> simp [hf]

/-- A parsed header comes from 64 bytes that start with the protocol id. -/
theorem Header.parse_eq_ok {b : Bytes} {h : Header} (hh : Header.parse b = .ok h) :
    64 ≤ b.length ∧ slice b 0 4 = smb2ProtocolId := by
  unfold Header.parse at hh
  by_cases hlt : b.length < headerSize
  · simp [hlt, Res.throw] at hh
  · by_cases hp : slice b 0 4 = smb2ProtocolId
    · exact ⟨by unfold headerSize at hlt; omega, hp⟩
    · simp [hlt, hp, Res.throw] at hh

theorem Header.parse_sessionId {b : Bytes} {h : Header} (hh : Header.parse b = .ok h) :
    h.sessionId = u64At b 40 := by
  obtain ⟨hb, hp⟩ := Header.parse_eq_ok hh
  rw [Header.parse_ok hb hp, Res.ok.injEq] at hh
  rw [← hh]

/-- The header of a message, whatever stands in its signature field. -/
def Header.In (h : Header) (msg : Bytes) : Prop :=
  ∃ sig, Header.parse msg = .ok { h with signature := sig }

/-- Only the first 48 bytes and the signature make a header. -/
theorem Header.in_of_slice {b b' : Bytes} {h : Header} (hh : Header.parse b = .ok h)
    (hs : slice b' 0 48 = slice b 0 48) (hl : 64 ≤ b'.length) : h.In b' := by
  obtain ⟨hb, hp⟩ := Header.parse_eq_ok hh
  have hsub : ∀ {o n : ℕ}, o + n ≤ 48 → slice b' o n = slice b o n := fun {o n} hon => by
    rw [← slice_slice b' hon, hs, slice_slice b hon]
  rw [Header.parse_ok hb hp, Res.ok.injEq] at hh
  refine ⟨⟨slice b' 48 16, by rw [length_slice]; omega⟩, ?_⟩
  rw [Header.parse_ok hl ((hsub (by decide)).trans hp), ← hh]
  simp only [u16At, u32At, u64At, hsub (o := 4) (n := 2) (by decide),
    hsub (o := 6) (n := 2) (by decide), hsub (o := 8) (n := 4) (by decide),
    hsub (o := 12) (n := 2) (by decide), hsub (o := 14) (n := 2) (by decide),
    hsub (o := 16) (n := 4) (by decide), hsub (o := 20) (n := 4) (by decide),
    hsub (o := 24) (n := 8) (by decide), hsub (o := 32) (n := 8) (by decide),
    hsub (o := 36) (n := 4) (by decide), hsub (o := 40) (n := 8) (by decide)]
  rfl

/-- Two headers of one message differ at most in their signatures. -/
theorem Header.In.nextCommand_eq {h h' : Header} {msg : Bytes} (hh : h.In msg) (hh' : h'.In msg) :
    h'.nextCommand = h.nextCommand := by
  obtain ⟨sig, e⟩ := hh
  obtain ⟨sig', e'⟩ := hh'
  have he := congrArg Header.nextCommand (Res.ok.inj (e'.symm.trans e))
  exact he

end Wire

end SmbServer
