/-
# Request bodies

The `Parse` methods of `smb/wire/fileops.go`, `session.go` and `negotiate.go`,
and `changeNotifyRequest.Parse` of `smb/server/changenotify.go`.  Each takes the
whole sub-command, header included (`NegotiateRequest.Parse` the bytes after the
header), checks the length and the `StructureSize` of the fixed part, and slices
the variable part at client-chosen offsets.  Every index and slice is checked as
Go checks it: out of range is a panic, not a short read.
-/

import SmbServer.Wire.Header

namespace SmbServer
namespace Wire

/-- `createBody`: the body starts after the header. -/
def createBody : ℕ := 64

/-- The common opening of the parsers: `need` bytes of body, whose first word is
the `StructureSize`. -/
def fixedBody (msg : Bytes) (need : ℕ) (want : UInt16) : Res Error Bytes := do
  if msg.length < createBody + need then Res.throw (.short (createBody + need) msg.length)
  let b := msg.drop createBody
  let ss ← Res.u16 b 0
  if ss ≠ want then Res.throw (.structureSize ss want)
  return b

/-- A variable part of `msg`, refused when it runs past the end. -/
def varPart (msg : Bytes) (off len : ℕ) : Res Error Bytes := do
  if msg.length < off + len then Res.throw .outOfRange
  Res.slice msg off len

/-- `CreateRequest`. -/
structure CreateRequest where
  requestedOplockLevel : UInt8
  desiredAccess : UInt32
  fileAttributes : UInt32
  shareAccess : UInt32
  createDisposition : UInt32
  createOptions : UInt32
  name : Bytes

def CreateRequest.parse (msg : Bytes) : Res Error CreateRequest := do
  let b ← fixedBody msg 57 57
  let requestedOplockLevel ← Res.u8 b 3
  let desiredAccess ← Res.u32 b 24
  let fileAttributes ← Res.u32 b 28
  let shareAccess ← Res.u32 b 32
  let createDisposition ← Res.u32 b 36
  let createOptions ← Res.u32 b 40
  let nameOff ← Res.u16 b 44
  let nameLen ← Res.u16 b 46
  let name ← varPart msg nameOff.toNat nameLen.toNat
  return { requestedOplockLevel, desiredAccess, fileAttributes, shareAccess, createDisposition,
           createOptions, name }

/-- `CloseRequest`. -/
structure CloseRequest where
  flags : UInt16
  fileId : Arr 16

def CloseRequest.parse (msg : Bytes) : Res Error CloseRequest := do
  let b ← fixedBody msg 24 24
  let flags ← Res.u16 b 2
  let fileId ← Res.arr b 8 16
  return { flags, fileId }

/-- `ReadRequest`. -/
structure ReadRequest where
  length : UInt32
  offset : UInt64
  fileId : Arr 16

def ReadRequest.parse (msg : Bytes) : Res Error ReadRequest := do
  let b ← fixedBody msg 49 49
  let length ← Res.u32 b 4
  let offset ← Res.u64 b 8
  let fileId ← Res.arr b 16 16
  return { length, offset, fileId }

/-- `WriteRequest`. -/
structure WriteRequest where
  length : UInt32
  offset : UInt64
  fileId : Arr 16
  data : Bytes

def WriteRequest.parse (msg : Bytes) : Res Error WriteRequest := do
  let b ← fixedBody msg 49 49
  let dataOff ← Res.u16 b 2
  let length ← Res.u32 b 4
  let offset ← Res.u64 b 8
  let fileId ← Res.arr b 16 16
  let data ← varPart msg dataOff.toNat length.toNat
  return { length, offset, fileId, data }

/-- A variable part has the length the request gives. -/
theorem length_varPart {msg b : Bytes} {off len : ℕ} (h : varPart msg off len = .ok b) :
    b.length = len := by
  unfold varPart at h
  split_ifs at h
  · cases h
  · obtain ⟨rfl, hle⟩ := Res.slice_eq_ok h
    rw [length_slice]
    omega

theorem WriteRequest.length_data {msg : Bytes} {req : WriteRequest}
    (h : WriteRequest.parse msg = .ok req) : req.data.length = req.length.toNat := by
  obtain ⟨_, -, h⟩ := Res.bind_eq_ok h
  obtain ⟨_, -, h⟩ := Res.bind_eq_ok h
  obtain ⟨_, -, h⟩ := Res.bind_eq_ok h
  obtain ⟨_, -, h⟩ := Res.bind_eq_ok h
  obtain ⟨_, -, h⟩ := Res.bind_eq_ok h
  obtain ⟨data, hdata, h⟩ := Res.bind_eq_ok h
  cases h
  exact length_varPart hdata

/-- `QueryDirectoryRequest`. -/
structure QueryDirectoryRequest where
  fileInformationClass : UInt8
  flags : UInt8
  fileIndex : UInt32
  fileId : Arr 16
  fileName : Bytes
  outputBufferLength : UInt32

def QueryDirectoryRequest.parse (msg : Bytes) : Res Error QueryDirectoryRequest := do
  let b ← fixedBody msg 33 33
  let fileInformationClass ← Res.u8 b 2
  let flags ← Res.u8 b 3
  let fileIndex ← Res.u32 b 4
  let fileId ← Res.arr b 8 16
  let nameOff ← Res.u16 b 24
  let nameLen ← Res.u16 b 26
  let outputBufferLength ← Res.u32 b 28
  -- A pattern that is out of range is left empty, not refused.
  let fileName ←
    if 0 < nameLen.toNat ∧ nameOff.toNat + nameLen.toNat ≤ msg.length then
      Res.slice msg nameOff.toNat nameLen.toNat
    else pure []
  return { fileInformationClass, flags, fileIndex, fileId, fileName, outputBufferLength }

/-- `QueryInfoRequest`. -/
structure QueryInfoRequest where
  infoType : UInt8
  fileInfoClass : UInt8
  outputBufferLength : UInt32
  additionalInfo : UInt32
  flags : UInt32
  fileId : Arr 16

def QueryInfoRequest.parse (msg : Bytes) : Res Error QueryInfoRequest := do
  let b ← fixedBody msg 41 41
  let infoType ← Res.u8 b 2
  let fileInfoClass ← Res.u8 b 3
  let outputBufferLength ← Res.u32 b 4
  let additionalInfo ← Res.u32 b 16
  let flags ← Res.u32 b 20
  let fileId ← Res.arr b 24 16
  return { infoType, fileInfoClass, outputBufferLength, additionalInfo, flags, fileId }

/-- `SetInfoRequest`. -/
structure SetInfoRequest where
  infoType : UInt8
  fileInfoClass : UInt8
  buffer : Bytes
  fileId : Arr 16

def SetInfoRequest.parse (msg : Bytes) : Res Error SetInfoRequest := do
  let b ← fixedBody msg 33 33
  let infoType ← Res.u8 b 2
  let fileInfoClass ← Res.u8 b 3
  let bufLen ← Res.u32 b 4
  let bufOff ← Res.u16 b 8
  let buffer ← varPart msg bufOff.toNat bufLen.toNat
  let fileId ← Res.arr b 16 16
  return { infoType, fileInfoClass, buffer, fileId }

/-- `FileBasicInformation`. -/
structure FileBasicInformation where
  creationTime : UInt64
  lastAccessTime : UInt64
  lastWriteTime : UInt64
  changeTime : UInt64
  fileAttributes : UInt32

def FileBasicInformation.parse (b : Bytes) : Res Error FileBasicInformation := do
  if b.length < 40 then Res.throw (.short 40 b.length)
  let creationTime ← Res.u64 b 0
  let lastAccessTime ← Res.u64 b 8
  let lastWriteTime ← Res.u64 b 16
  let changeTime ← Res.u64 b 24
  let fileAttributes ← Res.u32 b 32
  return { creationTime, lastAccessTime, lastWriteTime, changeTime, fileAttributes }

/-- `LockElement`. -/
structure LockElement where
  offset : UInt64
  length : UInt64
  flags : UInt32
  deriving DecidableEq

/-- `LockRequest`. -/
structure LockRequest where
  locks : List LockElement
  fileId : Arr 16

/-- The elements `i, …, i + n - 1` of the array at body offset 48. -/
def lockElements (b : Bytes) : ℕ → ℕ → Res Error (List LockElement)
  | 0, _ => pure []
  | n + 1, i => do
      let off := 48 + i * 24
      let offset ← Res.u64 b off
      let length ← Res.u64 b (off + 8)
      let flags ← Res.u32 b (off + 16)
      let rest ← lockElements b n (i + 1)
      return { offset, length, flags } :: rest

def LockRequest.parse (msg : Bytes) : Res Error LockRequest := do
  let b ← fixedBody msg 48 48
  let count ← Res.u16 b 2
  let fileId ← Res.arr b 8 16
  if msg.length < createBody + (48 + count.toNat * 24) then Res.throw .outOfRange
  let locks ← lockElements b count.toNat 0
  return { locks, fileId }

/-- `IoctlRequest`. -/
structure IoctlRequest where
  ctlCode : UInt32
  fileId : Arr 16
  input : Bytes
  maxOutputResponse : UInt32
  flags : UInt32

def IoctlRequest.parse (msg : Bytes) : Res Error IoctlRequest := do
  let b ← fixedBody msg 57 57
  let ctlCode ← Res.u32 b 4
  let fileId ← Res.arr b 8 16
  let inOff ← Res.u32 b 24
  let inLen ← Res.u32 b 28
  let maxOutputResponse ← Res.u32 b 40
  let flags ← Res.u32 b 44
  let input ←
    if 0 < inLen.toNat ∧ inOff.toNat + inLen.toNat ≤ msg.length then
      Res.slice msg inOff.toNat inLen.toNat
    else pure []
  return { ctlCode, fileId, input, maxOutputResponse, flags }

/-- `changeNotifyRequest`.  Its parser does not look at the `StructureSize`. -/
structure ChangeNotifyRequest where
  flags : UInt16
  outputBufferLength : UInt32
  fileId : Arr 16
  completionFilter : UInt32

def ChangeNotifyRequest.parse (msg : Bytes) : Res Error ChangeNotifyRequest := do
  if msg.length < 64 + 32 then Res.throw (.short (64 + 32) msg.length)
  let b := msg.drop 64
  let flags ← Res.u16 b 2
  let outputBufferLength ← Res.u32 b 4
  let fileId ← Res.arr b 8 16
  let completionFilter ← Res.u32 b 24
  return { flags, outputBufferLength, fileId, completionFilter }

/-- `SessionSetupRequest`. -/
structure SessionSetupRequest where
  flags : UInt8
  securityMode : UInt8
  capabilities : UInt32
  previousSessionId : UInt64
  securityBuffer : Bytes

def SessionSetupRequest.parse (msg : Bytes) : Res Error SessionSetupRequest := do
  let b ← fixedBody msg 24 25
  let flags ← Res.u8 b 2
  let securityMode ← Res.u8 b 3
  let capabilities ← Res.u32 b 4
  let secOff ← Res.u16 b 12
  let secLen ← Res.u16 b 14
  let previousSessionId ← Res.u64 b 16
  let securityBuffer ← varPart msg secOff.toNat secLen.toNat
  return { flags, securityMode, capabilities, previousSessionId, securityBuffer }

/-- `TreeConnectRequest`. -/
structure TreeConnectRequest where
  flags : UInt16
  path : Bytes

def TreeConnectRequest.parse (msg : Bytes) : Res Error TreeConnectRequest := do
  let b ← fixedBody msg 8 9
  let flags ← Res.u16 b 2
  let pathOff ← Res.u16 b 4
  let pathLen ← Res.u16 b 6
  let path ← varPart msg pathOff.toNat pathLen.toNat
  return { flags, path }

/-- `NegotiateContext`. -/
structure NegotiateContext where
  type : UInt16
  data : Bytes
  deriving DecidableEq

/-- `NegotiateRequest`. -/
structure NegotiateRequest where
  securityMode : UInt16
  capabilities : UInt32
  clientGuid : Arr 16
  dialects : List UInt16
  contexts : List NegotiateContext

/-- `alignUp(n, 8)`. -/
def alignUp8 (n : ℕ) : ℕ := (n + 7) / 8 * 8

/-- `parseContexts`: `count` contexts from a position that may lie before the body. -/
def parseContexts (body : Bytes) : ℕ → ℤ → Res Error (List NegotiateContext)
  | 0, _ => pure []
  | count + 1, offset => do
      if offset < 0 ∨ (body.length : ℤ) < offset + 8 then Res.throw .outOfRange
      let off := offset.toNat
      let type ← Res.u16 body off
      let dataLen ← Res.u16 body (off + 2)
      if body.length < off + 8 + dataLen.toNat then Res.throw .outOfRange
      let data ← Res.slice body (off + 8) dataLen.toNat
      let rest ← parseContexts body count (alignUp8 (off + 8 + dataLen.toNat))
      return { type, data } :: rest

/-- The dialects `i, …, i + n - 1` of the array at body offset 36. -/
def parseDialects (body : Bytes) : ℕ → ℕ → Res Error (List UInt16)
  | 0, _ => pure []
  | n + 1, i => do
      let d ← Res.u16 body (36 + i * 2)
      let rest ← parseDialects body n (i + 1)
      return d :: rest

def dialectSMB202 : UInt16 := 0x0202
def dialectSMB21 : UInt16 := 0x0210
def dialectSMB30 : UInt16 := 0x0300
def dialectSMB302 : UInt16 := 0x0302
def dialectSMB311 : UInt16 := 0x0311

def NegotiateRequest.parse (body : Bytes) : Res Error NegotiateRequest := do
  if body.length < 36 then Res.throw (.short 36 body.length)
  let ss ← Res.u16 body 0
  if ss ≠ 36 then Res.throw (.structureSize ss 36)
  let dialectCount ← Res.u16 body 2
  let securityMode ← Res.u16 body 4
  let capabilities ← Res.u32 body 8
  let clientGuid ← Res.arr body 12 16
  if body.length < 36 + dialectCount.toNat * 2 then Res.throw .outOfRange
  let dialects ← parseDialects body dialectCount.toNat 0
  let ctxOff ← Res.u32 body 28
  let ctxCount ← Res.u16 body 32
  let contexts ←
    if dialectSMB311 ∈ dialects then
      parseContexts body ctxCount.toNat ((ctxOff.toNat : ℤ) - headerSize)
    else pure []
  return { securityMode, capabilities, clientGuid, dialects, contexts }

end Wire
end SmbServer
