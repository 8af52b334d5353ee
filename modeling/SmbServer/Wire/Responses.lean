/-
# Response bodies

The `Append` methods of `smb/wire`: what each response writes after its header.
A body is a list of bytes that the handler appends to `c.out`; the Go code
allocates the whole body zeroed and fills its fields in, so a gap between two
fields is a run of zeros here.  `SessionSetupResponse.Append` is the one encoder
that looks at the length of the buffer it appends to.
-/

import SmbServer.Wire.Requests
import SmbServer.Wire.Text

namespace SmbServer
namespace Wire

/-! ### Times -/

/-- A `time.Time`: seconds since 1970 and nanoseconds within the second. -/
structure Time where
  unix : ℤ
  nsec : ℕ
  deriving DecidableEq

/-- `time.Time{}`, January 1 of the year 1. -/
def Time.zero : Time := ⟨-62135596800, 0⟩

def epochFiletime : UInt64 := 116444736000000000
def filetimeTicksPerSecond : UInt64 := 10000000

/-- `TimeToFiletime`, in 64-bit arithmetic. -/
def timeToFiletime (t : Time) : UInt64 :=
  if t = Time.zero then 0
  else epochFiletime + UInt64.ofInt t.unix * filetimeTicksPerSecond + UInt64.ofNat (t.nsec / 100)

/-- `FiletimeToTime`. -/
def filetimeToTime (ft : UInt64) : Time :=
  if ft = 0 then Time.zero
  else
    let adj := ft - epochFiletime
    ⟨(adj / filetimeTicksPerSecond).toNat, (adj % filetimeTicksPerSecond).toNat * 100⟩

/-! ### Fixed bodies -/

/-- `ErrorResponse.Append` of the empty error response: what `errBody` appends. -/
def errorResponse : Bytes := [0x09, 0x00, 0x00, 0x00] ++ put32 0

/-- `appendSimpleResponse`, the body of LOGOFF, TREE_DISCONNECT, LOCK, FLUSH, ECHO
and CANCEL responses. -/
def simpleResponse : Bytes := [0x04, 0x00, 0x00, 0x00]

/-- `SetInfoResponseAppend`. -/
def setInfoResponse : Bytes := [0x02, 0x00]

/-- `TreeConnectResponse`. -/
structure TreeConnectResponse where
  shareType : UInt8
  shareFlags : UInt32
  capabilities : UInt32
  maximalAccess : UInt32

def TreeConnectResponse.encode (r : TreeConnectResponse) : Bytes :=
  [0x10, 0x00, r.shareType, 0] ++ put32 r.shareFlags ++ put32 r.capabilities ++
    put32 r.maximalAccess

/-- The times, sizes and attributes that CREATE and CLOSE responses share. -/
structure FileTimes where
  creationTime : UInt64 := 0
  lastAccessTime : UInt64 := 0
  lastWriteTime : UInt64 := 0
  changeTime : UInt64 := 0
  allocationSize : UInt64 := 0
  endOfFile : UInt64 := 0
  fileAttributes : UInt32 := 0

def FileTimes.encode (t : FileTimes) : Bytes :=
  put64 t.creationTime ++ put64 t.lastAccessTime ++ put64 t.lastWriteTime ++ put64 t.changeTime ++
    put64 t.allocationSize ++ put64 t.endOfFile ++ put32 t.fileAttributes

/-- `CreateResponse`; `Flags` is never set. -/
structure CreateResponse where
  oplockLevel : UInt8
  createAction : UInt32
  times : FileTimes
  fileId : Arr 16

def CreateResponse.encode (r : CreateResponse) : Bytes :=
  put16 89 ++ [r.oplockLevel, 0] ++ put32 r.createAction ++ r.times.encode ++ put32 0 ++
    r.fileId.1 ++ put32 0 ++ put32 0 ++ [0]

/-- `CloseResponse`. -/
structure CloseResponse where
  flags : UInt16
  times : FileTimes

def CloseResponse.encode (r : CloseResponse) : Bytes :=
  put16 60 ++ put16 r.flags ++ zeros 4 ++ r.times.encode

/-- The fixed part of a READ response: `ReadResponseAlloc`, then `ReadResponseSetCount`. -/
def readResponseFixed (n : ℕ) : Bytes :=
  put16 17 ++ put16 80 ++ put32 (UInt32.ofNat n) ++ put32 0 ++ put32 0

/-- `WriteResponseAppend`. -/
def writeResponse (count : UInt32) : Bytes := put16 17 ++ zeros 2 ++ put32 count ++ zeros 8

/-- `QueryInfoResponseAppend`. -/
def queryInfoResponse (info : Bytes) : Bytes :=
  put16 9 ++ put16 72 ++ put32 (UInt32.ofNat info.length) ++ info

/-- `IoctlResponseAppend`. -/
def ioctlResponse (ctlCode : UInt32) (fileId : Arr 16) (input output : Bytes) (flags : UInt32) :
    Bytes :=
  let inOff : UInt32 := if 0 < input.length then 112 else 0
  let outOff : UInt32 :=
    if 0 < input.length then UInt32.ofNat (112 + input.length)
    else if 0 < output.length then 112 else 0
  put16 49 ++ zeros 2 ++ put32 ctlCode ++ fileId.1 ++ put32 inOff ++
    put32 (UInt32.ofNat input.length) ++ put32 outOff ++ put32 (UInt32.ofNat output.length) ++
    put32 flags ++ zeros 4 ++ input ++ output

/-- `SessionSetupResponse.Append`: the buffer offset is taken from the length of
the output buffer, header and all. -/
def sessionSetupResponse (start : ℕ) (sessionFlags : UInt16) (securityBuffer : Bytes) : Bytes :=
  put16 9 ++ put16 sessionFlags ++ put16 (UInt16.ofNat (start + 8)) ++
    put16 (UInt16.ofNat securityBuffer.length) ++ securityBuffer

/-! ### NEGOTIATE -/

/-- `NegotiateResponse`; the server leaves the security buffer and the two times
empty. -/
structure NegotiateResponse where
  securityMode : UInt16
  dialectRevision : UInt16
  serverGuid : Arr 16
  capabilities : UInt32
  maxTransactSize : UInt32
  maxReadSize : UInt32
  maxWriteSize : UInt32
  systemTime : UInt64 := 0
  serverStartTime : UInt64 := 0
  securityBuffer : Bytes := []
  contexts : List NegotiateContext := []

/-- `(-n) & 7`. -/
def pad8 (n : ℕ) : ℕ := (8 - n % 8) % 8

/-- The loop of `Append` over the contexts: it writes each into the buffer
allocated for all of them. -/
def writeContexts : List NegotiateContext → Bytes → ℕ → Bytes
  | [], b, _ => b
  | c :: cs, b, off =>
    let b := copyAt b off (put16 c.type)
    let b := copyAt b (off + 2) (put16 (UInt16.ofNat c.data.length))
    let b := copyAt b (off + 8) c.data
    let off := off + 8 + min c.data.length (b.length - (off + 8))
    writeContexts cs b (off + pad8 off)

def NegotiateResponse.encode (r : NegotiateResponse) : Bytes :=
  let secLen := r.securityBuffer.length
  let is311 := r.dialectRevision = dialectSMB311
  let secPad := if is311 then pad8 (64 + secLen) else 0
  let total := 64 + secLen + secPad +
    if is311 then (r.contexts.map fun c => alignUp8 (8 + c.data.length)).sum else 0
  let fixed := put16 65 ++ put16 r.securityMode ++ put16 r.dialectRevision ++
    put16 (UInt16.ofNat r.contexts.length) ++ r.serverGuid.1 ++ put32 r.capabilities ++
    put32 r.maxTransactSize ++ put32 r.maxReadSize ++ put32 r.maxWriteSize ++
    put64 r.systemTime ++ put64 r.serverStartTime ++ put16 128 ++ put16 (UInt16.ofNat secLen) ++
    put32 (if is311 then UInt32.ofNat (128 + secLen + secPad) else 0)
  let b := fixed ++ r.securityBuffer ++ zeros (total - (64 + secLen))
  if is311 then writeContexts r.contexts b (64 + secLen + secPad) else b

/-! ### Information classes -/

/-- `FileBasicInformation.Append`: 40 bytes. -/
def FileBasicInformation.encode (f : FileBasicInformation) : Bytes :=
  put64 f.creationTime ++ put64 f.lastAccessTime ++ put64 f.lastWriteTime ++ put64 f.changeTime ++
    put32 f.fileAttributes ++ zeros 4

/-- `FileStandardInformation`. -/
structure FileStandardInformation where
  allocationSize : UInt64
  endOfFile : UInt64
  numberOfLinks : UInt32
  deletePending : UInt8
  directory : UInt8

/-- `FileStandardInformation.Append`: 24 bytes. -/
def FileStandardInformation.encode (f : FileStandardInformation) : Bytes :=
  put64 f.allocationSize ++ put64 f.endOfFile ++ put32 f.numberOfLinks ++
    [f.deletePending, f.directory] ++ zeros 2

/-- `FileAllInformationAppend`. -/
def fileAllInformation (basic : FileBasicInformation) (standard : FileStandardInformation) : Bytes :=
  basic.encode ++ standard.encode ++ zeros 20

/-- `networkOpenInfo`. -/
def networkOpenInfo (basic : FileBasicInformation) (size : UInt64) : Bytes :=
  put64 basic.creationTime ++ put64 basic.lastAccessTime ++ put64 basic.lastWriteTime ++
    put64 basic.changeTime ++ put64 size ++ put64 size ++ put32 basic.fileAttributes ++ zeros 4

/-- `FileInfo` of `smb/wire`: one directory entry to encode. -/
structure DirEntry where
  name : GoString
  endOfFile : UInt64
  allocationSize : UInt64
  fileAttributes : UInt32
  creationTime : UInt64
  lastAccessTime : UInt64
  lastWriteTime : UInt64
  changeTime : UInt64

/-- The first 64 bytes of both directory information classes. -/
def DirEntry.fixed (fi : DirEntry) : Bytes :=
  put32 0 ++ put32 0 ++ put64 fi.creationTime ++ put64 fi.lastAccessTime ++
    put64 fi.lastWriteTime ++ put64 fi.changeTime ++ put64 fi.endOfFile ++
    put64 fi.allocationSize ++ put32 fi.fileAttributes ++
    put32 (UInt32.ofNat (utf16ToBytes fi.name).length)

/-- An entry with `extra` more fixed bytes, padded to a multiple of eight. -/
def DirEntry.encode (extra : ℕ) (fi : DirEntry) : Bytes :=
  let e := fi.fixed ++ zeros extra ++ utf16ToBytes fi.name
  e ++ zeros (pad8 e.length)

/-- `AppendFileDirInfo`. -/
def appendFileDirInfo (fi : DirEntry) : Bytes := fi.encode 0

/-- `AppendFileIdBothDirInfo`. -/
def appendFileIdBothDirInfo (fi : DirEntry) : Bytes := fi.encode 40

end Wire
end SmbServer
