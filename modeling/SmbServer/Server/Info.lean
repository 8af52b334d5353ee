/-
# Information, locks and controls

`smb/server/queryinfo.go` (`handleQueryInfo`, `handleSetInfo`, `handleFlush`),
the handlers of `smb/server/lock_ioctl.go` (`handleLock`, `handleIoctl`), and
`handleEcho` and `handleOplockBreak`.

`handleSetInfo` computes the end of a rename's name as a `uint32`, so a name
length near `2^32` wraps and the slice expression panics.  `handleOplockBreak`
writes into the request, so it returns the message as well.
-/

import SmbServer.Server.Files

namespace SmbServer
namespace Server

open Wire

variable {E : Env}

/-! ### QUERY_INFO -/

def infoFile : UInt8 := 0x01
def infoFilesystem : UInt8 := 0x02
def fileBasicInfoClass : UInt8 := 0x04
def fileStandardInfoClass : UInt8 := 0x05
def fileAllInformationClass : UInt8 := 0x12
def fileNetworkOpenInformation : UInt8 := 0x22
def fileFsVolumeInformation : UInt8 := 0x01
def fileFsSizeInformation : UInt8 := 0x03
def fileFsAttributeInformation : UInt8 := 0x05

/-- `boolToU8`. -/
def boolToU8 (b : Bool) : UInt8 := if b then 1 else 0

def basicInfo (fi : Vfs.FileInfo) : FileBasicInformation where
  creationTime := timeToFiletime fi.creationTime
  lastAccessTime := timeToFiletime fi.lastAccess
  lastWriteTime := timeToFiletime fi.lastWrite
  changeTime := timeToFiletime fi.changeTime
  fileAttributes := toFileAttributes fi

def standardInfo (fi : Vfs.FileInfo) (deletePending : Bool) : FileStandardInformation where
  allocationSize := UInt64.ofInt fi.size
  endOfFile := UInt64.ofInt fi.size
  numberOfLinks := 1
  deletePending := boolToU8 deletePending
  directory := boolToU8 fi.isDir

/-- The information class of a file, where it is one of the four known. -/
def fileInfo (infoClass : UInt8) (fi : Vfs.FileInfo) (deletePending : Bool) : Option Bytes :=
  if infoClass = fileBasicInfoClass then some (basicInfo fi).encode
  else if infoClass = fileStandardInfoClass then some (standardInfo fi deletePending).encode
  else if infoClass = fileAllInformationClass then
    some (fileAllInformation (basicInfo fi) (standardInfo fi deletePending))
  else if infoClass = fileNetworkOpenInformation then
    some (networkOpenInfo (basicInfo fi) (UInt64.ofInt fi.size))
  else none

/-- `filesystemInfo`: the names are `SMB` and `SMBShare`. -/
def filesystemInfo (infoClass : UInt8) : Option Bytes :=
  if infoClass = fileFsAttributeInformation then
    let name := utf16ToBytes [0x53, 0x4D, 0x42]
    some ([0x05, 0, 0x02, 0, UInt8.ofNat name.length, 0, 0, 0] ++
      put32 (UInt32.ofNat name.length) ++ name)
  else if infoClass = fileFsSizeInformation then
    some (put64 1099511627776 ++ put64 549755813888 ++ [1, 0, 1, 0, 0, 0, 0, 0])
  else if infoClass = fileFsVolumeInformation then
    let label := utf16ToBytes [0x53, 0x4D, 0x42, 0x53, 0x68, 0x61, 0x72, 0x65]
    some (zeros 8 ++ [0x04, 0, 0, 0] ++ put32 (UInt32.ofNat label.length) ++ label)
  else none

/-- The common end of both kinds of query: the class is unknown, or its bytes are
cut to the length the client allows. -/
def sendInfo (limit : UInt32) : Option Bytes → M E UInt32
  | none => errBody statusInvalidParameter
  | some info =>
    succeed (queryInfoResponse
      (if limit < UInt32.ofNat info.length then info.take limit.toNat else info))

/-- `handleQueryInfo`. -/
def handleQueryInfo (o : Origin) (msg : Bytes) : M E UInt32 :=
  parsed (QueryInfoRequest.parse msg) fun req =>
    withOpen o req.fileId fun _ oh =>
      if req.infoType = infoFile then do
        let st ← call (some o) (fun _ => .stat oh.h) (E.stat oh.h)
        match st with
        | .error e => errBody (osErrToStatus e)
        | .ok fi =>
          sendInfo req.outputBufferLength (fileInfo req.fileInfoClass fi oh.deletePending)
      else if req.infoType = infoFilesystem then
        sendInfo req.outputBufferLength (filesystemInfo req.fileInfoClass)
      else errBody statusNotSupported

/-! ### SET_INFO -/

def fileDispositionInformation : UInt8 := 0x0D
def fileEndOfFileInformation : UInt8 := 0x14
def fileRenameInformation : UInt8 := 0x0A

/-- The times and attributes of a FileBasicInformation that are not zero. -/
def basicChanges (bi : FileBasicInformation) : Vfs.SetInfoRequest where
  creationTime := if bi.creationTime ≠ 0 then some (filetimeToTime bi.creationTime) else none
  lastAccessTime := if bi.lastAccessTime ≠ 0 then some (filetimeToTime bi.lastAccessTime) else none
  lastWriteTime := if bi.lastWriteTime ≠ 0 then some (filetimeToTime bi.lastWriteTime) else none
  changeTime := if bi.changeTime ≠ 0 then some (filetimeToTime bi.changeTime) else none
  attributes := if bi.fileAttributes ≠ 0 then some bi.fileAttributes else none

/-- `si.SetInfo`, where the handle has it: the status of a failure. -/
def setInfo (o : Origin) (oh : OpenHandle E) (req : Vfs.SetInfoRequest) : M E (Option UInt32) :=
  match E.setInfo oh.h with
  | none => return none
  | some si => do
      let err ← call (some o) (fun _ => .setInfo oh.h req) (si req)
      return err.map osErrToStatus

/-- The rename branch of `handleSetInfo`. -/
def renameFile (o : Origin) (oh : OpenHandle E) (buffer : Bytes) : M E (Option UInt32) :=
  if buffer.length < 20 then return some statusInvalidParameter
  else
    let replaceIfExist := u8At buffer 0 ≠ 0
    -- `20+fnLen` is a `uint32`, and a wrapped end lies before the start of the slice.
    let stop := (20 + u32At buffer 16).toNat
    if buffer.length < stop then return some statusInvalidParameter
    else if stop < 20 then Go.fault
    else
      match E.rename oh.h with
      | none => return some statusNotSupported
      | some rn => do
          let newName := utf16FromBytes (slice buffer 20 (stop - 20))
          let err ← call (some o) (fun _ => .rename oh.h newName replaceIfExist)
            (rn newName replaceIfExist)
          return err.map osErrToStatus

/-- The switch of `handleSetInfo` over the classes of a file: the status of a
failure. -/
def setFileInfo (o : Origin) (req : SetInfoRequest) (oh : OpenHandle E) : M E (Option UInt32) :=
  if req.fileInfoClass = fileDispositionInformation then
    if req.buffer.length < 1 then return some statusInvalidParameter
    else do
      setOpen o req.fileId { oh with deletePending := decide (u8At req.buffer 0 ≠ 0) }
      return none
  else if req.fileInfoClass = fileBasicInfoClass then
    match FileBasicInformation.parse req.buffer with
    | .panic => Go.fault
    | .err _ => return some statusInvalidParameter
    | .ok bi => setInfo o oh (basicChanges bi)
  else if req.fileInfoClass = fileEndOfFileInformation then
    if req.buffer.length < 8 then return some statusInvalidParameter
    else setInfo o oh { endOfFile := some (u64At req.buffer 0).toInt64.toInt }
  else if req.fileInfoClass = fileRenameInformation then renameFile o oh req.buffer
  else return some statusNotSupported

/-- `handleSetInfo`. -/
def handleSetInfo (o : Origin) (msg : Bytes) : M E UInt32 :=
  parsed (SetInfoRequest.parse msg) fun req =>
    withOpen o req.fileId fun tr oh =>
      if tr.share.readOnly then errBody statusAccessDenied
      else if req.infoType = infoFile then do
        match ← setFileInfo o req oh with
        | some status => errBody status
        | none => succeed setInfoResponse
      else errBody statusNotSupported

/-- `handleFlush`, which looks at nothing. -/
def handleFlush : M E UInt32 := succeed simpleResponse

/-! ### LOCK -/

/-- `handleLock`. -/
def handleLock (o : Origin) (msg : Bytes) : M E UInt32 :=
  parsed (LockRequest.parse msg) fun req =>
    withOpen o req.fileId fun _ oh => do
      let s ← Go.get
      let (status, lm) := LockManager.lockElements req.fileId (s.sh.locks oh.path) [] req.locks
      modifyShared fun sh => { sh with locks := Function.update sh.locks oh.path lm }
      if status = statusSuccess then succeed simpleResponse else errBody status

/-! ### IOCTL -/

def fsctlValidateNegotiateInfo : UInt32 := 0x00140204
def fsctlQueryNetworkInterfaceInfo : UInt32 := 0x001401FC
def fsctlPipeWait : UInt32 := 0x00110018
def fsctlPipeTransceive : UInt32 := 0x0011C017

/-- `buildValidateNegotiateInfo`. -/
def buildValidateNegotiateInfo (dialect : UInt16) (guid : Arr 16) : Bytes :=
  put32 0x00000004 ++ guid.1 ++ [0x01, 0] ++ put16 dialect

/-- The FSCTL_PIPE_TRANSCEIVE branch of `handleIoctl`. -/
def pipeTransceive (o : Origin) (req : IoctlRequest) : M E UInt32 := do
  let s ← Go.get
  match s.c.open? o.sid o.tid req.fileId with
  | none => errBody statusNotSupported
  | some oh =>
    match E.processPipe oh.h with
    | none => errBody statusNotSupported
    | some pp => do
        let result ← call (some o) (fun _ => .processPipe oh.h req.input) (pp req.input)
        succeed (ioctlResponse req.ctlCode req.fileId [] result req.flags)

/-- `handleIoctl`. -/
def handleIoctl (srv : Config E) (o : Origin) (msg : Bytes) : M E UInt32 :=
  parsed (IoctlRequest.parse msg) fun req =>
    if req.ctlCode = fsctlValidateNegotiateInfo then
      succeed (ioctlResponse req.ctlCode req.fileId []
        (buildValidateNegotiateInfo srv.dialect srv.guid) req.flags)
    else if req.ctlCode = fsctlQueryNetworkInterfaceInfo ∨ req.ctlCode = fsctlPipeWait then
      succeed (ioctlResponse req.ctlCode req.fileId [] [] req.flags)
    else if req.ctlCode = fsctlPipeTransceive then pipeTransceive o req
    else do
      let s ← Go.get
      match s.c.tree? o.sid o.tid with
      | none => errBody statusInvalidDeviceRequest
      | some tr =>
        if (tr.opens.lookup req.fileId).isSome then errBody statusNotSupported
        else errBody statusInvalidHandle

/-! ### ECHO and OPLOCK_BREAK -/

/-- `handleEcho`. -/
def handleEcho : M E UInt32 := succeed simpleResponse

/-- `handleOplockBreak`: the acknowledgement is answered and its Status field in the
request zeroed; the oplock table is not looked at. -/
def handleOplockBreak (msg : Bytes) : M E (UInt32 × Bytes) := do
  if msg.length < headerSize + 24 then
    return (← errBody statusInvalidParameter, msg)
  let status ← succeed ([0x18, 0x00] ++ zeros 22)
  return (status, copyAt msg 8 (zeros 4))

end Server
end SmbServer
