/-
# Opens, reads, writes and listings

`smb/server/dispatch.go`: `handleCreate`, `handleClose`, `handleRead`,
`handleWrite` and `handleQueryDirectory`.

`handleCreate` writes the new id through `lastFileId`, so it returns that too.
`handleRead` allocates its response before the handle fills it and cuts it off
again on an error; what is left in `c.out` is either the response with the bytes
read or an error body.
-/

import SmbServer.Server.Oplocks

namespace SmbServer
namespace Server

open Wire Vfs

variable {E : Env}

/-! ### CREATE -/

def fileSupersede : UInt32 := 0x00000000
def fileCreate : UInt32 := 0x00000002
def fileOverwrite : UInt32 := 0x00000004
def fileOverwriteIf : UInt32 := 0x00000005
def fileDirectoryFile : UInt32 := 0x00000001
def fileDeleteOnClose : UInt32 := 0x00001000
def fileOpened : UInt32 := 0x00000001
def fileCreated : UInt32 := 0x00000002
def fileOverwritten : UInt32 := 0x00000003

/-- What a CREATE asks the backend for. -/
def openOptions (req : CreateRequest) : OpenOptions where
  path := utf16FromBytes req.name
  disposition := req.createDisposition
  createDir := req.createOptions &&& fileDirectoryFile ≠ 0

def deleteOnClose (req : CreateRequest) : Bool := req.createOptions &&& fileDeleteOnClose ≠ 0

/-- Whether a read-only share refuses the request. -/
def writesToShare (req : CreateRequest) : Bool :=
  req.createDisposition = fileCreate || req.createDisposition = fileSupersede ||
    req.createDisposition = fileOverwrite || req.createDisposition = fileOverwriteIf ||
    deleteOnClose req || (openOptions req).createDir

def createAction (disposition : UInt32) : UInt32 :=
  if disposition = fileCreate then fileCreated
  else if disposition = fileSupersede ∨ disposition = fileOverwriteIf then fileOverwritten
  else fileOpened

/-- The middle of `handleCreate`: the open gets its id and goes into the tree, then
the oplock is asked for. -/
def registerOpen (o : Origin) (tr : Tree E) (req : CreateRequest) (h : E.Handle) :
    M E (FileId × UInt8) := fun s =>
  let fid := makeFileID o.sid o.tid (tr.nextID + 1)
  let path := (openOptions req).path
  let info : OplockInfo :=
    { fileId := fid, sessID := o.sid, treeID := o.tid, path, conn := o.conn,
      enc := s.c.requiresEncryption o.sid }
  let (level, sh) := s.sh.requestOplock info req.requestedOplockLevel
  .ok (fid, level)
    { sh := { sh with trace := .created o fid path level :: sh.trace }
      c := s.c.modifyTree o.sid o.tid fun t => { t with
        nextID := tr.nextID + 1
        opens := t.opens.insert fid
          { h, fileId := fid, path, deletePending := deleteOnClose req } } }

/-- `handleCreate` for a parsed request: the status and `*lastFileId`. -/
def createFile (o : Origin) (req : CreateRequest) (lastFileId : FileId) : M E (UInt32 × FileId) :=
  withTree o fun tr => do
    if tr.share.readOnly && writesToShare req then
      return (← errBody statusAccessDenied, lastFileId)
    let opened ← call (some o) (.openFile tr.share (openOptions req))
      (E.openFile tr.share.backend (openOptions req))
    match opened with
    | .error e => return (← errBody (osErrToStatus e), lastFileId)
    | .ok h =>
      let st ← call (some o) (fun _ => .stat h) (E.stat h)
      match st with
      | .error e =>
        let _ ← call (some o) (fun _ => .close h) (E.close h)
        return (← errBody (osErrToStatus e), lastFileId)
      | .ok fi =>
        let (fid, level) ← registerOpen o tr req h
        let status ← succeed (CreateResponse.encode
          { oplockLevel := level
            createAction := createAction req.createDisposition
            times := fileTimes fi
            fileId := fid })
        return (status, fid)

/-- `handleCreate`. -/
def handleCreate (o : Origin) (msg : Bytes) (lastFileId : FileId) : M E (UInt32 × FileId) :=
  match CreateRequest.parse msg with
  | .panic => Go.fault
  | .err _ => do return (← errBody statusInvalidParameter, lastFileId)
  | .ok req => createFile o req lastFileId

/-! ### CLOSE -/

def closeFlagPostQueryAttrib : UInt16 := 0x0001

/-- `delete(tr.opens, fid)`, `release` and `unlockAll`. -/
def endOpen (o : Origin) (fid : FileId) (path : GoString) : M E Unit := Go.modify fun s =>
  { sh := (s.sh.release path).unlockAll path fid
    c := s.c.modifyTree o.sid o.tid fun t => { t with opens := t.opens.erase fid } }

/-- The delete-on-close step of `handleClose`: the status of a failure. -/
def removePending (o : Origin) (tr : Tree E) (oh : OpenHandle E) : M E (Option UInt32) :=
  if !oh.deletePending then return none
  else if tr.share.readOnly then return some statusAccessDenied
  else
    match E.remove tr.share.backend with
    | none => return none
    | some rm => do
        let err ← call (some o) (fun _ => .remove tr.share oh.path) (rm oh.path)
        return err.map osErrToStatus

/-- `handleClose`.  When `Stat` worked and `Close` did not, the open stays. -/
def handleClose (o : Origin) (msg : Bytes) : M E UInt32 :=
  parsed (CloseRequest.parse msg) fun req =>
    withOpen o req.fileId fun tr oh => do
      let st ← call (some o) (fun _ => .stat oh.h) (E.stat oh.h)
      let err ← call (some o) (fun _ => .close oh.h) (E.close oh.h)
      match err, st with
      | some e, .ok _ => errBody (osErrToStatus e)
      | _, _ =>
        endOpen o req.fileId oh.path
        match ← removePending o tr oh with
        | some status => errBody status
        | none =>
          succeed (CloseResponse.encode
            { flags := req.flags &&& closeFlagPostQueryAttrib
              times := match st with
                | .ok fi => fileTimes fi
                | .error _ => {} })

/-! ### READ and WRITE -/

/-- `int64(off) < 0`. -/
def negativeOffset (off : UInt64) : Bool := decide (2 ^ 63 ≤ off.toNat)

/-- `handleRead`. -/
def handleRead (o : Origin) (msg : Bytes) : M E UInt32 :=
  parsed (ReadRequest.parse msg) fun req =>
    if maxRead < req.length ∨ negativeOffset req.offset then errBody statusInvalidParameter
    else
      withOpen o req.fileId fun _ oh => do
        let s ← Go.get
        if (s.sh.locks oh.path).checkConflict req.fileId req.offset
            (req.offset + req.length.toUInt64) false then
          errBody statusLockConflict
        else
          let (data, err) ← call (some o)
            (fun _ => .read oh.h req.offset.toNat req.length.toNat)
            (E.read oh.h req.offset.toNat req.length.toNat)
          match err.filter fun e => decide (e ≠ .eof) with
          | some e => errBody (osErrToStatus e)
          | none =>
            if data.length = 0 then errBody statusEndOfFile
            else succeed (readResponseFixed data.length ++ data)

/-- `handleWrite`. -/
def handleWrite (o : Origin) (msg : Bytes) : M E UInt32 :=
  parsed (WriteRequest.parse msg) fun req =>
    if maxWrite < req.length ∨ maxWrite < UInt32.ofNat req.data.length ∨
        negativeOffset req.offset then errBody statusInvalidParameter
    else
      withTree o fun tr =>
        if tr.share.readOnly then errBody statusAccessDenied
        else
          withOpen o req.fileId fun _ oh => do
            let s ← Go.get
            if (s.sh.locks oh.path).checkConflict req.fileId req.offset
                (req.offset + UInt64.ofNat req.data.length) true then
              errBody statusLockConflict
            else
              let r ← call (some o) (fun _ => .write oh.h req.offset.toNat req.data)
                (E.write oh.h req.offset.toNat req.data)
              match r with
              | .error e => errBody (osErrToStatus e)
              | .ok n => succeed (writeResponse (UInt32.ofInt n))

/-! ### QUERY_DIRECTORY -/

def queryDirRestartScans : UInt8 := 0x01
def queryDirReopen : UInt8 := 0x10
def fileIdBothDirectoryInformation : UInt8 := 0x25

/-- The pattern of a listing: an empty one and `*.*` are `*`. -/
def listingPattern (fileName : Bytes) : GoString :=
  let pattern := utf16FromBytes fileName
  if pattern = [] ∨ pattern = [0x2A, 0x2E, 0x2A] then [0x2A] else pattern

/-- The entry `handleQueryDirectory` encodes for a file. -/
def dirEntry (fi : FileInfo) : DirEntry where
  name := fi.name
  endOfFile := UInt64.ofInt fi.size
  allocationSize := UInt64.ofInt fi.size
  fileAttributes := toFileAttributes fi
  creationTime := timeToFiletime fi.creationTime
  lastAccessTime := timeToFiletime fi.lastAccess
  lastWriteTime := timeToFiletime fi.lastWrite
  changeTime := timeToFiletime fi.changeTime

/-- The two layouts of an entry: its size without the name, and its encoder. -/
structure EntryLayout where
  minSize : ℕ
  encode : DirEntry → Bytes

def entryLayout (infoClass : UInt8) : EntryLayout :=
  if infoClass = fileIdBothDirectoryInformation then ⟨104, appendFileIdBothDirInfo⟩
  else ⟨64, appendFileDirInfo⟩

/-- The loop of `handleQueryDirectory`: the buffer it fills and how many entries it
took.  `prev` is where the previous entry starts; the first entry always fits. -/
def packEntries (lay : EntryLayout) (limit : ℕ) :
    Option ℕ → Bytes → List FileInfo → Bytes × ℕ
  | _, buf, [] => (buf, 0)
  | prev, buf, fi :: rest =>
    if prev.isSome ∧ limit < buf.length + (lay.minSize + fi.name.length * 2) then (buf, 0)
    else
      let out := buf ++ lay.encode (dirEntry fi)
      let out := match prev with
        | none => out
        | some p => copyAt out p (put32 (UInt32.ofNat (buf.length - p)))
      let r := packEntries lay limit (some buf.length) out rest
      (r.1, r.2 + 1)

/-- A write through the pointer to an open. -/
def setOpen (o : Origin) (fid : FileId) (oh : OpenHandle E) : M E Unit :=
  modifyConn fun c => c.modifyOpen o.sid o.tid fid fun _ => oh

/-- The listing an open holds, made anew when it has none for this pattern.  What
was listed before an error is kept. -/
def listEntries (o : Origin) (fid : FileId) (pattern : GoString) (oh : OpenHandle E) :
    M E (OpenHandle E × Option OsError) :=
  if oh.enumEntries = [] ∨ oh.enumPattern ≠ pattern then do
    let items ← call (some o) (fun _ => .enumerate oh.h pattern) (E.enumerate oh.h pattern)
    let oh' := { oh with
      enumPattern := pattern, enumEntries := (untilError items).1, enumCursor := 0 }
    setOpen o fid oh'
    return (oh', (untilError items).2)
  else return (oh, none)

/-- The rest of `handleQueryDirectory` once the listing is there.  Its loop takes at
least one entry, so the source's `empty` branch after it is not reached. -/
def sendEntries (o : Origin) (req : QueryDirectoryRequest) (oh : OpenHandle E) : M E UInt32 :=
  if oh.enumEntries.length ≤ oh.enumCursor then do
    setOpen o req.fileId { oh with enumDone := true }
    errBody statusNoMoreFiles
  else do
    let s ← Go.get
    let (buf, n) := packEntries (entryLayout req.fileInformationClass)
      req.outputBufferLength.toNat none [] (oh.enumEntries.drop oh.enumCursor)
    let cursor := oh.enumCursor + n
    setOpen o req.fileId { oh with
      enumCursor := cursor
      enumDone := oh.enumDone || decide (oh.enumEntries.length ≤ cursor) }
    succeed (put16 9 ++ put16 (UInt16.ofNat (s.c.out.length + 8)) ++
      put32 (UInt32.ofNat buf.length) ++ buf)

/-- `handleQueryDirectory`. -/
def handleQueryDirectory (o : Origin) (msg : Bytes) : M E UInt32 :=
  parsed (QueryDirectoryRequest.parse msg) fun req =>
    withOpen o req.fileId fun _ oh => do
      let oh := if req.flags &&& (queryDirRestartScans ||| queryDirReopen) ≠ 0 then
          { oh with enumDone := false, enumCursor := 0, enumEntries := [] }
        else oh
      setOpen o req.fileId oh
      if oh.enumDone then errBody statusNoMoreFiles
      else
        let (oh, err) ← listEntries o req.fileId (listingPattern req.fileName) oh
        match err with
        | some e => errBody (osErrToStatus e)
        | none => sendEntries o req oh

end Server
end SmbServer
