/-
# Pending operations and CHANGE_NOTIFY

`smb/server/async.go` and `smb/server/changenotify.go`.  A CHANGE_NOTIFY on an
open directory registers a pending operation, answers with an interim
STATUS_PENDING response and starts a watcher.  The watcher lists the directory
twice a second; when the listing differs from the first one, or the operation is
cancelled, it takes the operation out of the tables and puts the final response
into the connection's `asyncResp` channel.

`watchTick` and `watchDone` are the two ways a round of `watchDirectory` can go;
which watcher runs when is for the transition system to choose.
-/

import SmbServer.Server.Oplocks

namespace SmbServer
namespace Server

open Wire Vfs

variable {E : Env}

/-! ### The frames -/

/-- `buildAsyncInterim`. -/
def buildAsyncInterim (hdr : Header) (asyncID : UInt64) : Bytes :=
  Header.encode { hdr with
    flags := flagServerToRedir ||| flagAsyncCommand
    status := statusPending
    asyncId := asyncID
    credit := 0 }

/-- `finalizeAsync`. -/
def finalizeAsync (hdr : Header) (asyncID : UInt64) (status : UInt32) (body : Bytes) : Bytes :=
  Header.encode { hdr with
    flags := flagServerToRedir ||| flagAsyncCommand
    status
    asyncId := asyncID } ++ body

/-! ### Listings and their differences -/

def fileNotifyChangeFileName : UInt32 := 0x00000001
def fileNotifyChangeDirName : UInt32 := 0x00000002
def fileNotifyChangeSize : UInt32 := 0x00000008
def fileActionAdded : UInt32 := 0x00000001
def fileActionRemoved : UInt32 := 0x00000002
def fileActionModified : UInt32 := 0x00000003

/-- `notifyEvent`. -/
structure NotifyEvent where
  action : UInt32
  name : GoString
  deriving DecidableEq

/-- The map `snapshotEntries` makes of a listing. -/
def snapshotMap (entries : List FileInfo) : GoMap GoString UInt64 :=
  entries.foldl (fun m fi => m.insert fi.name (UInt64.ofInt fi.size)) ∅

/-- `snapshotEntries`: what the handle lists before its first error. -/
def snapshotEntries (origin : Option Origin) (h : E.Handle) : M E (GoMap GoString UInt64) := do
  let items ← call origin (fun _ => .enumerate h [0x2A]) (E.enumerate h [0x2A])
  return snapshotMap (untilError items).1

/-- `diffEntries`; `curNames` and `oldNames` are the orders in which `range` visits
the two maps. -/
def diffEntries (old cur : GoMap GoString UInt64) (filter : UInt32)
    (curNames oldNames : List GoString) : List NotifyEvent :=
  let changed := curNames.filterMap fun name =>
    match old.lookup name with
    | none => some ⟨fileActionAdded, name⟩
    | some osz =>
      if some osz ≠ cur.lookup name ∧ filter &&& fileNotifyChangeSize ≠ 0 then
        some ⟨fileActionModified, name⟩
      else none
  let removed := oldNames.filterMap fun name =>
    if (cur.lookup name).isNone then some ⟨fileActionRemoved, name⟩ else none
  changed ++
    if filter &&& (fileNotifyChangeFileName ||| fileNotifyChangeDirName) ≠ 0 then removed else []

/-- `buildChangeNotifyBody`, from the bytes written so far. -/
def buildChangeNotifyBody (maxLen : UInt32) : Bytes → List NotifyEvent → Bytes
  | out, [] => out
  | out, e :: es =>
    let name := utf16ToBytes e.name
    if maxLen < UInt32.ofNat (out.length + 12 + name.length) then out
    else
      buildChangeNotifyBody maxLen
        (out ++ zeros 4 ++ put32 e.action ++ put32 (UInt32.ofNat name.length) ++ name) es

/-! ### The tables of pending operations -/

namespace Conn

/-- `registerPending`. -/
def registerPending (c : Conn E) (messageID : UInt64) : PendingOp × Conn E :=
  let op : PendingOp := { asyncID := c.nextAsync + 1, messageID }
  (op, { c with
    nextAsync := c.nextAsync + 1
    pending := c.pending.insert op.asyncID op
    pendingByMsg := c.pendingByMsg.insert messageID op })

/-- `unregister`. -/
def unregister (c : Conn E) (op : PendingOp) : Conn E :=
  { c with
    pending := c.pending.erase op.asyncID
    pendingByMsg := c.pendingByMsg.erase op.messageID }

/-- `cancelPending`: the `done` channel of the operation is closed. -/
def cancelPending (c : Conn E) (asyncID : UInt64) : Conn E :=
  match c.pending.lookup asyncID with
  | none => c
  | some op => { c with cancelled := op.asyncID :: c.cancelled }

end Conn

/-! ### The handlers -/

/-- `handleChangeNotify`; the second component is whether the request is pending. -/
def handleChangeNotify (o : Origin) (msg : Bytes) (hdr : Header) : M E (UInt32 × Bool) :=
  match ChangeNotifyRequest.parse msg with
  | .panic => Go.fault
  | .err _ => do return (← errBody statusInvalidParameter, false)
  | .ok req =>
    withTree o fun tr =>
      match tr.opens.lookup req.fileId with
      | none => do return (← errBody statusInvalidHandle, false)
      | some oh => do
          let s ← Go.get
          let (op, c) := s.c.registerPending hdr.messageId
          modifyConn fun _ => c
          emit (buildAsyncInterim hdr op.asyncID)
          let snap ← snapshotEntries (some o) oh.h
          let dest : Addressee := ⟨o.sid, o.cmd, s.c.requiresEncryption o.sid⟩
          modifyConn fun c => { c with
            watchers := c.watchers ++ [{ op, hdr, h := oh.h, snap, req, dest }] }
          return (statusPending, true)

/-- `handleCancel`. -/
def handleCancel (hdr : Header) : M E UInt32 := do
  modifyConn fun c => c.cancelPending hdr.asyncId
  succeed simpleResponse

/-- `finalizeCN`, with which the watcher ends. -/
def finalizeCN (i : ℕ) (w : Watcher E) (status : UInt32) (body : Bytes) : M E Unit :=
  Go.modify fun s =>
    { sh := s.sh.sendFinal s.c.id
        { frame := finalizeAsync w.hdr w.op.asyncID status body, dest := w.dest }
      c := { s.c.unregister w.op with watchers := s.c.watchers.eraseIdx i } }

/-- A round of `watchDirectory` in which the ticker fired. -/
def watchTick (i : ℕ) (w : Watcher E) : M E Unit := do
  let cur ← snapshotEntries none w.h
  let curNames ← ask (E.rangeOrder _ cur.keys)
  let oldNames ← ask (E.rangeOrder _ w.snap.keys)
  let events := diffEntries w.snap cur w.req.completionFilter curNames oldNames
  if events ≠ [] then
    finalizeCN i w statusSuccess (buildChangeNotifyBody w.req.outputBufferLength [] events)

/-- A round of `watchDirectory` in which the operation was cancelled or the context
done. -/
def watchDone (i : ℕ) (w : Watcher E) : M E Unit := finalizeCN i w statusCancelled []

end Server
end SmbServer
