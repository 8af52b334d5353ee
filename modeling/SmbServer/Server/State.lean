/-
# The state of the server

The structs of `smb/server/server.go`, `oplocks.go` and `async.go`.  A pointer
into a map is the key it is stored under: `sess` is a `SessionId`, `tr` a
`SessionId` and a `TreeId`, `oh` these two and a `FileId`.  What one connection
owns is `Conn`; what all connections share, the lock managers, the oplock table,
the session counter and the `asyncResp` channels, is `Shared`.

Three things are here that the source does not store.  `Shared.trace` lists what
the server did that can be seen from outside, newest first: calls into backends
and handles, answers of authenticators, frames written.  `Loop` holds the local
variables of `handleMessage`, so that a frame can be interrupted between two of
its commands.  And `Arrival`, `Reply` and `Addressee` say of a frame how it came
in and whom its responses are for; no function of the server reads them.
-/

import SmbServer.Lib.GoMap
import SmbServer.Server.Locks
import SmbServer.Vfs.Interface

namespace SmbServer
namespace Server

open Wire Vfs Auth

/-- A connection: the `*conn`. -/
abbrev ConnId := ℕ

/-- `openHandle`.  A nil `enumEntries` and an empty one are the same, since only
`append` makes it non-nil. -/
structure OpenHandle (E : Env) where
  h : E.Handle
  fileId : FileId
  path : GoString
  deletePending : Bool
  enumDone : Bool := false
  enumEntries : List FileInfo := []
  enumCursor : ℕ := 0
  enumPattern : GoString := []

/-- `tree`. -/
structure Tree (E : Env) where
  share : Share E
  opens : GoMap FileId (OpenHandle E) := ∅
  nextID : UInt64 := 0

/-- `session`. -/
structure Session (E : Env) where
  auth : E.Authenticator
  identity : Option Identity := none
  authenticated : Bool := false
  trees : GoMap UInt32 (Tree E) := ∅
  nextTreeID : UInt32 := 0
  signer : Option Signing.Signer := none
  requireSign : Bool := false
  encryptionKey : Option Bytes := none
  decryptionKey : Option Bytes := none
  requireEncrypt : Bool := false
  encCCM : Option Encryption.AESCCM := none
  decCCM : Option Encryption.AESCCM := none

/-- How a frame came in: in plaintext, or as a TRANSFORM message that the cipher
with key `cipherKey` opened for a session whose `decryptionKey` was `sessionKey`. -/
inductive Arrival where
  | plain
  | transform (sid : UInt64) (cipherKey sessionKey : Bytes)
  deriving DecidableEq

/-- Whom a message of the server is for: the command it answers, the session that
command named, and whether that session required encryption at the time. -/
structure Addressee where
  sid : UInt64
  cmd : UInt16
  enc : Bool
  deriving DecidableEq

/-- One response of a reply: where its header starts, which request it answers,
and the signer of its session. -/
structure Reply extends Addressee where
  start : ℕ
  messageId : UInt64
  signer : Option Signing.Signer

/-- `pendingOp`; its `done` channel is `Conn.cancelled`. -/
structure PendingOp where
  asyncID : UInt64
  messageID : UInt64

/-- The arguments of a running `watchDirectory`. -/
structure Watcher (E : Env) where
  op : PendingOp
  hdr : Header
  h : E.Handle
  snap : GoMap GoString UInt64
  req : ChangeNotifyRequest
  dest : Addressee

/-- The locals of `handleMessage` between two rounds of its loop. -/
structure Loop where
  msg : Bytes
  off : ℕ := 0
  first : Bool := true
  chainFailed : Bool := false
  lastStatus : UInt32 := statusSuccess
  lastFileId : FileId := Arr.zero 16
  prevRespStart : Option ℕ := none
  finished : Bool := false
  via : Arrival
  replies : List Reply := []

/-- `conn`. -/
structure Conn (E : Env) where
  id : ConnId
  out : Bytes := []
  sessions : GoMap UInt64 (Session E) := ∅
  creditBalance : UInt32 := 1
  nextAsync : UInt64 := 0
  pending : GoMap UInt64 PendingOp := ∅
  pendingByMsg : GoMap UInt64 PendingOp := ∅
  preauthHash : Bytes
  /-- The operations whose `done` channel is closed. -/
  cancelled : List UInt64 := []
  watchers : List (Watcher E) := []
  /-- The frame being handled, if any. -/
  loop : Option Loop := none
  /-- `serveConn` has returned or panicked, and its deferred `cleanup` is to run. -/
  dead : Bool := false

/-- `oplockInfo`; `enc` is whether the session required encryption. -/
structure OplockInfo where
  fileId : FileId
  sessID : UInt64
  treeID : UInt32
  path : GoString
  conn : ConnId
  enc : Bool

/-- A message in an `asyncResp` channel. -/
structure Queued where
  frame : Bytes
  dest : Addressee

/-- The command a call is made for. -/
structure Origin where
  conn : ConnId
  sid : UInt64
  tid : UInt32
  cmd : UInt16
  deriving DecidableEq

/-- A call of a method of `vfs.Backend`, `vfs.Remover` or `vfs.Handle`. -/
inductive Call (E : Env) where
  | openFile (share : Share E) (opts : OpenOptions) (res : Except OsError E.Handle)
  | remove (share : Share E) (path : GoString)
  | read (h : E.Handle) (off : ℤ) (n : ℕ)
  | write (h : E.Handle) (off : ℤ) (data : Bytes)
  | close (h : E.Handle)
  | stat (h : E.Handle)
  | enumerate (h : E.Handle) (pattern : GoString)
  | setInfo (h : E.Handle) (req : Vfs.SetInfoRequest)
  | rename (h : E.Handle) (newPath : GoString) (replaceIfExists : Bool)
  | processPipe (h : E.Handle) (input : Bytes)

/-- What the server does that can be seen from outside. -/
inductive Event (E : Env) where
  /-- A call made for a command, or by cleanup or a watcher of a connection. -/
  | call (origin : Option Origin) (op : Call E)
  /-- A command reaches `dispatch` or `handleChangeNotify`. -/
  | exec (origin : Origin) (via : Arrival) (enc : Bool)
  /-- A session is put into the table. -/
  | session (cid : ConnId) (sid : UInt64)
  /-- The authenticator of a session returned an identity. -/
  | identity (cid : ConnId) (sid : UInt64)
  /-- A session is taken out of the table. -/
  | logoff (cid : ConnId) (sid : UInt64)
  | treeConnect (cid : ConnId) (sid : UInt64) (tid : UInt32) (share : Share E)
  | treeDisconnect (cid : ConnId) (sid : UInt64) (tid : UInt32)
  /-- A CREATE succeeded and its response tells this oplock level. -/
  | created (origin : Origin) (fid : FileId) (path : GoString) (level : UInt8)
  /-- An OPLOCK_BREAK for an open was put into its connection's queue. -/
  | oplockBreak (cid : ConnId) (fid : FileId) (path : GoString)
  /-- A frame was written to the socket: plain, or sealed for a session by the
  cipher with the first key while the session's `encryptionKey` was the second. -/
  | wrote (cid : ConnId) (frame : Bytes) (sealing : Option (UInt64 × Bytes × Bytes))
      (content : List Addressee)

/-- What the connections of a server share. -/
structure Shared (E : Env) where
  world : E.World
  locks : GoString → LockManager := fun _ => {}
  oplocks : GoString → Option OplockInfo := fun _ => none
  nextSess : UInt64 := 0
  asyncResp : ConnId → List Queued := fun _ => []
  connDone : ConnId → Bool := fun _ => false
  trace : List (Event E) := []

/-- What a handler works on: the shared state and its own connection. -/
structure St (E : Env) where
  sh : Shared E
  c : Conn E

/-- `Server`: the configuration `New` builds.  `ipcBackend` is the pipe backend of
the `IPC$` share that is added when none was given. -/
structure Config (E : Env) where
  shares : List (Share E)
  ipcBackend : E.Backend
  dialect : UInt16 := dialectSMB302
  maxCredits : UInt32 := 8192
  requireEnc : Bool := false
  guid : Arr 16 := Arr.zero 16

/-- `defaultMaxTransact`, which no option changes. -/
def maxTransact : UInt32 := 65536

/-- `defaultMaxRead`, which no option changes. -/
def maxRead : UInt32 := 1048576

/-- `defaultMaxWrite`, which no option changes. -/
def maxWrite : UInt32 := 1048576

/-- The name `IPC$`. -/
def ipcName : GoString := [0x49, 0x50, 0x43, 0x24]

/-- `shareByName`: the last share registered under a name. -/
def Config.shareByName {E : Env} (srv : Config E) (name : GoString) : Option (Share E) :=
  let ipc := if srv.shares.any fun s => decide (s.name = ipcName) then []
    else [⟨ipcName, srv.ipcBackend, false⟩]
  (srv.shares ++ ipc).reverse.find? fun s => decide (s.name = name)

namespace Conn

variable {E : Env}

/-- `getSession`. -/
def session? (c : Conn E) (sid : UInt64) : Option (Session E) := c.sessions.lookup sid

/-- `getSession` and `getTree`. -/
def tree? (c : Conn E) (sid : UInt64) (tid : UInt32) : Option (Tree E) :=
  (c.session? sid).bind fun s => s.trees.lookup tid

/-- An open of a tree. -/
def open? (c : Conn E) (sid : UInt64) (tid : UInt32) (fid : FileId) : Option (OpenHandle E) :=
  (c.tree? sid tid).bind fun t => t.opens.lookup fid

/-- A write through a session pointer. -/
def modifySession (c : Conn E) (sid : UInt64) (f : Session E → Session E) : Conn E :=
  { c with sessions := GoMap.mapAt c.sessions sid f }

/-- A write through a tree pointer. -/
def modifyTree (c : Conn E) (sid : UInt64) (tid : UInt32) (f : Tree E → Tree E) : Conn E :=
  c.modifySession sid fun s => { s with trees := GoMap.mapAt s.trees tid f }

/-- A write through a pointer to an open. -/
def modifyOpen (c : Conn E) (sid : UInt64) (tid : UInt32) (fid : FileId)
    (f : OpenHandle E → OpenHandle E) : Conn E :=
  c.modifyTree sid tid fun t => { t with opens := GoMap.mapAt t.opens fid f }

/-- Whether the session a header names requires encryption. -/
def requiresEncryption (c : Conn E) (sid : UInt64) : Bool :=
  (c.session? sid).any fun s => s.requireEncrypt

theorem open?_eq_some {c : Conn E} {sid : UInt64} {tid : UInt32} {fid : FileId}
    {oh : OpenHandle E} :
    c.open? sid tid fid = some oh ↔ ∃ t, c.tree? sid tid = some t ∧ t.opens.lookup fid = some oh :=
  Option.bind_eq_some_iff

theorem session?_modifySession (c : Conn E) (sid sid' : UInt64) (f : Session E → Session E) :
    (c.modifySession sid f).session? sid' =
      if sid' = sid then (c.session? sid').map f else c.session? sid' :=
  GoMap.lookup_mapAt ..

theorem tree?_modifyTree (c : Conn E) (sid sid' : UInt64) (tid tid' : UInt32)
    (f : Tree E → Tree E) :
    (c.modifyTree sid tid f).tree? sid' tid' =
      if sid' = sid ∧ tid' = tid then (c.tree? sid' tid').map f else c.tree? sid' tid' := by
  unfold tree? modifyTree
  rw [session?_modifySession]
  by_cases hs : sid' = sid
  · cases c.session? sid' with
    | none => simp [hs]
    | some s => simp [hs, GoMap.lookup_mapAt]
  · simp [hs]

theorem open?_modifyOpen (c : Conn E) (sid sid' : UInt64) (tid tid' : UInt32) (fid fid' : FileId)
    (f : OpenHandle E → OpenHandle E) :
    (c.modifyOpen sid tid fid f).open? sid' tid' fid' =
      if sid' = sid ∧ tid' = tid ∧ fid' = fid then (c.open? sid' tid' fid').map f
      else c.open? sid' tid' fid' := by
  unfold open? modifyOpen
  rw [tree?_modifyTree]
  by_cases ht : sid' = sid ∧ tid' = tid
  · rw [if_pos ht]
    cases c.tree? sid' tid' with
    | none => simp
    | some t => simp [ht, GoMap.lookup_mapAt]
  · rw [if_neg ht, if_neg fun h => ht ⟨h.1, h.2.1⟩]

end Conn

end Server
end SmbServer
