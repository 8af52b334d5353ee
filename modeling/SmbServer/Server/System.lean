/-
# The server as a transition system

`serveConn` of `smb/server/server.go`, with `openTransform` and
`maybeSealResponse` of `encryption_handlers.go`, and the system of all connections
of a server.  One transition is one command of a frame, the writing of a reply or
of a queued message, a round of a watcher, or the beginning or the end of a
connection; between two of them any other connection may move.

A connection that stops, because `serveConn` returned or panicked, is `dead` until
its deferred `cleanup` runs.  A watcher of a connection that is gone has no one
to send to and goes with it.
-/

import SmbServer.Lib.Transition
import SmbServer.Server.Message
import SmbServer.Transport.Frame

namespace SmbServer
namespace Server

open Wire
open Transport (maxMessageLen)

variable {E : Env}

/-! ### Frames in -/

/-- `openTransform`: the message inside, and under which key it was opened. -/
def openTransform (transform : Bytes) : M E (Option (Bytes × Arrival)) :=
  if transform.length < Encryption.transformHeaderSize then return none
  else do
    let sid := u64At transform 44
    let s ← Go.get
    match s.c.session? sid with
    | none => return none
    | some sess =>
      match sess.decryptionKey with
      | none => return none
      | some key =>
        match sess.decCCM <|> Encryption.newAESCCM key with
        | none => return none
        | some ccm =>
          modifyConn fun c => c.modifySession sid fun sess => { sess with decCCM := some ccm }
          return (ccm.open E.crypto transform).map fun m => (m, .transform sid ccm.key key)

/-- What `serveConn` does with a frame before it handles it; `none` ends the
connection. -/
def screen (raw : Bytes) : M E (Option (Bytes × Arrival)) :=
  if 4 ≤ raw.length ∧ u8At raw 0 = 0xFD then openTransform raw
  else do
    let s ← Go.get
    if headerSize ≤ raw.length ∧ s.c.requiresEncryption (u64At raw 40) then return none
    else return some (raw, .plain)

/-- The command `serveConn` reads from a message: `0` when it is too short. -/
def firstCommand (msg : Bytes) : UInt16 := if headerSize ≤ msg.length then u16At msg 12 else 0

/-- The start of `handleMessage`. -/
def Conn.begin (c : Conn E) (msg : Bytes) (via : Arrival) : Conn E :=
  let c := { c with out := [], loop := some { msg, via } }
  if firstCommand msg = cmdNegotiate ∨ firstCommand msg = cmdSessionSetup then c.updatePreauth msg
  else c

/-- A frame comes in. -/
def receive (raw : Bytes) : M E Unit := do
  match ← screen raw with
  | none => modifyConn fun c => { c with dead := true }
  | some (msg, via) => modifyConn fun c => c.begin msg via

/-! ### Frames out -/

/-- `maybeSealResponse`: the sealed frame, its session, the key of the cipher and the
key of the session. -/
def maybeSealResponse (out : Bytes) : M E (Option (Bytes × UInt64 × Bytes × Bytes)) := do
  let cmd := u16At out 12
  let sid := u64At out 40
  if out.length < headerSize ∨ cmd = cmdNegotiate ∨ cmd = cmdSessionSetup then return none
  else
    let s ← Go.get
    match s.c.session? sid with
    | none => return none
    | some sess =>
      match sess.encryptionKey with
      | none => return none
      | some key =>
        if !sess.requireEncrypt then return none
        else
          match sess.encCCM <|> Encryption.newAESCCM key with
          | none => return none
          | some ccm =>
            modifyConn fun c => c.modifySession sid fun sess => { sess with
              encCCM := some ccm }
            let nonce ← ask E.nonce
            return some (ccm.seal E.crypto nonce out sid, sid, ccm.key, key)

/-- `WriteMessage`: whether the frame was written. -/
def writeMessage (frame : Bytes) (sealing : Option (UInt64 × Bytes × Bytes))
    (content : List Addressee) : M E Bool := fun s =>
  if frame = [] ∨ maxMessageLen < UInt32.ofNat frame.length then .ok false s
  else .ok true { s with sh := { s.sh with
    trace := .wrote s.c.id frame sealing content :: s.sh.trace } }

/-- The end of a round of `serveConn`: the reply is written, if there is one, and a
failure ends the connection. -/
def sendReply (lp : Loop) : M E Unit := do
  let s ← Go.get
  if s.c.out = [] then modifyConn fun c => { c with loop := none }
  else
    let content := lp.replies.map Reply.toAddressee
    let ok ← match ← maybeSealResponse s.c.out with
      | some (frame, keys) => writeMessage frame (some keys) content
      | none => writeMessage s.c.out none content
    modifyConn fun c => { c with loop := none, dead := !ok }

/-- A round of `drainAsync`.  A message that cannot be written is lost. -/
def drainOne (q : Queued) (rest : List Queued) : M E Unit := do
  Go.modify fun s => { s with sh := { s.sh with
    asyncResp := Function.update s.sh.asyncResp s.c.id rest } }
  let _ ← writeMessage q.frame none [q.dest]

/-! ### The end of a connection -/

/-- `cleanup`. -/
def cleanup : M E Unit := do
  let s ← Go.get
  modifyShared fun sh => { sh with connDone := Function.update sh.connDone s.c.id true }
  modifyConn fun c => { c with pending := ∅, pendingByMsg := ∅ }
  let sids ← ask (E.rangeOrder _ s.c.sessions.keys)
  Go.forEach (closeAllTrees none) sids

/-! ### The system -/

/-- All connections of a server. -/
structure Sys (E : Env) where
  sh : Shared E
  conns : ConnId → Option (Conn E) := fun _ => none
  next : ConnId := 0

/-- What can happen next. -/
inductive Label where
  /-- A client connects. -/
  | accept
  /-- A frame comes in on an idle connection. -/
  | recv (cid : ConnId) (raw : Bytes)
  /-- The next command of the frame is handled. -/
  | sub (cid : ConnId)
  /-- The frame is done and its reply written. -/
  | reply (cid : ConnId)
  /-- A queued message is written. -/
  | drain (cid : ConnId)
  /-- The ticker of a watcher fires. -/
  | tick (cid : ConnId) (i : ℕ)
  /-- A watcher sees that its operation is cancelled. -/
  | done (cid : ConnId) (i : ℕ)
  /-- The connection ends and is cleaned up. -/
  | close (cid : ConnId)

/-- Run a computation of a connection.  After a panic the connection is dead. -/
def Sys.exec (S : Sys E) (cid : ConnId) (c : Conn E) (m : M E Unit) : Sys E :=
  match m ⟨S.sh, c⟩ with
  | .ok _ s => { S with sh := s.sh, conns := Function.update S.conns cid (some s.c) }
  | .panic s =>
    { S with
      sh := s.sh
      conns := Function.update S.conns cid (some { s.c with loop := none, dead := true }) }

/-- A new connection. -/
def newConn (cid : ConnId) : Conn E where
  id := cid
  preauthHash := List.ofFn (E.crypto.sha512 [])

/-- The next command of the frame. -/
def subCommand (srv : Config E) (lp : Loop) : M E Unit := do
  let lp ← round srv lp
  modifyConn fun c => { c with loop := some lp }

/-- The computation a label stands for on its connection, where it is enabled. -/
def action (srv : Config E) (sh : Shared E) (c : Conn E) : Label → Option (M E Unit)
  | .recv _ raw => if !c.dead && c.loop.isNone then some (receive raw) else none
  | .sub _ =>
    match c.loop with
    | some lp => if !c.dead && !lp.finished then some (subCommand srv lp) else none
    | none => none
  | .reply _ =>
    match c.loop with
    | some lp => if !c.dead && lp.finished then some (sendReply lp) else none
    | none => none
  | .drain _ =>
    match sh.asyncResp c.id with
    | q :: rest => if !c.dead && c.loop.isNone then some (drainOne q rest) else none
    | [] => none
  | .tick _ i => (c.watchers[i]?).map (watchTick i)
  | .done _ i =>
    match c.watchers[i]? with
    | some w => if w.op.asyncID ∈ c.cancelled then some (watchDone i w) else none
    | none => none
  | .close _ => if c.dead || c.loop.isNone then some cleanup else none
  | .accept => none

/-- The connection a label is about. -/
def Label.conn? : Label → Option ConnId
  | .accept => none
  | .recv cid _ | .sub cid | .reply cid | .drain cid | .tick cid _ | .done cid _ | .close cid =>
    some cid

/-- A connection ends with its cleanup. -/
def Label.ends : Label → Bool
  | .close _ => true
  | _ => false

/-- One transition of the server. -/
def Sys.step (srv : Config E) (l : Label) (S : Sys E) : Option (Sys E) :=
  match l.conn? with
  | none =>
    some { S with
      conns := Function.update S.conns S.next (some (newConn S.next)), next := S.next + 1 }
  | some cid =>
    (S.conns cid).bind fun c => (action srv S.sh c l).map fun m =>
      let S' := S.exec cid c m
      if l.ends then { S' with conns := Function.update S'.conns cid none } else S'

/-- The server from its start in a world. -/
def system (srv : Config E) (w : E.World) : Transition (Sys E) Label where
  init := { sh := { world := w } }
  step := Sys.step srv

/-! ### A server to run -/

/-- The `AlwaysAllow` authenticator of `smb/auth`, a backend all of whose files are
empty, and stand-ins for the primitives. -/
def guestEnv : Env where
  World := ℕ
  Backend := Unit
  Handle := ℕ
  Authenticator := Unit
  crypto :=
    { aes := fun _ x => x
      hmacSha256 := fun _ _ _ => 0
      sha512 := fun _ _ => 0 }
  -- The world counts the handles, and a handle is its number.
  openFile _ _ w := (.ok w, w + 1)
  remove _ := none
  read _ _ _ w := (([], some .eof), w)
  read_le _ _ _ _ := Nat.zero_le _
  write _ _ data w := (.ok data.length, w)
  close _ w := (none, w)
  stat _ w := (.ok ⟨[], 0, false, Time.zero, Time.zero, Time.zero, Time.zero⟩, w)
  enumerate _ _ w := ([], w)
  setInfo _ := none
  rename _ := none
  processPipe _ := none
  authFactory w := ((), w)
  accept _ _ w := ((.ok { identity := some { username := [0x67, 0x75, 0x65, 0x73, 0x74] } }, ()), w)
  nonce w := (fun _ => 0, w)
  rangeOrder _ l w := (l, w)
  rangeOrder_perm _ _ _ := .refl _

/-- A server with one share, named `s`. -/
def guestServer (requireEnc : Bool) : Config guestEnv where
  shares := [⟨[0x73], (), false⟩]
  ipcBackend := ()
  requireEnc

/-- The server from its start. -/
def guestSystem (requireEnc : Bool) : Transition (Sys guestEnv) Label :=
  system (guestServer requireEnc) (0 : ℕ)

/-- A SESSION_SETUP without a token. -/
def setupFrame : Bytes := Header.encode { command := cmdSessionSetup } ++ put16 25 ++ zeros 22

/-- An ECHO on session 1 in a TRANSFORM message, as `Seal` makes it under the key of a
guest with the nonce zero. -/
def sealedEchoFrame : Bytes :=
  [0xFD, 0x53, 0x4D, 0x42, 0x82, 0x73, 0x09, 0x42, 0x40, 0x00, 0x00, 0x00, 0x00, 0x00, 0x01, 0x00,
   0x0D, 0x00, 0x00, 0x44, 0x00, 0x00, 0x00, 0x00, 0x00, 0x00, 0x00, 0x00, 0x00, 0x00, 0x00, 0x00,
   0x00, 0x00, 0x00, 0x00, 0x44, 0x00, 0x00, 0x00, 0x00, 0x00, 0x01, 0x00, 0x01, 0x00, 0x00, 0x00,
   0x00, 0x00, 0x00, 0x00, 0xFD, 0x53, 0x4D, 0x42, 0x40, 0x00, 0x00, 0x00, 0x00, 0x00, 0x00, 0x00,
   0x0D, 0x00, 0x00, 0x01, 0x03, 0x00, 0x00, 0x00, 0x00, 0x00, 0x00, 0x00, 0x00, 0x00, 0x00, 0x00,
   0x00, 0x00, 0x00, 0x02, 0x03, 0x00, 0x00, 0x00, 0x00, 0x00, 0x00, 0x00, 0x01, 0x00, 0x00, 0x00,
   0x00, 0x00, 0x00, 0x03, 0x03, 0x00, 0x00, 0x00, 0x00, 0x00, 0x00, 0x00, 0x00, 0x00, 0x00, 0x00,
   0x00, 0x00, 0x00, 0x04, 0x07, 0x00, 0x00, 0x00]

/-- A TREE_CONNECT of session `sid` to the share `s`. -/
def treeConnectFrame (sid : UInt64) : Bytes :=
  Header.encode { command := cmdTreeConnect, sessionId := sid } ++
    put16 9 ++ put16 0 ++ put16 72 ++ put16 2 ++ [0x73, 0x00]

/-- A CREATE that opens the file with a UTF-16 name and asks for an oplock level. -/
def createFrame (sid : UInt64) (tid : UInt32) (level : UInt8) (name : Bytes) : Bytes :=
  Header.encode { command := cmdCreate, sessionId := sid, treeId := tid } ++
    put16 57 ++ [0x00, level] ++ zeros 32 ++ put32 1 ++ put32 0 ++
    put16 120 ++ put16 (UInt16.ofNat name.length) ++ zeros 8 ++ name

/-- A CLOSE of an open. -/
def closeFrame (sid : UInt64) (tid : UInt32) (fid : FileId) : Bytes :=
  Header.encode { command := cmdClose, sessionId := sid, treeId := tid } ++
    put16 24 ++ zeros 6 ++ fid.1

/-- A compound of two requests. -/
def compound (first second : Bytes) : Bytes :=
  let padded := first ++ zeros (pad8 first.length)
  copyAt padded 20 (put32 (UInt32.ofNat padded.length)) ++ second

/-- A frame comes in, its one command is handled and the reply is written. -/
def exchange (cid : ConnId) (raw : Bytes) : List Label := [.recv cid raw, .sub cid, .reply cid]

end Server
end SmbServer
