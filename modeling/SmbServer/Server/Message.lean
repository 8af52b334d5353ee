/-
# One message

`dispatch` of `smb/server/dispatch.go` and `handleMessage` of
`smb/server/server.go`.  A frame is a chain of commands, each with its own
header; `round` is one pass of the loop of `handleMessage`, from the header at
`off` to the response appended to `c.out`.

The handlers write through pointers into the loop: into the header the response
is made from, into the request (`handleOplockBreak`, `Signer.Verify`), and into
`lastFileId`.  `Handled` is what they leave there.
-/

import SmbServer.Server.Async
import SmbServer.Server.Info
import SmbServer.Server.Sessions

namespace SmbServer
namespace Server

open Wire

variable {E : Env}

/-! ### `dispatch` -/

/-- `requiresSession`. -/
def requiresSession (cmd : UInt16) : Bool := cmd ≠ cmdNegotiate

/-- `requiresTree`. -/
def requiresTree (cmd : UInt16) : Bool :=
  cmd ≠ cmdTreeConnect && cmd ≠ cmdSessionSetup && cmd ≠ cmdLogoff && cmd ≠ cmdEcho &&
    cmd ≠ cmdNegotiate

/-- The checks `dispatch` makes before its switch: the status it refuses with. -/
def Conn.refusal (c : Conn E) (o : Origin) : Option UInt32 :=
  if !requiresSession o.cmd then none
  else
    match c.session? o.sid with
    | none => if o.cmd = cmdSessionSetup then none else some statusUserSessionDeleted
    | some sess =>
      if !sess.authenticated && o.cmd ≠ cmdSessionSetup then some statusUserSessionDeleted
      else if requiresTree o.cmd && (sess.trees.lookup o.tid).isNone then
        some statusNetworkNameDeleted
      else none

/-- What a command leaves behind: its status, the header of its response, the
request and `lastFileId`. -/
structure Handled where
  status : UInt32
  hdr : Header
  sub : Bytes
  lastFileId : FileId

/-- The handlers that leave only a status. -/
def plainHandler (srv : Config E) (o : Origin) (sub : Bytes) : M E UInt32 :=
  if o.cmd = cmdNegotiate then handleNegotiate srv sub
  else if o.cmd = cmdLogoff then handleLogoff o
  else if o.cmd = cmdTreeDisconnect then handleTreeDisconnect o
  else if o.cmd = cmdClose then handleClose o sub
  else if o.cmd = cmdRead then handleRead o sub
  else if o.cmd = cmdWrite then handleWrite o sub
  else if o.cmd = cmdQueryDirectory then handleQueryDirectory o sub
  else if o.cmd = cmdQueryInfo then handleQueryInfo o sub
  else if o.cmd = cmdSetInfo then handleSetInfo o sub
  else if o.cmd = cmdFlush then handleFlush
  else if o.cmd = cmdLock then handleLock o sub
  else if o.cmd = cmdIoctl then handleIoctl srv o sub
  else if o.cmd = cmdEcho then handleEcho
  else errBody statusNotImplemented

/-- The switch of `dispatch`. -/
def handle (srv : Config E) (o : Origin) (sub : Bytes) (hdr : Header) (fid : FileId) :
    M E Handled :=
  if o.cmd = cmdSessionSetup then do
    let (status, hdr) ← handleSessionSetup srv o sub hdr
    return ⟨status, hdr, sub, fid⟩
  else if o.cmd = cmdTreeConnect then do
    let (status, hdr) ← handleTreeConnect srv o sub hdr
    return ⟨status, hdr, sub, fid⟩
  else if o.cmd = cmdCreate then do
    let (status, fid) ← handleCreate o sub fid
    return ⟨status, hdr, sub, fid⟩
  else if o.cmd = cmdOplockBreak then do
    let (status, sub) ← handleOplockBreak sub
    return ⟨status, hdr, sub, fid⟩
  else do
    let status ← plainHandler srv o sub
    return ⟨status, hdr, sub, fid⟩

/-- `dispatch`. -/
def dispatch (srv : Config E) (o : Origin) (sub : Bytes) (hdr : Header) (fid : FileId) :
    M E Handled := do
  let s ← Go.get
  match s.c.refusal o with
  | some status => do
      let status ← errBody status
      return ⟨status, hdr, sub, fid⟩
  | none => handle srv o sub hdr fid

/-! ### The locals of the loop -/

namespace Loop

/-- `sub`. -/
def sub (lp : Loop) : Bytes := lp.msg.drop lp.off

/-- A write through `sub`, which aliases the message. -/
def setSub (lp : Loop) (b : Bytes) : Loop := { lp with msg := lp.msg.take lp.off ++ b }

def stop (lp : Loop) : Loop := { lp with finished := true }

/-- `lastStatus = status`, and a failure fails the rest of the chain. -/
def settle (lp : Loop) (status : UInt32) : Loop :=
  { lp with
    lastStatus := status
    chainFailed := lp.chainFailed ||
      (status ≠ statusSuccess && status ≠ statusMoreProcessingRequired) }

def refuse (lp : Loop) : Loop :=
  { lp with chainFailed := true, lastStatus := statusAccessDenied }

/-- The end of a round: `first = false`, and on to the next header if there is one. -/
def advance (lp : Loop) (nextCommand : UInt32) : Loop :=
  if nextCommand = 0 then { lp with first := false, finished := true }
  else { lp with first := false, off := lp.off + nextCommand.toNat }

def addReply (lp : Loop) (r : Reply) : Loop := { lp with replies := lp.replies ++ [r] }

end Loop

/-- `cmdBytes`: the request up to the next header. -/
def cmdBytes (hdr : Header) (sub : Bytes) : Bytes :=
  if hdr.nextCommand ≠ 0 ∧ hdr.nextCommand.toNat ≤ sub.length then sub.take hdr.nextCommand.toNat
  else sub

/-- The signature check, which leaves the computed signature in the request. -/
def checkSignature (c : Conn E) (hdr : Header) (lp : Loop) : Loop :=
  match c.session? hdr.sessionId with
  | none => lp
  | some sess =>
    match sess.signer with
    | none => lp
    | some signer =>
      if hdr.flags &&& flagSigned ≠ 0 then
        let (ok, b) := signer.verify E.crypto (cmdBytes hdr lp.sub)
        let lp' := lp.setSub (b ++ lp.sub.drop b.length)
        if ok = some true then lp' else lp'.refuse
      else if sess.requireSign then lp.refuse
      else lp

/-- `fileIdOffset`. -/
def fileIdOffset (cmd : UInt16) : Option ℕ :=
  if cmd = cmdClose ∨ cmd = cmdFlush ∨ cmd = cmdQueryDirectory ∨ cmd = cmdLock ∨ cmd = cmdIoctl then
    some (64 + 8)
  else if cmd = cmdRead ∨ cmd = cmdWrite ∨ cmd = cmdSetInfo then some (64 + 16)
  else if cmd = cmdQueryInfo then some (64 + 24)
  else none

/-- A related command gets the FileId of the last CREATE. -/
def patchFileId (hdr : Header) (lp : Loop) : Loop :=
  if hdr.flags &&& flagRelatedOps ≠ 0 ∧ lp.first = false then
    match fileIdOffset hdr.command with
    | none => lp
    | some fo =>
      if fo + 16 ≤ lp.sub.length then lp.setSub (copyAt lp.sub fo lp.lastFileId.1) else lp
  else lp

/-- `creditBalance -= charge`, down to zero. -/
def Conn.charge (c : Conn E) (creditCharge : UInt16) : Conn E :=
  { c with creditBalance :=
      if creditCharge.toUInt32 ≤ c.creditBalance then c.creditBalance - creditCharge.toUInt32
      else 0 }

/-! ### The response -/

/-- Before another response: the buffer is padded to eight bytes and the previous
header pointed at its end. -/
def linkPrevious (prevRespStart : Option ℕ) (out : Bytes) : Bytes :=
  match prevRespStart with
  | none => out
  | some prev =>
    let out := out ++ zeros (pad8 out.length)
    copyAt out (prev + 20) (put32 (UInt32.ofNat (out.length - prev)))

/-- `updatePreauth`. -/
def Conn.updatePreauth (c : Conn E) (msg : Bytes) : Conn E :=
  if c.preauthHash.length = 0 then c
  else { c with preauthHash := List.ofFn (E.crypto.sha512 (c.preauthHash ++ msg)) }

/-- The header of the response, and the credits it grants. -/
def responseHeader (srv : Config E) (c : Conn E) (first : Bool) (status : UInt32) (hdr : Header) :
    Header :=
  let grant := srv.maxCredits - c.creditBalance
  let flags := hdr.flags ||| flagServerToRedir
  let flags := if first then flags else flags ||| flagRelatedOps
  { hdr with
    credit := if 0xFFFF < grant then 0xFFFF else grant.toUInt16
    flags := flags &&& ~~~flagAsyncCommand
    status }

/-- Whether a response on the session is left to `maybeSealResponse`. -/
def Session.encrypting (sess : Session E) (cmd : UInt16) : Bool :=
  sess.requireEncrypt && cmd ≠ cmdNegotiate && cmd ≠ cmdSessionSetup

/-- The signer a response is signed with. -/
def Conn.signerFor (c : Conn E) (hdr : Header) : Option Signing.Signer :=
  (c.session? hdr.sessionId).bind fun sess =>
    if sess.encrypting hdr.command then none else sess.signer

/-- Set the Signed flag of the response at `start` and sign it. -/
def signResponse (signer : Signing.Signer) (flags : UInt32) (start : ℕ) (out : Bytes) : Bytes :=
  let resp := copyAt (out.drop start) 16 (put32 (flags ||| flagSigned))
  out.take start ++ (signer.sign E.crypto resp).getD resp

/-- From the end of the switch to the signature. -/
def Conn.finishResponse (srv : Config E) (first : Bool) (status : UInt32) (hdr : Header)
    (start : ℕ) (c : Conn E) : Conn E :=
  let hdr := responseHeader srv c first status hdr
  let c := { c with
    creditBalance := c.creditBalance + (srv.maxCredits - c.creditBalance)
    out := copyAt c.out start hdr.encode }
  let c := if hdr.command = cmdNegotiate ∨ hdr.command = cmdSessionSetup then
      c.updatePreauth (c.out.drop start)
    else c
  match c.signerFor hdr with
  | none => c
  | some signer => { c with out := signResponse (E := E) signer hdr.flags start c.out }

/-! ### The rounds of the loop -/

/-- The command of a header. -/
def originOf (c : Conn E) (hdr : Header) : Origin := ⟨c.id, hdr.sessionId, hdr.treeId, hdr.command⟩

/-- Record that a command reaches `dispatch` or `handleChangeNotify`. -/
def logExec (o : Origin) (via : Arrival) : M E Unit := Go.modify fun s =>
  { s with sh := { s.sh with
    trace := .exec o via (s.c.requiresEncryption o.sid) :: s.sh.trace } }

/-- The switch of `handleMessage`. -/
def route (srv : Config E) (o : Origin) (hdr : Header) (lp : Loop) : M E Handled :=
  if lp.chainFailed then return ⟨lp.lastStatus, hdr, lp.sub, lp.lastFileId⟩
  else if o.cmd = cmdCancel then do
    let status ← handleCancel hdr
    return ⟨status, hdr, lp.sub, lp.lastFileId⟩
  else do
    logExec o lp.via
    dispatch srv o lp.sub hdr lp.lastFileId

/-- Whom the response of a command is for.  The session is looked up before the
command, which may end it, and after, since it may begin it. -/
def replyOf (before after : Conn E) (o : Origin) (hdr hdr' : Header) (start : ℕ) : Reply where
  sid := o.sid
  cmd := o.cmd
  enc := before.requiresEncryption o.sid
  start := start
  messageId := hdr.messageId
  signer := ((after.session? hdr'.sessionId).bind Session.signer) <|>
    ((before.session? o.sid).bind Session.signer)

/-- The synchronous response to a command. -/
def respond (srv : Config E) (o : Origin) (hdr : Header) (lp : Loop) : M E Loop := do
  modifyConn fun c => { c with out := linkPrevious lp.prevRespStart c.out }
  let before ← Go.get
  let start := before.c.out.length
  emit (zeros headerSize)
  let r ← route srv o hdr lp
  modifyConn (Conn.finishResponse srv lp.first r.status r.hdr start)
  let after ← Go.get
  let lp := { (lp.setSub r.sub).settle r.status with
    lastFileId := r.lastFileId, prevRespStart := some start }
  return (lp.addReply (replyOf before.c after.c o hdr r.hdr start)).advance hdr.nextCommand

/-- The CHANGE_NOTIFY branch of `handleMessage`. -/
def notify (srv : Config E) (o : Origin) (hdr : Header) (lp : Loop) : M E Loop := do
  logExec o lp.via
  let before ← Go.get
  let (status, pending) ← handleChangeNotify o lp.sub hdr
  if pending then
    return (lp.addReply (replyOf before.c before.c o hdr hdr before.c.out.length)).advance
      hdr.nextCommand
  else respond srv o hdr (lp.settle status)

/-- One pass of the loop of `handleMessage`. -/
def round (srv : Config E) (lp : Loop) : M E Loop :=
  if lp.msg.length < lp.off + headerSize then return lp.stop
  else
    match Header.parse lp.sub with
    | .panic => Go.fault
    | .err _ => return lp.stop
    | .ok hdr => do
        modifyConn fun c => c.charge hdr.creditCharge
        let s ← Go.get
        let lp := patchFileId hdr (checkSignature s.c hdr lp)
        if hdr.command = cmdChangeNotify ∧ lp.chainFailed = false then
          notify srv (originOf s.c hdr) hdr lp
        else respond srv (originOf s.c hdr) hdr lp

end Server
end SmbServer
