/-
# Sessions and trees

`smb/server/dispatch.go`: `handleNegotiate`, `handleSessionSetup`,
`handleLogoff`, `handleTreeConnect` and `handleTreeDisconnect`, and
`closeAllOpens`, which LOGOFF, TREE_DISCONNECT and the cleanup of a connection
run over the opens of a tree.

`handleSessionSetup` and `handleTreeConnect` write the new id into the header
the response is made from, so they return that header too.
-/

import SmbServer.Server.Oplocks

namespace SmbServer
namespace Server

open Wire Vfs

variable {E : Env}

/-! ### NEGOTIATE -/

def capLargeMTU : UInt32 := 0x00000004
def capEncryption : UInt32 := 0x00000040
def signingEnabled : UInt16 := 0x0001
def ctxPreauthIntegrity : UInt16 := 0x0001
def ctxEncryption : UInt16 := 0x0002

/-- `negotiateCapabilities`. -/
def negotiateCapabilities (srv : Config E) : UInt32 :=
  if srv.requireEnc then capLargeMTU ||| capEncryption else capLargeMTU

/-- `pickDialect`: the highest known dialect offered up to the maximum, else `0`. -/
def pickDialect (offered : List UInt16) (maxDialect : UInt16) : UInt16 :=
  offered.foldl (fun best d =>
    if maxDialect < d then best
    else if d = dialectSMB202 ∨ d = dialectSMB21 ∨ d = dialectSMB30 ∨ d = dialectSMB302 ∨
        d = dialectSMB311 then
      if best < d then d else best
    else best) 0

/-- The contexts of the NEGOTIATE response. -/
def negotiateContexts (srv : Config E) (dialect : UInt16) : List NegotiateContext :=
  (if srv.requireEnc ∧ dialectSMB30 ≤ dialect then [⟨ctxEncryption, [0x01, 0x00, 0x01, 0x00]⟩]
    else []) ++
    if dialect = dialectSMB311 then
      [⟨ctxPreauthIntegrity, [0x01, 0x00, 0x00, 0x00, 0x01, 0x00]⟩]
    else []

/-- `handleNegotiate`. -/
def handleNegotiate (srv : Config E) (msg : Bytes) : M E UInt32 :=
  parsed (NegotiateRequest.parse (msg.drop headerSize)) fun req =>
    let dialect := pickDialect req.dialects srv.dialect
    if dialect = 0 then errBody statusNotSupported
    else succeed (NegotiateResponse.encode
      { securityMode := signingEnabled
        dialectRevision := dialect
        serverGuid := srv.guid
        capabilities := negotiateCapabilities srv
        maxTransactSize := maxTransact
        maxReadSize := maxRead
        maxWriteSize := maxWrite
        contexts := negotiateContexts srv dialect })

/-! ### SESSION_SETUP -/

/-- A new session goes into the table under the next id of the server. -/
def addSession (cid : ConnId) (auth : E.Authenticator) : M E UInt64 := fun s =>
  let sid := s.sh.nextSess + 1
  .ok sid
    { sh := { s.sh with nextSess := sid, trace := .session cid sid :: s.sh.trace }
      c := { s.c with sessions := s.c.sessions.insert sid { auth } } }

/-- The session of a SESSION_SETUP: the one the header names, or a new one. -/
def sessionFor (cid : ConnId) (sid : UInt64) : M E UInt64 := do
  let s ← Go.get
  match s.c.session? sid with
  | some _ => return sid
  | none =>
    let auth ← ask E.authFactory
    addSession cid auth

/-- `sess.auth.Accept`, which also changes the authenticator. -/
def acceptToken (sid : UInt64) (token : Bytes) :
    M E (Except Auth.AuthError Auth.AcceptResult) := do
  let s ← Go.get
  match s.c.session? sid with
  | none => Go.fault
  | some sess =>
    let r ← ask (E.accept sess.auth token)
    modifyConn fun c => c.modifySession sid fun sess => { sess with auth := r.2 }
    return r.1

/-- What an identity puts into its session. -/
def authenticate (srv : Config E) (r : Auth.AcceptResult) (sess : Session E) : Session E :=
  { sess with
    identity := r.identity
    authenticated := true
    signer := Signing.newSigner E.crypto (Signing.deriveSigningKey E.crypto r.sessionKey)
    encryptionKey := some (Encryption.deriveServerEncryptionKey E.crypto r.sessionKey)
    decryptionKey := some (Encryption.deriveServerDecryptionKey E.crypto r.sessionKey)
    requireEncrypt := srv.requireEnc }

/-- The session gets its identity and its keys. -/
def setIdentity (srv : Config E) (cid : ConnId) (sid : UInt64) (r : Auth.AcceptResult) :
    M E Unit := Go.modify fun s =>
  { sh := { s.sh with trace := .identity cid sid :: s.sh.trace }
    c := s.c.modifySession sid (authenticate srv r) }

def sessionFlagEncryptData : UInt16 := 0x0004

/-- The response of `handleSessionSetup`, with the token for the client. -/
def sendToken (srv : Config E) (sid : UInt64) (token : Bytes) : M E UInt32 := do
  let s ← Go.get
  emit (sessionSetupResponse s.c.out.length
    (if srv.requireEnc then sessionFlagEncryptData else 0) token)
  match s.c.session? sid with
  | none => Go.fault
  | some sess => return if sess.authenticated then statusSuccess else statusMoreProcessingRequired

/-- The rest of `handleSessionSetup` once `Accept` returned. -/
def finishSessionSetup (srv : Config E) (cid : ConnId) (sid : UInt64) :
    Except Auth.AuthError Auth.AcceptResult → M E UInt32
  | .error .logonFailed => errBody statusLogonFailure
  | .error .other => errBody statusAccessDenied
  | .ok r => do
      if r.identity.isSome then setIdentity srv cid sid r
      sendToken srv sid r.outputToken

/-- `handleSessionSetup`. -/
def handleSessionSetup (srv : Config E) (o : Origin) (msg : Bytes) (hdr : Header) :
    M E (UInt32 × Header) :=
  match SessionSetupRequest.parse msg with
  | .panic => Go.fault
  | .err _ => do return (← errBody statusInvalidParameter, hdr)
  | .ok req => do
      let sid ← sessionFor o.conn hdr.sessionId
      let r ← acceptToken sid req.securityBuffer
      let status ← finishSessionSetup srv o.conn sid r
      return (status, { hdr with sessionId := sid })

/-! ### Ending opens -/

/-- What `closeAllOpens` does to one open. -/
def closeOpen (origin : Option Origin) (oh : OpenHandle E) : M E Unit := do
  let _ ← call origin (fun _ => .close oh.h) (E.close oh.h)
  modifyShared fun sh => (sh.release oh.path).unlockAll oh.path oh.fileId

/-- `closeAllOpens`. -/
def closeAllOpens (origin : Option Origin) (sid : UInt64) (tid : UInt32) : M E Unit := do
  let s ← Go.get
  match s.c.tree? sid tid with
  | none => Go.fault
  | some tr =>
    let opens ← ask (E.rangeOrder _ (GoMap.values tr.opens))
    Go.forEach (closeOpen origin) opens
    modifyConn fun c => c.modifyTree sid tid fun t => { t with opens := ∅ }

/-- `for _, t := range sess.trees { c.closeAllOpens(ctx, t) }`. -/
def closeAllTrees (origin : Option Origin) (sid : UInt64) : M E Unit := do
  let s ← Go.get
  match s.c.session? sid with
  | none => Go.fault
  | some sess =>
    let tids ← ask (E.rangeOrder _ sess.trees.keys)
    Go.forEach (closeAllOpens origin sid) tids

/-- `delete(c.sessions, hdr.SessionId)`. -/
def dropSession (o : Origin) : M E Unit := Go.modify fun s =>
  { sh := { s.sh with trace := .logoff o.conn o.sid :: s.sh.trace }
    c := { s.c with sessions := s.c.sessions.erase o.sid } }

/-- `handleLogoff`; `dispatch` has found the session. -/
def handleLogoff (o : Origin) : M E UInt32 := do
  closeAllTrees (some o) o.sid
  dropSession o
  succeed simpleResponse

/-! ### Trees -/

def shareTypeDisk : UInt8 := 0x01

/-- `parseShareName`: the second component of a UNC path, or the first when it is
the only one. -/
def parseShareName (unc : GoString) : GoString :=
  let s := unc.dropWhile (· == 0x5C)
  let s := if 0x5C ∈ s then (s.dropWhile (· != 0x5C)).drop 1 else s
  s.takeWhile (· != 0x5C)

/-- A new tree of a session, under the next id of the session. -/
def addTree (o : Origin) (sess : Session E) (share : Share E) : M E Unit := Go.modify fun s =>
  { sh := { s.sh with trace := .treeConnect o.conn o.sid sess.nextTreeID share :: s.sh.trace }
    c := s.c.modifySession o.sid fun sess => { sess with
      nextTreeID := sess.nextTreeID + 1
      trees := sess.trees.insert sess.nextTreeID { share } } }

/-- `handleTreeConnect`. -/
def handleTreeConnect (srv : Config E) (o : Origin) (msg : Bytes) (hdr : Header) :
    M E (UInt32 × Header) :=
  match TreeConnectRequest.parse msg with
  | .panic => Go.fault
  | .err _ => do return (← errBody statusInvalidParameter, hdr)
  | .ok req =>
    match srv.shareByName (parseShareName (utf16FromBytes req.path)) with
    | none => do return (← errBody statusBadNetworkName, hdr)
    | some sh => do
        let s ← Go.get
        match s.c.session? o.sid with
        | none => Go.fault
        | some sess =>
          addTree o sess sh
          let status ← succeed (TreeConnectResponse.encode
            { shareType := shareTypeDisk
              shareFlags := 0x00000030
              capabilities := 0
              maximalAccess := if sh.readOnly then 0x00120089 else 0x001f01ff })
          return (status, { hdr with treeId := sess.nextTreeID })

/-- `delete(sess.trees, hdr.TreeId)`. -/
def dropTree (o : Origin) : M E Unit := Go.modify fun s =>
  { sh := { s.sh with trace := .treeDisconnect o.conn o.sid o.tid :: s.sh.trace }
    c := s.c.modifySession o.sid fun sess => { sess with trees := sess.trees.erase o.tid } }

/-- `handleTreeDisconnect`; `dispatch` has found the tree. -/
def handleTreeDisconnect (o : Origin) : M E UInt32 := do
  closeAllOpens (some o) o.sid o.tid
  dropTree o
  succeed simpleResponse

end Server
end SmbServer
