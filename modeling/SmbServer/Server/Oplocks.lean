/-
# The oplock table

`smb/server/oplocks.go`: one holder per path.  `grant` refuses when the path has
a holder, `breakOplock` takes the holder out and returns it, and `release` takes
out whatever is there.  `sendOplockBreak` puts an 88-byte message into the
`asyncResp` channel of the holder's connection, unless that connection is done;
the channel is modelled without its bound of 64 messages.

`requestOplock` is the oplock section of `handleCreate`.
-/

import SmbServer.Server.Basic

namespace SmbServer
namespace Server

open Wire

variable {E : Env}

namespace Shared

/-- `oplockTable.grant`; `none` is a refusal. -/
def grant (sh : Shared E) (path : GoString) (info : OplockInfo) : Option (Shared E) :=
  if (sh.oplocks path).isSome then none
  else some { sh with oplocks := Function.update sh.oplocks path (some info) }

/-- `oplockTable.breakOplock`. -/
def breakOplock (sh : Shared E) (path : GoString) : Option OplockInfo × Shared E :=
  (sh.oplocks path, { sh with oplocks := Function.update sh.oplocks path none })

/-- `oplockTable.release`. -/
def release (sh : Shared E) (path : GoString) : Shared E :=
  { sh with oplocks := Function.update sh.oplocks path none }

/-- `locks.manager(path).unlockAll(fid)`. -/
def unlockAll (sh : Shared E) (path : GoString) (fid : FileId) : Shared E :=
  { sh with locks := Function.update sh.locks path ((sh.locks path).unlockAll fid) }

/-- `sendFinal`: a message for a connection, dropped when the connection is done. -/
def sendFinal (sh : Shared E) (cid : ConnId) (q : Queued) : Shared E :=
  if sh.connDone cid then sh
  else { sh with asyncResp := Function.update sh.asyncResp cid (sh.asyncResp cid ++ [q]) }

end Shared

/-- The message `sendOplockBreak` builds. -/
def oplockBreakMessage (info : OplockInfo) : Bytes :=
  [0xFE, 0x53, 0x4D, 0x42] ++ put32 64 ++ put32 0 ++ put16 cmdOplockBreak ++ put16 0 ++
    put32 (flagServerToRedir ||| flagAsyncCommand) ++ zeros 16 ++ put32 info.treeID ++
    put64 info.sessID ++ zeros 16 ++ [1, 0] ++ put16 24 ++ [1, 0, 0, 0] ++ info.fileId.1

namespace Shared

/-- `sendOplockBreak`. -/
def sendOplockBreak (sh : Shared E) (info : OplockInfo) : Shared E :=
  if sh.connDone info.conn then sh
  else
    let sh := sh.sendFinal info.conn
      { frame := oplockBreakMessage info, dest := ⟨info.sessID, cmdOplockBreak, info.enc⟩ }
    { sh with trace := .oplockBreak info.conn info.fileId info.path :: sh.trace }

/-- The oplock section of `handleCreate`: the level granted, and the table after it. -/
def requestOplock (sh : Shared E) (info : OplockInfo) (level : UInt8) : UInt8 × Shared E :=
  if level = 0 then (0, sh)
  else
    match sh.grant info.path info with
    | some sh' => (level, sh')
    | none =>
      match sh.breakOplock info.path with
      | (none, sh') => (0, sh')
      | (some broken, sh') => (0, sh'.sendOplockBreak broken)

end Shared

end Server
end SmbServer
