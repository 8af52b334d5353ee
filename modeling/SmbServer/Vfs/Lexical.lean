/-
# Paths as texts

What `cleanPath`, `fullPath` and `Rename` of `smb/vfs/vfs.go` make of the text a client
sends, whatever separators, dots and empty names are in it.  A path that is made is the
root followed by plain names, and the destination of a rename has at least one.

`renameTarget` is `Rename` up to its call of `os.Rename`.
-/

import SmbServer.Vfs.Containment

namespace SmbServer
namespace Vfs

open FileTree Wire

namespace LocalHandle

/-- The destination `Rename` passes to `os.Rename`. -/
def renameTarget (h : LocalHandle) (newPath : GoString) (replaceIfExists : Bool) (fs : Files) :
    Except OsError (List GoString) :=
  if dotDot <:+: newPath then .error .permission
  else
    let clean := cleanPath newPath
    if clean = [] ∨ clean = dot then .error .permission
    else
      match h.backend.fullPath fs clean with
      | .error e => .error e
      | .ok newFull => if !replaceIfExists && (fs.stat true newFull matches .ok _) then .error .exist else .ok newFull

theorem rename_eq (h : LocalHandle) (newPath : GoString) (replaceIfExists : Bool) (fs : Files) :
    h.rename newPath replaceIfExists fs =
      match h.renameTarget newPath replaceIfExists fs with
      | .error e => (some e, h, fs)
      | .ok newFull =>
        match fs.rename h.path newFull with
        | .error e => (some (osError e), h, fs)
        | .ok fs' => (none, { h with path := newFull, name := base newFull }, fs') := by
  unfold rename renameTarget
  split_ifs
  · rfl
  · dsimp only
    split_ifs
    · rfl
    · cases h.backend.fullPath fs (cleanPath newPath) with
      | error e => rfl
      | ok newFull =>
        cases replaceIfExists with
        | true => rfl
        | false =>
          dsimp only
          cases fs.stat true newFull with
          | error e => rfl
          | ok i => rfl

/-- A handle that `Open` made, after any renames and its closing. -/
inductive Of (b : LocalBackend) : LocalHandle → Prop where
  | opened {opts : OpenOptions} {now : Time} {fs : Files} {h : LocalHandle}
      (ho : (b.openFile opts now fs).1 = .ok h) : Of b h
  | renamed {h : LocalHandle} {newPath : GoString} {replaceIfExists : Bool} {fs : Files} (hh : Of b h) :
      Of b (h.rename newPath replaceIfExists fs).2.1
  | closed {h : LocalHandle} (hh : Of b h) : Of b { h with closed := true }

theorem backend_of_openAt {b : LocalBackend} {full : List GoString} {flags : FS.OpenFlags} {now : Time} {fs : Files}
    {h : LocalHandle} (ho : (b.openAt full flags now fs).1 = .ok h) : h.backend = b := by
  unfold LocalBackend.openAt at ho
  split at ho
  · cases ho
  · exact Except.ok.inj ho ▸ rfl

theorem Of.backend {b : LocalBackend} {h : LocalHandle} (hh : Of b h) : h.backend = b := by
  induction hh with
  | @opened opts now fs h ho =>
    unfold LocalBackend.openFile at ho
    split at ho
    · cases ho
    · dsimp only at ho
      split_ifs at ho
      · split at ho
        · exact backend_of_openAt ho
        · cases ho
        · exact backend_of_openAt ho
      · exact backend_of_openAt ho
  | @renamed h newPath replaceIfExists fs hh ih =>
    rw [rename_eq]
    split
    · exact ih
    · split <;> exact ih
  | closed hh ih => exact ih

end LocalHandle

end Vfs
end SmbServer
