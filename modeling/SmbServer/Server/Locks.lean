/-
# Byte-range locks and file ids

`smb/server/lock_ioctl.go`, the lock manager: for each path an unordered list of
half-open ranges of 64-bit offsets, each with the open that holds it and its
mode.  `tryLock` refuses a range that conflicts and otherwise adds it, `unlock`
removes the first range that matches exactly, `unlockAll` those of one open;
`checkConflict` is the test READ and WRITE make.  `lockElements` is the loop of
`handleLock` over the elements of one request, with its undoing of what it
already took.

`tryLock` is passed a `failImmediately` flag it never looks at; it is left out.
A path without a manager reads as an empty one, which is what `manager` inserts.

`makeFileID` is from `smb/server/status.go`.
-/

import SmbServer.Wire.Requests
import SmbServer.Wire.Text

namespace SmbServer

/-- The `[16]byte` by which a client names an open. -/
abbrev FileId := Arr 16

namespace Server

/-- `makeFileID`: session, tree and the low 32 bits of the tree's counter. -/
def makeFileID (sessID : UInt64) (treeID : UInt32) (counter : UInt64) : FileId :=
  ⟨put64 sessID ++ put32 treeID ++ put32 counter.toUInt32, by simp⟩

/-- A FileId shows its session, its tree and the low bits of its counter. -/
theorem makeFileID_inj {sessID sessID' : UInt64} {treeID treeID' : UInt32} {n n' : UInt64}
    (h : makeFileID sessID treeID n = makeFileID sessID' treeID' n') :
    sessID = sessID' ∧ treeID = treeID' ∧ n.toUInt32 = n'.toUInt32 := by
  have hb := congrArg Subtype.val h
  simp only [makeFileID] at hb
  obtain ⟨hst, hn⟩ := List.append_inj hb (by simp)
  obtain ⟨hs, ht⟩ := List.append_inj hst (by simp)
  exact ⟨put64_inj hs, put32_inj ht, put32_inj hn⟩

/-- `lockRange`: the bytes from `start` up to but not including `stop`. -/
structure LockRange where
  fileId : FileId
  start : UInt64
  stop : UInt64
  exclusive : Bool
  deriving DecidableEq

/-- `lockManager`. -/
structure LockManager where
  ranges : List LockRange := []

/-- The test of all three conflict checks: `start < r.end && r.start < end`. -/
def LockRange.overlaps (r : LockRange) (start stop : UInt64) : Bool :=
  decide (start < r.stop) && decide (r.start < stop)

namespace LockManager

/-- `conflicts`: what keeps `tryLock` from granting a range. -/
def conflicts (m : LockManager) (fid : FileId) (start stop : UInt64) (exclusive : Bool) : Bool :=
  m.ranges.any fun r =>
    r.overlaps start stop && (r.exclusive || exclusive) &&
      (decide (r.fileId ≠ fid) || r.exclusive != exclusive)

/-- `checkConflict`: what keeps a READ or a WRITE from its bytes. -/
def checkConflict (m : LockManager) (fid : FileId) (start stop : UInt64) (write : Bool) : Bool :=
  m.ranges.any fun r =>
    r.overlaps start stop && decide (r.fileId ≠ fid) && (r.exclusive || write)

/-- `tryLock`; `none` is a refusal. -/
def tryLock (m : LockManager) (fid : FileId) (start length : UInt64) (exclusive : Bool) :
    Option LockManager :=
  let stop := start + length
  if m.conflicts fid start stop exclusive then none
  else some ⟨m.ranges ++ [{ fileId := fid, start, stop, exclusive }]⟩

/-- `unlock`: the first range of this open with exactly these bounds goes. -/
def unlock (m : LockManager) (fid : FileId) (start length : UInt64) : LockManager :=
  ⟨m.ranges.eraseP fun r =>
    decide (r.fileId = fid) && decide (r.start = start) && decide (r.stop = start + length)⟩

/-- `unlockAll`. -/
def unlockAll (m : LockManager) (fid : FileId) : LockManager :=
  ⟨m.ranges.filter fun r => decide (r.fileId ≠ fid)⟩

end LockManager

def lockFlagSharedLock : UInt32 := 0x00000001
def lockFlagExclusiveLock : UInt32 := 0x00000002
def lockFlagUnlock : UInt32 := 0x00000004

/-- The undo loop of `handleLock` over the elements acquired so far. -/
def LockManager.release (m : LockManager) (fid : FileId) : List Wire.LockElement → LockManager
  | [] => m
  | l :: ls => (m.unlock fid l.offset l.length).release fid ls

/-- The loop of `handleLock`: its status and the manager it leaves.  `acquired`
are the elements locked so far. -/
def LockManager.lockElements (fid : FileId) :
    LockManager → List Wire.LockElement → List Wire.LockElement → UInt32 × LockManager
  | m, _, [] => (Wire.statusSuccess, m)
  | m, acquired, l :: ls =>
    if l.length = 0 ∨ l.offset + l.length < l.offset then
      (Wire.statusInvalidParameter, m.release fid acquired)
    else if l.flags &&& lockFlagUnlock ≠ 0 then
      lockElements fid (m.unlock fid l.offset l.length) acquired ls
    else if l.flags &&& lockFlagExclusiveLock ≠ 0 then
      match m.tryLock fid l.offset l.length true with
      | none => (Wire.statusLockConflict, m.release fid acquired)
      | some m' => lockElements fid m' (acquired ++ [l]) ls
    else if l.flags &&& lockFlagSharedLock ≠ 0 then
      match m.tryLock fid l.offset l.length false with
      | none => (Wire.statusLockConflict, m.release fid acquired)
      | some m' => lockElements fid m' (acquired ++ [l]) ls
    else
      -- An element with none of the three flags leaves what was acquired.
      (Wire.statusInvalidParameter, m)

end Server
end SmbServer
