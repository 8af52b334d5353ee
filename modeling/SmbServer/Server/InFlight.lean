/-
# I/O in flight

READ and WRITE ask the lock manager in one critical section, `checkConflict`, and call
the handle after it.  Here the two are steps of their own, and so is every critical
section of `handleLock` and of the end of an open; `handleRead_parts`, `handleWrite_parts`
and `lockElements_parts` put the handlers together again.  What else a connection does
leaves the locks alone, so a check comes with the tables its connection has by then.

A lock that is granted between the two steps of an access is not seen by it.  As long as
none is granted over the bytes of an access in flight (`Paced.clear`), every access meets
the locks as they are when the handle is called (`reach_unbarred`).
-/

import SmbServer.Server.LockTable

namespace SmbServer
namespace Server

open Wire SetLocks Go Function List Option

variable {E : Env}

/-! ### READ and WRITE in parts -/

/-- A READ or a WRITE on its way to the handle. -/
structure Access (E : Env) where
  origin : Origin
  oh : OpenHandle E
  fid : FileId
  offset : UInt64
  length : UInt64
  /-- What a WRITE writes. -/
  data : Option Bytes

namespace Access

/-- `handleRead` up to its lock check. -/
def ofRead (o : Origin) (msg : Bytes) (c : Conn E) : Option (Access E) :=
  match ReadRequest.parse msg with
  | .ok req =>
    if maxRead < req.length ∨ negativeOffset req.offset then none
    else (c.open? o.sid o.tid req.fileId).map fun oh => ⟨o, oh, req.fileId, req.offset, req.length.toUInt64, none⟩
  | _ => none

/-- `handleWrite` up to its lock check. -/
def ofWrite (o : Origin) (msg : Bytes) (c : Conn E) : Option (Access E) :=
  match WriteRequest.parse msg with
  | .ok req =>
    if maxWrite < req.length ∨ maxWrite < UInt32.ofNat req.data.length ∨ negativeOffset req.offset then none
    else if (c.tree? o.sid o.tid).any fun tr => tr.share.readOnly then none
    else (c.open? o.sid o.tid req.fileId).map fun oh =>
      ⟨o, oh, req.fileId, req.offset, UInt64.ofNat req.data.length, some req.data⟩
  | _ => none

/-- What the handler of a READ or a WRITE brings to its lock check. -/
def request (write : Bool) : Origin → Bytes → Conn E → Option (Access E) := if write then ofWrite else ofRead

/-- The lock check. -/
def passes (a : Access E) (sh : Shared E) : Bool :=
  !(sh.locks a.oh.path).checkConflict a.fid a.offset (a.offset + a.length) a.data.isSome

/-- The call of `Handle.Read` or `Handle.Write`. -/
def perform (a : Access E) (sh : Shared E) : Shared E :=
  match a.data with
  | none =>
    { sh with
      world := (E.read a.oh.h a.offset.toNat a.length.toNat sh.world).2
      trace := .call (some a.origin) (.read a.oh.h a.offset.toNat a.length.toNat) :: sh.trace }
  | some data =>
    { sh with
      world := (E.write a.oh.h a.offset.toNat data sh.world).2
      trace := .call (some a.origin) (.write a.oh.h a.offset.toNat data) :: sh.trace }

/-- The check and, where it is passed, the call. -/
def serve (sh : Shared E) : Option (Access E) → Shared E
  | none => sh
  | some a => if a.passes sh then a.perform sh else sh

/-- Another open has locked some of the bytes: exclusively, or in any mode if they are to
be written. -/
def Barred (a : Access E) (sh : Shared E) : Prop :=
  Shuts (sh.tables a.oh.path) a.fid (span a.offset a.length.toNat) a.data.isSome

end Access

/-- Without the open a handler leaves what is shared alone. -/
theorem withOpen_missing {o : Origin} {s : St E} {fid : FileId} (k : Tree E → OpenHandle E → M E UInt32)
    (h : s.c.open? o.sid o.tid fid = none) : (withOpen o fid k s).state.sh = s.sh := by
  rcases withOpen_none k h with h | h <;> rw [h] <;> rfl

/-- **READ is its check and its call.** -/
theorem handleRead_parts (o : Origin) (msg : Bytes) (s : St E) :
    (handleRead o msg s).state.sh = Access.serve s.sh (Access.ofRead o msg s.c) := by
  unfold handleRead Access.ofRead parsed
  cases ReadRequest.parse msg with
  | err e => rfl
  | panic => rfl
  | ok req =>
    dsimp only
    by_cases hbad : maxRead < req.length ∨ negativeOffset req.offset = true
    · rw [if_pos hbad, if_pos hbad]
      rfl
    rw [if_neg hbad, if_neg hbad]
    cases hoh : s.c.open? o.sid o.tid req.fileId with
    | none => exact withOpen_missing _ hoh
    | some oh =>
      obtain ⟨tr, ht, -⟩ := Conn.open?_eq_some.1 hoh
      rw [withOpen_apply _ ht hoh, bind_ok (get_apply s), map_some, Access.serve, Access.passes]
      by_cases hc : (s.sh.locks oh.path).checkConflict req.fileId req.offset (req.offset + req.length.toUInt64) false = true
      · rw [if_pos hc, if_neg (by simp [hc])]
        rfl
      · rw [if_neg hc, if_pos (by simp [hc])]
        refine (call_sh (fun r => ?_) s).trans (by simp [Access.perform])
        split
        · exact fun _ => rfl
        · split_ifs <;> exact fun _ => rfl

/-- **WRITE is its check and its call.** -/
theorem handleWrite_parts (o : Origin) (msg : Bytes) (s : St E) :
    (handleWrite o msg s).state.sh = Access.serve s.sh (Access.ofWrite o msg s.c) := by
  unfold handleWrite Access.ofWrite parsed
  cases WriteRequest.parse msg with
  | err e => rfl
  | panic => rfl
  | ok req =>
    dsimp only
    by_cases hbad : maxWrite < req.length ∨ maxWrite < UInt32.ofNat req.data.length ∨ negativeOffset req.offset = true
    · rw [if_pos hbad, if_pos hbad]
      rfl
    rw [if_neg hbad, if_neg hbad]
    cases ht : s.c.tree? o.sid o.tid with
    | none =>
      rw [withTree_none _ ht, Conn.open?, ht]
      rfl
    | some tr =>
      rw [withTree_apply _ ht, any_some]
      split_ifs
      · rfl
      cases hoh : s.c.open? o.sid o.tid req.fileId with
      | none => exact withOpen_missing _ hoh
      | some oh =>
        rw [withOpen_apply _ ht hoh, bind_ok (get_apply s), map_some, Access.serve, Access.passes]
        by_cases hc : (s.sh.locks oh.path).checkConflict req.fileId req.offset
            (req.offset + UInt64.ofNat req.data.length) true = true
        · rw [if_pos hc, if_neg (by simp [hc])]
          rfl
        · rw [if_neg hc, if_pos (by simp [hc])]
          refine call_sh (fun r => ?_) s
          cases r <;> exact fun _ => rfl

/-! ### The critical sections of LOCK -/

/-- A critical section of `handleLock`: one range is granted, or one is given up. -/
inductive LockManager.Section (fid : FileId) (m : LockManager) : LockManager → Prop where
  | lock {m' : LockManager} (l : LockElement) (exclusive : Bool) (hl : l.Admitted)
      (h : m.tryLock fid l.offset l.length exclusive = some m') : Section fid m m'
  | unlock (l : LockElement) : Section fid m (m.unlock fid l.offset l.length)

namespace LockManager

theorem release_parts (fid : FileId) (acquired : List LockElement) (m : LockManager) :
    Relation.ReflTransGen (Section fid) m (m.release fid acquired) := by
  induction acquired generalizing m with
  | nil => exact .refl
  | cons a acquired ih => exact .head (.unlock a) (ih _)

/-- **The loop of `handleLock` is a run of critical sections.** -/
theorem lockElements_parts (fid : FileId) (acquired ls : List LockElement) (m : LockManager) :
    Relation.ReflTransGen (Section fid) m (lockElements fid m acquired ls).2 := by
  induction ls generalizing m acquired with
  | nil => exact .refl
  | cons l ls ih =>
    unfold lockElements
    split_ifs with hbad hu hx hs
    · exact release_parts ..
    · exact .head (.unlock l) (ih ..)
    · cases ht : m.tryLock fid l.offset l.length true with
      | none => exact release_parts ..
      | some m' => exact .head (.lock l true (l.admitted_iff.2 hbad) ht) (ih ..)
    · cases ht : m.tryLock fid l.offset l.length false with
      | none => exact release_parts ..
      | some m' => exact .head (.lock l false (l.admitted_iff.2 hbad) ht) (ih ..)
    · exact .refl

end LockManager

/-! ### Interleavings -/

/-- What the connections share, and the accesses between their check and their call. -/
structure Paced (E : Env) where
  sh : Shared E
  doing : GoMap ConnId (Access E) := ∅

inductive Pace (E : Env) where
  /-- A READ or a WRITE passes its check. -/
  | check (o : Origin) (write : Bool) (msg : Bytes) (c : Conn E)
  /-- It calls the handle. -/
  | io (cid : ConnId)
  /-- A LOCK is granted a range. -/
  | lock (cid : ConnId) (path : GoString) (fid : FileId) (l : LockElement) (exclusive : Bool)
  | unlock (path : GoString) (fid : FileId) (l : LockElement)
  | unlockAll (path : GoString) (fid : FileId)

namespace Paced

def setLocks (S : Paced E) (path : GoString) (m : LockManager) : Paced E :=
  { S with sh := { S.sh with locks := Function.update S.sh.locks path m } }

/-- A connection in the middle of an access does nothing else. -/
def step : Pace E → Paced E → Option (Paced E)
  | .check o write msg c, S =>
    if (S.doing.lookup o.conn).isSome then none
    else ((Access.request write o msg c).filter fun a => a.passes S.sh).map fun a =>
      { S with doing := S.doing.insert o.conn a }
  | .io cid, S => (S.doing.lookup cid).map fun a => ⟨a.perform S.sh, S.doing.erase cid⟩
  | .lock cid path fid l exclusive, S =>
    if (S.doing.lookup cid).isSome ∨ ¬l.Admitted then none
    else ((S.sh.locks path).tryLock fid l.offset l.length exclusive).map (S.setLocks path)
  | .unlock path fid l, S => some (S.setLocks path ((S.sh.locks path).unlock fid l.offset l.length))
  | .unlockAll path fid, S => some (S.setLocks path ((S.sh.locks path).unlockAll fid))

/-- No access in flight reads or writes what another open has locked. -/
def Unbarred (S : Paced E) : Prop := ∀ cid a, S.doing.lookup cid = some a → ¬a.Barred S.sh

/-- **No lock is granted over an access in flight**: one on the path of such an access is
of the same open, or shared under a READ, or beside its bytes. -/
def clear (S : Paced E) : Pace E → Bool
  | .lock _ path fid l exclusive => (GoMap.values S.doing).all fun a =>
    decide (a.oh.path ≠ path) || decide (a.fid = fid) || !exclusive && a.data.isNone ||
      decide (l.offset.toNat + l.length.toNat ≤ a.offset.toNat) ||
      decide (a.offset.toNat + a.length.toNat ≤ l.offset.toNat)
  | _ => true

end Paced

/-- The server at the pace of its critical sections. -/
def pacing (w : E.World) : Transition (Paced E) (Pace E) where
  init := { sh := { world := w } }
  step := Paced.step

/-! ### What is checked stays so -/

theorem Access.ofRead_le {a : Access E} {o : Origin} {msg : Bytes} {c : Conn E} (h : ofRead o msg c = some a) :
    negativeOffset a.offset = false ∧ a.length.toNat ≤ 1048576 := by
  unfold ofRead at h
  split at h
  · split_ifs at h with hbad
    obtain ⟨oh, -, rfl⟩ := map_eq_some_iff.1 h
    rw [not_or, UInt32.not_lt, Bool.not_eq_true] at hbad
    exact ⟨hbad.2, (UInt32.toNat_toUInt64 _).trans_le (UInt32.le_iff_toNat_le.1 hbad.1)⟩
  · cases h

theorem Access.ofWrite_le {a : Access E} {o : Origin} {msg : Bytes} {c : Conn E} (h : ofWrite o msg c = some a) :
    negativeOffset a.offset = false ∧ a.length.toNat ≤ 1048576 := by
  unfold ofWrite at h
  split at h
  · split_ifs at h with hbad
    obtain ⟨oh, -, rfl⟩ := map_eq_some_iff.1 h
    rw [not_or, not_or, UInt32.not_lt, Bool.not_eq_true] at hbad
    have hle := UInt32.le_iff_toNat_le.1 hbad.1
    rw [← WriteRequest.length_data ‹_›] at hle
    exact ⟨hbad.2.2, (UInt64.toNat_ofNat_of_lt' (lt_of_le_of_lt hle (by decide))).trans_le hle⟩
  · cases h

/-- What a handler brings to its check does not wrap. -/
theorem Access.request_le {a : Access E} {write : Bool} {o : Origin} {msg : Bytes} {c : Conn E}
    (h : request write o msg c = some a) : negativeOffset a.offset = false ∧ a.length.toNat ≤ 1048576 := by
  cases write with
  | true => exact ofWrite_le h
  | false => exact ofRead_le h

namespace Paced

variable {S S' : Paced E} {l : Pace E}

/-- The manager of one path is replaced by one whose locks do not bar the accesses. -/
theorem Unbarred.setLocks {path : GoString} {m : LockManager} (hp : S.sh.Proper) (hu : S.Unbarred) (hm : m.Proper)
    (h : ∀ k ∈ m.table, k ∈ (S.sh.locks path).table ∨ ∀ cid a, S.doing.lookup cid = some a → a.oh.path = path →
      ∀ b ∈ span a.offset a.length.toNat, b ∈ k.points → k.owner ≠ a.fid →
        ¬(k.exclusive = true ∨ a.data.isSome = true)) :
    (S.setLocks path m).sh.Proper ∧ (S.setLocks path m).Unbarred := by
  refine ⟨fun p => ?_, fun cid a ha hbar => ?_⟩
  · by_cases hpath : p = path
    · subst hpath
      simpa [Paced.setLocks] using hm
    · simpa [Paced.setLocks, update_of_ne hpath] using hp p
  · obtain ⟨b, hb, k, hk, hrest⟩ := hbar
    by_cases hpath : a.oh.path = path
    · simp only [Paced.setLocks, Shared.tables, hpath, update_self] at hk
      rcases h k hk with hold | hnew
      · exact hu cid a ha ⟨b, hb, k, by rwa [Shared.tables, hpath], hrest⟩
      · exact hnew cid a ha hpath b hb hrest.1 hrest.2.1 hrest.2.2
    · simp only [Paced.setLocks, Shared.tables, update_of_ne hpath] at hk
      exact hu cid a ha ⟨b, hb, k, hk, hrest⟩

/-- **A step that meets `clear` bars no access in flight.** -/
theorem step_unbarred (hp : S.sh.Proper) (hu : S.Unbarred) (hc : S.clear l = true) (h : step l S = some S') :
    S'.sh.Proper ∧ S'.Unbarred := by
  cases l with
  | check o write msg c =>
    simp only [step] at h
    split_ifs at h
    obtain ⟨a, ha, rfl⟩ := map_eq_some_iff.1 h
    obtain ⟨ha, hpass⟩ := filter_eq_some_iff.1 ha
    refine ⟨hp, fun cid a' ha' hbar => ?_⟩
    rw [GoMap.lookup_insert'] at ha'
    split_ifs at ha'
    · cases ha'
      obtain ⟨ho, hle⟩ := Access.request_le ha
      obtain ⟨b, hb, -⟩ := id hbar
      have hb := Set.mem_Ico.1 hb
      have hconf := (LockManager.checkConflict_span a.fid (hp a.oh.path) ho hle (by omega) _).2 hbar
      simp [Access.passes, hconf] at hpass
    · exact hu cid a' ha' hbar
  | io cid =>
    obtain ⟨a, -, rfl⟩ := map_eq_some_iff.1 h
    have hlocks : (a.perform S.sh).locks = S.sh.locks := by
      unfold Access.perform
      split <;> rfl
    refine ⟨fun p => by rw [hlocks]; exact hp p, fun cid' a' ha' hbar => ?_⟩
    rw [GoMap.lookup_erase'] at ha'
    split_ifs at ha'
    rw [Access.Barred, Shared.tables_congr hlocks] at hbar
    exact hu cid' a' ha' hbar
  | lock cid path fid l exclusive =>
    simp only [step] at h
    split_ifs at h with hbad
    obtain ⟨m, hm, rfl⟩ := map_eq_some_iff.1 h
    obtain ⟨-, hl⟩ := not_or.1 hbad
    rcases LockManager.tryLock_table fid (hp path) (not_not.1 hl) exclusive with ⟨ht, -⟩ | ⟨m', ht, hm', -, htable⟩
    · cases ht.symm.trans hm
    cases ht.symm.trans hm
    refine hu.setLocks hp hm' fun k hk => ?_
    rw [htable] at hk
    refine (mem_append.1 hk).imp id fun hk cid' a ha hpath b hb hb' hne hx => ?_
    obtain rfl := mem_singleton.1 hk
    have hclear := List.all_eq_true.1 hc a (GoMap.mem_values.2 ⟨cid', ha⟩)
    have hb := Set.mem_Ico.1 hb
    have hb' := Set.mem_Ico.1 hb'
    simp only [Bool.or_eq_true, decide_eq_true_eq, Bool.and_eq_true, Bool.not_eq_true', hpath, ne_eq, not_true_eq_false,
      false_or] at hclear
    rcases hclear with ((rfl | ⟨hx1, hx2⟩) | h) | h
    · exact hne rfl
    · rcases hx with hx | hx
      · exact Bool.false_ne_true (hx1.symm.trans hx)
      · rw [isNone_iff_eq_none.1 hx2] at hx
        cases hx
    · omega
    · omega
  | unlock path fid l =>
    cases h
    exact hu.setLocks hp ((hp path).unlock fid _ _) fun k hk => .inl (map_subset _ eraseP_subset hk)
  | unlockAll path fid =>
    cases h
    exact hu.setLocks hp (fun r hr => hp path r (mem_of_mem_filter hr)) fun k hk =>
      .inl (map_subset _ (List.filter_subset_self _) hk)

end Paced

/-- **Locks are respected where none is granted over an access in flight**: in every
interleaving, whenever a handle is to be read or written. -/
theorem reach_unbarred (w : E.World) (S : Paced E) (hS : (pacing w).Reach (fun S l => S.clear l = true) S) :
    S.Unbarred := by
  have h : S.sh.Proper ∧ S.Unbarred := by
    refine hS.invariant (I := fun S => S.sh.Proper ∧ S.Unbarred) ⟨fun p r hr => (nomatch hr), fun cid a h => ?_⟩ ?_
    · cases h
    · exact fun S l S' hI hC hs => Paced.step_unbarred hI.1 hI.2 hC hs
  exact h.2

/-! ### A lock in between -/

/-- A connection on whose tree `s` the file `a` is open. -/
def openConn : Conn guestEnv where
  id := 0
  sessions := .singleton 1
    { auth := ()
      trees := .singleton 0 ⟨⟨[0x73], (), false⟩, .singleton (makeFileID 1 0 1)
        { h := (0 : ℕ), fileId := makeFileID 1 0 1, path := [0x61], deletePending := false }, 1⟩ }
  preauthHash := []

/-- A WRITE of one byte at the start of the file. -/
def writeFrame (sid : UInt64) (tid : UInt32) (fid : FileId) : Bytes :=
  Header.encode { command := cmdWrite, sessionId := sid, treeId := tid } ++ put16 49 ++ put16 112 ++ put32 1 ++
    put64 0 ++ fid.1 ++ zeros 16 ++ [0x78]

/-- The WRITE passes its check, and session 2 is granted a lock on one byte. -/
def lockBetween (offset : UInt64) : List (Pace guestEnv) :=
  [.check ⟨0, 1, 0, cmdWrite⟩ true (writeFrame 1 0 (makeFileID 1 0 1)) openConn,
    .lock 1 [0x61] (makeFileID 2 0 1) ⟨offset, 1, lockFlagExclusiveLock⟩ true]

/-- The byte at `offset` is locked for session 2 while the WRITE is in flight. -/
def lockedAt (offset : UInt64) (S : Paced guestEnv) : Bool :=
  (S.doing.lookup 0).any (fun a => decide (a.oh.path = [0x61] ∧ a.fid = makeFileID 1 0 1 ∧ a.offset = 0 ∧ a.length = 1) &&
    a.data.isSome) && decide ((S.sh.locks [0x61]).ranges = [⟨makeFileID 2 0 1, offset, offset + 1, true⟩])

/-- A lock beside the bytes of the WRITE does not stand in its way. -/
theorem reach_unbarred_beside : ∃ S, (pacing (E := guestEnv) (0 : ℕ)).Reach (fun S l => S.clear l = true) S ∧
    lockedAt 1 S = true ∧ S.Unbarred := by
  obtain ⟨S, hS, hl⟩ := Transition.Reach.of_run (T := pacing (E := guestEnv) (0 : ℕ))
    (C := fun S l => S.clear l = true) (f := lockedAt 1) (lockBetween 1) (by decide +kernel) (by decide +kernel)
  exact ⟨S, hS, hl, reach_unbarred (0 : ℕ) S hS⟩

/-- **A WRITE goes to a byte that another open has locked exclusively**, if the lock is
granted between its check and its call. -/
theorem lock_between_check_and_write :
    ¬∀ (E : Env) (w : E.World) (S : Paced E), (pacing w).Reach (fun _ _ => True) S → S.Unbarred := by
  intro h
  obtain ⟨S, hS, hl⟩ := Transition.Reach.of_run (T := pacing (E := guestEnv) (0 : ℕ)) (C := fun _ _ => True)
    (f := lockedAt 0) (lockBetween 0) (by decide +kernel) (by decide +kernel)
  obtain ⟨hdoing, hranges⟩ := Bool.and_eq_true_iff.1 hl
  obtain ⟨a, ha, hdoing⟩ := (Option.any_eq_true ..).1 hdoing
  simp only [Bool.and_eq_true, decide_eq_true_eq] at hdoing hranges
  obtain ⟨⟨hpath, hfid, hoff, hlen⟩, hdata⟩ := hdoing
  refine h guestEnv (0 : ℕ) S hS 0 a ha ⟨0, ?_, LockRange.lock ⟨makeFileID 2 0 1, 0, 1, true⟩, ?_, ?_, ?_, .inl rfl⟩
  · simp [span, hoff, hlen]
  · rw [Shared.tables, hpath, LockManager.table, hranges]
    exact mem_singleton.2 rfl
  · simp [LockRange.lock]
  · rw [hfid]
    decide +kernel

end Server
end SmbServer
