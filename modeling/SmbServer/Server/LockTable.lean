/-
# The lock managers by their bytes

`LockManager.table` reads a list of 64-bit ranges as a table of locks on sets of
bytes.  An element that `handleLock` accepts is not empty and does not wrap, so its
range is exactly `[Offset, Offset+Length)` (`LockElement.Admitted`); that every range
in a manager is of this kind (`Proper`) makes the three overlap tests agree with the
bytes.  With that, `lockElements` is `SetLocks.perform` and the end of an open is
`SetLocks.release`, so all managers of a server together move by `SetLocks.Step`.
-/

import SmbServer.Lib.SetLocks
import SmbServer.Server.Frames
import Mathlib.Order.Interval.Set.LinearOrder

namespace SmbServer
open Function List

namespace Wire.LockElement

open SetLocks

/-- The element is not empty and ends below `2^64`. -/
def Admitted (l : LockElement) : Prop :=
  0 < l.length.toNat ∧ l.offset.toNat + l.length.toNat < 2 ^ 64

instance (l : LockElement) : Decidable l.Admitted :=
  inferInstanceAs (Decidable (0 < l.length.toNat ∧ l.offset.toNat + l.length.toNat < 2 ^ 64))

/-- The bytes an element is about. -/
def bytes (l : LockElement) : Set ℕ := Set.Ico l.offset.toNat (l.offset.toNat + l.length.toNat)

/-- What an element demands.  One without any of the three flags ends the request, but
does not give back what was locked before it. -/
def demand (l : LockElement) : Demand ℕ :=
  if ¬l.Admitted then .malformed true
  else if l.flags &&& Server.lockFlagUnlock ≠ 0 then .unlock l.bytes
  else if l.flags &&& Server.lockFlagExclusiveLock ≠ 0 then .lock l.bytes true
  else if l.flags &&& Server.lockFlagSharedLock ≠ 0 then .lock l.bytes false
  else .malformed false

/-- **The test of `handleLock` lets through what does not wrap.** -/
theorem admitted_iff (l : LockElement) :
    l.Admitted ↔ ¬(l.length = 0 ∨ l.offset + l.length < l.offset) := by
  have h1 := l.offset.toNat_lt
  have h2 := l.length.toNat_lt
  rw [Admitted, not_or, ← UInt64.toNat_inj, UInt64.lt_iff_toNat_lt, UInt64.toNat_add, UInt64.toNat_zero]
  omega

theorem Admitted.stop {l : LockElement} (h : l.Admitted) :
    (l.offset + l.length).toNat = l.offset.toNat + l.length.toNat := by
  rw [UInt64.toNat_add, Nat.mod_eq_of_lt h.2]

end Wire.LockElement

namespace Server

open Wire SetLocks Shared

variable {E : Env} {srv : Config E}

/-- The status of a LOCK request. -/
def verdictStatus : Verdict → UInt32
  | .granted => statusSuccess
  | .malformed => statusInvalidParameter
  | .refused => statusLockConflict

/-- A range as a lock on its bytes. -/
def LockRange.lock (r : LockRange) : Lock FileId ℕ :=
  ⟨r.fileId, Set.Ico r.start.toNat r.stop.toNat, r.exclusive⟩

namespace LockManager

/-- The locks of a manager. -/
def table (m : LockManager) : Table FileId ℕ := m.ranges.map LockRange.lock

/-- No range is empty. -/
def Proper (m : LockManager) : Prop := ∀ r ∈ m.ranges, r.start.toNat < r.stop.toNat

end LockManager

/-! ### The overlap test -/

/-- Two intervals that are not empty overlap if each starts before the other ends. -/
theorem overlap_iff {a b c d : ℕ} (hab : a < b) (hcd : c < d) :
    a < d ∧ c < b ↔ ∃ x ∈ Set.Ico a b, x ∈ Set.Ico c d := by
  simp only [Set.mem_Ico]
  constructor
  · intro h
    exact ⟨max a c, by omega, by omega⟩
  · rintro ⟨x, hx, hx'⟩
    omega

theorem LockRange.overlaps_iff {r : LockRange} {start stop : UInt64}
    (hr : r.start.toNat < r.stop.toNat) (h : start.toNat < stop.toNat) :
    r.overlaps start stop = true ↔
      ∃ b ∈ Set.Ico start.toNat stop.toNat, b ∈ r.lock.points := by
  rw [LockRange.overlaps, Bool.and_eq_true, decide_eq_true_eq, decide_eq_true_eq,
    UInt64.lt_iff_toNat_lt, UInt64.lt_iff_toNat_lt]
  exact overlap_iff h hr

namespace LockManager

variable {m : LockManager} {fid : FileId} {start stop : UInt64}

/-- **What keeps `tryLock` from granting a range.** -/
theorem conflicts_iff (fid : FileId) (hm : m.Proper) (h : start.toNat < stop.toNat) (exclusive : Bool) :
    m.conflicts fid start stop exclusive = true ↔
      Refuses m.table ⟨fid, Set.Ico start.toNat stop.toNat, exclusive⟩ := by
  have hbars : ∀ r : LockRange, ((r.exclusive || exclusive) &&
      (decide (r.fileId ≠ fid) || r.exclusive != exclusive)) = true ↔ r.lock.Bars fid exclusive := by
    intro r
    unfold Lock.Bars LockRange.lock
    by_cases hf : r.fileId = fid <;> cases r.exclusive <;> cases exclusive <;> simp [hf]
  simp only [conflicts, List.any_eq_true, Refuses, table, List.mem_map, Bool.and_assoc]
  constructor
  · rintro ⟨r, hr, hc⟩
    obtain ⟨ho, hb⟩ := Bool.and_eq_true_iff.1 hc
    obtain ⟨b, hb1, hb2⟩ := (LockRange.overlaps_iff (hm r hr) h).1 ho
    exact ⟨b, hb1, r.lock, ⟨r, hr, rfl⟩, hb2, (hbars r).1 hb⟩
  · rintro ⟨b, hb1, _, ⟨r, hr, rfl⟩, hb2, hb⟩
    exact ⟨r, hr, Bool.and_eq_true_iff.2
      ⟨(LockRange.overlaps_iff (hm r hr) h).2 ⟨b, hb1, hb2⟩, (hbars r).2 hb⟩⟩

/-- **What keeps a READ or a WRITE from its bytes.** -/
theorem checkConflict_iff (hm : m.Proper) (h : start.toNat < stop.toNat) (write : Bool) :
    m.checkConflict fid start stop write = true ↔
      Shuts m.table fid (Set.Ico start.toNat stop.toNat) write := by
  simp only [checkConflict, List.any_eq_true, Shuts, table, List.mem_map, Bool.and_eq_true,
    Bool.or_eq_true, decide_eq_true_eq]
  constructor
  · rintro ⟨r, hr, ⟨ho, hf⟩, hx⟩
    obtain ⟨b, hb1, hb2⟩ := (LockRange.overlaps_iff (hm r hr) h).1 ho
    exact ⟨b, hb1, r.lock, ⟨r, hr, rfl⟩, hb2, hf, hx⟩
  · rintro ⟨b, hb1, _, ⟨r, hr, rfl⟩, hb2, hf, hx⟩
    exact ⟨r, hr, ⟨(LockRange.overlaps_iff (hm r hr) h).2 ⟨b, hb1, hb2⟩, hf⟩, hx⟩

/-! ### The operations -/

variable {l : LockElement}

theorem unlock_table (hm : m.Proper) (hl : l.Admitted) :
    (m.unlock fid l.offset l.length).table = SetLocks.unlock fid m.table l.bytes := by
  refine (unlock_map fun r hr => ?_).symm
  simp only [Bool.and_eq_true, decide_eq_true_eq, and_assoc, LockRange.lock, LockElement.bytes]
  rw [Set.Ico_eq_Ico_iff (.inl (hm r hr)), ← UInt64.toNat_inj, ← UInt64.toNat_inj (a := r.stop), hl.stop]

theorem Proper.unlock (hm : m.Proper) (fid : FileId) (start length : UInt64) :
    (m.unlock fid start length).Proper := fun r hr => hm r (mem_of_mem_eraseP hr)

theorem tryLock_table (fid : FileId) (hm : m.Proper) (hl : l.Admitted) (exclusive : Bool) :
    (m.tryLock fid l.offset l.length exclusive = none ∧
        Refuses m.table ⟨fid, l.bytes, exclusive⟩) ∨
      ∃ m', m.tryLock fid l.offset l.length exclusive = some m' ∧ m'.Proper ∧
        ¬Refuses m.table ⟨fid, l.bytes, exclusive⟩ ∧
        m'.table = m.table ++ [⟨fid, l.bytes, exclusive⟩] := by
  have hlt : l.offset.toNat < (l.offset + l.length).toNat := by
    rw [hl.stop]
    exact Nat.lt_add_of_pos_right hl.1
  have hiff := conflicts_iff fid hm hlt exclusive
  rw [hl.stop] at hiff
  unfold tryLock
  by_cases hc : m.conflicts fid l.offset (l.offset + l.length) exclusive = true
  · exact .inl ⟨if_pos hc, hiff.1 hc⟩
  · refine .inr ⟨_, if_neg hc, fun r hr => ?_, fun h => hc (hiff.2 h), ?_⟩
    · rcases mem_append.1 hr with hr | hr
      · exact hm r hr
      · obtain rfl := mem_singleton.1 hr
        exact hlt
    · simp only [table, map_append, map_singleton, LockRange.lock, hl.stop]
      rfl

theorem unlockAll_table (m : LockManager) (fid : FileId) :
    (m.unlockAll fid).table = SetLocks.release fid m.table :=
  (release_map fun r _ => by rw [decide_eq_true_eq]; rfl).symm

theorem release_table (fid : FileId) {acquired : List LockElement} (hm : m.Proper)
    (ha : ∀ a ∈ acquired, a.Admitted) : (m.release fid acquired).Proper ∧
      (m.release fid acquired).table =
        (acquired.map LockElement.bytes).foldl (SetLocks.unlock fid) m.table := by
  induction acquired generalizing m with
  | nil => exact ⟨hm, rfl⟩
  | cons a acquired ih =>
    have hrest := ih (hm.unlock fid a.offset a.length) fun a' h => ha a' (mem_cons_of_mem _ h)
    refine ⟨hrest.1, ?_⟩
    rw [map_cons, foldl_cons, ← unlock_table hm (ha a (mem_cons_self ..))]
    exact hrest.2

/-- `r` is what comes of performing the demands of the elements. -/
def Performs (fid : FileId) (m : LockManager) (acquired ls : List LockElement)
    (r : UInt32 × LockManager) : Prop :=
  let p := perform fid m.table (acquired.map LockElement.bytes) (ls.map LockElement.demand)
  r.1 = verdictStatus p.1 ∧ r.2.table = p.2 ∧ r.2.Proper

theorem performs_lock {acquired ls : List LockElement} {exclusive : Bool} (hm : m.Proper)
    (ha : ∀ a ∈ acquired, a.Admitted) (hl : l.Admitted) (hd : l.demand = .lock l.bytes exclusive)
    (hrest : ∀ m' : LockManager, m'.Proper → Performs fid m' (acquired ++ [l]) ls
      (lockElements fid m' (acquired ++ [l]) ls)) :
    Performs fid m acquired (l :: ls) (match m.tryLock fid l.offset l.length exclusive with
      | none => (statusLockConflict, m.release fid acquired)
      | some m' => lockElements fid m' (acquired ++ [l]) ls) := by
  unfold Performs
  rw [map_cons, hd, perform]
  rcases tryLock_table fid hm hl exclusive with ⟨ht, hr⟩ | ⟨m', ht, hm', hr, htable⟩
  · have hundo := release_table fid hm ha
    rw [ht, if_pos hr]
    exact ⟨rfl, hundo.2, hundo.1⟩
  · have h := hrest m' hm'
    rw [Performs, map_append, map_singleton, htable] at h
    rw [ht, if_neg hr]
    exact h

/-- **The loop of `handleLock` performs the demands of its elements.** -/
theorem lockElements_performs (fid : FileId) (hm : m.Proper) {acquired : List LockElement}
    (ha : ∀ a ∈ acquired, a.Admitted) (ls : List LockElement) :
    Performs fid m acquired ls (lockElements fid m acquired ls) := by
  induction ls generalizing m acquired with
  | nil => exact ⟨rfl, rfl, hm⟩
  | cons l ls ih =>
    by_cases hl : l.Admitted
    swap
    · -- The element is empty or wraps.
      have hbad : l.length = 0 ∨ l.offset + l.length < l.offset := by
        by_contra h
        exact hl (l.admitted_iff.2 h)
      have hd : l.demand = .malformed true := if_pos hl
      have hundo := release_table fid hm ha
      simp only [Performs, lockElements, if_pos hbad, map_cons, hd, perform, if_true]
      exact ⟨rfl, hundo.2, hundo.1⟩
    have hok := l.admitted_iff.1 hl
    have htake : ∀ a ∈ acquired ++ [l], a.Admitted := by
      intro a h
      rcases mem_append.1 h with h | h
      · exact ha a h
      · exact mem_singleton.1 h ▸ hl
    unfold lockElements
    rw [if_neg hok]
    by_cases hu : l.flags &&& lockFlagUnlock ≠ 0
    · have hd : l.demand = .unlock l.bytes := by
        simp only [LockElement.demand, not_not.2 hl, if_false, if_pos hu]
      have hrest := ih (hm.unlock fid l.offset l.length) ha
      rw [Performs, unlock_table hm hl] at hrest
      rw [if_pos hu, Performs, map_cons, hd, perform]
      exact hrest
    rw [if_neg hu]
    by_cases hx : l.flags &&& lockFlagExclusiveLock ≠ 0
    · rw [if_pos hx]
      refine performs_lock hm ha hl ?_ fun m' hm' => ih hm' htake
      simp only [LockElement.demand, not_not.2 hl, if_false, if_neg hu, if_pos hx]
    rw [if_neg hx]
    by_cases hs : l.flags &&& lockFlagSharedLock ≠ 0
    · rw [if_pos hs]
      refine performs_lock hm ha hl ?_ fun m' hm' => ih hm' htake
      simp only [LockElement.demand, not_not.2 hl, if_false, if_neg hu, if_neg hx, if_pos hs]
    · have hd : l.demand = .malformed false := by
        simp only [LockElement.demand, not_not.2 hl, if_false, if_neg hu, if_neg hx, if_neg hs]
      rw [if_neg hs, Performs, map_cons, hd, perform]
      exact ⟨rfl, rfl, hm⟩

end LockManager

/-! ### All managers of a server -/

/-- The lock tables of a server, one for each path. -/
def Shared.tables (sh : Shared E) : GoString → Table FileId ℕ := fun p => (sh.locks p).table

/-- No manager has an empty range. -/
def Shared.Proper (sh : Shared E) : Prop := ∀ p, (sh.locks p).Proper

/-- What is proper stays so, and the tables move as tables of locks on sets do. -/
def Refines (sh sh' : Shared E) : Prop :=
  sh.Proper → sh'.Proper ∧ Relation.ReflTransGen Step sh.tables sh'.tables

theorem Shared.tables_congr {sh sh' : Shared E} (h : sh'.locks = sh.locks) :
    sh'.tables = sh.tables := by
  unfold Shared.tables
  rw [h]

theorem Shared.tables_update {sh sh' : Shared E} {path : GoString} {m : LockManager}
    (h : sh'.locks = Function.update sh.locks path m) :
    sh'.tables = Function.update sh.tables path m.table := by
  funext p
  by_cases hpath : p = path
  · subst hpath; simp [Shared.tables, h]
  · simp [Shared.tables, h, update_of_ne hpath]

namespace Refines

variable {sh sh' sh'' : Shared E}

theorem ofEq (h : sh'.locks = sh.locks) : Refines sh sh' := fun hp =>
  ⟨fun p => h ▸ hp p, by rw [tables_congr h]⟩

theorem trans (h : Refines sh sh') (h' : Refines sh' sh'') : Refines sh sh'' := fun hp =>
  ⟨(h' (h hp).1).1, (h hp).2.trans (h' (h hp).1).2⟩

theorem update {path : GoString} {m : LockManager}
    (h : sh'.locks = Function.update sh.locks path m)
    (hm : sh.Proper → m.Proper ∧ Step sh.tables (Function.update sh.tables path m.table)) :
    Refines sh sh' := by
  intro hp
  obtain ⟨hproper, hstep⟩ := hm hp
  refine ⟨fun p => ?_, by rw [tables_update h]; exact .single hstep⟩
  by_cases hpath : p = path
  · subst hpath; simpa [h] using hproper
  · simpa [h, update_of_ne hpath] using hp p

end Refines

theorem Shared.Ends.refines {origin : Option Origin} {l : List (OpenHandle E)} {sh sh' : Shared E}
    (h : sh.Ends origin l sh') : Refines sh sh' := by
  intro hp
  refine ⟨fun p r hr => hp p r (mem_of_mem_filter (h.locks p ▸ hr)), ?_⟩
  have hrun := Step.release_run sh.tables (l.map fun oh => (oh.path, oh.fileId))
  refine cast (congrArg _ (funext fun p => ?_)) hrun
  simp only [Shared.tables, LockManager.table, h.locks, List.filter_map]
  refine congrArg _ (filter_congr fun r _ => ?_)
  rw [comp_apply, decide_eq_decide]
  simp [LockRange.lock]

/-- **A handler changes the locks as a request or the end of opens does.** -/
theorem Effect.refines {o : Origin} {msg : Bytes} {s s' : St E} (he : Effect srv o msg s s') :
    Refines s.sh s'.sh := by
  cases he with
  | lock req oh hcmd hreq h =>
    refine .update rfl fun hp => ?_
    obtain ⟨-, htable, hproper⟩ :=
      LockManager.lockElements_performs req.fileId (hp oh.path) (forall_mem_nil _) req.locks
    refine ⟨hproper, ?_⟩
    rw [htable]
    exact .request oh.path req.fileId (req.locks.map LockElement.demand)
  | endOpen req oh hcmd hreq h =>
    refine .update (m := (s.sh.locks oh.path).unlockAll req.fileId) rfl fun hp => ?_
    refine ⟨fun r hr => hp oh.path r (mem_of_mem_filter hr), ?_⟩
    rw [LockManager.unlockAll_table]
    exact .release oh.path req.fileId
  | create tr req hd r _ hcmd hreq htr hopen hs =>
    simp only [registerOpen, Outcome.ok.injEq] at hs
    obtain ⟨-, rfl⟩ := hs
    exact .ofEq (s.sh.requestOplock_locks _ _)
  | treeDisconnect s1 hcmd h0 hc =>
    obtain ⟨l, -, hends⟩ := hc.ends
    exact hends.refines
  | logoff s1 hcmd h0 hc =>
    obtain ⟨l, -, hends⟩ := hc.ends
    exact hends.refines
  | _ => exact .ofEq rfl

theorem Change.refines {k : Option (Command E)} {s s' : St E} (h : Change srv k s s') :
    Refines s.sh s'.sh := by
  cases h with
  | aside ha => exact .ofEq ha.locks
  | exec cmd hk hf hs => exact .ofEq rfl
  | effect cmd hk hf he => exact he.refines

theorem Change.refines_run {k : Option (Command E)} {s s' : St E}
    (h : Relation.ReflTransGen (Change srv k) s s') : Refines s.sh s'.sh := by
  induction h with
  | refl => exact .ofEq rfl
  | tail _ hst ih => exact ih.trans hst.refines

/-- **Every transition of the server moves the locks by steps of `SetLocks`.** -/
theorem Sys.step_refines {S S' : Sys E} {l : Label} (hb : Base S) (h : S.step srv l = some S') :
    Refines S.sh S'.sh := by
  cases Sys.step_moved h with
  | accept => exact .ofEq rfl
  | aside hc ha => exact .ofEq ha.locks
  | sub hc hlp hrun => exact Change.refines_run (hrun (hb _ _ hc).2.2)
  | close hc hcl =>
    obtain ⟨l, -, hends⟩ := hcl.ends
    exact hends.refines

/-- The managers are proper, and exclusion holds, in every state reached. -/
theorem reach_proper {C : Sys E → Label → Prop} {w : E.World} {S : Sys E}
    (hS : (system srv w).Reach C S) : S.sh.Proper ∧ ∀ p, Exclusion (S.sh.tables p) := by
  induction hS with
  | init => exact ⟨fun p r hr => (nomatch hr), fun p => .nil⟩
  | step hS hC hs ih =>
    obtain ⟨hproper, hrun⟩ := Sys.step_refines (reach_base hS) hs ih.1
    exact ⟨hproper, Step.exclusion_run hrun ih.2⟩

/-! ### The handlers -/

/-- The bytes a READ or a WRITE is about. -/
def span (offset : UInt64) (n : ℕ) : Set ℕ := Set.Ico offset.toNat (offset.toNat + n)

/-- An offset and a length that pass the checks of READ and WRITE do not wrap. -/
theorem toNat_span {offset length : UInt64} (ho : negativeOffset offset = false)
    (hl : length.toNat ≤ 1048576) :
    (offset + length).toNat = offset.toNat + length.toNat := by
  have h : offset.toNat < 2 ^ 63 := by simpa [negativeOffset] using ho
  rw [UInt64.toNat_add]
  omega

theorem LockManager.checkConflict_span {m : LockManager} (fid : FileId) {offset length : UInt64}
    (hm : m.Proper) (ho : negativeOffset offset = false) (hl : length.toNat ≤ 1048576)
    (hpos : 0 < length.toNat) (write : Bool) :
    m.checkConflict fid offset (offset + length) write = true ↔
      Shuts m.table fid (span offset length.toNat) write := by
  have hstop := toNat_span ho hl
  rw [checkConflict_iff hm (by omega), hstop]
  rfl

/-- A READ of some bytes passes the lock check unless another open has locked one of them
exclusively. -/
def ReadsByBytes (sh : Shared E) : Prop :=
  ∀ (s : St E) (o : Origin) (msg : Bytes) (req : ReadRequest) (tr : Tree E) (oh : OpenHandle E),
    s.sh.locks = sh.locks → ReadRequest.parse msg = .ok req → req.length ≤ maxRead →
    negativeOffset req.offset = false → 0 < req.length.toNat → s.c.tree? o.sid o.tid = some tr →
    s.c.open? o.sid o.tid req.fileId = some oh →
    (req.offset + req.length.toUInt64).toNat = req.offset.toNat + req.length.toNat ∧
    (Shuts (sh.tables oh.path) req.fileId (span req.offset req.length.toNat) false →
      handleRead o msg s = errBody statusLockConflict s) ∧
    (¬Shuts (sh.tables oh.path) req.fileId (span req.offset req.length.toNat) false →
      (handleRead o msg s).state.sh.trace =
        .call (some o) (.read oh.h req.offset.toNat req.length.toNat) :: s.sh.trace)

/-- A WRITE of some bytes passes the lock check unless another open has locked one of
them. -/
def WritesByBytes (sh : Shared E) : Prop :=
  ∀ (s : St E) (o : Origin) (msg : Bytes) (req : WriteRequest) (tr : Tree E) (oh : OpenHandle E),
    s.sh.locks = sh.locks → WriteRequest.parse msg = .ok req → req.length ≤ maxWrite →
    negativeOffset req.offset = false → 0 < req.data.length → s.c.tree? o.sid o.tid = some tr →
    tr.share.readOnly = false → s.c.open? o.sid o.tid req.fileId = some oh →
    (req.offset + UInt64.ofNat req.data.length).toNat = req.offset.toNat + req.data.length ∧
    (Shuts (sh.tables oh.path) req.fileId (span req.offset req.data.length) true →
      handleWrite o msg s = errBody statusLockConflict s) ∧
    (¬Shuts (sh.tables oh.path) req.fileId (span req.offset req.data.length) true →
      (handleWrite o msg s).state.sh.trace =
        .call (some o) (.write oh.h req.offset.toNat req.data) :: s.sh.trace)

/-- A LOCK request performs the demands of its elements, and a single element is refused
just where its bytes are. -/
def LocksByBytes (sh : Shared E) : Prop :=
  (∀ (s : St E) (o : Origin) (msg : Bytes) (req : LockRequest) (tr : Tree E) (oh : OpenHandle E),
    s.sh.locks = sh.locks → LockRequest.parse msg = .ok req → s.c.tree? o.sid o.tid = some tr →
    s.c.open? o.sid o.tid req.fileId = some oh →
    let p := perform req.fileId (sh.tables oh.path) [] (req.locks.map LockElement.demand)
    ∃ s', handleLock o msg s = .ok (verdictStatus p.1) s' ∧
      s'.sh.tables = Function.update sh.tables oh.path p.2) ∧
  ∀ (path : GoString) (fid : FileId) (l : LockElement) (exclusive : Bool), l.Admitted →
    (l.offset + l.length).toNat = l.offset.toNat + l.length.toNat ∧
    ((sh.locks path).tryLock fid l.offset l.length exclusive = none ↔
      Refuses (sh.tables path) ⟨fid, l.bytes, exclusive⟩)

/-- A computation that calls a backend once and first. -/
theorem call_sh {α β : Type} {origin : Option Origin} {op : α → Call E} {f : E.World → α × E.World}
    {k : α → M E β} (hk : ∀ a, Go.Keeps St.sh (k a)) (s : St E) : ((call origin op f >>= k) s).state.sh =
      { s.sh with world := (f s.sh.world).2, trace := .call origin (op (f s.sh.world).1) :: s.sh.trace } :=
  hk (f s.sh.world).1 _

theorem readsByBytes {sh : Shared E} (hp : sh.Proper) : ReadsByBytes sh := by
  intro s o msg req tr oh hlocks hreq hl ho hpos ht hoh
  have hmax : req.length.toUInt64.toNat ≤ 1048576 := by
    rw [UInt32.toNat_toUInt64]
    exact UInt32.le_iff_toNat_le.1 hl
  have hcheck := LockManager.checkConflict_span req.fileId (hlocks ▸ hp oh.path) ho hmax
    (by rw [UInt32.toNat_toUInt64]; exact hpos) false
  have hstop := toNat_span ho hmax
  rw [UInt32.toNat_toUInt64] at hcheck hstop
  rw [tables_congr hlocks.symm]
  have hadm : ¬(maxRead < req.length ∨ negativeOffset req.offset = true) := by
    rw [not_or, UInt32.not_lt, ho]
    exact ⟨hl, by decide⟩
  unfold handleRead parsed
  simp only [hreq, if_neg hadm, withOpen_apply _ ht hoh]
  rw [Go.bind_ok (Go.get_apply s)]
  refine ⟨hstop, fun hs => ?_, fun hs => ?_⟩
  · rw [if_pos (hcheck.2 hs)]
  · rw [if_neg fun h => hs (hcheck.1 h)]
    refine congrArg Shared.trace (call_sh (fun r => ?_) s)
    obtain ⟨data, err⟩ := r
    dsimp only
    cases err.filter fun e => decide (e ≠ .eof) with
    | some e => exact fun _ => rfl
    | none =>
      dsimp only
      split_ifs <;> exact fun _ => rfl

theorem writesByBytes {sh : Shared E} (hp : sh.Proper) : WritesByBytes sh := by
  intro s o msg req tr oh hlocks hreq hl ho hpos ht hro hoh
  have hlen : req.data.length ≤ 1048576 := by
    rw [WriteRequest.length_data hreq]
    exact UInt32.le_iff_toNat_le.1 hl
  have hdata : (UInt64.ofNat req.data.length).toNat = req.data.length :=
    UInt64.toNat_ofNat_of_lt' (lt_of_le_of_lt hlen (by decide))
  have hmax : (UInt64.ofNat req.data.length).toNat ≤ 1048576 := by rw [hdata]; exact hlen
  have hcheck := LockManager.checkConflict_span req.fileId (hlocks ▸ hp oh.path) ho hmax
    (by rw [hdata]; exact hpos) true
  have hstop := toNat_span ho hmax
  rw [hdata] at hcheck hstop
  rw [tables_congr hlocks.symm]
  have hadm : ¬(maxWrite < req.length ∨ maxWrite < UInt32.ofNat req.data.length ∨
      negativeOffset req.offset = true) := by
    rw [not_or, not_or, UInt32.not_lt, UInt32.not_lt, ho, WriteRequest.length_data hreq,
      UInt32.ofNat_toNat]
    exact ⟨hl, hl, by decide⟩
  unfold handleWrite parsed
  simp only [hreq, if_neg hadm, withTree_apply _ ht, hro, Bool.false_eq_true, if_false,
    withOpen_apply _ ht hoh]
  rw [Go.bind_ok (Go.get_apply s)]
  refine ⟨hstop, fun hs => ?_, fun hs => ?_⟩
  · rw [if_pos (hcheck.2 hs)]
  · rw [if_neg fun h => hs (hcheck.1 h)]
    refine congrArg Shared.trace (call_sh (fun r => ?_) s)
    cases r <;> exact fun _ => rfl

/-- The end of `handleLock` returns the status it was given. -/
theorem lockAnswer (status : UInt32) (s : St E) : ∃ b,
    (if status = statusSuccess then succeed simpleResponse else errBody status : M E UInt32) s =
      .ok status { s with c := { s.c with out := s.c.out ++ b } } := by
  split_ifs with h
  · exact ⟨simpleResponse, by rw [h]; rfl⟩
  · exact ⟨errorResponse, rfl⟩

theorem locksByBytes {sh : Shared E} (hp : sh.Proper) : LocksByBytes sh := by
  refine ⟨fun s o msg req tr oh hlocks hreq ht hoh => ?_, fun path fid l exclusive hl => ⟨hl.stop, ?_⟩⟩
  · obtain ⟨hstatus, htable, -⟩ := LockManager.lockElements_performs req.fileId
      (hlocks ▸ hp oh.path : (s.sh.locks oh.path).Proper) (forall_mem_nil _) req.locks
    rw [tables_congr hlocks.symm]
    unfold handleLock parsed
    simp only [hreq, withOpen_apply _ ht hoh]
    rw [Go.bind_ok (Go.get_apply s)]
    generalize LockManager.lockElements req.fileId (s.sh.locks oh.path) [] req.locks = r at hstatus htable
    obtain ⟨status, lm⟩ := r
    obtain rfl : status = _ := hstatus
    let sh' : Shared E := { s.sh with locks := Function.update s.sh.locks oh.path lm }
    obtain ⟨b, hb⟩ := lockAnswer (verdictStatus (perform req.fileId (s.sh.tables oh.path) []
      (req.locks.map LockElement.demand)).1) ⟨sh', s.c⟩
    have hlm : lm.table = (perform req.fileId (s.sh.tables oh.path) []
      (req.locks.map LockElement.demand)).2 := htable
    refine ⟨_, hb, ?_⟩
    rw [← hlm]
    exact tables_update rfl
  · rcases LockManager.tryLock_table fid (hp path) hl exclusive with ⟨ht, hr⟩ | ⟨m', ht, -, hr, -⟩
    · exact ⟨fun _ => hr, fun _ => ht⟩
    · rw [ht]
      exact ⟨fun h => (nomatch h), fun h => absurd h hr⟩

/-- The lock managers are tables of locks on bytes: exclusion holds, the handlers check
the bytes they are asked for, and every transition of the server is a run of requests
and releases on the tables. -/
structure LocksRefine (srv : Config E) (S : Sys E) : Prop where
  exclusion : ∀ path, Exclusion (S.sh.tables path)
  read : ReadsByBytes S.sh
  write : WritesByBytes S.sh
  lock : LocksByBytes S.sh
  step : ∀ l S', S.step srv l = some S' → Relation.ReflTransGen Step S.sh.tables S'.sh.tables

/-- **The lock managers refine locks on bytes**, in every state a server can reach. -/
theorem reach_locksRefine (srv : Config E) (w : E.World) (S : Sys E)
    (hS : (system srv w).Reach (fun _ _ => True) S) : LocksRefine srv S := by
  obtain ⟨hp, hx⟩ := reach_proper hS
  exact ⟨hx, readsByBytes hp, writesByBytes hp, locksByBytes hp,
    fun l S' hs => (Sys.step_refines (reach_base hS) hs hp).2⟩

/-- A LOCK of one range. -/
def lockFrame (sid : UInt64) (tid : UInt32) (fid : FileId) (l : LockElement) : Bytes :=
  Header.encode { command := cmdLock, sessionId := sid, treeId := tid } ++ put16 48 ++ put16 1 ++
    zeros 4 ++ fid.1 ++ zeros 24 ++ put64 l.offset ++ put64 l.length ++ put32 l.flags ++ zeros 4

/-- The hypothesis of `reach_locksRefine` is met by a run that ends with a lock on the
last byte that can be locked. -/
theorem reach_locksRefine_lock : ∃ S, (guestSystem false).Reach (fun _ _ => True) S ∧
    decide ((S.sh.locks [0x61]).ranges =
      [⟨makeFileID 1 0 1, 0xFFFFFFFFFFFFFFFE, 0xFFFFFFFFFFFFFFFF, true⟩]) = true ∧
    LocksRefine (guestServer false) S := by
  obtain ⟨S, hS, hl⟩ := Transition.Reach.of_run (T := guestSystem false) (C := fun _ _ => True)
    (f := fun S => decide ((S.sh.locks [0x61]).ranges =
      [⟨makeFileID 1 0 1, 0xFFFFFFFFFFFFFFFE, 0xFFFFFFFFFFFFFFFF, true⟩]))
    ([.accept] ++ exchange 0 setupFrame ++ exchange 0 (treeConnectFrame 1) ++
      exchange 0 (createFrame 1 0 0 [0x61, 0x00]) ++
      exchange 0 (lockFrame 1 0 (makeFileID 1 0 1) ⟨0xFFFFFFFFFFFFFFFE, 1, lockFlagExclusiveLock⟩))
    (by decide +kernel) (by decide +kernel)
  exact ⟨S, hS, hl, reach_locksRefine (guestServer false) (0 : ℕ) S hS⟩

end Server
end SmbServer
