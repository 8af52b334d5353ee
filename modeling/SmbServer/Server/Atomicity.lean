/-
# LOCK requests as a whole

A LOCK request is a list of elements, each of which locks or unlocks a range, and should
be carried out as a whole or not at all.  `handleLock` carries the elements out one by
one.  At an element that is malformed, or that conflicts, it unlocks again what it had
locked; at one without any flag it just stops; what it had unlocked stays unlocked; and
an unlock of a range that is not held counts as carried out.

The lock manager keeps its ranges in a list, adds at its end and removes the first match,
so the ranges of one open with the same bounds are a queue (`held_unlock`, `held_lock`),
and all in it are equal once one of them has been locked (`held_eq_of_lock`).  What is
left of a request that fails then depends on the lengths of the queues, and `LockOk` says
for which tables and requests `handleLock` keeps its word (`allOrNothing_iff`).
-/

import SmbServer.Server.LockTable
import SmbServer.Server.Paging
import Mathlib.Data.List.Induction
import Mathlib.Data.Multiset.AddSub

namespace SmbServer
open List

namespace Wire.LockElement

open Server

variable {α : Type} {l' : LockElement}

/-- The element unlocks, whatever its other flags. -/
def unlocks (l : LockElement) : Bool := decide (l.flags &&& lockFlagUnlock ≠ 0)

/-- The mode of an element that locks. -/
def exclusive (l : LockElement) : Bool := decide (l.flags &&& lockFlagExclusiveLock ≠ 0)

/-- The element locks, in one of the two modes. -/
def locks (l : LockElement) : Bool :=
  !l.unlocks && (l.exclusive || decide (l.flags &&& lockFlagSharedLock ≠ 0))

theorem unlocks_of_locks {l : LockElement} (h : l.locks = true) : l.unlocks = false := by
  simpa using (Bool.and_eq_true_iff.1 h).1

/-- An element of the right form that neither locks nor unlocks. -/
def Blank (l : LockElement) : Prop := l.Admitted ∧ l.unlocks = false ∧ l.locks = false

instance (l : LockElement) : Decidable l.Blank :=
  inferInstanceAs (Decidable (_ ∧ _ ∧ _))

/-- The bounds of the range of an element. -/
def bounds (l : LockElement) : UInt64 × UInt64 := (l.offset, l.offset + l.length)

/-- The range an element locks. -/
def range (fid : FileId) (l : LockElement) : LockRange :=
  ⟨fid, l.offset, l.offset + l.length, l.exclusive⟩

end Wire.LockElement

namespace Server

open Wire

variable {E : Env}

/-! ### What is promised -/

/-- The elements are all applied in turn: each that locks adds its range, and each that
unlocks removes a range of this open with its bounds. -/
inductive Applied (fid : FileId) : Multiset LockRange → List LockElement → Multiset LockRange → Prop where
  | nil (T : Multiset LockRange) : Applied fid T [] T
  | lock {T T' : Multiset LockRange} {l : LockElement} {ls : List LockElement} (hl : l.locks = true)
      (h : Applied fid (l.range fid ::ₘ T) ls T') : Applied fid T (l :: ls) T'
  | unlock {T T' : Multiset LockRange} {l : LockElement} {ls : List LockElement} {r : LockRange}
      (hl : l.unlocks = true) (hr : r.fileId = fid) (hb : (r.start, r.stop) = l.bounds)
      (h : Applied fid T ls T') : Applied fid (r ::ₘ T) (l :: ls) T'

/-- The request succeeds and is applied, or it fails and leaves every table as it was. -/
def AllOrNothing (o : Origin) (msg : Bytes) (s : St E) : Prop :=
  ∃ status s', handleLock o msg s = .ok status s' ∧
    (status = statusSuccess ∧ (∃ req oh, LockRequest.parse msg = .ok req ∧
        s.c.open? o.sid o.tid req.fileId = some oh ∧
        Applied req.fileId (s.sh.locks oh.path).ranges req.locks (s'.sh.locks oh.path).ranges) ∨
      status ≠ statusSuccess ∧
        ∀ path, ((s'.sh.locks path).ranges : Multiset LockRange) = (s.sh.locks path).ranges)

/-! ### The elements in turn -/

/-- The range is one of this open with these bounds. -/
def LockRange.isAt (fid : FileId) (b : UInt64 × UInt64) (r : LockRange) : Bool :=
  decide (r.fileId = fid) && decide ((r.start, r.stop) = b)

namespace LockManager

/-- The ranges of one open with the given bounds, in the order of the list. -/
def held (m : LockManager) (fid : FileId) (b : UInt64 × UInt64) : List LockRange :=
  m.ranges.filter (LockRange.isAt fid b)

/-- The ranges of the other opens. -/
def others (m : LockManager) (fid : FileId) : List LockRange := m.ranges.filter fun r => decide (r.fileId ≠ fid)

/-- What an element does to the table. -/
def apply (fid : FileId) (m : LockManager) (l : LockElement) : LockManager :=
  if l.unlocks then m.unlock fid l.offset l.length else ⟨m.ranges ++ [l.range fid]⟩

/-- The element can be carried out. -/
def Grants (m : LockManager) (fid : FileId) (l : LockElement) : Prop :=
  l.Admitted ∧ (l.unlocks = true ∨
    l.locks = true ∧ m.conflicts fid l.offset (l.offset + l.length) l.exclusive = false)

instance (m : LockManager) (fid : FileId) (l : LockElement) : Decidable (m.Grants fid l) :=
  inferInstanceAs (Decidable (_ ∧ (_ ∨ _ ∧ _)))

/-- The elements can be carried out in turn. -/
def GrantsAll (fid : FileId) : LockManager → List LockElement → Prop
  | _, [] => True
  | m, l :: ls => m.Grants fid l ∧ GrantsAll fid (m.apply fid l) ls

end LockManager

/-- The number of ranges with bounds `b` after the elements, if there are `n` before.
Unlocking where there is none changes nothing. -/
def tally (b : UInt64 × UInt64) : ℕ → List LockElement → ℕ
  | n, [] => n
  | n, l :: ls => tally b (if l.bounds ≠ b then n else if l.unlocks then n - 1 else n + 1) ls

/-- The elements that lock a range with bounds `b`. -/
def locksAt (b : UInt64 × UInt64) (ls : List LockElement) : List LockElement :=
  ls.filter fun l => l.locks && decide (l.bounds = b)

/-- The tables and requests for which a LOCK keeps its word. -/
structure LockOk (m : LockManager) (fid : FileId) (ls : List LockElement) : Prop where
  /-- If all elements are carried out, those that unlock find a range. -/
  found : m.GrantsAll fid ls → ∀ pre l post, ls = pre ++ l :: post → l.unlocks = true →
    0 < tally l.bounds (m.held fid l.bounds).length pre
  /-- Before an element that is malformed or conflicts, none unlocks a range that the open
  held when the request came. -/
  kept : ∀ pre l post, ls = pre ++ l :: post → m.GrantsAll fid pre →
    ¬(pre.foldl (LockManager.apply fid) m).Grants fid l → ¬l.Blank →
      ∀ u ∈ pre, u.unlocks = true → m.held fid u.bounds = []
  /-- Before an element without flags the others cancel out: on all bounds as many ranges are
  locked as are unlocked, and those that the open held have the mode of the last lock. -/
  balanced : ∀ pre l post, ls = pre ++ l :: post → m.GrantsAll fid pre → l.Blank →
    ∀ b, tally b (m.held fid b).length pre = (m.held fid b).length ∧
      ∀ l' ∈ (locksAt b pre).getLast?, ∀ r ∈ m.held fid b, r.exclusive = l'.exclusive

namespace LockManager

variable {m m' : LockManager} {fid : FileId} {l : LockElement} {b : UInt64 × UInt64}

/-! ### Queues -/

theorem filter_eraseP_self (p : α → Bool) (l : List α) : (l.eraseP p).filter p = (l.filter p).tail := by
  induction l with
  | nil => rfl
  | cons x l ih =>
    by_cases hx : p x = true
    · rw [eraseP_cons_of_pos hx, filter_cons_of_pos hx, tail_cons]
    · rw [eraseP_cons_of_neg hx, filter_cons_of_neg hx, filter_cons_of_neg hx, ih]

theorem filter_eraseP_of_disjoint {p q : α → Bool} (h : ∀ x, p x = true → q x = false) (l : List α) :
    (l.eraseP p).filter q = l.filter q := by
  induction l with
  | nil => rfl
  | cons x l ih =>
    by_cases hx : p x = true
    · rw [eraseP_cons_of_pos hx, filter_cons_of_neg (by rw [h x hx]; decide)]
    · rw [eraseP_cons_of_neg hx, filter_cons, filter_cons, ih]

theorem unlock_eq (m : LockManager) (fid : FileId) (l : LockElement) :
    m.unlock fid l.offset l.length = ⟨m.ranges.eraseP (LockRange.isAt fid l.bounds)⟩ := by
  have hp : (fun r : LockRange => decide (r.fileId = fid) && decide (r.start = l.offset) &&
      decide (r.stop = l.offset + l.length)) = LockRange.isAt fid l.bounds := by
    funext r
    simp only [LockRange.isAt, LockElement.bounds, Prod.mk.injEq, Bool.decide_and, Bool.and_assoc]
  rw [unlock, hp]

/-- Two lists of the same length all of whose elements are `c`. -/
theorem eq_of_forall_eq {l l' : List α} {c : α} (hlen : l.length = l'.length) (h : ∀ x ∈ l, x = c)
    (h' : ∀ x ∈ l', x = c) : l = l' := by
  rw [eq_replicate_of_mem h, eq_replicate_of_mem h', hlen]

/-- An unlock takes the first range of its queue. -/
theorem held_unlock (m : LockManager) (fid : FileId) (l : LockElement) (b : UInt64 × UInt64) :
    (m.unlock fid l.offset l.length).held fid b = if l.bounds = b then (m.held fid b).tail else m.held fid b := by
  rw [unlock_eq]
  split_ifs with hb
  · subst hb
    exact filter_eraseP_self _ _
  · refine filter_eraseP_of_disjoint (fun r hr => ?_) _
    have hat := (Bool.and_eq_true_iff.1 hr).2
    refine Bool.eq_false_iff.2 fun h => hb ?_
    exact (of_decide_eq_true hat).symm.trans (of_decide_eq_true (Bool.and_eq_true_iff.1 h).2)

theorem held_lock (m : LockManager) (fid : FileId) (l : LockElement) (b : UInt64 × UInt64) :
    LockManager.held ⟨m.ranges ++ [l.range fid]⟩ fid b = m.held fid b ++ if l.bounds = b then [l.range fid] else [] := by
  unfold held
  have hp : (l.range fid).isAt fid b = decide (l.bounds = b) := by
    change (decide (fid = fid) && decide (l.bounds = b)) = _
    rw [decide_eq_true rfl, Bool.true_and]
  rw [filter_append]
  by_cases hb : l.bounds = b
  · rw [if_pos hb, filter_cons_of_pos (hp.trans (decide_eq_true hb)), filter_nil]
  · rw [if_neg hb, filter_cons_of_neg (by rw [hp, decide_eq_false hb]; decide), filter_nil]

theorem others_unlock (m : LockManager) (fid : FileId) (start length : UInt64) :
    (m.unlock fid start length).others fid = m.others fid := by
  refine filter_eraseP_of_disjoint (fun r hr => ?_) _
  simp only [Bool.and_eq_true, decide_eq_true_eq] at hr
  simp [hr.1.1]

theorem others_apply (m : LockManager) (fid : FileId) (l : LockElement) : (m.apply fid l).others fid = m.others fid := by
  unfold apply
  split_ifs
  · exact m.others_unlock _ _ _
  · simp [others, LockElement.range]

theorem held_apply (m : LockManager) (fid : FileId) (l : LockElement) (b : UInt64 × UInt64) :
    (m.apply fid l).held fid b = if l.bounds ≠ b then m.held fid b
      else if l.unlocks then (m.held fid b).tail else m.held fid b ++ [l.range fid] := by
  unfold apply
  by_cases hu : l.unlocks = true
  · simp only [if_pos hu, held_unlock]
    split_ifs with h1 h2 <;> first | rfl | exact absurd h1 h2
  · simp only [if_neg hu, held_lock]
    by_cases hb : l.bounds = b <;> simp [hb]

/-- **Two tables have the same ranges if they have them in the same queues.** -/
theorem perm_iff (fid : FileId) : m'.ranges.Perm m.ranges ↔
    (m'.others fid).Perm (m.others fid) ∧ ∀ b, (m'.held fid b).Perm (m.held fid b) := by
  have hcount : ∀ {r : LockRange} {p : LockRange → Bool}, p r = true →
      (m'.ranges.filter p).Perm (m.ranges.filter p) → m'.ranges.count r = m.ranges.count r := by
    intro r p hp h
    rw [← count_filter hp, h.count_eq, count_filter hp]
  refine ⟨fun h => ⟨h.filter _, fun b => h.filter _⟩, fun ⟨ho, hh⟩ => perm_iff_count.2 fun r => ?_⟩
  by_cases hr : r.fileId = fid
  · exact hcount (by simp [LockRange.isAt, hr]) (hh (r.start, r.stop))
  · exact hcount (by simp [hr]) ho

/-- The undo loop takes as many ranges from a queue as there are elements for it. -/
theorem held_release (m : LockManager) (fid : FileId) (acquired : List LockElement) (b : UInt64 × UInt64) :
    (m.release fid acquired).held fid b = (m.held fid b).drop (acquired.countP fun l => decide (l.bounds = b)) := by
  induction acquired generalizing m with
  | nil => rfl
  | cons l acquired ih =>
    rw [release, ih, held_unlock, countP_cons]
    by_cases hb : l.bounds = b
    · simp only [hb, if_true, decide_true, drop_tail]
    · simp only [hb, if_false, decide_false, Bool.false_eq_true, Nat.add_zero]

theorem others_release (m : LockManager) (fid : FileId) (acquired : List LockElement) :
    (m.release fid acquired).others fid = m.others fid := by
  induction acquired generalizing m with
  | nil => rfl
  | cons l acquired ih => exact (ih _).trans (m.others_unlock _ _ _)

/-! ### After some of the elements -/

variable {ls pre : List LockElement}

theorem others_foldl (m : LockManager) (fid : FileId) (ls : List LockElement) :
    (ls.foldl (apply fid) m).others fid = m.others fid := by
  induction ls generalizing m with
  | nil => rfl
  | cons l ls ih => exact (ih _).trans (m.others_apply fid l)

theorem length_held_foldl (m : LockManager) (fid : FileId) (ls : List LockElement) (b : UInt64 × UInt64) :
    ((ls.foldl (apply fid) m).held fid b).length = tally b (m.held fid b).length ls := by
  induction ls generalizing m with
  | nil => rfl
  | cons l ls ih =>
    rw [foldl_cons, ih, held_apply, tally]
    split_ifs
    · rfl
    · rw [length_tail]
    · rw [length_append, length_singleton]

theorem held_foldl_of_unlocks (m : LockManager) (fid : FileId) (hb : ∀ l ∈ ls, l.bounds = b → l.unlocks = true) :
    ∃ n, (ls.foldl (apply fid) m).held fid b = (m.held fid b).drop n := by
  induction ls generalizing m with
  | nil => exact ⟨0, rfl⟩
  | cons l ls ih =>
    obtain ⟨n, hn⟩ := ih (m.apply fid l) fun l' hl' => hb l' (mem_cons_of_mem _ hl')
    rw [foldl_cons, hn, held_apply]
    split_ifs with h1 h2
    · exact ⟨n, rfl⟩
    · exact ⟨n + 1, drop_tail⟩
    · exact absurd (hb l (mem_cons_self ..) (not_not.1 h1)) h2

theorem held_foldl_of_locks (m : LockManager) (fid : FileId) (hb : ∀ l ∈ ls, l.bounds = b → l.unlocks = false) :
    m.held fid b <+: (ls.foldl (apply fid) m).held fid b := by
  induction ls generalizing m with
  | nil => exact prefix_rfl
  | cons l ls ih =>
    refine IsPrefix.trans ?_ (ih (m.apply fid l) fun l' hl' => hb l' (mem_cons_of_mem _ hl'))
    rw [held_apply]
    split_ifs with h1 h2
    · exact prefix_rfl
    · exact absurd h2 (by simp [hb l (mem_cons_self ..) (not_not.1 h1)])
    · exact prefix_append _ _

theorem grantsAll_concat : m.GrantsAll fid (ls ++ [l]) ↔
    m.GrantsAll fid ls ∧ (ls.foldl (apply fid) m).Grants fid l := by
  induction ls generalizing m with
  | nil => simp [GrantsAll]
  | cons l' ls ih => rw [cons_append, GrantsAll, GrantsAll, ih, foldl_cons, and_assoc]

/-- A range of a queue that has the mode of an element for it. -/
theorem eq_range_of_mem_held {r : LockRange} (hr : r ∈ m.held fid l.bounds) (hx : r.exclusive = l.exclusive) :
    r = l.range fid := by
  obtain ⟨hfid, hb⟩ := Bool.and_eq_true_iff.1 (mem_filter.1 hr).2
  obtain ⟨hstart, hstop⟩ := Prod.mk.inj (of_decide_eq_true hb)
  cases r
  simp only [LockElement.range, LockRange.mk.injEq]
  exact ⟨of_decide_eq_true hfid, hstart, hstop, hx⟩

/-- A lock that is granted finds its own ranges with these bounds in its mode. -/
theorem Grants.exclusive_eq (h : m.Grants fid l) (hl : l.unlocks = false) {r : LockRange}
    (hr : r ∈ m.held fid l.bounds) : r = l.range fid := by
  obtain ⟨hadm, hun | ⟨-, hfree⟩⟩ := h
  · exact absurd hun (by simp [hl])
  refine eq_range_of_mem_held hr ?_
  obtain ⟨hmem, hr⟩ := mem_filter.1 hr
  obtain ⟨hfid, hb⟩ := Bool.and_eq_true_iff.1 hr
  obtain ⟨hstart, hstop⟩ := Prod.mk.inj (of_decide_eq_true hb)
  have hlt : l.offset < l.offset + l.length := by
    rw [UInt64.lt_iff_toNat_lt, hadm.stop]
    exact Nat.lt_add_of_pos_right hadm.1
  have hpass := List.any_eq_false.1 hfree r hmem
  simp only [LockRange.overlaps, hstart, hstop, hlt, of_decide_eq_true hfid, decide_true, ne_eq, not_true_eq_false,
    decide_false, Bool.true_and, Bool.false_or, Bool.and_eq_true, Bool.or_eq_true, bne_iff_ne] at hpass
  by_contra hne
  refine hpass ⟨?_, hne⟩
  cases hx : r.exclusive <;> cases hy : l.exclusive <;> simp_all

/-- **All ranges in a queue are equal once one of them has been locked**, and have the mode
of the last one locked. -/
theorem held_eq_of_lock (h : m.GrantsAll fid ls) (hl' : (locksAt b ls).getLast? = some l') :
    ∀ r ∈ (ls.foldl (apply fid) m).held fid b, r = l'.range fid := by
  induction ls using reverseRecOn generalizing l' with
  | nil => cases hl'
  | append_singleton ls l ih =>
    obtain ⟨hls, hl⟩ := grantsAll_concat.1 h
    intro r hr
    rw [foldl_append, foldl_cons, foldl_nil, held_apply] at hr
    rw [locksAt, filter_append, ← locksAt] at hl'
    by_cases hb : l.bounds = b
    · rw [if_neg (not_not.2 hb)] at hr
      by_cases hu : l.unlocks = true
      · rw [if_pos hu] at hr
        rw [filter_cons_of_neg (by simp [LockElement.locks, hu]), filter_nil, append_nil] at hl'
        exact ih hls hl' r (mem_of_mem_tail hr)
      · have hlock := (hl.2.resolve_left hu).1
        rw [filter_cons_of_pos (by simp [hlock, hb]), filter_nil, getLast?_concat] at hl'
        cases hl'
        rw [if_neg hu] at hr
        rcases mem_append.1 hr with hr | hr
        · exact hl.exclusive_eq (Bool.eq_false_iff.2 hu) (hb ▸ hr)
        · exact mem_singleton.1 hr
    · rw [if_pos hb] at hr
      rw [filter_cons_of_neg (by simp [hb]), filter_nil, append_nil] at hl'
      exact ih hls hl' r hr

theorem tally_le (b : UInt64 × UInt64) (n : ℕ) (ls : List LockElement) :
    tally b n ls ≤ n + ls.countP fun l => !l.unlocks && decide (l.bounds = b) := by
  induction ls generalizing n with
  | nil => exact Nat.le_refl n
  | cons l ls ih =>
    rw [tally, countP_cons]
    refine (ih _).trans ?_
    by_cases hb : l.bounds = b
    · cases l.unlocks with
      | true => simp [hb]
      | false =>
        simp only [hb, ne_eq, not_true_eq_false, if_false, Bool.false_eq_true, Bool.not_false, Bool.true_and,
          decide_true, if_true]
        omega
    · simp [hb]

/-- Where there is one to unlock, an element that unlocks takes it. -/
theorem tally_lt {n : ℕ} (hn : 0 < n) (h : ∃ l ∈ ls, l.unlocks = true ∧ l.bounds = b) :
    tally b n ls < n + ls.countP fun l => !l.unlocks && decide (l.bounds = b) := by
  induction ls generalizing n with
  | nil => obtain ⟨l, hl, -⟩ := h; cases hl
  | cons l ls ih =>
    rw [tally, countP_cons]
    by_cases hb : l.bounds = b
    · cases hu : l.unlocks with
      | true =>
        have hle := tally_le b (n - 1) ls
        simp only [hb, ne_eq, not_true_eq_false, if_false, if_true, Bool.not_true, Bool.false_and,
          Bool.false_eq_true, Nat.add_zero]
        omega
      | false =>
        obtain ⟨u, hu', hun, hub⟩ := h
        have hu' : u ∈ ls := (mem_cons.1 hu').resolve_left fun he => by simp [he, hu] at hun
        have hlt := ih (n := n + 1) (Nat.succ_pos n) ⟨u, hu', hun, hub⟩
        simp only [hb, ne_eq, not_true_eq_false, if_false, Bool.false_eq_true, Bool.not_false, Bool.true_and,
          decide_true, if_true]
        omega
    · obtain ⟨u, hu', hun, hub⟩ := h
      have hu' : u ∈ ls := (mem_cons.1 hu').resolve_left fun he => hb (he ▸ hub)
      simpa [hb] using ih hn ⟨u, hu', hun, hub⟩

/-- Where nothing is unlocked, every lock counts. -/
theorem tally_of_locks (hb : ∀ l ∈ ls, l.bounds = b → l.unlocks = false) (n : ℕ) :
    tally b n ls = n + ls.countP fun l => !l.unlocks && decide (l.bounds = b) := by
  induction ls generalizing n with
  | nil => rfl
  | cons l ls ih =>
    rw [tally, countP_cons, ih fun l' hl' => hb l' (mem_cons_of_mem _ hl')]
    by_cases hl : l.bounds = b
    · simp only [hl, hb l (mem_cons_self ..) hl, ne_eq, not_true_eq_false, if_false, Bool.false_eq_true,
        Bool.not_false, Bool.true_and, decide_true, if_true]
      omega
    · simp [hl]

/-! ### The loop -/

/-- How the loop of `handleLock` ends: it has carried out all elements, or those before one
that it cannot carry out; then it has undone the locks among them, unless that one is blank. -/
def Ends (fid : FileId) (m : LockManager) (acquired ls : List LockElement) (r : UInt32 × LockManager) : Prop :=
  (m.GrantsAll fid ls ∧ r = (statusSuccess, ls.foldl (apply fid) m)) ∨
    ∃ pre l post status, ls = pre ++ l :: post ∧ m.GrantsAll fid pre ∧
      ¬(pre.foldl (apply fid) m).Grants fid l ∧ status ≠ statusSuccess ∧
      r = (status, if l.Blank then pre.foldl (apply fid) m
        else (pre.foldl (apply fid) m).release fid (acquired ++ pre.filter fun l => !l.unlocks))

theorem Ends.cons {acquired : List LockElement} {r : UInt32 × LockManager} (hl : m.Grants fid l)
    (h : Ends fid (m.apply fid l) (acquired ++ [l].filter fun l => !l.unlocks) ls r) : Ends fid m acquired (l :: ls) r := by
  rcases h with ⟨hall, hr⟩ | ⟨pre, l', post, status, rfl, hall, hl', hs, hr⟩
  · exact .inl ⟨⟨hl, hall⟩, hr⟩
  · refine .inr ⟨l :: pre, l', post, status, rfl, ⟨hl, hall⟩, hl', hs, ?_⟩
    rw [hr, append_assoc, ← filter_append]
    rfl

theorem Ends.stop (acquired ls : List LockElement) {status : UInt32} (hl : ¬m.Grants fid l) (hs : status ≠ statusSuccess) :
    Ends fid m acquired (l :: ls) (status, if l.Blank then m else m.release fid acquired) := by
  refine .inr ⟨[], l, ls, status, rfl, trivial, hl, hs, ?_⟩
  rw [filter_nil, append_nil]
  rfl

theorem ends_lock {acquired : List LockElement} (hadm : l.Admitted) (hu : l.unlocks = false) (hl : l.locks = true)
    (ih : ∀ m acquired, Ends fid m acquired ls (lockElements fid m acquired ls)) :
    Ends fid m acquired (l :: ls) (match m.tryLock fid l.offset l.length l.exclusive with
      | none => (statusLockConflict, m.release fid acquired)
      | some m' => lockElements fid m' (acquired ++ [l]) ls) := by
  have hblank : ¬l.Blank := fun h => by simp [h.2.2] at hl
  cases hc : m.conflicts fid l.offset (l.offset + l.length) l.exclusive with
  | true =>
    have htry : m.tryLock fid l.offset l.length l.exclusive = none := if_pos hc
    have hno : ¬m.Grants fid l := fun h => by simp [Grants, hu, hc] at h
    have hstop := Ends.stop acquired ls hno (show statusLockConflict ≠ statusSuccess by decide)
    rw [if_neg hblank] at hstop
    rwa [htry]
  | false =>
    have htry : m.tryLock fid l.offset l.length l.exclusive = some ⟨m.ranges ++ [l.range fid]⟩ :=
      if_neg (by simp [hc])
    rw [htry]
    refine .cons ⟨hadm, .inr ⟨hl, hc⟩⟩ ?_
    rw [apply, if_neg (by simp [hu]), filter_cons_of_pos (by simp [hu]), filter_nil]
    exact ih _ _

/-- **What the loop of `handleLock` does.** -/
theorem lockElements_ends (fid : FileId) (m : LockManager) (acquired ls : List LockElement) :
    Ends fid m acquired ls (lockElements fid m acquired ls) := by
  induction ls generalizing m acquired with
  | nil => exact .inl ⟨trivial, rfl⟩
  | cons l ls ih =>
    unfold lockElements
    by_cases hadm : l.Admitted
    swap
    · have hno : ¬m.Grants fid l := fun h => hadm h.1
      have hstop := Ends.stop acquired ls hno (show statusInvalidParameter ≠ statusSuccess by decide)
      rw [if_neg fun h => hadm h.1] at hstop
      rwa [if_pos (by by_contra h; exact hadm (l.admitted_iff.2 h))]
    rw [if_neg (l.admitted_iff.1 hadm)]
    by_cases hun : l.flags &&& lockFlagUnlock ≠ 0
    · have hu : l.unlocks = true := decide_eq_true hun
      rw [if_pos hun]
      refine .cons ⟨hadm, .inl hu⟩ ?_
      rw [apply, if_pos hu, filter_cons_of_neg (by simp [hu]), filter_nil, append_nil]
      exact ih _ _
    have hu : l.unlocks = false := decide_eq_false hun
    rw [if_neg hun]
    by_cases hex : l.flags &&& lockFlagExclusiveLock ≠ 0
    · have hx : l.exclusive = true := decide_eq_true hex
      rw [if_pos hex, ← hx]
      exact ends_lock hadm hu (by simp [LockElement.locks, hu, hx]) ih
    have hx : l.exclusive = false := decide_eq_false hex
    rw [if_neg hex]
    by_cases hsh : l.flags &&& lockFlagSharedLock ≠ 0
    · rw [if_pos hsh, ← hx]
      exact ends_lock hadm hu (by simp [LockElement.locks, hu, hsh]) ih
    · have hl : l.locks = false := by simp [LockElement.locks, hu, hx, decide_eq_false hsh]
      have hno : ¬m.Grants fid l := fun h => by simp [Grants, hu, hl] at h
      have hstop := Ends.stop acquired ls hno (show statusInvalidParameter ≠ statusSuccess by decide)
      rw [if_neg hsh]
      rwa [if_pos ⟨hadm, hu, hl⟩] at hstop

/-- **A LOCK leaves the ranges of the other opens alone**, however it ends. -/
theorem others_lockElements (fid : FileId) (m : LockManager) (acquired ls : List LockElement) :
    (lockElements fid m acquired ls).2.others fid = m.others fid := by
  rcases lockElements_ends fid m acquired ls with ⟨-, h⟩ | ⟨pre, l, post, status, -, -, -, -, h⟩
  · rw [h, others_foldl]
  · rw [h]
    dsimp only
    split_ifs
    · exact m.others_foldl fid pre
    · rw [others_release, others_foldl]

/-! ### Requests that fail -/

/-- Every element that is carried out locks or unlocks. -/
theorem GrantsAll.cases (h : m.GrantsAll fid ls) : ∀ l ∈ ls, l.unlocks = true ∨ l.locks = true := by
  induction ls generalizing m with
  | nil => exact fun l hl => absurd hl not_mem_nil
  | cons l' ls ih =>
    intro l hl
    rcases mem_cons.1 hl with rfl | hl
    · exact h.1.2.imp_right And.left
    · exact ih h.2 l hl

/-- The element that locked last has these bounds. -/
theorem bounds_of_getLast? (h : (locksAt b ls).getLast? = some l') : l'.bounds = b := by
  have hmem := mem_of_getLast? h
  exact of_decide_eq_true (Bool.and_eq_true_iff.1 (mem_filter.1 hmem).2).2

theorem not_locks_of_getLast? (h : (locksAt b ls).getLast? = none) (hl : l ∈ ls) (hb : l.bounds = b) : l.locks = false := by
  have hnil := getLast?_eq_none_iff.1 h
  refine Bool.eq_false_iff.2 fun hlock => filter_eq_nil_iff.1 hnil l hl ?_
  rw [hlock, decide_eq_true hb]
  rfl

/-- **When the elements carried out have no effect.** -/
theorem foldl_perm_iff (h : m.GrantsAll fid ls) : (ls.foldl (apply fid) m).ranges.Perm m.ranges ↔
    ∀ b, tally b (m.held fid b).length ls = (m.held fid b).length ∧
      ∀ l' ∈ (locksAt b ls).getLast?, ∀ r ∈ m.held fid b, r.exclusive = l'.exclusive := by
  rw [perm_iff fid, others_foldl, and_iff_right (Perm.refl _)]
  refine forall_congr' fun b => ?_
  rw [← length_held_foldl]
  constructor
  · intro hp
    refine ⟨hp.length_eq, fun l' hl' r hr => ?_⟩
    rw [held_eq_of_lock h hl' r (hp.mem_iff.2 hr)]
    rfl
  · rintro ⟨hlen, hmode⟩
    cases hlast : (locksAt b ls).getLast? with
    | none =>
      have hun : ∀ l ∈ ls, l.bounds = b → l.unlocks = true := fun l hl hb =>
        (h.cases l hl).resolve_right (by simp [not_locks_of_getLast? hlast hl hb])
      obtain ⟨n, hn⟩ := held_foldl_of_unlocks m fid hun
      rw [hn] at hlen ⊢
      rw [(drop_sublist n _).eq_of_length hlen]
    | some l' =>
      have hb := bounds_of_getLast? hlast
      subst hb
      rw [eq_of_forall_eq hlen (held_eq_of_lock h hlast) fun r hr => eq_range_of_mem_held hr (hmode l' hlast r hr)]

/-- **When the undo loop restores the table.** -/
theorem undo_perm_iff (h : m.GrantsAll fid ls) :
    ((ls.foldl (apply fid) m).release fid (ls.filter fun l => !l.unlocks)).ranges.Perm m.ranges ↔
      ∀ u ∈ ls, u.unlocks = true → m.held fid u.bounds = [] := by
  have hheld : ∀ b, ((ls.foldl (apply fid) m).release fid (ls.filter fun l => !l.unlocks)).held fid b =
      ((ls.foldl (apply fid) m).held fid b).drop (ls.countP fun l => !l.unlocks && decide (l.bounds = b)) := by
    intro b
    rw [held_release, countP_filter]
    simp only [Bool.and_comm]
  rw [perm_iff fid, others_release, others_foldl, and_iff_right (Perm.refl _)]
  constructor
  · intro hp u hu hun
    by_contra hne
    have hpos : 0 < (m.held fid u.bounds).length := length_pos_iff.2 hne
    have hlt := tally_lt hpos ⟨u, hu, hun, rfl⟩
    have hlen := (hp u.bounds).length_eq
    rw [hheld, length_drop, length_held_foldl] at hlen
    omega
  · intro hkept b
    rw [hheld]
    by_cases hex : ∃ u ∈ ls, u.unlocks = true ∧ u.bounds = b
    · obtain ⟨u, hu, hun, rfl⟩ := hex
      have hnil := hkept u hu hun
      have hle := tally_le u.bounds 0 ls
      rw [drop_eq_nil_of_le, hnil]
      rw [length_held_foldl, hnil]
      simpa using hle
    · have hlocks : ∀ l ∈ ls, l.bounds = b → l.unlocks = false := fun l hl hb =>
        Bool.eq_false_iff.2 fun hun => hex ⟨l, hl, hun, hb⟩
      obtain ⟨t, ht⟩ := held_foldl_of_locks m fid hlocks
      have hlen : t.length = ls.countP fun l => !l.unlocks && decide (l.bounds = b) := by
        have hlen := length_held_foldl m fid ls b
        rw [tally_of_locks hlocks, ← ht, length_append] at hlen
        omega
      rw [← hlen, ← ht]
      cases hlast : (locksAt b ls).getLast? with
      | none =>
        have hzero : t.length = 0 := by
          rw [hlen, countP_eq_zero]
          intro l hl hp
          have hb := of_decide_eq_true (Bool.and_eq_true_iff.1 hp).2
          rcases h.cases l hl with hun | hlock
          · simp [hlocks l hl hb] at hun
          · simp [not_locks_of_getLast? hlast hl hb] at hlock
        rw [length_eq_zero_iff.1 hzero, append_nil, length_nil, drop_zero]
      | some l' =>
        -- All ranges are equal, so it does not matter which are taken.
        have hall := held_eq_of_lock h hlast
        rw [← ht] at hall
        have hlen' : ((m.held fid b ++ t).drop t.length).length = (m.held fid b).length := by
          rw [length_drop, length_append, Nat.add_sub_cancel]
        rw [eq_of_forall_eq hlen' (fun r hr => hall r (mem_of_mem_drop hr)) fun r hr =>
          hall r (mem_append_left t hr)]

/-! ### Requests that succeed -/

theorem apply_of_held_eq_nil (hu : l.unlocks = true) (hnil : m.held fid l.bounds = []) : m.apply fid l = m := by
  rw [apply, if_pos hu, unlock_eq, eraseP_of_forall_not fun r hr => filter_eq_nil_iff.1 hnil r hr]

theorem apply_of_held_ne_nil (hu : l.unlocks = true) (hne : m.held fid l.bounds ≠ []) : ∃ r : LockRange,
    r.isAt fid l.bounds = true ∧ (m.ranges : Multiset LockRange) = r ::ₘ (m.apply fid l).ranges := by
  obtain ⟨r, hr⟩ := exists_mem_of_ne_nil _ hne
  obtain ⟨hmem, hat⟩ := mem_filter.1 hr
  obtain ⟨r', l1, l2, -, hr', hm, he⟩ := exists_of_eraseP hmem hat
  refine ⟨r', hr', ?_⟩
  rw [apply, if_pos hu, unlock_eq, he, hm, Multiset.cons_coe]
  exact Multiset.coe_eq_coe.2 perm_middle

/-- Every lock adds a range, and every unlock removes at most one. -/
theorem length_foldl_ge (m : LockManager) (fid : FileId) (ls : List LockElement) :
    m.ranges.length + ls.countP (fun l => !l.unlocks) ≤
      (ls.foldl (apply fid) m).ranges.length + ls.countP LockElement.unlocks := by
  induction ls generalizing m with
  | nil => exact Nat.le_refl _
  | cons l ls ih =>
    have hrest := ih (m.apply fid l)
    rw [foldl_cons, countP_cons, countP_cons]
    cases hu : l.unlocks with
    | false =>
      have hlen : (m.apply fid l).ranges.length = m.ranges.length + 1 := by
        rw [apply, if_neg (by simp [hu]), length_append, length_singleton]
      simp only [Bool.not_false, if_true, Bool.false_eq_true, if_false]
      omega
    | true =>
      have hlen : m.ranges.length ≤ (m.apply fid l).ranges.length + 1 := by
        rw [apply, if_pos hu, unlock_eq]
        exact Nat.sub_le_iff_le_add.1 le_length_eraseP
      simp only [Bool.not_true, Bool.false_eq_true, if_false, if_true]
      omega

theorem applied_card {T T' : Multiset LockRange} (h : Applied fid T ls T') :
    T'.card + ls.countP LockElement.unlocks = T.card + ls.countP fun l => !l.unlocks := by
  induction h with
  | nil T => rfl
  | lock hl h ih =>
    have hu := LockElement.unlocks_of_locks hl
    rw [Multiset.card_cons] at ih
    simp only [countP_cons, hu, Bool.not_false, if_true, Bool.false_eq_true, if_false]
    omega
  | unlock hl hr hb h ih =>
    rw [Multiset.card_cons]
    simp only [countP_cons, hl, Bool.not_true, if_true, Bool.false_eq_true, if_false]
    omega

/-- **When the elements carried out are applied**: if each that unlocks finds a range. -/
theorem applied_iff (h : m.GrantsAll fid ls) : Applied fid m.ranges ls (ls.foldl (apply fid) m).ranges ↔
    ∀ pre l post, ls = pre ++ l :: post → l.unlocks = true → 0 < tally l.bounds (m.held fid l.bounds).length pre := by
  constructor
  · rintro happ pre l post rfl hu
    rw [← length_held_foldl, length_pos_iff]
    intro hnil
    have hcard := applied_card happ
    have hpre := length_foldl_ge m fid pre
    have hpost := length_foldl_ge (pre.foldl (apply fid) m) fid post
    rw [foldl_append, foldl_cons, apply_of_held_eq_nil hu hnil, Multiset.coe_card, Multiset.coe_card,
      countP_append, countP_append, countP_cons, countP_cons] at hcard
    simp only [hu, if_true, Bool.not_true, Bool.false_eq_true, if_false] at hcard
    omega
  · intro hfound
    induction ls generalizing m with
    | nil => exact .nil _
    | cons l ls ih =>
      have hrest : Applied fid (m.apply fid l).ranges ls (ls.foldl (apply fid) (m.apply fid l)).ranges := by
        refine ih h.2 fun pre l' post he hu => ?_
        have hpos := hfound (l :: pre) l' post (by rw [he]; rfl) hu
        rwa [← length_held_foldl] at hpos ⊢
      rcases h.1.2 with hu | ⟨hl, -⟩
      · have hpos : 0 < (m.held fid l.bounds).length := hfound [] l ls rfl hu
        obtain ⟨r, hat, hm⟩ := apply_of_held_ne_nil hu (length_pos_iff.1 hpos)
        obtain ⟨hfid, hb⟩ := Bool.and_eq_true_iff.1 hat
        rw [hm]
        exact .unlock hu (of_decide_eq_true hfid) (of_decide_eq_true hb) hrest
      · have hu := LockElement.unlocks_of_locks hl
        have hm : ((m.apply fid l).ranges : Multiset LockRange) = l.range fid ::ₘ (m.ranges : Multiset LockRange) := by
          rw [apply, if_neg (by simp [hu]), Multiset.cons_coe]
          exact Multiset.coe_eq_coe.2 (perm_append_singleton _ _)
        rw [hm] at hrest
        exact .lock hl hrest

/-! ### All requests -/

/-- In a request that is carried out, each element is. -/
theorem GrantsAll.split {pre post : List LockElement} (h : m.GrantsAll fid (pre ++ l :: post)) :
    (pre.foldl (apply fid) m).Grants fid l := by
  induction pre generalizing m with
  | nil => exact h.1
  | cons l' pre ih => exact ih h.2

/-- There is at most one element that a request fails at. -/
theorem fails_unique {pre pre' post post' : List LockElement}
    (he : pre ++ l :: post = pre' ++ l' :: post') (h : m.GrantsAll fid pre) (h' : m.GrantsAll fid pre')
    (hl : ¬(pre.foldl (apply fid) m).Grants fid l) (hl' : ¬(pre'.foldl (apply fid) m).Grants fid l') :
    pre = pre' ∧ l = l' := by
  induction pre generalizing m pre' with
  | nil =>
    cases pre' with
    | nil => exact ⟨rfl, (List.cons.inj he).1⟩
    | cons x pre' =>
      obtain rfl := (List.cons.inj he).1
      exact absurd h'.1 hl
  | cons x pre ih =>
    cases pre' with
    | nil =>
      obtain rfl := (List.cons.inj he).1
      exact absurd h.1 hl'
    | cons y pre' =>
      obtain ⟨rfl, hrest⟩ := List.cons.inj he
      obtain ⟨rfl, rfl⟩ := ih hrest h.2 h'.2 hl hl'
      exact ⟨rfl, rfl⟩

theorem not_grants_of_blank (h : l.Blank) : ¬m.Grants fid l := fun hg => by
  rcases hg.2 with hu | ⟨hl, -⟩
  · simp [h.2.1] at hu
  · simp [h.2.2] at hl

/-- **The loop of `handleLock` keeps its word on exactly these tables and requests.** -/
theorem lockElements_iff (fid : FileId) (m : LockManager) (ls : List LockElement) :
    ((lockElements fid m [] ls).1 = statusSuccess ∧ Applied fid m.ranges ls (lockElements fid m [] ls).2.ranges ∨
      (lockElements fid m [] ls).1 ≠ statusSuccess ∧ (lockElements fid m [] ls).2.ranges.Perm m.ranges) ↔
    LockOk m fid ls := by
  rcases lockElements_ends fid m [] ls with ⟨hall, hr⟩ | ⟨pre, l, post, status, rfl, hpre, hl, hs, hr⟩
  · have hsome : ∀ pre l post, ls = pre ++ l :: post → (pre.foldl (apply fid) m).Grants fid l := by
      rintro pre l post rfl
      exact hall.split
    rw [hr]
    simp only [true_and, ne_eq, not_true_eq_false, false_and, or_false]
    rw [applied_iff hall]
    refine ⟨fun h => ⟨fun _ => h, fun pre l post he _ hno => absurd (hsome pre l post he) hno, fun pre l post he _ hb => ?_⟩,
      fun h => h.found hall⟩
    exact absurd (hsome pre l post he) (not_grants_of_blank hb)
  · rw [hr]
    simp only [hs, false_and, false_or, ne_eq, not_false_eq_true, true_and, nil_append]
    have hno : ¬m.GrantsAll fid (pre ++ l :: post) := fun hall => hl hall.split
    by_cases hb : l.Blank
    · rw [if_pos hb, foldl_perm_iff hpre]
      refine ⟨fun h => ⟨fun hall => absurd hall hno, fun pre' l' post' he hpre' hl' hb' => ?_,
        fun pre' l' post' he hpre' hb' => ?_⟩, fun h => h.balanced pre l post rfl hpre hb⟩
      · obtain ⟨-, rfl⟩ := fails_unique he hpre hpre' hl hl'
        exact absurd hb hb'
      · obtain ⟨rfl, -⟩ := fails_unique he hpre hpre' hl (not_grants_of_blank hb')
        exact h
    · rw [if_neg hb, undo_perm_iff hpre]
      refine ⟨fun h => ⟨fun hall => absurd hall hno, fun pre' l' post' he hpre' hl' hb' => ?_,
        fun pre' l' post' he hpre' hb' => ?_⟩, fun h => h.kept pre l post rfl hpre hl hb⟩
      · obtain ⟨rfl, -⟩ := fails_unique he hpre hpre' hl hl'
        exact h
      · obtain ⟨-, rfl⟩ := fails_unique he hpre hpre' hl (not_grants_of_blank hb')
        exact absurd hb' hb

end LockManager

/-- `handleLock` on an open: the status and the table that its loop leaves. -/
theorem handleLock_eq {o : Origin} {msg : Bytes} {s : St E} {tr : Tree E} {req : LockRequest} {oh : OpenHandle E}
    (ht : s.c.tree? o.sid o.tid = some tr) (hreq : LockRequest.parse msg = .ok req)
    (hoh : s.c.open? o.sid o.tid req.fileId = some oh) :
    ∃ s', handleLock o msg s = .ok (LockManager.lockElements req.fileId (s.sh.locks oh.path) [] req.locks).1 s' ∧
      s'.sh.locks = Function.update s.sh.locks oh.path
        (LockManager.lockElements req.fileId (s.sh.locks oh.path) [] req.locks).2 := by
  unfold handleLock parsed
  simp only [hreq, withOpen_apply _ ht hoh]
  rw [Go.bind_ok (Go.get_apply s)]
  generalize LockManager.lockElements req.fileId (s.sh.locks oh.path) [] req.locks = r
  obtain ⟨b, hb⟩ := lockAnswer r.1 ⟨{ s.sh with locks := Function.update s.sh.locks oh.path r.2 }, s.c⟩
  exact ⟨_, hb, rfl⟩

/-- **A LOCK is carried out as a whole or not at all** on exactly the tables and requests of
`LockOk`. -/
theorem allOrNothing_iff (o : Origin) (msg : Bytes) (s : St E) (tr : Tree E) (ht : s.c.tree? o.sid o.tid = some tr) :
    AllOrNothing o msg s ↔ ∀ req oh, LockRequest.parse msg = .ok req → s.c.open? o.sid o.tid req.fileId = some oh →
      LockOk (s.sh.locks oh.path) req.fileId req.locks := by
  have hfail : ∀ {status : UInt32}, status ≠ statusSuccess → handleLock o msg s = errBody status s → AllOrNothing o msg s :=
    fun hs h => ⟨_, _, h, .inr ⟨hs, fun path => rfl⟩⟩
  cases hreq : LockRequest.parse msg with
  | panic => exact absurd hreq (LockRequest.parse_safe msg)
  | err e =>
    have hrun : handleLock o msg s = errBody statusInvalidParameter s := by rw [handleLock, hreq]; rfl
    exact iff_of_true (hfail (by decide) hrun) fun req oh h => by cases h
  | ok req =>
    cases hoh : s.c.open? o.sid o.tid req.fileId with
    | none =>
      have hrun : handleLock o msg s = errBody statusInvalidHandle s := by
        rw [Conn.open?, ht] at hoh
        rw [handleLock, hreq, parsed, withOpen, withTree_apply _ ht]
        simp only [show tr.opens.lookup req.fileId = none from hoh]
      refine iff_of_true (hfail (by decide) hrun) fun req' oh h h' => ?_
      cases h
      rw [hoh] at h'
      cases h'
    | some oh =>
      obtain ⟨s', hrun, hlocks⟩ := handleLock_eq ht hreq hoh
      have hpath : s'.sh.locks oh.path = _ := (congrFun hlocks oh.path).trans (Function.update_self ..)
      have hloop := LockManager.lockElements_iff req.fileId (s.sh.locks oh.path) req.locks
      rw [← hpath] at hloop
      constructor
      · rintro ⟨status, s₁, h₁, hkeeps⟩ req' oh' hreq' hoh'
        cases hreq'
        obtain rfl := Option.some.inj (hoh.symm.trans hoh')
        obtain ⟨rfl, rfl⟩ := Outcome.ok.inj (hrun.symm.trans h₁)
        refine hloop.1 ?_
        rcases hkeeps with ⟨hs, req', oh', hreq', hoh', happ⟩ | ⟨hs, hsame⟩
        · rw [hreq] at hreq'
          cases hreq'
          obtain rfl := Option.some.inj (hoh.symm.trans hoh')
          exact .inl ⟨hs, happ⟩
        · exact .inr ⟨hs, Multiset.coe_eq_coe.1 (hsame oh.path)⟩
      · intro h
        refine ⟨_, s', hrun, (hloop.2 (h req oh rfl hoh)).imp (fun h => ⟨h.1, req, oh, hreq, hoh, h.2⟩)
          fun h => ⟨h.1, fun path => ?_⟩⟩
        by_cases hp : path = oh.path
        · subst hp
          exact Multiset.coe_eq_coe.2 h.2
        · rw [hlocks, Function.update_of_ne hp]

/-! ### A table and two requests -/

/-- A LOCK of the given elements. -/
def locksFrame (sid : UInt64) (tid : UInt32) (fid : FileId) (ls : List LockElement) : Bytes :=
  Header.encode { command := cmdLock, sessionId := sid, treeId := tid } ++ put16 48 ++
    put16 (UInt16.ofNat ls.length) ++ zeros 4 ++ fid.1 ++ zeros 24 ++
    ls.flatMap fun l => put64 l.offset ++ put64 l.length ++ put32 l.flags ++ zeros 4

/-- A connection with one open and no locks. -/
def unlockedState : St guestEnv := openedState guestEnv (0 : ℕ) () ⟨[0x73], (), false⟩ (0 : ℕ)

/-- The origin of a LOCK on the open. -/
def lockOrigin : Origin := { conn := 0, sid := 1, tid := 0, cmd := cmdLock }

/-- A LOCK of the first byte. -/
def lockFirst : LockElement := ⟨0, 1, lockFlagExclusiveLock⟩

set_option maxRecDepth 4000 in
/-- The hypothesis of `allOrNothing_iff` is met, and so is the condition by one lock. -/
theorem allOrNothing_iff_first : ∃ tr, unlockedState.c.tree? 1 0 = some tr ∧
    AllOrNothing lockOrigin (locksFrame 1 0 (Arr.zero 16) [lockFirst]) unlockedState := by
  refine ⟨_, rfl, (allOrNothing_iff lockOrigin _ unlockedState _ rfl).2 fun req oh hreq hoh => ?_⟩
  obtain ⟨req', hreq', hlocks⟩ : ∃ req, LockRequest.parse (locksFrame 1 0 (Arr.zero 16) [lockFirst]) = .ok req ∧
      req.locks = [lockFirst] := ⟨_, rfl, by decide⟩
  cases hreq.symm.trans hreq'
  rw [hlocks]
  refine ⟨fun _ pre l post he hu => ?_, fun pre l post he _ _ _ u hu => ?_, fun pre l post he _ hb => ?_⟩
  · obtain ⟨rfl, he⟩ := List.append_eq_cons_iff.1 he.symm |>.resolve_right (by simp)
    cases he
    exact absurd hu (by decide)
  · obtain ⟨rfl, -⟩ := List.append_eq_cons_iff.1 he.symm |>.resolve_right (by simp)
    cases hu
  · obtain ⟨rfl, he⟩ := List.append_eq_cons_iff.1 he.symm |>.resolve_right (by simp)
    cases he
    exact absurd hb (by decide)

set_option maxRecDepth 4000 in
/-- **An element without flags leaves what was locked before it.**  The request is answered
with an error, and its first range stays locked. -/
theorem blank_element_keeps_lock : ¬∀ (E : Env) (o : Origin) (msg : Bytes) (s : St E) (tr : Tree E),
    s.c.tree? o.sid o.tid = some tr → AllOrNothing o msg s := by
  intro hall
  obtain ⟨s₁, hrun, hlen⟩ : ∃ s₁ : St guestEnv,
      handleLock lockOrigin (locksFrame 1 0 (Arr.zero 16) [lockFirst, ⟨0, 1, 0⟩]) unlockedState =
        .ok statusInvalidParameter s₁ ∧ (s₁.sh.locks []).ranges.length = 1 := ⟨_, rfl, by decide⟩
  obtain ⟨status, s', hrun', hkeeps⟩ := hall guestEnv lockOrigin _ unlockedState _ rfl
  obtain ⟨rfl, rfl⟩ := Outcome.ok.inj (hrun.symm.trans hrun')
  rcases hkeeps with ⟨hs, -⟩ | ⟨-, hsame⟩
  · exact absurd hs (by decide)
  · have hcard := congrArg Multiset.card (hsame [])
    rw [Multiset.coe_card, hlen] at hcard
    exact absurd hcard (by decide)

end Server
end SmbServer
