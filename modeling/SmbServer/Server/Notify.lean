/-
# Change notifications

`diffEntries` compares two snapshots of a directory, and `buildChangeNotifyBody` writes the
events it found as FILE_NOTIFY_INFORMATION records.

| event    | name in       | selected by                              |
|----------|---------------|------------------------------------------|
| added    | new only      | `FileName` or `DirName`; the code: always |
| removed  | old only      | `FileName` or `DirName`                  |
| modified | both, other size | `Size`                                |

An added name is reported whatever the filter is, so the comparison is exact only where the
filter selects names or both snapshots have the same ones (`diff_law_iff`).

A record starts with the offset of the next one, which is zero for the last.  The code leaves
it zero in every record and does not align them, so a client that walks the records finds the
first and nothing else (`notify_exact_iff`).
-/

import SmbServer.Server.Async
import SmbServer.Wire.Utf16

namespace SmbServer
namespace Server

open Wire List Option

/-! ### What a comparison is to report -/

/-- The filter selects changes of names. -/
def SelectsNames (filter : UInt32) : Prop := filter &&& (fileNotifyChangeFileName ||| fileNotifyChangeDirName) ≠ 0

/-- The filter selects changes of size. -/
def SelectsSize (filter : UInt32) : Prop := filter &&& fileNotifyChangeSize ≠ 0

/-- The events between two snapshots. -/
inductive Differs (old cur : GoMap GoString UInt64) (filter : UInt32) : NotifyEvent → Prop where
  | added {name : GoString} (hf : SelectsNames filter) (hold : old.lookup name = none) (hcur : (cur.lookup name).isSome) :
      Differs old cur filter ⟨fileActionAdded, name⟩
  | removed {name : GoString} (hf : SelectsNames filter) (hold : (old.lookup name).isSome) (hcur : cur.lookup name = none) :
      Differs old cur filter ⟨fileActionRemoved, name⟩
  | modified {name : GoString} {osz sz : UInt64} (hf : SelectsSize filter) (hold : old.lookup name = some osz)
      (hcur : cur.lookup name = some sz) (hsz : osz ≠ sz) : Differs old cur filter ⟨fileActionModified, name⟩

/-- The comparison of two snapshots is exact.  `curNames` and `oldNames` are the orders in
which they are visited. -/
structure DiffLaw (old cur : GoMap GoString UInt64) (filter : UInt32) (curNames oldNames : List GoString) : Prop where
  once : (diffEntries old cur filter curNames oldNames).Nodup
  exact : ∀ e, e ∈ diffEntries old cur filter curNames oldNames ↔ Differs old cur filter e
  added : ∀ name, ⟨fileActionAdded, name⟩ ∈ diffEntries cur old filter oldNames curNames ↔
    ⟨fileActionRemoved, name⟩ ∈ diffEntries old cur filter curNames oldNames
  removed : ∀ name, ⟨fileActionRemoved, name⟩ ∈ diffEntries cur old filter oldNames curNames ↔
    ⟨fileActionAdded, name⟩ ∈ diffEntries old cur filter curNames oldNames
  same : (∀ name, old.lookup name = cur.lookup name) → diffEntries old cur filter curNames oldNames = []

/-! ### What the code reports -/

section Diff

variable {old cur : GoMap GoString UInt64} {filter : UInt32} {curNames oldNames : List GoString}
variable {name : GoString}

theorem mem_of_perm {m : GoMap GoString UInt64} {names : List GoString} (h : names.Perm m.keys) :
    name ∈ names ↔ (m.lookup name).isSome := by
  rw [h.mem_iff, AList.lookup_isSome]
  rfl

/-- The events of the first loop. -/
def changedEvent (old cur : GoMap GoString UInt64) (filter : UInt32) (name : GoString) : Option NotifyEvent :=
  match old.lookup name with
  | none => some ⟨fileActionAdded, name⟩
  | some osz =>
    if some osz ≠ cur.lookup name ∧ filter &&& fileNotifyChangeSize ≠ 0 then some ⟨fileActionModified, name⟩ else none

/-- The events of the second loop. -/
def removedEvent (cur : GoMap GoString UInt64) (name : GoString) : Option NotifyEvent :=
  if (cur.lookup name).isNone then some ⟨fileActionRemoved, name⟩ else none

theorem diffEntries_eq : diffEntries old cur filter curNames oldNames =
    curNames.filterMap (changedEvent old cur filter) ++
      if filter &&& (fileNotifyChangeFileName ||| fileNotifyChangeDirName) ≠ 0 then oldNames.filterMap (removedEvent cur)
      else [] := rfl

theorem changedEvent_eq_some {e : NotifyEvent} : changedEvent old cur filter name = some e ↔
    (old.lookup name = none ∧ e = ⟨fileActionAdded, name⟩) ∨
      ∃ osz, old.lookup name = some osz ∧ some osz ≠ cur.lookup name ∧ SelectsSize filter ∧ e = ⟨fileActionModified, name⟩ := by
  unfold changedEvent
  cases old.lookup name with
  | none => simp [eq_comm]
  | some osz =>
    dsimp only
    split_ifs with h
    · simp [h.1, SelectsSize, h.2, eq_comm]
    · simp only [false_and, false_or, false_iff, some.injEq]
      rintro ⟨_, rfl, hne, hf, -⟩
      exact h ⟨hne, hf⟩

theorem removedEvent_eq_some {e : NotifyEvent} : removedEvent cur name = some e ↔
    cur.lookup name = none ∧ e = ⟨fileActionRemoved, name⟩ := by
  unfold removedEvent
  split_ifs with h
  · simp [isNone_iff_eq_none.1 h, eq_comm]
  · simp only [false_iff]
    rintro ⟨hnone, -⟩
    exact h (by rw [hnone]; rfl)

/-- **The events of the code**: added names whatever the filter is, and the others as they
are to be. -/
theorem mem_diffEntries (hc : curNames.Perm cur.keys) (ho : oldNames.Perm old.keys) {e : NotifyEvent} :
    e ∈ diffEntries old cur filter curNames oldNames ↔
      (e.action = fileActionAdded ∧ old.lookup e.name = none ∧ (cur.lookup e.name).isSome) ∨
      Differs old cur filter e := by
  rw [diffEntries_eq, mem_append, mem_filterMap]
  constructor
  · rintro (⟨name, hname, h⟩ | h)
    · have hcur := (mem_of_perm hc).1 hname
      rcases changedEvent_eq_some.1 h with ⟨hold, rfl⟩ | ⟨osz, hold, hne, hf, rfl⟩
      · exact .inl ⟨rfl, hold, hcur⟩
      · obtain ⟨sz, hsz⟩ := isSome_iff_exists.1 hcur
        refine .inr (.modified hf hold hsz fun heq => hne ?_)
        rw [hsz, heq]
    · split_ifs at h with hf
      · obtain ⟨name, hname, h⟩ := mem_filterMap.1 h
        obtain ⟨hcur, rfl⟩ := removedEvent_eq_some.1 h
        exact .inr (.removed hf ((mem_of_perm ho).1 hname) hcur)
      · exact absurd h not_mem_nil
  · have hadd : ∀ name, old.lookup name = none → (cur.lookup name).isSome →
        ∃ n ∈ curNames, changedEvent old cur filter n = some ⟨fileActionAdded, name⟩ := fun name hold hcur =>
      ⟨name, (mem_of_perm hc).2 hcur, changedEvent_eq_some.2 (.inl ⟨hold, rfl⟩)⟩
    rintro (⟨haction, hold, hcur⟩ | h)
    · obtain ⟨action, name⟩ := e
      obtain rfl : action = fileActionAdded := haction
      exact .inl (hadd name hold hcur)
    · cases h with
      | added hf hold hcur => exact .inl (hadd _ hold hcur)
      | removed hf hold hcur =>
        refine .inr ?_
        rw [if_pos (show _ ≠ _ from hf)]
        exact mem_filterMap.2 ⟨_, (mem_of_perm ho).2 hold, removedEvent_eq_some.2 ⟨hcur, rfl⟩⟩
      | modified hf hold hcur hsz =>
        refine .inl ⟨_, (mem_of_perm hc).2 (by rw [hcur]; rfl), changedEvent_eq_some.2 (.inr ⟨_, hold, ?_, hf, rfl⟩)⟩
        rw [hcur]
        exact fun heq => hsz (some.inj heq)

theorem changedEvent_name {e : NotifyEvent} (h : changedEvent old cur filter name = some e) :
    e.name = name ∧ e.action ≠ fileActionRemoved := by
  rcases changedEvent_eq_some.1 h with ⟨-, rfl⟩ | ⟨osz, -, -, -, rfl⟩
  · exact ⟨rfl, show fileActionAdded ≠ fileActionRemoved by decide⟩
  · exact ⟨rfl, show fileActionModified ≠ fileActionRemoved by decide⟩

theorem nodup_diffEntries (hc : curNames.Perm cur.keys) (ho : oldNames.Perm old.keys) :
    (diffEntries old cur filter curNames oldNames).Nodup := by
  have hchanged : (curNames.filterMap (changedEvent old cur filter)).Nodup :=
    (hc.nodup_iff.2 cur.keys_nodup).filterMap fun name name' e h h' =>
      (changedEvent_name h).1.symm.trans (changedEvent_name h').1
  have hremoved : (oldNames.filterMap (removedEvent cur)).Nodup := by
    refine (ho.nodup_iff.2 old.keys_nodup).filterMap fun name name' e h h' => ?_
    obtain ⟨-, rfl⟩ := removedEvent_eq_some.1 h
    obtain ⟨-, heq⟩ := removedEvent_eq_some.1 h'
    exact congrArg NotifyEvent.name heq
  rw [diffEntries_eq]
  split_ifs with hf
  · refine hchanged.append hremoved fun e h h' => ?_
    obtain ⟨name, -, h⟩ := mem_filterMap.1 h
    obtain ⟨name', -, h'⟩ := mem_filterMap.1 h'
    obtain ⟨-, rfl⟩ := removedEvent_eq_some.1 h'
    exact (changedEvent_name h).2 rfl
  · rwa [append_nil]

theorem removed_mem_diffEntries (hc : curNames.Perm cur.keys) (ho : oldNames.Perm old.keys) :
    ⟨fileActionRemoved, name⟩ ∈ diffEntries old cur filter curNames oldNames ↔
      SelectsNames filter ∧ (old.lookup name).isSome ∧ cur.lookup name = none := by
  rw [mem_diffEntries hc ho]
  constructor
  · rintro (⟨h, -⟩ | h)
    · exact absurd h (show fileActionRemoved ≠ fileActionAdded by decide)
    · cases h with
      | removed hf hold hcur => exact ⟨hf, hold, hcur⟩
  · rintro ⟨hf, hold, hcur⟩
    exact .inr (.removed hf hold hcur)

theorem added_mem_diffEntries (hc : curNames.Perm cur.keys) (ho : oldNames.Perm old.keys) :
    ⟨fileActionAdded, name⟩ ∈ diffEntries old cur filter curNames oldNames ↔
      old.lookup name = none ∧ (cur.lookup name).isSome := by
  rw [mem_diffEntries hc ho]
  constructor
  · rintro (⟨-, h⟩ | h)
    · exact h
    · cases h with
      | added hf hold hcur => exact ⟨hold, hcur⟩
  · exact fun h => .inl ⟨rfl, h⟩

end Diff

/-- **The comparison is exact where the filter selects names or the names are the same**, and
nowhere else. -/
theorem diff_law_iff (old cur : GoMap GoString UInt64) (filter : UInt32) (curNames oldNames : List GoString)
    (hc : curNames.Perm cur.keys) (ho : oldNames.Perm old.keys) :
    DiffLaw old cur filter curNames oldNames ↔
      SelectsNames filter ∨ ∀ name, (old.lookup name).isSome = (cur.lookup name).isSome := by
  constructor
  · intro h
    by_cases hf : SelectsNames filter
    · exact .inl hf
    · refine .inr fun name => ?_
      have hno : ∀ name, ¬Differs old cur filter ⟨fileActionAdded, name⟩ := by
        rintro name (hsel | _ | _)
        exact hf hsel
      cases hold : old.lookup name with
      | none =>
        cases hcur : cur.lookup name with
        | none => rfl
        | some sz => exact absurd ((h.exact _).1 ((added_mem_diffEntries hc ho).2 ⟨hold, by rw [hcur]; rfl⟩)) (hno name)
      | some osz =>
        cases hcur : cur.lookup name with
        | some sz => rfl
        | none =>
          have hadded := (h.added name).1 ((added_mem_diffEntries ho hc).2 ⟨hcur, by rw [hold]; rfl⟩)
          exact absurd ((removed_mem_diffEntries hc ho).1 hadded).1 hf
  · intro h
    -- Where the names are the same, no name is in one snapshot only.
    have hnames : ∀ {name}, old.lookup name = none → (cur.lookup name).isSome → SelectsNames filter := by
      intro name hold hcur
      rcases h with hf | hsame
      · exact hf
      · rw [← hsame name, hold] at hcur
        cases hcur
    have hnames' : ∀ {name}, cur.lookup name = none → (old.lookup name).isSome → SelectsNames filter := by
      intro name hcur hold
      rcases h with hf | hsame
      · exact hf
      · rw [hsame name, hcur] at hold
        cases hold
    refine ⟨nodup_diffEntries hc ho, fun e => ?_, fun name => ?_, fun name => ?_, fun heq => ?_⟩
    · rw [mem_diffEntries hc ho]
      refine ⟨fun h => h.elim (fun h => ?_) id, .inr⟩
      obtain ⟨action, name⟩ := e
      obtain rfl : action = fileActionAdded := h.1
      exact .added (hnames h.2.1 h.2.2) h.2.1 h.2.2
    · rw [added_mem_diffEntries ho hc, removed_mem_diffEntries hc ho]
      exact ⟨fun h => ⟨hnames' h.1 h.2, h.2, h.1⟩, fun h => ⟨h.2.2, h.2.1⟩⟩
    · rw [removed_mem_diffEntries ho hc, added_mem_diffEntries hc ho]
      exact ⟨fun h => ⟨h.2.2, h.2.1⟩, fun h => ⟨hnames h.1 h.2, h.2, h.1⟩⟩
    · refine List.eq_nil_iff_forall_not_mem.2 fun e he => ?_
      rcases (mem_diffEntries hc ho).1 he with ⟨-, hold, hcur⟩ | hdiff
      · rw [← heq, hold] at hcur
        cases hcur
      · cases hdiff with
        | added hf hold hcur =>
          rw [← heq, hold] at hcur
          cases hcur
        | removed hf hold hcur =>
          rw [heq, hcur] at hold
          cases hold
        | modified hf hold hcur hsz =>
          rw [heq, hcur] at hold
          exact hsz (Option.some.inj hold).symm

/-- A name that was added, for a client that asked for names. -/
theorem diff_law_names : ∃ cur : GoMap GoString UInt64, [[0x66]].Perm cur.keys ∧
    DiffLaw ∅ cur fileNotifyChangeFileName [[0x66]] [] := by
  let cur : GoMap GoString UInt64 := (∅ : GoMap GoString UInt64).insert [0x66] 1
  have hc : [[0x66]].Perm cur.keys := .refl _
  exact ⟨cur, hc, (diff_law_iff ∅ cur fileNotifyChangeFileName [[0x66]] [] hc (.refl _)).2
    (.inl (show fileNotifyChangeFileName &&& (fileNotifyChangeFileName ||| fileNotifyChangeDirName) ≠ 0 by decide))⟩

/-- **A client that asked for sizes is told of a new name.** -/
theorem diff_ignores_filter : ¬∀ (old cur : GoMap GoString UInt64) (filter : UInt32) (curNames oldNames : List GoString),
    curNames.Perm cur.keys → oldNames.Perm old.keys → DiffLaw old cur filter curNames oldNames := by
  intro h
  have hlaw := h ∅ ((∅ : GoMap GoString UInt64).insert [0x66] 1) fileNotifyChangeSize [[0x66]] [] (.refl _) (.refl _)
  have hdiff := (hlaw.exact ⟨fileActionAdded, [0x66]⟩).1 (by decide)
  cases hdiff with
  | added hf => exact hf (by decide)

/-! ### Records -/

/-- The records of a FILE_NOTIFY_INFORMATION buffer, each an action and the UTF-16 of a name:
a record is followed to the next one, which is aligned, until there is none. -/
def notifyRecords : ℕ → Bytes → Option (List (UInt32 × Bytes))
  | 0, _ => none
  | fuel + 1, b =>
    let next := u32At b 0
    let len := (u32At b 8).toNat
    if b.length < 12 + len then none
    else if next = 0 then some [(u32At b 4, slice b 12 len)]
    else if next.toNat % 4 ≠ 0 then none
    else (notifyRecords fuel (b.drop next.toNat)).map ((u32At b 4, slice b 12 len) :: ·)

/-- An empty buffer has no records. -/
def decodeNotify (b : Bytes) : Option (List (UInt32 × Bytes)) := if b = [] then some [] else notifyRecords b.length b

/-- The bytes of the record of an event. -/
def recordSize (e : NotifyEvent) : ℕ := 12 + (utf16ToBytes e.name).length

/-- The bytes of the records of some events, each but the last filled up to a multiple of
four. -/
def recordsSize : List NotifyEvent → ℕ
  | [] => 0
  | [e] => recordSize e
  | e :: e' :: es => (recordSize e + 3) / 4 * 4 + recordsSize (e' :: es)

/-- The longest part of the events whose records fit. -/
structure LongestPrefix (maxLen : ℕ) (events : List NotifyEvent) (k : ℕ) : Prop where
  le : k ≤ events.length
  fits : recordsSize (events.take k) ≤ maxLen
  longest : ∀ k', k < k' → k' ≤ events.length → maxLen < recordsSize (events.take k')

/-- The record is that of the event. -/
def IsRecordOf (r : UInt32 × Bytes) (e : NotifyEvent) : Prop :=
  r.1 = e.action ∧ ∃ cs, e.name = utf8 cs ∧ r.2 = utf16le cs

/-- The client finds the longest part of the events that fits. -/
def NotifyExact (maxLen : UInt32) (events : List NotifyEvent) : Prop :=
  ∃ k records, LongestPrefix maxLen.toNat events k ∧
    decodeNotify (buildChangeNotifyBody maxLen [] events) = some records ∧
    List.Forall₂ IsRecordOf records (events.take k)

/-- One record fits and its name survives, or none fits and its length does not wrap round. -/
def NotifyOk (maxLen : UInt32) : List NotifyEvent → Prop
  | [] => True
  | e :: es =>
    if recordSize e ≤ maxLen.toNat then
      (∀ e' es', es = e' :: es' → maxLen.toNat < recordsSize [e, e']) ∧
        ∃ cs, e.name = utf8 cs ∧ ∀ c ∈ cs, c.toNat < 0x10000
    else maxLen.toNat < recordSize e % 2 ^ 32

/-- The record of an event, as the code writes it. -/
def notifyRecord (e : NotifyEvent) : Bytes :=
  zeros 4 ++ put32 e.action ++ put32 (UInt32.ofNat (utf16ToBytes e.name).length) ++ utf16ToBytes e.name

theorem buildChangeNotifyBody_append (maxLen : UInt32) (events : List NotifyEvent) (out : Bytes) :
    ∃ rest, buildChangeNotifyBody maxLen out events = out ++ rest := by
  induction events generalizing out with
  | nil => exact ⟨[], (append_nil out).symm⟩
  | cons e es ih =>
    unfold buildChangeNotifyBody
    dsimp only
    split_ifs with h
    · exact ⟨[], (append_nil out).symm⟩
    · obtain ⟨rest, hrest⟩ := ih (out ++ zeros 4 ++ put32 e.action ++ put32 (UInt32.ofNat (utf16ToBytes e.name).length) ++
        utf16ToBytes e.name)
      refine ⟨notifyRecord e ++ rest, ?_⟩
      rw [hrest, notifyRecord]
      simp only [append_assoc]

theorem buildChangeNotifyBody_cons (maxLen : UInt32) (e : NotifyEvent) (es : List NotifyEvent) :
    (maxLen.toNat < recordSize e % 2 ^ 32 ∧ buildChangeNotifyBody maxLen [] (e :: es) = []) ∨
      (recordSize e % 2 ^ 32 ≤ maxLen.toNat ∧ ∃ rest, buildChangeNotifyBody maxLen [] (e :: es) = notifyRecord e ++ rest) := by
  have hsize : (UInt32.ofNat (([] : Bytes).length + 12 + (utf16ToBytes e.name).length)).toNat = recordSize e % 2 ^ 32 := by
    rw [UInt32.toNat_ofNat', length_nil, Nat.zero_add]
    rfl
  unfold buildChangeNotifyBody
  dsimp only
  split_ifs with h
  · refine .inl ⟨?_, rfl⟩
    rwa [UInt32.lt_iff_toNat_lt, hsize] at h
  · refine .inr ⟨?_, buildChangeNotifyBody_append ..⟩
    rwa [UInt32.lt_iff_toNat_lt, hsize, Nat.not_lt] at h

theorem notifyRecords_ne_nil {fuel : ℕ} {b : Bytes} {rs : List (UInt32 × Bytes)} (h : notifyRecords fuel b = some rs) :
    rs ≠ [] := by
  cases fuel with
  | zero => cases h
  | succ fuel =>
    unfold notifyRecords at h
    dsimp only at h
    split_ifs at h
    · cases h
      exact cons_ne_nil _ _
    · obtain ⟨rs', -, rfl⟩ := map_eq_some_iff.1 h
      exact cons_ne_nil _ _

/-- **A client finds the first record only.** -/
theorem decodeNotify_record {e : NotifyEvent} (rest : Bytes) (h : recordSize e < 2 ^ 32) :
    decodeNotify (notifyRecord e ++ rest) = some [(e.action, utf16ToBytes e.name)] := by
  let name := utf16ToBytes e.name
  let b : Bytes := zeros 4 ++ (put32 e.action ++ (put32 (UInt32.ofNat name.length) ++ (name ++ rest)))
  have hb : notifyRecord e ++ rest = b := by simp only [notifyRecord, b, name, append_assoc]
  have hname : name.length < 2 ^ 32 := lt_of_le_of_lt (Nat.le_add_left ..) h
  have hnext : u32At b 0 = 0 := u32At_of_slice (slice_head _ rfl)
  have haction : u32At b 4 = e.action := by
    refine u32At_of_slice ?_
    rw [slice_append_right _ _ (by simp), length_zeros]
    exact slice_head _ (length_put32 _)
  have hlen : (u32At b 8).toNat = name.length := by
    have hslice : u32At b 8 = UInt32.ofNat name.length := by
      refine u32At_of_slice ?_
      rw [slice_append_right _ _ (by simp), length_zeros, slice_append_right _ _ (by simp), length_put32]
      exact slice_head _ (length_put32 _)
    rw [hslice]
    exact UInt32.toNat_ofNat_of_lt' hname
  have hslice : slice b 12 name.length = name := by
    rw [slice_append_right _ _ (by simp), length_zeros, slice_append_right _ _ (by simp), length_put32,
      slice_append_right _ _ (by simp), length_put32]
    exact slice_head _ rfl
  have hlong : b.length = 12 + name.length + rest.length := by
    simp only [b, length_append, length_zeros, length_put32]
    omega
  obtain ⟨fuel, hfuel⟩ : ∃ fuel, b.length = fuel + 1 := ⟨11 + name.length + rest.length, by omega⟩
  have hne : b ≠ [] := ne_nil_of_length_eq_add_one hfuel
  rw [hb, decodeNotify, if_neg hne, hfuel, notifyRecords]
  rw [hnext, haction, hlen, if_neg (by omega), if_pos rfl, hslice]

theorem recordSize_le (e : NotifyEvent) (es : List NotifyEvent) : recordSize e ≤ recordsSize (e :: es) := by
  cases es with
  | nil => exact le_rfl
  | cons e' es =>
    rw [recordsSize]
    omega

/-- **The client finds the longest part of the events that fits where `NotifyOk` holds**, and
nowhere else. -/
theorem notify_exact_iff (maxLen : UInt32) (events : List NotifyEvent) :
    NotifyExact maxLen events ↔ NotifyOk maxLen events := by
  have hmax : maxLen.toNat < 2 ^ 32 := maxLen.toNat_lt
  cases events with
  | nil =>
    refine iff_of_true ⟨0, [], ⟨le_rfl, Nat.zero_le _, fun k' h h' => ?_⟩, rfl, .nil⟩ trivial
    rw [List.length_nil] at h'
    omega
  | cons e es =>
    have hwritten := buildChangeNotifyBody_cons maxLen e es
    rw [NotifyOk]
    split_ifs with hfits
    · -- The first record fits, and is all the client finds.
      rw [Nat.mod_eq_of_lt (by omega)] at hwritten
      obtain ⟨rest, hbody⟩ : ∃ rest, buildChangeNotifyBody maxLen [] (e :: es) = notifyRecord e ++ rest :=
        hwritten.elim (fun h => absurd h.1 (by omega)) fun h => h.2
      have hdecode := decodeNotify_record (e := e) rest (by omega)
      constructor
      · rintro ⟨k, records, hk, hrecords, hall⟩
        rw [hbody, hdecode] at hrecords
        obtain rfl := Option.some.inj hrecords
        have hone : k = 1 := by
          have hlen := hall.length_eq
          have hle := hk.le
          rw [List.length_singleton, List.length_take] at hlen
          omega
        subst hone
        obtain ⟨-, cs, hname, hutf⟩ := (List.forall₂_cons.1 hall).1
        refine ⟨fun e' es' hes => ?_, cs, hname, low_of_utf16ToBytes ?_⟩
        · subst hes
          exact hk.longest 2 (by omega) (by simp)
        · rw [← hname]
          exact hutf
      · rintro ⟨hsecond, cs, hname, hlow⟩
        refine ⟨1, _, ⟨by simp, hfits, fun k' hk' hle => ?_⟩, hbody ▸ hdecode, .cons ⟨rfl, cs, hname, ?_⟩ .nil⟩
        · obtain ⟨k, rfl⟩ : ∃ k, k' = k + 2 := ⟨k' - 2, by omega⟩
          cases es with
          | nil =>
            rw [List.length_singleton] at hle
            omega
          | cons e' es' =>
            have htwo := hsecond e' es' rfl
            have := recordSize_le e' (es'.take k)
            rw [recordsSize, recordsSize] at htwo
            rw [List.take_succ_cons, List.take_succ_cons, recordsSize]
            omega
        · rw [hname]
          exact (lossless_of_low hlow).toBytes
    · -- No record fits.
      constructor
      · rintro ⟨k, records, hk, hrecords, hall⟩
        have hzero : k = 0 := by
          cases k with
          | zero => rfl
          | succ k =>
            have := recordSize_le e (es.take k)
            have := hk.fits
            rw [List.take_succ_cons] at this
            omega
        subst hzero
        rw [List.take_zero, List.forall₂_nil_right_iff] at hall
        subst hall
        rcases hwritten with ⟨h, -⟩ | ⟨-, rest, hbody⟩
        · exact h
        · rw [hbody, decodeNotify] at hrecords
          split_ifs at hrecords with hnil
          · have hlen := congrArg List.length hnil
            simp [notifyRecord] at hlen
          · exact absurd rfl (notifyRecords_ne_nil hrecords)
      · intro h
        have hbody : buildChangeNotifyBody maxLen [] (e :: es) = [] :=
          hwritten.elim (fun h => h.2) fun h' => absurd h'.1 (by omega)
        refine ⟨0, [], ⟨Nat.zero_le _, Nat.zero_le _, fun k' hk' hle => ?_⟩, by rw [hbody]; rfl, .nil⟩
        obtain ⟨k, rfl⟩ : ∃ k, k' = k + 1 := ⟨k' - 1, by omega⟩
        have := recordSize_le e (es.take k)
        rw [List.take_succ_cons]
        omega

/-- **Of two files that were removed, the client hears of one.** -/
theorem notify_loses_second : ¬∀ (maxLen : UInt32) (events : List NotifyEvent), NotifyExact maxLen events := by
  intro h
  obtain ⟨k, records, hk, hrecords, hall⟩ := h 64 [⟨fileActionRemoved, [0x61]⟩, ⟨fileActionRemoved, [0x62]⟩]
  obtain rfl := Option.some.inj (hrecords.symm.trans (show _ = some [(fileActionRemoved, [0x61, 0x00])] by decide))
  have hlen := hall.length_eq
  have hle := hk.le
  have hone : k = 1 := by
    rw [List.length_singleton, List.length_take] at hlen
    omega
  exact absurd (hk.longest 2 (by omega) (by decide)) (by decide)

end Server
end SmbServer
