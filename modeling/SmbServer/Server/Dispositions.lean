/-
# Dispositions of a CREATE

What a CREATE of a file on a local backend is to do, by its disposition:

| disposition    | file there                   | nothing there | the code                          |
|----------------|------------------------------|---------------|-----------------------------------|
| `supersede`    | emptied, "superseded"        | "created"     | "overwritten", and no writes      |
| `openFile`     | as it is, "opened"           | fails         | so                                |
| `create`       | fails                        | "created"     | no writes to the new file         |
| `openIf`       | as it is, "opened"           | "created"     | fails where nothing is there      |
| `overwrite`    | emptied, "overwritten"       | fails         | "opened", and creates the file    |
| `overwriteIf`  | emptied, "overwritten"       | "created"     | "overwritten" for a new file      |

`getFlags` of `smb/vfs/vfs.go` asks for a handle to write with only for some of them, and
`handleCreate` of `smb/server/dispatch.go` has a table of its own for what it says was done.
`create_table_iff` lists the cases in which the two together do what the table says.
-/

import SmbServer.Lib.Resolution
import SmbServer.Server.TableKeys

namespace SmbServer
namespace Server

open Wire Vfs FileTree Function List Option

/-! ### The table -/

inductive Disposition where
  | supersede
  | openFile
  | create
  | openIf
  | overwrite
  | overwriteIf
  deriving DecidableEq

def fileSuperseded : UInt32 := 0x00000000

namespace Disposition

/-- The value in the request. -/
def code : Disposition → UInt32
  | supersede => 0
  | openFile => 1
  | create => 2
  | openIf => 3
  | overwrite => 4
  | overwriteIf => 5

/-- Whether the CREATE is to succeed. -/
def succeeds (found : Bool) : Disposition → Bool
  | openFile | overwrite => found
  | create => !found
  | supersede | openIf | overwriteIf => true

/-- The content of the file afterwards. -/
def content (before : Option Bytes) : Disposition → Bytes
  | openFile | create | openIf => before.getD []
  | supersede | overwrite | overwriteIf => []

/-- What the response is to say. -/
def action (found : Bool) (d : Disposition) : UInt32 :=
  if found then
    match d with
    | supersede => fileSuperseded
    | openFile | create | openIf => fileOpened
    | overwrite | overwriteIf => fileOverwritten
  else fileCreated

end Disposition

/-- A path leads to the place `q`, and a file with that content or nothing is there. -/
structure LeadsTo (b : LocalBackend) (fs : Files) (path : GoString) (q : List GoString) (content : Option Bytes) : Prop where
  place : ∃ full, b.fullPath fs path = .ok full ∧ fs.locate false full = .ok q
  kind : fs.kindAt q = content.map .file

variable {E : Env}

/-- What is written through a handle is read back. -/
def WritesBack (h : E.Handle) (w : E.World) : Prop :=
  ∀ (off : ℕ) (data : Bytes), ∃ w', E.write h off data w = (.ok data.length, w') ∧
    (E.read h off data.length w').1 = (data, none)

section

variable {glob : GoString → GoString → Option Bool} {o : Origin} {msg : Bytes} {last : FileId}
  {s : St (localEnv glob E)}

/-- A CREATE does what the table says. -/
def Realises (o : Origin) (msg : Bytes) (last : FileId) (s : St (localEnv glob E)) (d : Disposition) (q : List GoString)
    (content : Option Bytes) : Prop :=
  ∃ status fid s', handleCreate o msg last s = .ok (status, fid) s' ∧
    (status = statusSuccess ↔ d.succeeds content.isSome = true) ∧
    (status ≠ statusSuccess → s'.sh.world.1.fs = s.sh.world.1.fs ∧ s'.c.sessions = s.c.sessions) ∧
    (status = statusSuccess → s'.sh.world.1.fs.kindAt q = some (.file (d.content content)) ∧
      u32At (s'.c.out.drop s.c.out.length) 4 = d.action content.isSome ∧
      ∃ oh, s'.c.open? o.sid o.tid fid = some oh ∧ WritesBack oh.h s'.sh.world)

end

/-! ### What `handleCreate` does with the answer of the backend -/

theorem u32At_createResponse (r : CreateResponse) : u32At r.encode 4 = r.createAction := by
  rw [CreateResponse.encode]
  simp only [append_assoc]
  rw [u32At_append_right _ (by simp), u32At_append_right _ (by simp)]
  exact u32At_put32 _ _

section Handler

variable {o : Origin} {req : CreateRequest} {s : St E} {tr : Tree E} (last : FileId)

theorem createFile_refused (htr : s.c.tree? o.sid o.tid = some tr) (hro : (tr.share.readOnly && writesToShare req) = true) :
    ∃ s', createFile o req last s = .ok (statusAccessDenied, last) s' ∧ s'.sh.world = s.sh.world ∧
      s'.c.sessions = s.c.sessions := by
  rw [createFile, withTree_apply _ htr, if_pos hro]
  exact ⟨_, rfl, rfl, rfl⟩

theorem createFile_failed (htr : s.c.tree? o.sid o.tid = some tr) (hro : (tr.share.readOnly && writesToShare req) = false)
    {e : OsError} {w : E.World} (hopen : E.openFile tr.share.backend (openOptions req) s.sh.world = (.error e, w)) :
    ∃ s', createFile o req last s = .ok (osErrToStatus e, last) s' ∧ s'.sh.world = w ∧ s'.c.sessions = s.c.sessions := by
  rw [createFile, withTree_apply _ htr, if_neg (by rw [hro]; decide), Go.bind_ok (call_ok hopen)]
  exact ⟨_, rfl, rfl, rfl⟩

theorem createFile_opened (htr : s.c.tree? o.sid o.tid = some tr) (hro : (tr.share.readOnly && writesToShare req) = false)
    {h : E.Handle} {w w' : E.World} {fi : FileInfo}
    (hopen : E.openFile tr.share.backend (openOptions req) s.sh.world = (.ok h, w)) (hstat : E.stat h w = (.ok fi, w')) :
    ∃ fid s', createFile o req last s = .ok (statusSuccess, fid) s' ∧ s'.sh.world = w' ∧
      u32At (s'.c.out.drop s.c.out.length) 4 = createAction req.createDisposition ∧
      ∃ oh, s'.c.open? o.sid o.tid fid = some oh ∧ oh.h = h := by
  rw [createFile, withTree_apply _ htr, if_neg (by rw [hro]; decide), Go.bind_ok (call_ok hopen)]
  dsimp only
  rw [Go.bind_ok (call_ok hstat)]
  dsimp only
  let s1 : St E := { s with sh := { s.sh with
    world := w', trace := .call (some o) (.stat h) :: .call (some o) (.openFile tr.share (openOptions req) (.ok h)) ::
      s.sh.trace } }
  obtain ⟨r, s2, hreg⟩ : ∃ r s2, registerOpen o tr req h s1 = .ok r s2 := ⟨_, _, rfl⟩
  rw [Go.bind_ok hreg]
  have hopen2 := registerOpen_open? (s := s1) htr hreg o.sid o.tid r.1
  rw [if_pos ⟨rfl, rfl, rfl⟩] at hopen2
  simp only [registerOpen, Outcome.ok.injEq] at hreg
  obtain ⟨rfl, rfl⟩ := hreg
  refine ⟨_, _, rfl, Shared.requestOplock_world .., ?_, _, hopen2, rfl⟩
  show u32At ((s.c.out ++ CreateResponse.encode _).drop s.c.out.length) 4 = _
  rw [drop_left, u32At_createResponse]

end Handler

/-! ### What the backend does with a file or nothing -/

/-- What `open` makes of a file or of nothing: the content afterwards and whether the handle
may write, or nothing if it fails. -/
def openOutcome (flags : FS.OpenFlags) : Option Bytes → Option (Bytes × Bool)
  | none => if flags.create then some ([], flags.write) else none
  | some content => if flags.create && flags.excl then none else some (if flags.trunc then [] else content, flags.write)

/-- A handle on a file. -/
structure Holds (h : LocalHandle) (fs : Files) (q : List GoString) (content : Bytes) (writes : Bool) : Prop where
  writable : h.writable = writes
  live : h.closed = false
  name : fs.names q = some h.file
  kind : (fs.inode h.file).kind = .file content

section Backend

variable {b : LocalBackend} {fs : Files} {opts : OpenOptions} {q : List GoString} {content : Option Bytes}

/-- What an open of the backend comes to. -/
inductive Opens (b : LocalBackend) (opts : OpenOptions) (now : Time) (fs : Files) (q : List GoString) :
    Option (Bytes × Bool) → Prop where
  | failed {e : OsError} (h : b.openFile opts now fs = (.error e, fs)) : Opens b opts now fs q none
  | opened {h : LocalHandle} {fs' : Files} {r : Bytes × Bool} (hopen : b.openFile opts now fs = (.ok h, fs'))
      (hholds : Holds h fs' q r.1 r.2) : Opens b opts now fs q (some r)

/-- **The local backend opens what the flags of the disposition open.** -/
theorem LeadsTo.opens (hto : LeadsTo b fs opts.path q content) (hdir : opts.createDir = false) (now : Time) :
    Opens b opts now fs q (openOutcome (getFlags opts.disposition) content) := by
  obtain ⟨⟨full, hfull, hq⟩, hkind⟩ := hto
  generalize hflags : getFlags opts.disposition = flags
  have hlocate : fs.locate true full = .ok q := by
    refine fs.locate_unlinked hq (fun t ht => ?_) true
    rw [hkind] at ht
    cases content <;> cases ht
  -- The path leads to no directory, so the handle writes where the flags say so.
  have hopen : b.openFile opts now fs = b.openAt full flags now fs := by
    have hkeep : ∀ {isDir : Bool}, isDir = false → ({ flags with write := flags.write && !isDir } : FS.OpenFlags) = flags := by
      rintro isDir rfl
      rw [Bool.not_false, Bool.and_true]
    rw [LocalBackend.openFile, hfull, hflags]
    dsimp only
    rw [hdir, if_neg (by decide), FS.stat, hlocate]
    dsimp only
    cases hn : fs.names q with
    | none => exact congrArg (b.openAt full · now fs) (hkeep rfl)
    | some i =>
      have hfile : (fs.inode i).kind.isDir = false := by
        rw [FS.kindAt, hn, map_some] at hkind
        obtain ⟨c, -, hc⟩ := map_eq_some_iff.1 hkind.symm
        rw [← hc]
        rfl
      exact congrArg (b.openAt full · now fs) (hkeep hfile)
  cases content with
  | none =>
    have hfree : fs.names q = none := fs.kindAt_eq_none_iff.1 hkind
    obtain ⟨hne, hparent⟩ := fs.free_of_locate hq hfree
    have hrun := fs.openFile_absent hq hfree flags ⟨now, now, 0o644⟩
    unfold openOutcome
    cases hc : flags.create with
    | false =>
      rw [hc, if_neg (by decide)] at hrun
      refine .failed (e := .notExist) ?_
      rw [hopen, LocalBackend.openAt, hrun]
      rfl
    | true =>
      rw [hc, if_pos rfl] at hrun
      obtain ⟨hnames, hinode⟩ := fs.add_apply ⟨.file [], ⟨now, now, 0o644⟩⟩ hne hparent hfree
      have hopened : b.openFile opts now fs = (.ok ⟨b, fs.next, flags.write, full, full, base full, false⟩,
          fs.add q ⟨.file [], ⟨now, now, 0o644⟩⟩) := by
        rw [hopen, LocalBackend.openAt, hrun]
      refine .opened hopened ⟨rfl, rfl, ?_, ?_⟩
      · rw [hnames, update_self]
      · rw [hinode, update_self]
  | some c =>
    obtain ⟨i, hi, hk⟩ := map_eq_some_iff.1 hkind
    have hrun := fs.openFile_file hq hi hk flags ⟨now, now, 0o644⟩
    unfold openOutcome
    dsimp only
    cases hx : flags.create && flags.excl with
    | true =>
      rw [hx, if_pos rfl] at hrun
      refine .failed (e := .exist) ?_
      rw [hopen, LocalBackend.openAt, hrun]
      rfl
    | false =>
      rw [hx, if_neg (by decide)] at hrun
      rw [if_neg (by decide)]
      have hopened : b.openFile opts now fs = (.ok ⟨b, i, flags.write, full, full, base full, false⟩,
          if flags.trunc then fs.setContent i [] else fs) := by
        rw [hopen, LocalBackend.openAt, hrun]
      refine .opened hopened ⟨rfl, rfl, ?_, ?_⟩
      · split_ifs
        · rw [fs.names_setContent]
          exact hi
        · exact hi
      · split_ifs
        · exact fs.kind_setContent (by rw [hk]; rfl) []
        · exact hk

end Backend

/-! ### Writing and reading back -/

theorem slice_writeAt (content : Bytes) (off : ℕ) (data : Bytes) :
    ((writeAt content off data).drop off).take data.length = data := by
  have hlen : (content ++ zeros (off - content.length)).length ≥ off := by
    rw [length_append, length_zeros]
    omega
  unfold writeAt
  dsimp only
  rw [append_assoc, drop_left' (by rw [length_take, min_eq_left hlen]), take_left]

section Handle

variable {h : LocalHandle} {fs : Files} {q : List GoString} {content : Bytes} {writes : Bool}

/-- What a handle that may write has written is read back. -/
theorem Holds.write_read (hh : Holds h fs q content true) (off : ℕ) (data : Bytes) (now : Time) :
    ∃ fs', h.write off data now fs = (.ok data.length, fs') ∧ h.read off data.length fs' = (data, none) := by
  have hpos : ¬(off : ℤ) < 0 := by omega
  by_cases hdata : data = []
  · subst hdata
    refine ⟨fs, ?_, ?_⟩
    · rw [LocalHandle.write, if_neg hpos, if_pos rfl]
      rfl
    · rw [LocalHandle.read, if_neg hpos, if_pos (length_nil (α := UInt8))]
  · have hlen : data.length ≠ 0 := fun h => hdata (length_eq_zero_iff.1 h)
    have hkind : ((h.store (writeAt content off data) now fs).inode h.file).kind = .file (writeAt content off data) := by
      rw [LocalHandle.store, FS.kind_setAttrs]
      exact fs.kind_setContent (by rw [hh.kind]; rfl) _
    refine ⟨h.store (writeAt content off data) now fs, ?_, ?_⟩
    · rw [LocalHandle.write, if_neg hpos, if_neg hdata, hh.live, if_neg (by decide), hh.writable, if_neg (by decide), hh.kind]
      rfl
    · rw [LocalHandle.read, if_neg hpos, if_neg hlen, hh.live, if_neg (by decide), hkind]
      dsimp only
      rw [Int.toNat_natCast, slice_writeAt, if_neg (Nat.lt_irrefl _)]

theorem Holds.write_refused (hh : Holds h fs q content false) (now : Time) :
    h.write 0 [0] now fs = (.error .other, fs) := by
  rw [LocalHandle.write, if_neg (by decide), if_neg (by decide), hh.live, if_neg (by decide), hh.writable, if_pos (by decide)]

end Handle

variable {glob : GoString → GoString → Option Bool}

/-- **A handle of the local backend writes back if it was opened for writing.** -/
theorem writesBack_iff {d : Disk} {k : ℕ} {h : LocalHandle} {q : List GoString} {content : Bytes} {writes : Bool}
    (hk : d.handles[k]? = some h) (hh : Holds h d.fs q content writes) (w : E.World) :
    WritesBack (E := localEnv glob E) (.inl k) (d, w) ↔ writes = true := by
  have hwrite : ∀ off data, d.write k off data = ((h.write off data d.now d.fs).1, d.setFs (h.write off data d.now d.fs).2) := by
    intro off data
    rw [Disk.write, Disk.withHandle, hk]
  have hread : ∀ fs off n, ((d.setFs fs).read k off n).1 = h.read off n fs := by
    intro fs off n
    rw [Disk.read, Disk.withHandle, show (d.setFs fs).handles[k]? = some h from hk]
    rfl
  cases writes with
  | true =>
    refine iff_of_true (fun off data => ?_) rfl
    obtain ⟨fs', hw, hr⟩ := hh.write_read off data d.now
    refine ⟨(d.setFs fs', w), ?_, (hread fs' off data.length).trans hr⟩
    show ((d.write k off data).1, (d.write k off data).2, w) = _
    rw [hwrite, hw]
    rfl
  | false =>
    refine iff_of_false (fun hback => ?_) (by decide)
    obtain ⟨w', hw, -⟩ := hback 0 [0]
    have hfail : (d.write k (0 : ℕ) [0]).1 = .error .other := by
      rw [hwrite]
      exact congrArg Prod.fst (hh.write_refused d.now)
    have hok : ((localEnv glob E).write (.inl k) (0 : ℕ) [0] (d, w)).1 = .ok ([0] : Bytes).length := congrArg Prod.fst hw
    cases hfail.symm.trans hok

/-! ### The table and the code -/

/-- What the code does is what the table says. -/
def Disposition.Agrees (d : Disposition) (content : Option Bytes) (outcome : Option (Bytes × Bool)) : Prop :=
  outcome.isSome = d.succeeds content.isSome ∧
    ∀ r, outcome = some r → r.1 = d.content content ∧ createAction d.code = d.action content.isSome ∧ r.2 = true

/-- What a CREATE does on a local backend: a read-only share refuses what writes. -/
def createOutcome (d : Disposition) (content : Option Bytes) (refused : Bool) : Option (Bytes × Bool) :=
  if refused then none else openOutcome (getFlags d.code) content

/-- **Whether a CREATE does what the table says.** -/
theorem realises_iff_agrees {o : Origin} {msg : Bytes} {last : FileId} {s : St (localEnv glob E)} {req : CreateRequest}
    {tr : Tree (localEnv glob E)} {b : LocalBackend} {d : Disposition} {q : List GoString} {content : Option Bytes}
    (hreq : CreateRequest.parse msg = .ok req) (hd : req.createDisposition = d.code)
    (hdir : req.createOptions &&& fileDirectoryFile = 0) (htr : s.c.tree? o.sid o.tid = some tr)
    (hb : tr.share.backend = .inl b) (hto : LeadsTo b s.sh.world.1.fs (openOptions req).path q content) :
    Realises o msg last s d q content ↔
      d.Agrees content (createOutcome d content (tr.share.readOnly && writesToShare req)) := by
  have hrun : handleCreate o msg last s = createFile o req last s := by rw [handleCreate, hreq]
  have hfailed : ∀ {status : UInt32} {s1 : St (localEnv glob E)}, status ≠ statusSuccess →
      createFile o req last s = .ok (status, last) s1 → s1.sh.world.1.fs = s.sh.world.1.fs → s1.c.sessions = s.c.sessions →
      (Realises o msg last s d q content ↔ d.Agrees content none) := by
    intro status s1 hne hcreate hfs hsess
    constructor
    · rintro ⟨status', fid, s', hrun', hsucc, -, -⟩
      obtain ⟨hstatus, -⟩ := Outcome.ok.inj ((hrun.trans hcreate).symm.trans hrun')
      obtain ⟨rfl, -⟩ := Prod.mk.inj hstatus
      refine ⟨?_, nofun⟩
      cases hs : d.succeeds content.isSome with
      | false => rfl
      | true => exact absurd (hsucc.2 hs) hne
    · rintro ⟨hsucc, -⟩
      refine ⟨status, last, s1, hrun.trans hcreate, ⟨fun h => absurd h hne, fun h => ?_⟩, fun _ => ⟨hfs, hsess⟩,
        fun h => absurd h hne⟩
      rw [h] at hsucc
      cases hsucc
  cases hro : tr.share.readOnly && writesToShare req with
  | true =>
    obtain ⟨s1, hcreate, hworld, hsess⟩ := createFile_refused last htr hro
    exact hfailed (by decide) hcreate (by rw [hworld]) hsess
  | false =>
    have hdisp : (openOptions req).disposition = d.code := hd
    have hopens := hto.opens (decide_eq_false (not_not.2 hdir)) s.sh.world.1.now
    rw [hdisp] at hopens
    rw [createOutcome, if_neg (by decide)]
    generalize openOutcome (getFlags d.code) content = outcome at hopens ⊢
    cases hopens with
    | @failed e hopen =>
      have hdisk : (localEnv glob E).openFile tr.share.backend (openOptions req) s.sh.world =
          (.error e, (s.sh.world.1.setFs s.sh.world.1.fs, s.sh.world.2)) := by
        rw [hb]
        show (((s.sh.world.1.openFile b (openOptions req)).1.map Sum.inl), (s.sh.world.1.openFile b (openOptions req)).2, _) = _
        rw [Disk.openFile, hopen]
        rfl
      obtain ⟨s1, hcreate, hworld, hsess⟩ := createFile_failed last htr hro hdisk
      exact hfailed (osErrToStatus_ne e) hcreate (by rw [hworld]; rfl) hsess
    | @opened h fs' r hopen hholds =>
      let k := s.sh.world.1.handles.length
      let disk : Disk := { s.sh.world.1.setFs fs' with handles := s.sh.world.1.handles ++ [h] }
      have hk : disk.handles[k]? = some h := getElem?_concat_length
      have hdisk : (localEnv glob E).openFile tr.share.backend (openOptions req) s.sh.world =
          (.ok (.inl k), (disk, s.sh.world.2)) := by
        rw [hb]
        show (((s.sh.world.1.openFile b (openOptions req)).1.map Sum.inl), (s.sh.world.1.openFile b (openOptions req)).2, _) = _
        rw [Disk.openFile, hopen]
        rfl
      have hstat : (localEnv glob E).stat (.inl k) (disk, s.sh.world.2) =
          (.ok (statToFileInfo h.name (fs'.inode h.file) disk.now), (disk.setFs fs', s.sh.world.2)) := by
        show ((disk.stat k).1, (disk.stat k).2, _) = _
        rw [Disk.stat, Disk.withHandle, hk]
        dsimp only
        rw [LocalHandle.stat, hholds.live]
        rfl
      obtain ⟨fid, s1, hcreate, hworld, haction, oh, hoh, hh⟩ := createFile_opened last htr hro hdisk hstat
      have hback : WritesBack oh.h s1.sh.world ↔ r.2 = true := by
        rw [hh, hworld]
        exact writesBack_iff (d := disk.setFs fs') hk hholds _
      have hkind : s1.sh.world.1.fs.kindAt q = some (.file r.1) := by
        rw [hworld]
        show fs'.kindAt q = _
        rw [FS.kindAt, hholds.name, map_some, hholds.kind]
      rw [hd] at haction
      constructor
      · rintro ⟨status, fid', s', hrun', hsucc, -, hdone⟩
        obtain ⟨hstatus, rfl⟩ := Outcome.ok.inj ((hrun.trans hcreate).symm.trans hrun')
        obtain ⟨rfl, rfl⟩ := Prod.mk.inj hstatus
        obtain ⟨hkind', haction', oh', hoh', hback'⟩ := hdone rfl
        cases hoh.symm.trans hoh'
        refine ⟨(hsucc.1 rfl).symm, fun r' hr => ?_⟩
        cases hr
        refine ⟨?_, haction.symm.trans haction', hback.1 hback'⟩
        exact Kind.file.inj (some.inj (hkind.symm.trans hkind'))
      · rintro ⟨hsucc, hagree⟩
        obtain ⟨hcontent, hact, hwrites⟩ := hagree r rfl
        refine ⟨statusSuccess, fid, s1, hrun.trans hcreate, iff_of_true rfl hsucc.symm, fun h => absurd rfl h, fun _ => ?_⟩
        exact ⟨hcontent ▸ hkind, haction.trans hact, oh, hoh, hback.2 hwrites⟩

/-- The rows in which the code does what the table says. -/
def Disposition.Sound (d : Disposition) (found refused : Bool) : Prop :=
  if refused then d = .create ∧ found = true ∨ (d = .openFile ∨ d = .overwrite) ∧ found = false
  else d = .openFile ∨ (d = .create ∨ d = .openIf ∨ d = .overwriteIf) ∧ found = true

theorem Disposition.agrees_iff (d : Disposition) (content : Option Bytes) (refused : Bool) :
    d.Agrees content (createOutcome d content refused) ↔ d.Sound content.isSome refused := by
  unfold Disposition.Agrees Disposition.Sound createOutcome
  cases refused with
  | true => cases d <;> cases content <;> simp [Disposition.succeeds]
  | false =>
    cases d <;> cases content <;>
      simp [Disposition.succeeds, Disposition.content, Disposition.action, Disposition.code, openOutcome, getFlags,
        createAction, fileCreate, fileSupersede, fileOverwriteIf, fileCreated, fileOverwritten, fileOpened, fileSuperseded]

/-- **A CREATE on a local backend does what the table says in these rows**, and in no other. -/
theorem create_table_iff {o : Origin} {msg : Bytes} {last : FileId} {s : St (localEnv glob E)} {req : CreateRequest}
    {tr : Tree (localEnv glob E)} {b : LocalBackend} {d : Disposition} {q : List GoString} {content : Option Bytes}
    (hreq : CreateRequest.parse msg = .ok req) (hd : req.createDisposition = d.code)
    (hdir : req.createOptions &&& fileDirectoryFile = 0) (htr : s.c.tree? o.sid o.tid = some tr)
    (hb : tr.share.backend = .inl b) (hto : LeadsTo b s.sh.world.1.fs (openOptions req).path q content) :
    Realises o msg last s d q content ↔ d.Sound content.isSome (tr.share.readOnly && writesToShare req) :=
  (realises_iff_agrees hreq hd hdir htr hb hto).trans (d.agrees_iff content _)

/-! ### A file that is not there -/

/-- A CREATE of the file `f` by session 1 on tree 0. -/
def dispositionFrame (d : Disposition) : Bytes :=
  Header.encode { command := cmdCreate, sessionId := 1 } ++ put16 57 ++ zeros 34 ++ put32 d.code ++ put32 0 ++
    put16 120 ++ put16 2 ++ zeros 8 ++ [0x66, 0x00]

/-- What it is parsed to. -/
def dispositionRequest (d : Disposition) : CreateRequest where
  requestedOplockLevel := 0
  desiredAccess := 0
  fileAttributes := 0
  shareAccess := 0
  createDisposition := d.code
  createOptions := 0
  name := [0x66, 0x00]

/-- A tree over the root of a machine with empty directories. -/
def localTree : Tree (localEnv (fun _ _ => some false) guestEnv) where
  share := ⟨[0x73], .inl ⟨[]⟩, false⟩

/-- A connection with it. -/
def localState : St (localEnv (fun _ _ => some false) guestEnv) where
  sh := { world := (blankDisk, (0 : ℕ)) }
  c :=
    { id := 0
      preauthHash := []
      sessions := (∅ : GoMap UInt64 (Session _)).insert 1
        { auth := (), authenticated := true, trees := (∅ : GoMap UInt32 (Tree _)).insert 0 localTree } }

set_option maxRecDepth 4000 in
theorem parse_dispositionFrame (d : Disposition) :
    CreateRequest.parse (dispositionFrame d) = .ok (dispositionRequest d) := by
  cases d <;> rfl

theorem leadsTo_nothing (d : Disposition) :
    LeadsTo ⟨[]⟩ localState.sh.world.1.fs (openOptions (dispositionRequest d)).path [[0x66]] none :=
  ⟨⟨[[0x66]], rfl, rfl⟩, rfl⟩

theorem localState_tree : localState.c.tree? 1 0 = some localTree := rfl

/-- An OPEN of a file that is not there fails, as it is to. -/
theorem create_table_open_absent :
    Realises ⟨0, 1, 0, cmdCreate⟩ (dispositionFrame .openFile) (Arr.zero 16) localState .openFile [[0x66]] none := by
  have hsound : Disposition.Sound .openFile false false := .inl rfl
  exact (create_table_iff (parse_dispositionFrame .openFile) rfl rfl (show _ = some localTree from localState_tree) rfl
    (leadsTo_nothing .openFile)).2 hsound

/-- **An OPEN_IF of a file that is not there fails.** -/
theorem openIf_does_not_create : ¬∀ (glob : GoString → GoString → Option Bool) (E : Env) (o : Origin) (msg : Bytes)
    (last : FileId) (s : St (localEnv glob E)) (req : CreateRequest) (tr : Tree (localEnv glob E)) (b : LocalBackend)
    (d : Disposition) (q : List GoString) (content : Option Bytes), CreateRequest.parse msg = .ok req →
    req.createDisposition = d.code → req.createOptions &&& fileDirectoryFile = 0 →
    s.c.tree? o.sid o.tid = some tr → tr.share.readOnly = false → tr.share.backend = .inl b →
    LeadsTo b s.sh.world.1.fs (openOptions req).path q content → Realises o msg last s d q content := by
  intro hall
  have hreal := hall _ _ ⟨0, 1, 0, cmdCreate⟩ _ (Arr.zero 16) localState _ localTree ⟨[]⟩ .openIf _ none
    (parse_dispositionFrame .openIf) rfl rfl localState_tree rfl rfl (leadsTo_nothing .openIf)
  have hagrees := (realises_iff_agrees (parse_dispositionFrame .openIf) rfl rfl localState_tree rfl
    (leadsTo_nothing .openIf)).1 hreal
  cases hagrees.1

end Server
end SmbServer
