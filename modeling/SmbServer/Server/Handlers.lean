/-
# Every handler takes the steps of its command

One lemma per handler of `SmbServer.Server.Files`, `Info`, `Sessions` and `Async`:
it moves along `Effect` and adds one body to `c.out`.  The proofs follow the
text of the handlers statement by statement; `dispatch_answers` puts them together.
-/

import SmbServer.Wire.Contexts
import SmbServer.Server.Effect

namespace SmbServer
namespace Server

open Wire Vfs Go List Option Conn

variable {E : Env} {srv : Config E} {o : Origin} {P : Conn E → Prop} {msg : Bytes}
variable {oh : OpenHandle E} {fid : FileId}

/-! ### Sizes of bodies -/

theorem length_fileTimes (t : FileTimes) : t.encode.length = 52 := by simp [FileTimes.encode]

theorem length_createResponse (r : CreateResponse) : r.encode.length = 89 := by
  simp [CreateResponse.encode, length_fileTimes, r.fileId.2]

theorem length_closeResponse (r : CloseResponse) : r.encode.length = 60 := by
  simp [CloseResponse.encode, length_fileTimes]

theorem length_ioctlResponse (ctlCode : UInt32) (fid : Arr 16) (input output : Bytes)
    (flags : UInt32) : (ioctlResponse ctlCode fid input output flags).length =
      48 + input.length + output.length := by
  simp [ioctlResponse, fid.2]
  omega

theorem length_negotiateResponse_le (r : NegotiateResponse) :
    r.encode.length ≤ 72 + r.securityBuffer.length +
      (r.contexts.map fun c => alignUp8 (8 + c.data.length)).sum := by
  have hpad : pad8 (64 + r.securityBuffer.length) < 8 := Nat.mod_lt _ (by decide)
  by_cases h : r.dialectRevision = dialectSMB311 <;>
    simp [NegotiateResponse.encode, h, length_writeContexts, r.serverGuid.2] <;> omega

theorem length_negotiateContexts_le (srv : Config E) (dialect : UInt16) :
    ((negotiateContexts srv dialect).map fun c => alignUp8 (8 + c.data.length)).sum ≤ 32 := by
  unfold negotiateContexts
  split_ifs <;> simp [alignUp8]

theorem length_fileInfo_le {infoClass : UInt8} {fi : FileInfo} {d : Bool} {info : Bytes}
    (h : fileInfo infoClass fi d = some info) : info.length ≤ 84 := by
  unfold fileInfo at h
  split_ifs at h <;> obtain rfl := some.inj h <;>
    simp [FileBasicInformation.encode, FileStandardInformation.encode, fileAllInformation,
      networkOpenInfo]

theorem length_filesystemInfo_le {infoClass : UInt8} {info : Bytes}
    (h : filesystemInfo infoClass = some info) : info.length ≤ 84 := by
  unfold filesystemInfo at h
  split_ifs at h <;> obtain rfl := some.inj h <;> decide

theorem length_dirEntry_le (extra : ℕ) (fi : FileInfo) :
    ((dirEntry fi).encode extra).length ≤ 71 + extra + 2 * fi.name.length := by
  have hname := length_utf16ToBytes_le fi.name
  have hfixed : (dirEntry fi).fixed.length = 64 := by simp [DirEntry.fixed]
  have hpad : pad8 (64 + extra + (utf16ToBytes fi.name).length) < 8 := Nat.mod_lt _ (by decide)
  have hn : (dirEntry fi).name = fi.name := rfl
  simp only [DirEntry.encode, length_append, length_zeros, hfixed, hn]
  omega

theorem length_entryLayout_le (infoClass : UInt8) (fi : FileInfo) :
    ((entryLayout infoClass).encode (dirEntry fi)).length ≤ 112 + 2 * fi.name.length := by
  unfold entryLayout
  split_ifs
  · have := length_dirEntry_le 40 fi
    simp only [appendFileIdBothDirInfo]
    omega
  · have := length_dirEntry_le 0 fi
    simp only [appendFileDirInfo]
    omega

theorem length_packEntries_le (infoClass : UInt8) (limit : ℕ) (prev : Option ℕ) (buf : Bytes)
    (l : List FileInfo) :
    (packEntries (entryLayout infoClass) limit prev buf l).1.length ≤
      buf.length + listingSize l := by
  induction l generalizing prev buf with
  | nil => simp [packEntries]
  | cons fi l ih =>
    have he := length_entryLayout_le infoClass fi
    have hsize : listingSize (fi :: l) = 112 + 2 * fi.name.length + listingSize l := by
      simp [listingSize]
    rw [packEntries]
    split_ifs
    · exact Nat.le_add_right _ _
    · refine (ih _ _).trans ?_
      cases prev <;> simp <;> omega

theorem listingSize_drop_le (l : List FileInfo) (n : ℕ) : listingSize (l.drop n) ≤ listingSize l := by
  have h := congrArg listingSize (take_append_drop n l)
  simp only [listingSize, map_append, sum_append] at h ⊢
  omega

/-! ### CREATE and CLOSE -/

theorem createFile_answers {req : CreateRequest} (fid : FileId) (hcmd : o.cmd = cmdCreate)
    (hreq : CreateRequest.parse msg = .ok req) :
    Answers srv o msg P (createFile o req fid) := by
  refine .withTree fun tr base => ?_
  split_ifs with hro
  · exact Answers.map (.errBody _) _ base
  have hguard : tr.share.readOnly = true → writesOptions (openOptions req) = false := by
    intro hr
    rw [hr, Bool.true_and, Bool.not_eq_true] at hro
    simp only [writesToShare, Bool.or_eq_false_iff] at hro
    simp only [writesOptions, Bool.or_eq_false_iff]
    exact ⟨hro.1.1, hro.2⟩
  -- From here on the trace has to remember that this command opened the handle.
  refine Moves.bind (Q := fun a s => (s.c.tree? o.sid o.tid = some tr ∧ s.c.out = base) ∧
      JustOpened o tr.share (openOptions req) a s.sh.trace) ?_ fun opened => ?_
  · exact Moves.step (fun _ => rfl) (fun s hs =>
      .call _ _ (.ofTree hs.1.2 rfl rfl (fun _ => hcmd) (nofun)
        fun share opts res heq hr => by cases heq; exact hguard hr) rfl fun _ => ⟨_, req, _, hreq, rfl⟩)
      fun s hs => ⟨⟨hs.1.2, hs.2⟩, .now⟩
  cases opened with
  | error e =>
    exact (Answers.map (.errBody _) _).moves fun s hs => hs.1.2
  | ok h =>
    have touches : ∀ s : St E, (s.c.tree? o.sid o.tid = some tr ∧ s.c.out = base) ∧
        JustOpened o tr.share (openOptions req) (.ok h) s.sh.trace → Touches o s h := fun s hs =>
      .inr ⟨hcmd, tr, _, hs.1.1, hs.2⟩
    refine Moves.bind (Q := fun _ s => (s.c.tree? o.sid o.tid = some tr ∧ s.c.out = base) ∧
        JustOpened o tr.share (openOptions req) (.ok h) s.sh.trace) ?_ fun st => ?_
    · refine Moves.step (fun _ => rfl) (fun s hs =>
        .call _ (.stat h) ⟨fun h' e => ?_, ?_, fun _ => hcmd, nofun, nofun⟩ rfl nofun)
        fun s hs => ⟨hs.1, hs.2.call _⟩
      · cases e
        exact touches s hs
      · simp [Call.share?]
    cases st with
    | error e =>
      refine Moves.bind (Q := fun _ s => s.c.tree? o.sid o.tid = some tr ∧ s.c.out = base)
        ?_ fun _ => (Answers.map (.errBody _) _).moves fun s hs => hs.2
      refine Moves.step (fun _ => rfl) (fun s hs =>
        .call _ (.close h) ⟨fun h' e => ?_, ?_, fun _ => hcmd, nofun, nofun⟩ rfl nofun)
        fun s hs => hs.1
      · cases e
        exact touches s hs
      · simp [Call.share?]
    | ok fi =>
      refine Moves.bind (Q := fun _ s => s.c.out = base) ?_ fun r => ?_
      · refine Moves.step (fun _ => rfl)
          (fun s hs => .create tr req h _ _ hcmd hreq hs.1.1 hs.2 rfl) fun s hs => hs.1.2
      · refine (Answers.map (.succeed fun _ => ?_) _).moves fun s hs => hs
        rw [length_createResponse]
        decide

theorem handleCreate_answers (fid : FileId) (hcmd : o.cmd = cmdCreate) :
    Answers srv o msg P (handleCreate o msg fid) := by
  unfold handleCreate
  cases hreq : CreateRequest.parse msg with
  | ok req => exact createFile_answers fid hcmd hreq
  | err e => exact .map (.errBody _) _
  | panic => exact .fault

theorem removePending_steps {tr : Tree E} (base : Bytes) :
    Steps srv o msg
      (fun c => (∃ tr', c.tree? o.sid o.tid = some tr' ∧ tr'.share = tr.share) ∧ c.out = base)
      (removePending o tr oh) fun _ c => c.out = base := by
  unfold removePending
  split_ifs with hdel hro
  · exact Moves.pure fun _ hs => hs.2
  · exact Moves.pure fun _ hs => hs.2
  · cases hrm : E.remove tr.share.backend with
    | none => exact Moves.pure fun _ hs => hs.2
    | some rm =>
      refine .bind (Steps.call (fun _ => ⟨rm, hrm, rfl⟩) (fun _ => rfl) fun s hs => ?_) fun _ =>
        Moves.pure fun _ hs => hs.1.2
      obtain ⟨tr', ht, hshare⟩ := hs.1
      exact .ofTree ht rfl (by rw [hshare]; rfl) (nofun)
        (fun _ => by rw [hshare]; simpa using hro) nofun

theorem handleClose_answers (hcmd : o.cmd = cmdClose) : Answers srv o msg P (handleClose o msg) := by
  refine .parsed fun req hreq => .withOpen fun tr oh => ?_
  refine .call (fun _ => rfl) (fun _ => rfl) (fun s hs => .reads hs.2.2 rfl rfl rfl) fun w1 base => ?_
  -- The trace has to remember that the handle was closed.
  refine Moves.bind (Q := fun _ s => (s.c.tree? o.sid o.tid = some tr ∧
      s.c.open? o.sid o.tid req.fileId = some oh ∧ s.c.out = base) ∧
      ∃ t, s.sh.trace = .call (some o) (.close oh.h) :: t) ?_ fun err => ?_
  · exact Moves.step (fun _ => rfl) (fun s hs => .call _ _ (.reads hs.1.2.2 rfl rfl rfl) rfl nofun)
      fun s hs => ⟨⟨hs.1.2.1, hs.1.2.2, hs.2⟩, _, rfl⟩
  split
  · exact (Answers.errBody _).moves fun s hs => hs.1.2.2
  · have hrm : Steps srv o msg _ (removePending o tr oh) _ := removePending_steps base
    refine Moves.bind (Q := fun _ (s : St E) => (∃ tr', s.c.tree? o.sid o.tid = some tr' ∧
        tr'.share = tr.share) ∧ s.c.out = base) ?_ fun _ => Moves.bind hrm fun r => ?_
    · refine Moves.step (fun _ => rfl) (fun s hs => .endOpen req oh hcmd hreq hs.1.2.1 hs.2)
        fun s hs => ⟨⟨{ tr with opens := tr.opens.erase req.fileId }, ?_, rfl⟩, hs.1.2.2⟩
      simp [tree?_modifyTree, hs.1.1]
    · cases r with
      | some status => exact (Answers.errBody _).moves fun s hs => hs
      | none =>
        refine (Answers.succeed fun _ => ?_).moves fun s hs => hs
        rw [length_closeResponse]
        decide

/-! ### READ and WRITE -/

theorem handleRead_answers : Answers srv o msg P (handleRead o msg) := by
  refine .parsed fun req hreq => ?_
  split_ifs with hlen
  · exact .errBody _
  refine .withOpen fun _ oh => .get fun s => ?_
  split_ifs
  · exact .errBody _
  refine .call (fun _ => rfl) (fun _ => rfl) (fun s hs => .reads hs.1.2.2 rfl rfl rfl) fun w => ?_
  have hle := E.read_le oh.h req.offset.toNat req.length.toNat w
  rcases hr : (E.read oh.h req.offset.toNat req.length.toNat w).1 with ⟨data, err⟩
  rw [hr] at hle
  dsimp only
  split
  · exact .errBody _
  · split_ifs
    · exact .errBody _
    · refine .succeed fun _ => ?_
      have hmax : req.length ≤ maxRead := UInt32.not_lt.1 fun h => hlen (.inl h)
      have : req.length.toNat ≤ 1048576 := UInt32.le_iff_toNat_le.1 hmax
      simp only [length_append, readResponseFixed, length_put16, length_put32, bodyMax] at *
      omega

theorem handleWrite_answers : Answers srv o msg P (handleWrite o msg) := by
  refine .parsed fun req hreq => ?_
  split_ifs
  · exact .errBody _
  refine .withTree fun tr => ?_
  split_ifs with hro
  · exact .errBody _
  refine .withOpen fun _ oh => .get fun s => ?_
  split_ifs
  · exact .errBody _
  refine .call (fun _ => rfl) (fun _ => rfl) (fun s hs => .ofOpen hs.1.2.2 rfl rfl fun _ =>
    ⟨tr, hs.1.1.2, by simpa using hro⟩) fun w => ?_
  split
  · exact .errBody _
  · exact .succeed fun _ => by simp [writeResponse, bodyMax]

/-! ### QUERY_DIRECTORY -/

/-- What every open of the connection remembers of a directory is a listing. -/
def Conn.Listed (c : Conn E) : Prop :=
  ∀ sid tid fid oh, c.open? sid tid fid = some oh → oh.Listed

theorem setOpen_steps (oh : OpenHandle E) {oh' : OpenHandle E} (hh : oh'.h = oh.h)
    (hf : oh'.fileId = oh.fileId) (hp : oh'.path = oh.path) (hl : oh.Listed → oh'.Listed)
    (base : Bytes) :
    Steps srv o msg (fun c => c.open? o.sid o.tid fid = some oh ∧ c.out = base) (setOpen o fid oh')
      fun _ c => c.open? o.sid o.tid fid = some oh' ∧ c.out = base := by
  refine Moves.step (fun _ => rfl) (fun s hs => .setOpen fid oh oh' hs.1 hh hf hp hl)
    fun s hs => ⟨?_, hs.2⟩
  simp [open?_modifyOpen, hs.1]

theorem length_listing_le (h : oh.Listed) (hE : E.Bounded) :
    listingSize oh.enumEntries < 2 ^ 30 := by
  rcases h with h | ⟨h', p, w, h⟩
  · simp [h, listingSize]
  · rw [h]
    exact hE.listing h' p w

theorem sendEntries_answers {req : QueryDirectoryRequest} (hl : oh.Listed) :
    Answers srv o msg (fun c => c.open? o.sid o.tid req.fileId = some oh) (sendEntries o req oh) := by
  unfold sendEntries
  split_ifs
  · exact .bind (setOpen_steps oh (by rfl) (by rfl) (by rfl) fun _ => hl) fun _ => .errBody _
  · refine .get fun s => .mono (.bind (setOpen_steps oh (by rfl) (by rfl) (by rfl) fun _ => hl) fun _ =>
      .succeed fun hE => ?_) fun c hc => hc.1
    have h1 := length_packEntries_le req.fileInformationClass req.outputBufferLength.toNat none []
      (oh.enumEntries.drop oh.enumCursor)
    have h2 := listingSize_drop_le oh.enumEntries oh.enumCursor
    have h3 := length_listing_le hl hE
    simp only [length_append, length_nil, length_put16, length_put32, bodyMax] at *
    omega

theorem listEntries_steps {pattern : GoString} (hl : oh.Listed)
    (base : Bytes) :
    Steps srv o msg (fun c => c.open? o.sid o.tid fid = some oh ∧ c.out = base)
      (listEntries o fid pattern oh)
      fun r c => (c.open? o.sid o.tid fid = some r.1 ∧ r.1.Listed) ∧ c.out = base := by
  unfold listEntries
  split_ifs
  · refine .bind (Steps.call (fun _ => rfl) (fun _ => rfl) fun s hs => .reads hs.1 rfl rfl rfl) fun items s hs => ?_
    obtain ⟨hs, w, rfl⟩ := hs
    let oh' : OpenHandle E := { oh with
      enumPattern := pattern
      enumEntries := (untilError (E.enumerate oh.h pattern w).1).1
      enumCursor := 0 }
    have hl' : oh'.Listed := .inr ⟨_, _, _, rfl⟩
    have h : Steps srv o msg (fun c => c.open? o.sid o.tid fid = some oh ∧ c.out = base)
        (setOpen o fid oh' >>= fun _ => pure (oh', (untilError (E.enumerate oh.h pattern w).1).2))
        fun r c => (c.open? o.sid o.tid fid = some r.1 ∧ r.1.Listed) ∧ c.out = base :=
      .bind (setOpen_steps oh (by rfl) (by rfl) (by rfl) (fun _ => hl') base) fun _ =>
        Moves.pure fun _ hs => ⟨⟨hs.1, hl'⟩, hs.2⟩
    exact h s hs
  · exact Moves.pure fun _ hs => ⟨⟨hs.1, hl⟩, hs.2⟩

theorem handleQueryDirectory_answers :
    Answers srv o msg Conn.Listed (handleQueryDirectory o msg) := by
  refine .parsed fun req hreq => .withOpen fun _ oh => ?_
  refine .of_fact (fun c hc => hc.1 _ _ _ _ hc.2.2) fun hl => ?_
  refine .mono (P := fun c => c.open? o.sid o.tid req.fileId = some oh) ?_ fun c hc => hc.2.2
  extract_lets oh1
  have hh : oh1.h = oh.h := by unfold oh1; split_ifs <;> rfl
  have hf : oh1.fileId = oh.fileId := by unfold oh1; split_ifs <;> rfl
  have hp : oh1.path = oh.path := by unfold oh1; split_ifs <;> rfl
  have hl1 : oh1.Listed := by
    unfold oh1
    split_ifs
    · exact .inl rfl
    · exact hl
  refine .bind (setOpen_steps oh hh hf hp fun _ => hl1) fun _ => ?_
  split_ifs
  · exact .errBody _
  refine .bind (listEntries_steps hl1) fun r => ?_
  rcases r with ⟨oh2, err⟩
  cases err with
  | some e => exact .errBody _
  | none => exact .of_fact (fun c hc => hc.2) fun hl2 =>
    (sendEntries_answers hl2).mono fun c hc => hc.1

/-! ### Information, locks and controls -/

theorem sendInfo_answers {limit : UInt32} {info : Option Bytes}
    (h : ∀ b, info = some b → b.length ≤ 84) : Answers srv o msg P (sendInfo limit info) := by
  cases info with
  | none => exact .errBody _
  | some b =>
    have hb := h b rfl
    refine .succeed fun _ => ?_
    simp only [queryInfoResponse, length_append, length_put16, length_put32, bodyMax]
    split_ifs
    · rw [length_take]; omega
    · omega

theorem handleQueryInfo_answers : Answers srv o msg P (handleQueryInfo o msg) := by
  refine .parsed fun req hreq => .withOpen fun _ oh => ?_
  split_ifs
  · refine .call (fun _ => rfl) (fun _ => rfl) (fun s hs => .reads hs.2.2 rfl rfl rfl) fun w => ?_
    split
    · exact .errBody _
    · exact sendInfo_answers fun b hb => length_fileInfo_le hb
  · exact sendInfo_answers fun b hb => length_filesystemInfo_le hb
  · exact .errBody _

/-- The share of the command's tree is writable. -/
def Writable (o : Origin) (c : Conn E) : Prop := ∃ tr, c.tree? o.sid o.tid = some tr ∧ tr.share.readOnly = false

theorem setInfo_steps {req : Vfs.SetInfoRequest}
    (base : Bytes) :
    Steps srv o msg (fun c => (c.open? o.sid o.tid fid = some oh ∧ Writable o c) ∧ c.out = base) (setInfo o oh req)
      fun _ c => c.out = base := by
  unfold setInfo
  cases hsi : E.setInfo oh.h with
  | none => exact Moves.pure fun _ hs => hs.2
  | some si =>
    exact .bind (Steps.call (fun _ => ⟨si, hsi, rfl⟩) (fun _ => rfl) fun s hs =>
      .ofOpen hs.1.1 rfl rfl fun _ => hs.1.2) fun _ => Moves.pure fun _ hs => hs.1.2

theorem renameFile_steps {buffer : Bytes} (base : Bytes) :
    Steps srv o msg (fun c => (c.open? o.sid o.tid fid = some oh ∧ Writable o c) ∧ c.out = base)
      (renameFile o oh buffer) fun _ c => c.out = base := by
  unfold renameFile
  extract_lets replaceIfExist stop
  split_ifs
  · exact Moves.pure fun _ hs => hs.2
  · exact Moves.pure fun _ hs => hs.2
  · exact Moves.fault
  · cases hrn : E.rename oh.h with
    | none => exact Moves.pure fun _ hs => hs.2
    | some rn =>
      exact .bind (Steps.call (fun _ => ⟨rn, hrn, rfl⟩) (fun _ => rfl) fun s hs =>
        .ofOpen hs.1.1 rfl rfl fun _ => hs.1.2) fun _ => Moves.pure fun _ hs => hs.1.2

theorem setFileInfo_steps {req : Wire.SetInfoRequest} (base : Bytes) :
    Steps srv o msg (fun c => (c.open? o.sid o.tid req.fileId = some oh ∧ Writable o c) ∧ c.out = base)
      (setFileInfo o req oh) fun _ c => c.out = base := by
  unfold setFileInfo
  split_ifs
  · exact Moves.pure fun _ hs => hs.2
  · refine Moves.mono (.bind (setOpen_steps oh (by rfl) (by rfl) (by rfl) (fun hl => by exact hl) base)
      fun _ => Moves.pure fun _ hs => hs.2) (fun s hs => ⟨hs.1.1, hs.2⟩) fun _ _ hQ => hQ
  · cases FileBasicInformation.parse req.buffer with
    | ok bi => exact setInfo_steps base
    | err e => exact Moves.pure fun _ hs => hs.2
    | panic => exact Moves.fault
  · exact Moves.pure fun _ hs => hs.2
  · exact setInfo_steps base
  · exact renameFile_steps base
  · exact Moves.pure fun _ hs => hs.2

theorem handleSetInfo_answers : Answers srv o msg P (handleSetInfo o msg) := by
  refine .parsed fun req hreq => .withOpen fun tr oh => .ite (fun _ => .errBody _) fun hro => ?_
  refine .mono (P := fun c => c.open? o.sid o.tid req.fileId = some oh ∧ Writable o c) ?_ fun c hc =>
    ⟨hc.2.2, tr, hc.2.1, by simpa using hro⟩
  split_ifs
  · intro base
    refine .bind (setFileInfo_steps base) fun r => ?_
    cases r with
    | some status => exact (Answers.errBody _).moves fun s hs => hs
    | none => exact (Answers.succeed fun _ => by decide).moves fun s hs => hs
  · exact .errBody _

theorem handleLock_answers (hcmd : o.cmd = cmdLock) : Answers srv o msg P (handleLock o msg) := by
  refine .parsed fun req hreq => .withOpen fun _ oh base => ?_
  refine Moves.bind (Q := fun s0 s => s0 = s ∧ s.c.open? o.sid o.tid req.fileId = some oh ∧
      s.c.out = base) (Moves.get fun s hs => ⟨rfl, hs.1.2.2, hs.2⟩) fun s0 => ?_
  refine Moves.bind (Q := fun _ s => s.c.out = base) ?_ fun _ => ?_
  · refine Moves.step (fun _ => rfl) (fun s hs => ?_) fun s hs => hs.2.2
    obtain ⟨rfl, ho, -⟩ := hs
    exact .lock req oh hcmd hreq ho
  · split_ifs
    · exact (Answers.succeed fun _ => by decide).moves fun s hs => hs
    · exact (Answers.errBody _).moves fun s hs => hs

theorem pipeTransceive_answers {req : IoctlRequest} : Answers srv o msg P (pipeTransceive o req) := by
  refine .get fun s => ?_
  cases ho : s.c.open? o.sid o.tid req.fileId with
  | none => exact .errBody _
  | some oh =>
    cases hpp : E.processPipe oh.h with
    | none => simp only [hpp]; exact .errBody _
    | some pp =>
      simp only [hpp]
      refine .call (fun _ => ⟨pp, hpp, rfl⟩) (fun _ => rfl) (fun s' hs => ?_) fun w => .succeed fun hE => ?_
      · have ho' : s'.c.open? o.sid o.tid req.fileId = some oh := by rw [hs.2]; exact ho
        exact .reads ho' rfl rfl rfl
      have := hE.pipe oh.h pp req.input w hpp
      rw [length_ioctlResponse]
      simp only [length_nil, bodyMax]
      omega

theorem handleIoctl_answers : Answers srv o msg P (handleIoctl srv o msg) := by
  refine .parsed fun req hreq => ?_
  split_ifs
  · refine .succeed fun _ => ?_
    rw [length_ioctlResponse]
    simp [buildValidateNegotiateInfo, srv.guid.2, bodyMax]
  · refine .succeed fun _ => ?_
    rw [length_ioctlResponse]
    simp [bodyMax]
  · exact pipeTransceive_answers
  · refine .get fun s => ?_
    cases s.c.tree? o.sid o.tid with
    | none => exact .errBody _
    | some tr =>
      dsimp only
      split_ifs
      · exact .errBody _
      · exact .errBody _

theorem handleOplockBreak_answers : Answers srv o msg P (handleOplockBreak msg) := by
  unfold handleOplockBreak
  split_ifs
  · exact .map (.errBody _) _
  · exact .map (.succeed fun _ => by decide) _

/-! ### Sessions and trees -/

theorem handleNegotiate_answers : Answers srv o msg P (handleNegotiate srv msg) := by
  refine .parsed fun req hreq => ?_
  dsimp only
  split_ifs
  · exact .errBody _
  · refine .succeed fun _ => (length_negotiateResponse_le _).trans ?_
    have := length_negotiateContexts_le srv (pickDialect req.dialects srv.dialect)
    simp only [length_nil, bodyMax]
    omega

theorem sessionFor_steps (hcmd : o.cmd = cmdSessionSetup) (sid : UInt64) (base : Bytes) :
    Steps srv o msg (fun c => P c ∧ c.out = base) (sessionFor o.conn sid)
      fun sid' c => (c.session? sid').isSome ∧ c.out = base := by
  refine .bind (Q := fun s c => c = s.c ∧ c.out = base)
    (Moves.get fun s hs => ⟨rfl, hs.2⟩) fun s0 => ?_
  cases h : s0.c.session? sid with
  | some sess =>
    refine Moves.pure fun s hs => ⟨?_, hs.2⟩
    rw [hs.1, h]
    rfl
  | none =>
    refine .bind (Q := fun _ c => c.out = base)
      (Moves.step (fun _ => rfl) (fun s _ => .world _ .authFactory) fun s hs => hs.2) fun auth => ?_
    refine Moves.step (fun _ => rfl) (fun s _ => .session auth hcmd) fun s hs => ⟨?_, hs⟩
    simp [Conn.session?]

theorem acceptToken_steps (hcmd : o.cmd = cmdSessionSetup) (sid : UInt64) (token base : Bytes) :
    Steps srv o msg (fun c => (c.session? sid).isSome ∧ c.out = base) (acceptToken sid token)
      fun r c => ((c.session? sid).isSome ∧
        (E.Bounded → ∀ res, r = .ok res → res.outputToken.length < 2 ^ 30)) ∧ c.out = base := by
  refine .bind (Q := fun _ c => (c.session? sid).isSome ∧ c.out = base)
    (Moves.get fun s hs => hs) fun s0 => ?_
  cases s0.c.session? sid with
  | none => exact Moves.fault
  | some sess =>
    refine Moves.step (fun _ => rfl) (fun s _ =>
      .auth sid _ _ hcmd (.accept _ _)) fun s hs => ⟨⟨?_, ?_⟩, hs.2⟩
    · simp [session?_modifySession, hs.1]
    · exact fun hE res hres => hE.token _ _ _ res hres

theorem sendToken_answers {sid : UInt64} {token : Bytes}
    (ht : E.Bounded → token.length < 2 ^ 30) : Answers srv o msg P (sendToken srv sid token) := by
  refine .get fun s0 base => .bind (Q := fun _ c => OutBy base c) ?_ fun _ => ?_
  · let b := sessionSetupResponse s0.c.out.length
      (if srv.requireEnc then sessionFlagEncryptData else 0) token
    refine Moves.step (fun _ => rfl) (fun s _ => .out _) fun s hs => ⟨b, ?_, fun hE => ?_⟩
    · simp only [hs.2, b]
    · have := ht hE
      simp only [b, sessionSetupResponse, length_append, length_put16, bodyMax]
      omega
  · cases s0.c.session? sid with
    | none => exact Moves.fault
    | some sess => exact Moves.pure fun _ hs => hs

theorem finishSessionSetup_answers (hcmd : o.cmd = cmdSessionSetup) {sid : UInt64}
    {r : Except Auth.AuthError Auth.AcceptResult}
    (hr : E.Bounded → ∀ res, r = .ok res → res.outputToken.length < 2 ^ 30) :
    Answers srv o msg (fun c => (c.session? sid).isSome) (finishSessionSetup srv o.conn sid r) := by
  match r, hr with
  | .error .logonFailed, _ => exact .errBody _
  | .error .other, _ => exact .errBody _
  | .ok res, hr =>
    have ht : Answers srv o msg (fun _ => True) (sendToken srv sid res.outputToken) :=
      sendToken_answers fun hE => hr hE res rfl
    simp only [finishSessionSetup]
    split_ifs
    · refine .bind (fun base => ?_) fun _ => ht
      exact Moves.step (fun _ => rfl) (fun s hs => .identity sid res hcmd hs.1)
        fun s hs => ⟨trivial, hs.2⟩
    · exact ht.mono fun _ _ => trivial

theorem handleSessionSetup_answers (hcmd : o.cmd = cmdSessionSetup) (hdr : Header) :
    Answers srv o msg P (handleSessionSetup srv o msg hdr) := by
  unfold handleSessionSetup
  cases SessionSetupRequest.parse msg with
  | err e => exact .map (.errBody _) _
  | panic => exact .fault
  | ok req =>
    refine .bind (sessionFor_steps hcmd hdr.sessionId) fun sid => ?_
    refine .bind (acceptToken_steps hcmd sid req.securityBuffer) fun r => ?_
    exact .of_fact (fun c hc => hc.2) fun hr =>
      .map ((finishSessionSetup_answers hcmd hr).mono fun c hc => hc.1) _

theorem handleLogoff_answers (hcmd : o.cmd = cmdLogoff) :
    Answers srv o msg (fun c => (c.session? o.sid).isSome) (handleLogoff o) := by
  intro base s hs
  obtain ⟨s1, h1, hc⟩ := closeAllTrees_run (some o) hs.1
  have hout : s1.c.out = base := by rw [hc.conn]; exact hs.2
  unfold handleLogoff
  rw [bind_ok h1]
  refine ⟨.head (.logoff s1 hcmd hs.1 hc) (.single (.out simpleResponse)), fun a s' h => ?_⟩
  cases h
  exact ⟨simpleResponse, by simp [hout], fun _ => by decide⟩

theorem handleTreeDisconnect_answers (hcmd : o.cmd = cmdTreeDisconnect) :
    Answers srv o msg (fun c => (c.tree? o.sid o.tid).isSome) (handleTreeDisconnect o) := by
  intro base s hs
  obtain ⟨tr, htr⟩ := isSome_iff_exists.1 hs.1
  obtain ⟨s1, h1, hc⟩ := closeAllOpens_run (some o) htr
  have hout : s1.c.out = base := by rw [hc.conn]; exact hs.2
  unfold handleTreeDisconnect
  rw [bind_ok h1]
  refine ⟨.head (.treeDisconnect s1 hcmd hs.1 hc) (.single (.out simpleResponse)),
    fun a s' h => ?_⟩
  cases h
  exact ⟨simpleResponse, by simp [Conn.modifySession, hout], fun _ => by decide⟩

theorem handleTreeConnect_answers (hcmd : o.cmd = cmdTreeConnect) (hdr : Header) :
    Answers srv o msg (fun c => ∃ sess, c.session? o.sid = some sess ∧ sess.authenticated = true)
      (handleTreeConnect srv o msg hdr) := by
  unfold handleTreeConnect
  cases TreeConnectRequest.parse msg with
  | err e => exact .map (.errBody _) _
  | panic => exact .fault
  | ok req =>
    dsimp only
    cases srv.shareByName (parseShareName (utf16FromBytes req.path)) with
    | none => exact .map (.errBody _) _
    | some sh =>
      refine .get fun s0 => ?_
      cases h : s0.c.session? o.sid with
      | none => exact .fault
      | some sess =>
        refine .bind (Q := fun _ _ => True) (fun base => ?_) fun _ =>
          .map (.succeed fun _ => by simp [TreeConnectResponse.encode, bodyMax]) _
        refine Moves.step (fun _ => rfl) (fun s hs => ?_) fun s hs => ⟨trivial, hs.2⟩
        obtain ⟨⟨⟨sess', hs', ha⟩, hc⟩, -⟩ := hs
        rw [hc, h] at hs'
        cases hs'
        exact .treeConnect sh sess hcmd (by rw [hc]; exact h) ha

/-! ### `dispatch` -/

/-- **What `dispatch` has checked** when it goes on to a command other than
NEGOTIATE and SESSION_SETUP. -/
theorem refusal_eq_none {c : Conn E} (h : c.refusal o = none) (h1 : o.cmd ≠ cmdNegotiate)
    (h2 : o.cmd ≠ cmdSessionSetup) :
    (∃ sess, c.session? o.sid = some sess ∧ sess.authenticated = true) ∧
      (requiresTree o.cmd = true → (c.tree? o.sid o.tid).isSome) := by
  have hs : requiresSession o.cmd = true := by simp [requiresSession, h1]
  unfold refusal at h
  cases hc : c.session? o.sid with
  | none => simp [hs, hc, h2] at h
  | some sess =>
    simp only [hs, hc, Bool.not_true, Bool.false_eq_true, if_false] at h
    split_ifs at h with ha ht
    refine ⟨⟨sess, rfl, by simpa [h2] using ha⟩, fun hr => ?_⟩
    simpa [hr, Conn.tree?, hc, isSome_iff_ne_none] using ht

theorem plainHandler_answers :
    Answers srv o msg (fun c => c.Listed ∧ c.refusal o = none) (plainHandler srv o msg) := by
  refine .ite (fun _ => handleNegotiate_answers) fun h1 => ?_
  refine .ite (fun h => (handleLogoff_answers h).mono fun c hc => ?_) fun _ => ?_
  · obtain ⟨⟨sess, hs, -⟩, -⟩ := refusal_eq_none hc.2 h1 (by rw [h]; decide)
    rw [hs]
    rfl
  refine .ite (fun h => (handleTreeDisconnect_answers h).mono fun c hc => ?_) fun _ => ?_
  · exact (refusal_eq_none hc.2 h1 (by rw [h]; decide)).2 (by rw [h]; rfl)
  refine .ite handleClose_answers fun _ => ?_
  refine .ite (fun _ => handleRead_answers) fun _ => ?_
  refine .ite (fun _ => handleWrite_answers) fun _ => ?_
  refine .ite (fun _ => handleQueryDirectory_answers.mono fun c hc => hc.1) fun _ => ?_
  refine .ite (fun _ => handleQueryInfo_answers) fun _ => ?_
  refine .ite (fun _ => handleSetInfo_answers) fun _ => ?_
  refine .ite (fun _ => .succeed fun _ => by decide) fun _ => ?_
  refine .ite handleLock_answers fun _ => ?_
  refine .ite (fun _ => handleIoctl_answers) fun _ => ?_
  exact .ite (fun _ => .succeed fun _ => by decide) fun _ => .errBody _

/-- **Every command that `dispatch` handles takes the steps of `Effect` and adds one
body.** -/
theorem dispatch_answers (hdr : Header) (fid : FileId) :
    Answers srv o msg Conn.Listed (dispatch srv o msg hdr fid) := by
  refine .get fun s => ?_
  cases hr : s.c.refusal o with
  | some status => exact .map (.errBody _) _
  | none =>
    refine .mono (P := fun c => c.Listed ∧ c.refusal o = none) ?_ fun c hc =>
      ⟨hc.1, by rw [hc.2]; exact hr⟩
    refine .ite (fun h => .map (handleSessionSetup_answers h hdr) _) fun h1 => ?_
    refine .ite (fun h => .map ((handleTreeConnect_answers h hdr).mono fun c hc => ?_) _)
      fun _ => ?_
    · exact (refusal_eq_none hc.2 (by rw [h]; decide) h1).1
    refine .ite (fun h => .map (handleCreate_answers fid h) _) fun _ => ?_
    exact .ite (fun _ => .map handleOplockBreak_answers _) fun _ => .map plainHandler_answers _

/-! ### CHANGE_NOTIFY and CANCEL -/

theorem handleCancel_answers (hcmd : o.cmd = cmdCancel) (hdr : Header) :
    Answers srv o msg P (handleCancel hdr) := by
  refine .bind (Q := fun _ _ => True) (fun base => ?_) fun _ => .succeed fun _ => by decide
  intro s hs
  have h : ∃ cs, s.c.cancelPending hdr.asyncId = { s.c with cancelled := cs } := by
    unfold cancelPending
    cases s.c.pending.lookup hdr.asyncId with
    | none => exact ⟨s.c.cancelled, rfl⟩
    | some op => exact ⟨op.asyncID :: s.c.cancelled, rfl⟩
  obtain ⟨cs, hcs⟩ := h
  have hrun : modifyConn (fun c => c.cancelPending hdr.asyncId) s =
      .ok () { s with c := { s.c with cancelled := cs } } := by
    rw [← hcs]
    rfl
  rw [hrun]
  refine ⟨.single (.cancel cs hcmd), ?_⟩
  intro a s' h
  cases h
  exact ⟨trivial, hs.2⟩

/-- **`handleChangeNotify`** either adds an error body and is not pending, or adds an
interim response and is. -/
theorem handleChangeNotify_steps {hdr : Header} (hcmd : o.cmd = cmdChangeNotify) (hhdr : hdr.In msg)
    (base : Bytes) :
    Steps srv o msg (fun c => c.out = base) (handleChangeNotify o msg hdr) fun r c =>
      r = (statusPending, true) ∧ (∃ id, c.out = base ++ buildAsyncInterim hdr id) ∨
      (r.1 ≠ statusSuccess ∧ r.1 ≠ statusMoreProcessingRequired ∧ r.2 = false) ∧
        c.out = base ++ errorResponse := by
  have herr : ∀ {R : Conn E → Prop} {status : UInt32}, (∀ c, R c → c.out = base) →
      status ≠ statusSuccess → status ≠ statusMoreProcessingRequired →
      Steps srv o msg R (do return (← errBody status, false)) fun r c =>
        r = (statusPending, true) ∧ (∃ id, c.out = base ++ buildAsyncInterim hdr id) ∨
        (r.1 ≠ statusSuccess ∧ r.1 ≠ statusMoreProcessingRequired ∧ r.2 = false) ∧
          c.out = base ++ errorResponse := by
    intro R status hR h1 h2
    refine Moves.step (g := fun _ => (status, false))
      (f := fun s => { s with c := { s.c with out := s.c.out ++ errorResponse } }) (fun _ => rfl)
      (fun s _ => .out _) fun s hs => .inr ⟨⟨h1, h2, rfl⟩, ?_⟩
    simp only [hR _ hs]
  unfold handleChangeNotify
  cases hreq : ChangeNotifyRequest.parse msg with
  | panic => exact Moves.fault
  | err e => exact herr (fun c hc => hc) (by decide) (by decide)
  | ok req =>
    refine .bind (Q := fun s c => c = s.c ∧ c.out = base)
      (Moves.get fun s hs => ⟨rfl, hs⟩) fun s0 => ?_
    cases ht : s0.c.tree? o.sid o.tid with
    | none => exact Moves.fault
    | some tr =>
      dsimp only
      cases ho : tr.opens.lookup req.fileId with
      | none => exact herr (fun c hc => hc.2) (by decide) (by decide)
      | some oh =>
        have hopen : s0.c.open? o.sid o.tid req.fileId = some oh := by
          rw [Conn.open?, ht]
          exact ho
        refine .bind (Q := fun s c => (c = s0.c ∧ s.c = s0.c) ∧ c.out = base)
          (Moves.get fun s hs => ⟨⟨hs.1, hs.1⟩, hs.2⟩) fun s1 => ?_
        let op : PendingOp := (s1.c.registerPending hdr.messageId).1
        refine .bind (Q := fun _ c => c.open? o.sid o.tid req.fileId = some oh ∧
          c.out = base) ?_ fun _ => .bind (Q := fun _ c =>
            c.open? o.sid o.tid req.fileId = some oh ∧
              c.out = base ++ buildAsyncInterim hdr op.asyncID) ?_ fun _ => ?_
        · refine Moves.step (fun _ => rfl) (fun s hs => ?_) fun s hs => ?_
          · have hsc : s1.c = s.c := hs.1.2.trans hs.1.1.symm
            rw [hsc]
            exact .pending hdr.messageId hcmd
          · rw [hs.1.2]
            exact ⟨hopen, by rw [← hs.2, hs.1.1]; rfl⟩
        · refine Moves.step (fun _ => rfl) (fun s _ => .out _) fun s hs => ⟨hs.1, ?_⟩
          simp only [hs.2]
          rfl
        · refine .bind (Q := fun _ c => c.open? o.sid o.tid req.fileId = some oh ∧
              c.out = base ++ buildAsyncInterim hdr op.asyncID)
            (.bind (Steps.call (fun _ => rfl) (fun _ => rfl) fun s hs => .reads hs.1 rfl rfl rfl) fun items =>
              Moves.pure fun s hs => hs.1) fun snap => ?_
          let w : Watcher E := { op, hdr, h := oh.h, snap, req, dest :=
            ⟨o.sid, o.cmd, s1.c.requiresEncryption o.sid⟩ }
          exact Moves.step (fun _ => rfl)
            (fun s hs => .watch w oh hcmd hreq hhdr hs.1 rfl)
            fun s hs => .inl ⟨rfl, op.asyncID, hs.2⟩

end Server
end SmbServer
