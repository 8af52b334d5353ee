/-
# The body of a failed response

A command that fails should be answered with its header and the body of `errBody`, and
with nothing else.  Each handler does so (`dispatch_reports`), READ after it has cut off
the response it had begun (`handleReadInPlace_eq`).  But `handleMessage` fails commands
of its own: where an earlier command of the chain failed, or the signature is refused,
the response is a header without a body; and `handleChangeNotify` writes its error body
before the header is reserved.  `errorBodied_iff` says that these are the exceptions.
-/

import SmbServer.Server.Frames
import SmbServer.Server.Gating

namespace SmbServer
namespace Server

open Wire Vfs Go List

variable {E : Env} {srv : Config E} {o : Origin} {α β : Type}

/-- The status of a command that failed. -/
def Failure (status : UInt32) : Prop :=
  status ≠ statusSuccess ∧ status ≠ statusPending ∧ status ≠ statusMoreProcessingRequired

instance (status : UInt32) : Decidable (Failure status) := inferInstanceAs (Decidable (_ ∧ _))

/-- The next command, if it is answered with a failure, is answered with a header and the
error body, right behind the responses before it. -/
def ErrorBodied (srv : Config E) (lp : Loop) (s : St E) : Prop :=
  ∀ lp' s' r, round srv lp s = .ok lp' s' → lp'.replies = lp.replies ++ [r] →
    Failure (u32At (s'.c.out.drop r.start) 8) → ∃ hdr : Bytes, hdr.length = headerSize ∧
      s'.c.out.drop r.start = hdr ++ errorResponse ∧
      s'.c.out.take r.start = linkPrevious lp.prevRespStart s.c.out

/-! ### READ in place -/

/-- `handleRead` from the call of `Read` on, as it works on `c.out`: room for the response
is allocated first, and cut off or cut down afterwards. -/
def readInPlace (o : Origin) (req : ReadRequest) (oh : OpenHandle E) : M E UInt32 := do
  let s ← Go.get
  let respStart := s.c.out.length
  emit (readResponseFixed req.length.toNat ++ zeros req.length.toNat)
  let (data, err) ← call (some o) (fun _ => .read oh.h req.offset.toNat req.length.toNat)
    (E.read oh.h req.offset.toNat req.length.toNat)
  modifyConn fun c => { c with out := copyAt c.out (respStart + 16) data }
  match err.filter fun e => decide (e ≠ .eof) with
  | some e =>
    modifyConn fun c => { c with out := c.out.take respStart }
    errBody (osErrToStatus e)
  | none =>
    if data.length = 0 then
      modifyConn fun c => { c with out := c.out.take respStart }
      errBody statusEndOfFile
    else
      modifyConn fun c => { c with
        out := (copyAt c.out (respStart + 4) (put32 (UInt32.ofNat data.length))).take
          (respStart + 16 + data.length) }
      return statusSuccess

/-- `handleRead`, with that end. -/
def handleReadInPlace (o : Origin) (msg : Bytes) : M E UInt32 :=
  parsed (ReadRequest.parse msg) fun req =>
    if maxRead < req.length ∨ negativeOffset req.offset then errBody statusInvalidParameter
    else
      withOpen o req.fileId fun _ oh => do
        let s ← Go.get
        if (s.sh.locks oh.path).checkConflict req.fileId req.offset
            (req.offset + req.length.toUInt64) false then
          errBody statusLockConflict
        else readInPlace o req oh

theorem length_readResponseFixed (n : ℕ) : (readResponseFixed n).length = 16 := by simp [readResponseFixed]

/-- The count of a READ response, set where it stands. -/
theorem copyAt_readResponseFixed (n m : ℕ) (rest : Bytes) :
    copyAt (readResponseFixed n ++ rest) 4 (put32 (UInt32.ofNat m)) = readResponseFixed m ++ rest := by
  have h : 4 + (put32 (UInt32.ofNat m)).length ≤ (readResponseFixed n ++ rest).length := by
    rw [length_put32, length_append, length_readResponseFixed]
    omega
  have htake : (readResponseFixed n ++ rest).take 4 = put16 17 ++ put16 80 := by
    rw [readResponseFixed]
    simp only [append_assoc]
    rw [← append_assoc (put16 17)]
    exact take_left' (by simp)
  have hdrop : (readResponseFixed n ++ rest).drop 8 = put32 0 ++ (put32 0 ++ rest) := by
    have : readResponseFixed n ++ rest =
        (put16 17 ++ put16 80 ++ put32 (UInt32.ofNat n)) ++ (put32 0 ++ (put32 0 ++ rest)) := by
      simp only [readResponseFixed, append_assoc]
    rw [this]
    exact drop_left' (by simp)
  rw [copyAt_eq h, htake, length_put32, hdrop]
  simp only [readResponseFixed, append_assoc]

/-- **Working in place leaves the same reply.** -/
theorem handleReadInPlace_eq (o : Origin) (msg : Bytes) :
    (handleReadInPlace o msg : M E UInt32) = handleRead o msg := by
  unfold handleReadInPlace handleRead
  refine congrArg _ (funext fun req => ?_)
  split_ifs
  · rfl
  refine congrArg _ (funext fun _ => funext fun oh => ?_)
  refine congrArg _ (funext fun s0 => ?_)
  split_ifs
  · rfl
  funext s
  obtain ⟨sh, c⟩ := s
  have hlen := E.read_le oh.h req.offset.toNat req.length.toNat sh.world
  obtain ⟨⟨data, err⟩, w, hread⟩ : ∃ r w, E.read oh.h req.offset.toNat req.length.toNat sh.world = (r, w) := ⟨_, _, rfl⟩
  rw [hread] at hlen
  dsimp only at hlen
  have hfill : copyAt (c.out ++ (readResponseFixed req.length.toNat ++ zeros req.length.toNat)) (c.out.length + 16)
      data = c.out ++ (readResponseFixed req.length.toNat ++ copyAt (zeros req.length.toNat) 0 data) := by
    rw [copyAt_append_right, ← length_readResponseFixed req.length.toNat]
    exact congrArg _ (copyAt_append_right _ _ 0 data)
  have hcut : ∀ (status : UInt32) (rest : Bytes) (sh : Shared E),
      (modifyConn (fun c' => { c' with out := c'.out.take c.out.length }) >>= fun _ => errBody status)
        (⟨sh, { c with out := c.out ++ rest }⟩ : St E) = errBody status ⟨sh, c⟩ := by
    intro status rest sh
    have hmod : modifyConn (fun c' => { c' with out := c'.out.take c.out.length })
        (⟨sh, { c with out := c.out ++ rest }⟩ : St E) = .ok () ⟨sh, c⟩ := by
      rw [modifyConn, modify_apply]
      simp only [take_left]
    rw [bind_ok hmod]
  have hemit : ∀ b, (emit b : M E Unit) ⟨sh, c⟩ = .ok () ⟨sh, { c with out := c.out ++ b }⟩ := fun _ => rfl
  have hcall : ∀ c' : Conn E, call (some o) (fun _ => .read oh.h req.offset.toNat req.length.toNat)
      (E.read oh.h req.offset.toNat req.length.toNat) ⟨sh, c'⟩ = .ok (data, err) ⟨{ sh with
        world := w, trace := .call (some o) (.read oh.h req.offset.toNat req.length.toNat) :: sh.trace }, c'⟩ :=
    fun _ => call_ok hread
  unfold readInPlace
  rw [bind_ok (get_apply _), bind_ok (hemit _), bind_ok (hcall _), bind_ok (hcall _)]
  dsimp only
  rw [bind_ok (show modifyConn _ _ = .ok () _ from rfl)]
  simp only [hfill]
  cases hf : err.filter fun e => decide (e ≠ .eof) with
  | some e => exact hcut _ _ _
  | none =>
    dsimp only
    split_ifs with hzero
    · exact hcut _ _ _
    · have hcount : (copyAt (c.out ++ (readResponseFixed req.length.toNat ++
          copyAt (zeros req.length.toNat) 0 data)) (c.out.length + 4) (put32 (UInt32.ofNat data.length))).take
            (c.out.length + 16 + data.length) = c.out ++ (readResponseFixed data.length ++ data) := by
        rw [copyAt_append_right, copyAt_readResponseFixed, Nat.add_assoc, take_length_add_append,
          ← length_readResponseFixed data.length, take_length_add_append,
          copyAt_eq (by rw [length_zeros]; omega), take_zero, nil_append, take_left]
      simp only [modifyConn, modify_apply, succeed, emit, bind_apply, hcount]

/-! ### What handlers report -/

/-- A computation that ends well, or appends the error body and tells a failure. -/
def Reports (status : α → UInt32) (m : M E α) : Prop :=
  ∀ s a s', m s = .ok a s' → (status a = statusSuccess ∨ status a = statusMoreProcessingRequired) ∨
    Failure (status a) ∧ s'.c.out = s.c.out ++ errorResponse

/-- A computation that leaves the reply alone. -/
abbrev Silent (m : M E α) : Prop := Keeps (fun s : St E => s.c.out) m

/-- A silent computation that may tell a failure. -/
def Tells (m : M E (Option UInt32)) : Prop :=
  Silent m ∧ ∀ s status s', m s = .ok (some status) s' → Failure status

namespace Reports

variable {status : α → UInt32}

theorem errBody {st : UInt32} (h : Failure st) : Reports id (errBody st : M E UInt32) := by
  intro s a s' hrun
  obtain ⟨rfl, rfl⟩ := Outcome.ok.inj hrun
  exact .inr ⟨h, rfl⟩

theorem succeed (b : Bytes) : Reports id (succeed b : M E UInt32) := by
  intro s a s' hrun
  exact .inl (.inl (Outcome.ok.inj hrun).1.symm)

theorem fault : Reports status (Go.fault : M E α) := fun s a s' hrun => by cases hrun

theorem bind {m : M E β} {k : β → M E α} (hm : Silent m) (h : ∀ b, Reports status (k b)) :
    Reports status (m >>= k) := by
  intro s a s' hrun
  obtain ⟨b, s1, h1, h2⟩ := bind_eq_ok hrun
  have hout : s1.c.out = s.c.out := by
    have := hm s
    rwa [h1] at this
  rw [← hout]
  exact h b s1 a s' h2

theorem well {m : M E β} {k : β → M E α}
    (h : ∀ b s a s', k b s = .ok a s' → status a = statusSuccess ∨ status a = statusMoreProcessingRequired) :
    Reports status (m >>= k) := by
  intro s a s' hrun
  obtain ⟨b, s1, -, h2⟩ := bind_eq_ok hrun
  exact .inl (h b s1 a s' h2)

theorem get {f : St E → M E α} (h : ∀ s, Reports status (f s)) : Reports status (Go.get >>= f) :=
  fun s a s' hrun => h s s a s' hrun

theorem modify {f : St E → St E} {k : Unit → M E α} (hf : ∀ s, (f s).c.out = s.c.out)
    (h : ∀ u, Reports status (k u)) : Reports status (Go.modify f >>= k) := bind (fun s => hf s) h

theorem call {origin : Option Origin} {op : β → Call E} {f : E.World → β × E.World} {k : β → M E α}
    (h : ∀ b, Reports status (k b)) : Reports status (call origin op f >>= k) := bind (fun _ => rfl) h

theorem map {m : M E β} {status' : β → UInt32} {f : β → α} (h : Reports status' m) (hf : ∀ b, status (f b) = status' b) :
    Reports status (m >>= fun b => pure (f b)) := by
  intro s a s' hrun
  obtain ⟨b, s1, h1, h2⟩ := bind_eq_ok hrun
  obtain ⟨rfl, rfl⟩ := Outcome.ok.inj h2
  rw [hf]
  exact h s b s1 h1

theorem ite {φ : Prop} [Decidable φ] {m1 m2 : M E α} (h1 : Reports status m1) (h2 : Reports status m2) :
    Reports status (if φ then m1 else m2) := by
  split_ifs
  · exact h1
  · exact h2

theorem parsed {ρ : Type} {r : Res Wire.Error ρ} {k : ρ → M E UInt32} (h : ∀ req, Reports id (k req)) :
    Reports id (parsed r k) := by
  cases r with
  | ok req => exact h req
  | err e => exact errBody (by decide)
  | panic => exact fault

theorem withTree {k : Tree E → M E α} (h : ∀ tr, Reports status (k tr)) : Reports status (withTree o k) := by
  refine get fun s => ?_
  cases s.c.tree? o.sid o.tid with
  | none => exact fault
  | some tr => exact h tr

theorem withOpen {fid : FileId} {k : Tree E → OpenHandle E → M E UInt32} (h : ∀ tr oh, Reports id (k tr oh)) :
    Reports id (withOpen o fid k) := by
  refine withTree fun tr => ?_
  cases tr.opens.lookup fid with
  | none => exact errBody (by decide)
  | some oh => exact h tr oh

end Reports

theorem osErrToStatus_failure (e : OsError) : Failure (osErrToStatus e) := by cases e <;> decide

theorem Reports.osErr (e : OsError) : Reports id (Server.errBody (osErrToStatus e) : M E UInt32) :=
  .errBody (osErrToStatus_failure e)

namespace Tells

theorem pure {r : Option UInt32} (h : ∀ status ∈ r, Failure status) : Tells (Pure.pure r : M E (Option UInt32)) :=
  ⟨fun _ => rfl, fun _ _ _ hrun => h _ (Outcome.ok.inj hrun).1⟩

theorem fault : Tells (Go.fault : M E (Option UInt32)) := ⟨fun _ => rfl, fun _ _ _ hrun => by cases hrun⟩

theorem bind {m : M E β} {k : β → M E (Option UInt32)} (hm : Silent m) (h : ∀ b, Tells (k b)) : Tells (m >>= k) := by
  refine ⟨Keeps.bind hm fun b => (h b).1, fun s status s' hrun => ?_⟩
  obtain ⟨b, s1, -, h2⟩ := bind_eq_ok hrun
  exact (h b).2 s1 status s' h2

theorem call {origin : Option Origin} {op : Option OsError → Call E} {f : E.World → Option OsError × E.World} :
    Tells (call origin op f >>= fun err => Pure.pure (err.map osErrToStatus) : M E (Option UInt32)) := by
  refine bind (fun _ => rfl) fun err => pure fun status h => ?_
  obtain ⟨e, -, rfl⟩ := Option.map_eq_some_iff.1 h
  exact osErrToStatus_failure e

theorem ite {φ : Prop} [Decidable φ] {m1 m2 : M E (Option UInt32)} (h1 : Tells m1) (h2 : Tells m2) :
    Tells (if φ then m1 else m2) := by
  split_ifs
  · exact h1
  · exact h2

/-- `if status != 0 { return c.errBody(status) }`. -/
theorem reports {m : M E (Option UInt32)} {k : M E UInt32} {f : Option UInt32 → M E UInt32} (h : Tells m)
    (hnone : f none = k) (hsome : ∀ status, f (some status) = errBody status) (hk : Reports id k) :
    Reports id (m >>= f) := by
  intro s a s' hrun
  obtain ⟨r, s1, h1, h2⟩ := bind_eq_ok hrun
  have hout : s1.c.out = s.c.out := by
    have := h.1 s
    rwa [h1] at this
  rw [← hout]
  cases r with
  | none => exact (hnone ▸ hk : Reports id (f none)) s1 a s' h2
  | some status =>
    rw [hsome] at h2
    exact Reports.errBody (h.2 s status s1 h1) s1 a s' h2

end Tells

/-! ### Handler by handler -/

theorem handleNegotiate_reports (msg : Bytes) : Reports id (handleNegotiate srv msg) :=
  .parsed fun _ => .ite (.errBody (by decide)) (.succeed _)

theorem handleLogoff_reports : Reports id (handleLogoff o : M E UInt32) := .well fun _ s a s' h => by
  cases h
  exact .inl rfl

theorem handleTreeDisconnect_reports : Reports id (handleTreeDisconnect o : M E UInt32) := .well fun _ s a s' h => by
  cases h
  exact .inl rfl

theorem sessionFor_silent (cid : ConnId) (sid : UInt64) : Silent (sessionFor cid sid : M E UInt64) := by
  refine Keeps.get fun s => ?_
  cases s.c.session? sid with
  | some _ => exact .pure _
  | none => exact Keeps.bind (fun _ => rfl) fun _ _ => rfl

theorem acceptToken_silent (sid : UInt64) (token : Bytes) : Silent (acceptToken sid token : M E _) := by
  refine Keeps.get fun s => ?_
  cases s.c.session? sid with
  | none => exact fun _ => rfl
  | some sess => exact Keeps.bind (fun _ => rfl) fun _ _ => rfl

theorem handleSessionSetup_reports (msg : Bytes) (hdr : Header) :
    Reports Prod.fst (handleSessionSetup srv o msg hdr) := by
  have hsend : ∀ sid token, Reports id (sendToken srv sid token : M E UInt32) := by
    intro sid token s a s' hrun
    obtain ⟨_, _, h1, hrun⟩ := bind_eq_ok hrun
    cases h1
    obtain ⟨_, _, h1, hrun⟩ := bind_eq_ok hrun
    cases h1
    cases hs : s.c.session? sid with
    | none => rw [hs] at hrun; cases hrun
    | some sess =>
      rw [hs] at hrun
      cases hrun
      refine .inl ?_
      dsimp only [id]
      split_ifs
      · exact .inl rfl
      · exact .inr rfl
  have hfinish : ∀ sid r, Reports id (finishSessionSetup srv o.conn sid r) := by
    intro sid r
    cases r with
    | error x => cases x <;> exact .errBody (by decide)
    | ok a =>
      rw [finishSessionSetup_accepted]
      split_ifs
      · exact .modify (fun _ => rfl) fun _ => hsend _ _
      · exact .bind (fun _ => rfl) fun _ => hsend _ _
  unfold handleSessionSetup
  cases SessionSetupRequest.parse msg with
  | panic => exact .fault
  | err e => exact .map (.errBody (by decide)) fun _ => rfl
  | ok req =>
    exact .bind (sessionFor_silent _ _) fun sid => .bind (acceptToken_silent _ _) fun r =>
      .map (hfinish sid r) fun _ => rfl

theorem handleTreeConnect_reports (msg : Bytes) (hdr : Header) : Reports Prod.fst (handleTreeConnect srv o msg hdr) := by
  unfold handleTreeConnect
  cases TreeConnectRequest.parse msg with
  | panic => exact .fault
  | err e => exact .map (.errBody (by decide)) fun _ => rfl
  | ok req =>
    dsimp only
    cases srv.shareByName (parseShareName (utf16FromBytes req.path)) with
    | none => exact .map (.errBody (by decide)) fun _ => rfl
    | some sh =>
      refine .get fun s => ?_
      cases s.c.session? o.sid with
      | none => exact .fault
      | some sess => exact .modify (fun _ => rfl) fun _ => .map (.succeed _) fun _ => rfl

theorem createFile_reports (req : CreateRequest) (fid : FileId) : Reports Prod.fst (createFile o req fid : M E _) := by
  refine .withTree fun tr => .ite (.map (.errBody (by decide)) fun _ => rfl) (.call fun opened => ?_)
  cases opened with
  | error e => exact .map (.osErr e) fun _ => rfl
  | ok h =>
    refine .call fun st => ?_
    cases st with
    | error e => exact .call fun _ => .map (.osErr e) fun _ => rfl
    | ok fi => exact .bind (fun _ => rfl) fun _ => .map (.succeed _) fun _ => rfl

theorem handleCreate_reports (msg : Bytes) (fid : FileId) : Reports Prod.fst (handleCreate o msg fid : M E _) := by
  unfold handleCreate
  cases CreateRequest.parse msg with
  | panic => exact .fault
  | err e => exact .map (.errBody (by decide)) fun _ => rfl
  | ok req => exact createFile_reports req fid

theorem removePending_tells (tr : Tree E) (oh : OpenHandle E) : Tells (removePending o tr oh) := by
  refine .ite (.pure (by simp)) (.ite (.pure (by simp; decide)) ?_)
  cases E.remove tr.share.backend with
  | none => exact .pure (by simp)
  | some rm => exact .call

theorem handleClose_reports (msg : Bytes) : Reports id (handleClose o msg : M E UInt32) := by
  refine .parsed fun req => .withOpen fun tr oh => .call fun st => .call fun err => ?_
  split
  · exact .osErr _
  · exact .modify (fun _ => rfl) fun _ => (removePending_tells tr oh).reports rfl (fun _ => rfl) (.succeed _)

theorem handleRead_reports (msg : Bytes) : Reports id (handleRead o msg : M E UInt32) := by
  refine .parsed fun req => .ite (.errBody (by decide)) (.withOpen fun tr oh => .get fun s =>
    .ite (.errBody (by decide)) (.call ?_))
  rintro ⟨data, err⟩
  dsimp only
  cases err.filter fun e => decide (e ≠ .eof) with
  | some e => exact .osErr e
  | none => exact .ite (.errBody (by decide)) (.succeed _)

theorem handleWrite_reports (msg : Bytes) : Reports id (handleWrite o msg : M E UInt32) := by
  refine .parsed fun req => .ite (.errBody (by decide)) (.withTree fun tr => .ite (.errBody (by decide))
    (.withOpen fun tr oh => .get fun s => .ite (.errBody (by decide)) (.call fun r => ?_)))
  cases r with
  | error e => exact .osErr e
  | ok n => exact .succeed _

theorem listEntries_silent (fid : FileId) (pattern : GoString) (oh : OpenHandle E) :
    Silent (listEntries o fid pattern oh) := by
  unfold listEntries
  split_ifs
  · exact fun _ => rfl
  · exact fun _ => rfl

theorem handleQueryDirectory_reports (msg : Bytes) : Reports id (handleQueryDirectory o msg : M E UInt32) := by
  refine .parsed fun req => .withOpen fun tr oh => .modify (fun _ => rfl) fun _ => .ite (.errBody (by decide))
    (.bind (listEntries_silent _ _ _) ?_)
  rintro ⟨oh', err⟩
  dsimp only
  cases err with
  | some e => exact .osErr e
  | none =>
    exact .ite (.modify (fun _ => rfl) fun _ => .errBody (by decide))
      (.get fun s => .modify (fun _ => rfl) fun _ => .succeed _)

theorem sendInfo_reports (limit : UInt32) (info : Option Bytes) : Reports id (sendInfo limit info : M E UInt32) := by
  cases info with
  | none => exact .errBody (by decide)
  | some b => exact .succeed _

theorem handleQueryInfo_reports (msg : Bytes) : Reports id (handleQueryInfo o msg : M E UInt32) := by
  refine .parsed fun req => .withOpen fun tr oh => .ite (.call fun st => ?_)
    (.ite (sendInfo_reports _ _) (.errBody (by decide)))
  cases st with
  | error e => exact .osErr e
  | ok fi => exact sendInfo_reports _ _

theorem setInfo_tells (oh : OpenHandle E) (req : Vfs.SetInfoRequest) : Tells (setInfo o oh req) := by
  unfold setInfo
  cases E.setInfo oh.h with
  | none => exact .pure (by simp)
  | some si => exact .call

theorem renameFile_tells (oh : OpenHandle E) (buffer : Bytes) : Tells (renameFile o oh buffer) := by
  refine .ite (.pure (by simp; decide)) (.ite (.pure (by simp; decide)) (.ite .fault ?_))
  cases E.rename oh.h with
  | none => exact .pure (by simp; decide)
  | some rn => exact .call

theorem setFileInfo_tells (req : Wire.SetInfoRequest) (oh : OpenHandle E) : Tells (setFileInfo o req oh) := by
  refine .ite (.ite (.pure (by simp; decide)) (.bind (fun _ => rfl) fun _ => .pure (by simp))) (.ite ?_ (.ite
    (.ite (.pure (by simp; decide)) (setInfo_tells _ _)) (.ite (renameFile_tells _ _) (.pure (by simp; decide)))))
  cases FileBasicInformation.parse req.buffer with
  | panic => exact .fault
  | err e => exact .pure (by simp; decide)
  | ok bi => exact setInfo_tells _ _

theorem handleSetInfo_reports (msg : Bytes) : Reports id (handleSetInfo o msg : M E UInt32) :=
  .parsed fun req => .withOpen fun tr oh => .ite (.errBody (by decide)) (.ite
    ((setFileInfo_tells req oh).reports rfl (fun _ => rfl) (.succeed _)) (.errBody (by decide)))

theorem lockElements_failure (fid : FileId) (m : LockManager) (acquired ls : List LockElement) :
    (m.lockElements fid acquired ls).1 = statusSuccess ∨ Failure (m.lockElements fid acquired ls).1 := by
  have hinvalid : Failure statusInvalidParameter := by decide
  have hconflict : Failure statusLockConflict := by decide
  induction ls generalizing m acquired with
  | nil => exact .inl rfl
  | cons l ls ih =>
    rw [LockManager.lockElements]
    split_ifs
    · exact .inr hinvalid
    · exact ih _ _
    · cases m.tryLock fid l.offset l.length true with
      | none => exact .inr hconflict
      | some m' => exact ih _ _
    · cases m.tryLock fid l.offset l.length false with
      | none => exact .inr hconflict
      | some m' => exact ih _ _
    · exact .inr hinvalid

theorem handleLock_reports (msg : Bytes) : Reports id (handleLock o msg : M E UInt32) := by
  refine .parsed fun req => .withOpen fun tr oh => .get fun s => .modify (fun _ => rfl) fun _ => ?_
  rcases lockElements_failure req.fileId (s.sh.locks oh.path) [] req.locks with h | h
  · rw [if_pos h]
    exact .succeed _
  · rw [if_neg h.1]
    exact .errBody h

theorem handleIoctl_reports (msg : Bytes) : Reports id (handleIoctl srv o msg) := by
  refine .parsed fun req => .ite (.succeed _) (.ite (.succeed _) (.ite (.get fun s => ?_) (.get fun s => ?_)))
  · cases s.c.open? o.sid o.tid req.fileId with
    | none => exact .errBody (by decide)
    | some oh =>
      dsimp only
      cases E.processPipe oh.h with
      | none => exact .errBody (by decide)
      | some pp => exact .call fun _ => .succeed _
  · cases s.c.tree? o.sid o.tid with
    | none => exact .errBody (by decide)
    | some tr => exact .ite (.errBody (by decide)) (.errBody (by decide))

theorem handleOplockBreak_reports (msg : Bytes) : Reports Prod.fst (handleOplockBreak msg : M E _) :=
  .ite (.map (.errBody (by decide)) fun _ => rfl) (.map (.succeed _) fun _ => rfl)

theorem plainHandler_reports (sub : Bytes) : Reports id (plainHandler srv o sub) := by
  refine .ite (handleNegotiate_reports _) (.ite handleLogoff_reports (.ite handleTreeDisconnect_reports
    (.ite (handleClose_reports _) (.ite (handleRead_reports _) (.ite (handleWrite_reports _)
    (.ite (handleQueryDirectory_reports _) (.ite (handleQueryInfo_reports _) (.ite (handleSetInfo_reports _)
    (.ite (.succeed _) (.ite (handleLock_reports _) (.ite (handleIoctl_reports _) (.ite (.succeed _) ?_))))))))))))
  exact .errBody (by decide)

theorem refusal_failure {c : Conn E} {status : UInt32} (h : c.refusal o = some status) : Failure status := by
  rw [Conn.refusal_eq] at h
  split_ifs at h
  · cases h
    decide
  · cases h
    decide

/-- **Every command that `dispatch` fails has the error body, and nothing else.** -/
theorem dispatch_reports (sub : Bytes) (hdr : Header) (fid : FileId) :
    Reports Handled.status (dispatch srv o sub hdr fid) := by
  refine .get fun s => ?_
  cases hr : s.c.refusal o with
  | some status => exact .map (.errBody (refusal_failure hr)) fun _ => rfl
  | none =>
    exact .ite (.map (handleSessionSetup_reports _ _) fun _ => rfl)
      (.ite (.map (handleTreeConnect_reports _ _) fun _ => rfl) (.ite (.map (handleCreate_reports _ _) fun _ => rfl)
      (.ite (.map (handleOplockBreak_reports _) fun _ => rfl) (.map (plainHandler_reports _) fun _ => rfl))))

/-! ### The chain of a frame -/

/-- A status that is no success and does not ask for more. -/
theorem Reports.failure {status : α → UInt32} {m : M E α} {s s' : St E} {a : α} (h : Reports status m)
    (hrun : m s = .ok a s') (h1 : status a ≠ statusSuccess) (h2 : status a ≠ statusMoreProcessingRequired) :
    Failure (status a) ∧ s'.c.out = s.c.out ++ errorResponse :=
  (h s a s' hrun).resolve_left fun h => h.elim h1 h2

theorem handleCancel_reports (hdr : Header) : Reports id (handleCancel hdr : M E UInt32) :=
  .well fun _ s a s' h => by
    cases h
    exact .inl rfl

/-- What the switch fails, when the chain has not failed. -/
theorem route_reports {hdr : Header} {lp : Loop} (hf : lp.chainFailed = false) :
    Reports Handled.status (route srv o hdr lp) := by
  unfold route
  rw [hf, if_neg Bool.false_ne_true]
  exact .ite (.map (handleCancel_reports hdr) fun _ => rfl) (.modify (fun _ => rfl) fun _ => dispatch_reports _ _ _)

/-- A failed chain has failed with a failure. -/
def Loop.Failed (lp : Loop) : Prop := lp.chainFailed = true → Failure lp.lastStatus

theorem Loop.Failed.next {c : Conn E} {lp : Loop} {k : Command E} (h : lp.Failed) (hk : nextCommand c lp = some k) :
    k.lp.Failed := by
  rcases (nextCommand_status hk).2 with ⟨hf, hst⟩ | ⟨-, hst⟩
  · unfold Loop.Failed
    rw [hf, hst]
    exact h
  · intro _
    rw [hst]
    decide

theorem route_failed {hdr : Header} {lp : Loop} (s : St E) (hf : lp.chainFailed = true) :
    route srv o hdr lp s = .ok ⟨lp.lastStatus, hdr, lp.sub, lp.lastFileId⟩ s := by
  unfold route
  rw [if_pos hf]
  rfl

theorem Routed.failed {k : Command E} {lp lp' : Loop} {s s1 s' : St E} {r : Handled} {reply : Reply}
    (h : lp.Failed) (hr : Routed srv k lp s r s1 reply lp' s') : lp'.Failed := by
  intro hf
  rw [hr.loop] at hf ⊢
  refine Loop.answered_failed (fun status h1 h2 heq => ?_) (fun hfailed => ?_) hf
  · cases hfailed : lp.chainFailed with
    | true =>
      have hroute := hr.route
      rw [route_failed _ hfailed] at hroute
      cases hroute
      rw [heq]
      exact h hfailed
    | false =>
      subst heq
      exact ((route_reports hfailed).failure hr.route h1 h2).1
  · have hroute := hr.route
    rw [route_failed _ hfailed] at hroute
    cases hroute
    exact h hfailed

theorem notifyFailure {status : UInt32} (h : status = statusInvalidParameter ∨ status = statusInvalidHandle) :
    Failure status := by
  rcases h with rfl | rfl <;> decide

theorem failed_rule {C : Sys E → Label → Prop} : FrameRule srv C fun _ lp => lp.Failed where
  congr _ _ h := h
  start _ _ _ _ hf := by cases hf
  pass {S cid c lp lp' s'} _ _ _ _ _ h _ hp hrun := by
    cases hk : nextCommand c lp with
    | none =>
      cases hp with
      | stop => exact h
      | pending k id hk' => exact absurd (hk.symm.trans hk') (by simp)
      | answer k junk a hk' => exact absurd (hk.symm.trans hk') (by simp)
    | some k =>
      have hnext := h.next hk
      rcases round_routed hk hrun with ⟨hn, -, id, reply, -, -, rfl⟩ | ⟨-, r, s1, reply, hr⟩ |
        ⟨-, -, status, s0, r, s1, reply, hst, hr⟩
      · intro hf
        obtain ⟨-, -, hf', -⟩ := Loop.advance_locals (k.lp.addReply reply) k.hdr.nextCommand
        rw [hf'] at hf
        exact absurd hn.2 (by rw [show k.lp.chainFailed = true from hf]; simp)
      · exact hr.failed hnext
      · exact hr.failed fun _ => notifyFailure hst

/-! ### Which failures have their body -/

section Pass

variable {c : Conn E} {lp : Loop} {k : Command E} {sh : Shared E}

/-- A response without a body is no error response. -/
theorem not_errorBodied {lp1 lp' : Loop} {s0 s1 s' : St E} {r : Handled} {reply : Reply}
    (hrun : round srv lp ⟨sh, c⟩ = .ok lp' s') (hreplies : lp1.replies = lp.replies)
    (hr : Routed srv k lp1 s0 r s1 reply lp' s') (hf : lp1.chainFailed = true) (hst : Failure lp1.lastStatus) :
    ¬ErrorBodied srv lp ⟨sh, c⟩ := by
  intro h
  have hroute := hr.route
  rw [route_failed _ hf] at hroute
  cases hroute
  obtain ⟨hrep, hstatus, hdr, hlen, hresp, -⟩ := hr.answer (append_nil _).symm
  rw [hreplies] at hrep
  obtain ⟨hdr', hlen', hresp', -⟩ := h _ _ _ hrun hrep (by rw [hstatus]; exact hst)
  have := congrArg List.length (hresp.symm.trans hresp')
  simp only [length_append, length_nil, hlen, hlen', errorResponse, length_put32, length_cons] at this
  omega

theorem round_failed (hk : nextCommand c lp = some k) (hf : k.lp.chainFailed = true) :
    (round srv lp).Returns ⟨sh, c⟩ := by
  have hn : ¬(k.hdr.command = cmdChangeNotify ∧ k.lp.chainFailed = false) := fun h => by
    rw [hf] at h
    cases h.2
  obtain ⟨lp', s', h⟩ : (respond srv k.origin k.hdr k.lp).Returns ⟨sh, c.charge k.hdr.creditCharge⟩ :=
    respond_returns ⟨_, _, route_failed _ hf⟩
  exact ⟨lp', s', by rw [round_eq srv hk, if_neg hn, h]⟩

theorem not_errorBodied_failed (hk : nextCommand c lp = some k) (h : k.lp.Failed) (hf : k.lp.chainFailed = true) :
    ¬ErrorBodied srv lp ⟨sh, c⟩ := by
  obtain ⟨lp', s', hrun⟩ : (round srv lp).Returns ⟨sh, c⟩ := round_failed hk hf
  rcases round_routed hk hrun with ⟨hn, -⟩ | ⟨-, r, s1, reply, hr⟩ | ⟨hn, -⟩
  · exact absurd (hn.2.symm.trans hf) (by decide)
  · exact not_errorBodied hrun (nextCommand_spec hk).2.2.1.replies hr hf (h hf)
  · exact absurd (hn.2.symm.trans hf) (by decide)

theorem round_notifyFails (hk : nextCommand c lp = some k) (hf : k.lp.chainFailed = false) (hn : k.NotifyFails) :
    (round srv lp).Returns ⟨sh, c⟩ := by
  let s1 : St E := ⟨sh, c.charge k.hdr.creditCharge⟩
  have hround : round srv lp ⟨sh, c⟩ = notify srv k.origin k.hdr k.lp s1 := by
    rw [round_eq srv hk, if_pos ⟨hn.1, hf⟩]
  have hnotify : (notify srv k.origin k.hdr k.lp).Returns s1 := by
    have hsafe := ChangeNotifyRequest.parse_safe k.msg
    cases hreq : ChangeNotifyRequest.parse k.msg with
    | panic => exact absurd hreq hsafe
    | ok req =>
      have ht := (hn.2 req hreq).1
      rw [(nextCommand_spec hk).1] at ht
      exact notify_returns ht
    | err e =>
      have hrun : ∃ s', handleChangeNotify k.origin k.lp.sub k.hdr (k.record s1) =
          .ok (statusInvalidParameter, false) s' := by
        rw [handleChangeNotify, show ChangeNotifyRequest.parse k.lp.sub = .err e from hreq]
        exact ⟨_, rfl⟩
      obtain ⟨s', hrun⟩ := hrun
      obtain ⟨lp', s'', h, -⟩ := notify_fails (s := s1) rfl hrun (by decide)
      exact ⟨lp', s'', h⟩
  obtain ⟨lp', s', h⟩ := hnotify
  exact ⟨lp', s', hround.trans h⟩

end Pass

/-- **Every failed command has its error body, but for those of a failed chain and failed
CHANGE_NOTIFYs.**  For every command a connection may take up in a frame, in every state
reached. -/
theorem errorBodied_iff (srv : Config E) (w : E.World) (S : Sys E) (hS : (system srv w).Reach (fun _ _ => True) S)
    (cid : ConnId) (c : Conn E) (hc : S.conns cid = some c) (lp : Loop) (hlp : c.loop = some lp) (k : Command E)
    (hk : nextCommand c lp = some k) :
    ErrorBodied srv lp ⟨S.sh, c⟩ ↔ k.lp.chainFailed = false ∧ ¬k.NotifyFails := by
  have hfailed : k.lp.Failed := (failed_rule.reach hS cid c lp hc hlp : lp.Failed).next hk
  have hkept := (nextCommand_spec hk).2.2.1
  constructor
  · intro h
    have hf : k.lp.chainFailed = false :=
      Bool.eq_false_iff.2 fun hf => not_errorBodied_failed hk hfailed hf h
    refine ⟨hf, fun hn => ?_⟩
    obtain ⟨lp', s', hrun⟩ : (round srv lp).Returns ⟨S.sh, c⟩ := round_notifyFails hk hf hn
    rcases round_routed hk hrun with ⟨-, ⟨req, hreq, hopen⟩, -⟩ | ⟨hno, -⟩ | ⟨-, -, status, s₀, r, s₁, reply, hst, hr⟩
    · rw [show k.before.open? k.origin.sid k.origin.tid req.fileId = none from (hn.2 req hreq).2] at hopen
      cases hopen
    · exact hno ⟨hn.1, hf⟩
    · have hsettled : (k.lp.settle status).chainFailed = true := by
        rcases hst with rfl | rfl <;> simp [Loop.settle, hf] <;> decide
      have hreplies : (k.lp.settle status).replies = lp.replies := hkept.replies
      exact not_errorBodied hrun hreplies hr hsettled (notifyFailure hst) h
  · rintro ⟨hf, hno⟩ lp' s' r' hrun hrep hst
    rcases round_routed hk hrun with ⟨-, -, id, reply, hout, hstart, rfl⟩ | ⟨hn, r, s₁, reply, hr⟩ | ⟨-, hn, -⟩
    · -- The interim response is no failure.
      rw [(Loop.advance_locals _ _).2.2.2.2.1] at hrep
      obtain rfl : reply = r' := by simpa [Loop.addReply, hkept.replies] using hrep
      rw [hout, hstart, List.drop_left] at hst
      have hpending : u32At (buildAsyncInterim k.hdr id) 8 = statusPending := (Header.encode_status _).1
      exact absurd hpending hst.2.1
    · have hfresh : Fresh k k.lp (St.answering ⟨S.sh, c.charge k.hdr.creditCharge⟩ k.lp) :=
        .inr ⟨rfl, hf, (nextCommand_spec hk).1 ▸ rfl, (reach_base hS _ _ hc).2.2⟩
      obtain ⟨-, ⟨body, hbody, -⟩, -⟩ := route_ok hfresh hr.route
      obtain ⟨hrep', hst', -⟩ := hr.answer hbody
      rw [hkept.replies] at hrep'
      obtain rfl : reply = r' := by
        rw [hrep'] at hrep
        simpa using hrep
      rw [hst'] at hst
      have hout := ((route_reports hf).failure hr.route hst.1 hst.2.2).2
      obtain ⟨-, -, hdr, hlen, hresp, htake⟩ := hr.answer hout
      refine ⟨hdr, hlen, hresp, htake.trans ?_⟩
      rw [hkept.prev]
      rfl
    · exact absurd hn hno

/-! ### ECHOs without a session -/

/-- An ECHO without a session is answered with its error body. -/
theorem errorBodied_iff_echo : ∃ (S : Sys guestEnv) (c : Conn guestEnv) (lp : Loop),
    (guestSystem false).Reach (fun _ _ => True) S ∧ S.conns 0 = some c ∧ c.loop = some lp ∧
      (nextCommand c lp).isSome ∧ ErrorBodied (guestServer false) lp ⟨S.sh, c⟩ := by
  obtain ⟨S, hS, hfaces⟩ := Transition.Reach.of_run (T := guestSystem false) (C := fun _ _ => True)
    (f := fun S => S.faces 0 fun k => !k.lp.chainFailed && decide (k.hdr.command = cmdEcho))
    [.accept, .recv 0 (Header.encode { command := cmdEcho })] (by decide +kernel) (by decide +kernel)
  obtain ⟨c, lp, k, hc, hlp, hk, hp⟩ := Sys.faces_spec hfaces
  simp only [Bool.and_eq_true, Bool.not_eq_true', decide_eq_true_eq] at hp
  refine ⟨S, c, lp, hS, hc, hlp, hk ▸ rfl, ?_⟩
  refine (errorBodied_iff (guestServer false) (0 : ℕ) S hS 0 c hc lp hlp k hk).2 ⟨hp.1, fun hn => ?_⟩
  exact absurd (hp.2.symm.trans hn.1) (by decide)

/-- Two ECHOs without a session. -/
def lostEchoes : Bytes := compound (Header.encode { command := cmdEcho }) (Header.encode { command := cmdEcho })

/-- The second of two ECHOs without a session is answered with a header only. -/
theorem chained_failure_has_no_body :
    ¬∀ (E : Env) (srv : Config E) (w : E.World) (S : Sys E), (system srv w).Reach (fun _ _ => True) S →
      ∀ cid c, S.conns cid = some c → ∀ lp, c.loop = some lp → ∀ k, nextCommand c lp = some k →
        ErrorBodied srv lp ⟨S.sh, c⟩ := by
  intro hall
  obtain ⟨S, hS, hfaces⟩ := Transition.Reach.of_run (T := guestSystem false) (C := fun _ _ => True)
    (f := fun S => S.faces 0 fun k => k.lp.chainFailed)
    [.accept, .recv 0 lostEchoes, .sub 0] (by decide +kernel) (by decide +kernel)
  obtain ⟨c, lp, k, hc, hlp, hk, hf⟩ := Sys.faces_spec hfaces
  have hfailed : k.lp.Failed := (failed_rule.reach hS 0 c lp hc hlp : lp.Failed).next hk
  exact not_errorBodied_failed hk hfailed hf (hall guestEnv (guestServer false) (0 : ℕ) S hS 0 c hc lp hlp k hk)

end Server
end SmbServer
