/-
# Responses at any position of a reply

A compound reply is one buffer, and a handler appends its body to what the commands
before it have left there.  What it appends should not depend on that, since the
offsets of a response count from its own header.

`SessionSetupResponse.Append` and `handleQueryDirectory` compute the offset of their
buffer from the length of the whole reply; every other encoder takes a constant.  So
the answers of these two are right where what precedes their header is a multiple of
`2^16` bytes long, in particular at the start of a reply, and wrong elsewhere
(`positionIndependent_iff`).

Whether the length field next to the offset tells the length of the buffer is a
question of its size only: a token of `2^16` bytes or more, or a listing or pipe
answer of `2^32` bytes or more, does not fit.
-/

import SmbServer.Server.Limits

namespace SmbServer
namespace Server

open Wire Vfs Go Function List

variable {E : Env} {α : Type} {p : Bytes}
variable {k : Buffered} {n : ℕ}

/-- The state with `p` before everything in the reply. -/
def St.behind (p : Bytes) (s : St E) : St E := { s with c := { s.c with out := p ++ s.c.out } }

/-- The state in which a handler runs whose header follows `p`. -/
def St.headed (p : Bytes) (s : St E) : St E := { s with c := { s.c with out := p ++ zeros headerSize } }

/-! ### What does not look at the reply -/

section Commutes

variable {o : Origin} {msg : Bytes} {e : UInt32 → Prop}

theorem emit_commutes {e : Unit → Prop} (b : Bytes) : Commutes (St.behind p) e (emit b : M E Unit) :=
  .modify fun s => by simp only [St.behind, append_assoc]

theorem errBody_commutes (status : UInt32) : Commutes (St.behind p) e (errBody status : M E UInt32) :=
  .bind (emit_commutes _) fun _ => .pure _

theorem succeed_commutes (b : Bytes) : Commutes (St.behind p) e (succeed b : M E UInt32) :=
  .bind (emit_commutes _) fun _ => .pure _

theorem modifyShared_commutes {e : Unit → Prop} (f : Shared E → Shared E) : Commutes (St.behind p) e (modifyShared f) :=
  .modify fun _ => rfl

theorem ask_commutes {e : α → Prop} (f : E.World → α × E.World) : Commutes (St.behind p) e (ask f) := .of_eq fun _ => rfl

theorem call_commutes {e : α → Prop} (origin : Option Origin) (op : α → Call E) (f : E.World → α × E.World) :
    Commutes (St.behind p) e (call origin op f) := .of_eq fun _ => rfl

theorem parsed_commutes {ρ : Type} {r : Res Wire.Error ρ} {k : ρ → M E UInt32}
    (h : ∀ req, r = .ok req → Commutes (St.behind p) e (k req)) : Commutes (St.behind p) e (parsed r k) := by
  cases r with
  | ok req => exact h req rfl
  | err e => exact errBody_commutes _
  | panic => exact .fault

theorem withTree_commutes {e : α → Prop} {k : Tree E → M E α} (h : ∀ tr, Commutes (St.behind p) e (k tr)) :
    Commutes (St.behind p) e (withTree o k) := by
  refine .get (fun _ => rfl) fun s => ?_
  cases s.c.tree? o.sid o.tid with
  | none => exact .fault
  | some tr => exact h tr

theorem withOpen_commutes {fid : FileId} {k : Tree E → OpenHandle E → M E UInt32}
    (h : ∀ tr oh, Commutes (St.behind p) e (k tr oh)) : Commutes (St.behind p) e (withOpen o fid k) := by
  refine withTree_commutes fun tr => ?_
  cases tr.opens.lookup fid with
  | none => exact errBody_commutes _
  | some oh => exact h tr oh

theorem handleNegotiate_commutes (srv : Config E) : Commutes (St.behind p) e (handleNegotiate srv msg) :=
  parsed_commutes fun _ _ => .ite (errBody_commutes _) (succeed_commutes _)

theorem closeAllOpens_commutes (origin : Option Origin) (sid : UInt64) (tid : UInt32) :
    Commutes (St.behind p) (fun _ => False) (closeAllOpens origin sid tid : M E Unit) := by
  refine .get (fun _ => rfl) fun s => ?_
  cases s.c.tree? sid tid with
  | none => exact .fault
  | some tr =>
    refine .bind (ask_commutes _) fun opens => .bind (.forEach (fun oh => ?_) opens) fun _ => .modify fun _ => rfl
    exact .bind (call_commutes _ _ _) fun _ => modifyShared_commutes _

theorem handleLogoff_commutes : Commutes (St.behind p) e (handleLogoff o : M E UInt32) := by
  refine .bind (.get (fun _ => rfl) fun s => ?_) fun _ => .bind (.modify fun _ => rfl) fun _ => succeed_commutes _
  cases s.c.session? o.sid with
  | none => exact .fault
  | some sess => exact .bind (ask_commutes _) fun tids => .forEach (fun tid => closeAllOpens_commutes _ _ _) tids

theorem handleTreeConnect_commutes {e : UInt32 × Header → Prop} (srv : Config E) (hdr : Header) :
    Commutes (St.behind p) e (handleTreeConnect srv o msg hdr) := by
  unfold handleTreeConnect
  split
  · exact .fault
  · exact .bind (errBody_commutes _) fun _ => .pure _
  · split
    · exact .bind (errBody_commutes _) fun _ => .pure _
    · refine .get (fun _ => rfl) fun s => ?_
      cases s.c.session? o.sid with
      | none => exact .fault
      | some sess =>
        exact .bind (.modify fun _ => rfl) fun _ => .bind (succeed_commutes _) fun _ => .pure _

theorem handleTreeDisconnect_commutes : Commutes (St.behind p) e (handleTreeDisconnect o : M E UInt32) :=
  .bind (closeAllOpens_commutes _ _ _) fun _ => .bind (.modify fun _ => rfl) fun _ => succeed_commutes _

theorem handleCreate_commutes {e : UInt32 × FileId → Prop} (fid : FileId) : Commutes (St.behind p) e (handleCreate o msg fid : M E _) := by
  unfold handleCreate
  split
  · exact .fault
  · exact .bind (errBody_commutes _) fun _ => .pure _
  · refine withTree_commutes fun tr => .ite (.bind (errBody_commutes _) fun _ => .pure _) ?_
    refine .bind (call_commutes _ _ _) fun opened => ?_
    cases opened with
    | error e => exact .bind (errBody_commutes _) fun _ => .pure _
    | ok h =>
      refine .bind (call_commutes _ _ _) fun st => ?_
      cases st with
      | error e => exact .bind (call_commutes _ _ _) fun _ => .bind (errBody_commutes _) fun _ => .pure _
      | ok fi => exact .bind (.of_eq fun _ => rfl) fun _ => .bind (succeed_commutes _) fun _ => .pure _

theorem handleClose_commutes : Commutes (St.behind p) e (handleClose o msg : M E UInt32) := by
  refine parsed_commutes fun req _ => withOpen_commutes fun tr oh => ?_
  refine .bind (call_commutes _ _ _) fun st => .bind (call_commutes _ _ _) fun err => ?_
  have hremove : Commutes (St.behind p) (fun _ => False) (removePending o tr oh : M E (Option UInt32)) := by
    unfold removePending
    refine .ite (.pure _) (.ite (.pure _) ?_)
    cases E.remove tr.share.backend with
    | none => exact .pure _
    | some rm => exact .bind (call_commutes _ _ _) fun _ => .pure _
  have hrest : ∀ f : Option UInt32 → M E UInt32, (∀ r, Commutes (St.behind p) e (f r)) →
      Commutes (St.behind p) e (endOpen o req.fileId oh.path >>= fun _ => removePending o tr oh >>= f) :=
    fun f hf => .bind (.modify fun _ => rfl) fun _ => .bind hremove hf
  cases err with
  | none =>
    refine hrest _ fun r => ?_
    cases r with
    | some status => exact errBody_commutes _
    | none => exact succeed_commutes _
  | some e =>
    cases st with
    | ok fi => exact errBody_commutes _
    | error e' =>
      refine hrest _ fun r => ?_
      cases r with
      | some status => exact errBody_commutes _
      | none => exact succeed_commutes _

theorem handleRead_commutes : Commutes (St.behind p) e (handleRead o msg : M E UInt32) := by
  refine parsed_commutes fun req _ => .ite (errBody_commutes _) (withOpen_commutes fun _ oh => ?_)
  refine .get (fun _ => rfl) fun s => .ite (errBody_commutes _) (.bind (call_commutes _ _ _) fun r => ?_)
  obtain ⟨data, err⟩ := r
  dsimp only
  split
  · exact errBody_commutes _
  · exact .ite (errBody_commutes _) (succeed_commutes _)

theorem handleWrite_commutes : Commutes (St.behind p) e (handleWrite o msg : M E UInt32) := by
  refine parsed_commutes fun req _ => .ite (errBody_commutes _) (withTree_commutes fun tr => ?_)
  refine .ite (errBody_commutes _) (withOpen_commutes fun _ oh => ?_)
  refine .get (fun _ => rfl) fun s => .ite (errBody_commutes _) (.bind (call_commutes _ _ _) fun r => ?_)
  cases r with
  | error e => exact errBody_commutes _
  | ok n => exact succeed_commutes _

theorem sendInfo_commutes (limit : UInt32) (info : Option Bytes) :
    Commutes (St.behind p) e (sendInfo limit info : M E UInt32) := by
  cases info with
  | none => exact errBody_commutes _
  | some b => exact succeed_commutes _

theorem handleQueryInfo_commutes : Commutes (St.behind p) e (handleQueryInfo o msg : M E UInt32) := by
  refine parsed_commutes fun req _ => withOpen_commutes fun _ oh => .ite (.bind (call_commutes _ _ _) fun st => ?_)
    (.ite (sendInfo_commutes _ _) (errBody_commutes _))
  cases st with
  | error e => exact errBody_commutes _
  | ok fi => exact sendInfo_commutes _ _

theorem setInfo_commutes {e : Option UInt32 → Prop} (oh : OpenHandle E) (req : Vfs.SetInfoRequest) :
    Commutes (St.behind p) e (setInfo o oh req) := by
  unfold setInfo
  cases E.setInfo oh.h with
  | none => exact .pure _
  | some si => exact .bind (call_commutes _ _ _) fun _ => .pure _

theorem renameFile_commutes {e : Option UInt32 → Prop} (oh : OpenHandle E) (buffer : Bytes) :
    Commutes (St.behind p) e (renameFile o oh buffer) := by
  refine .ite (.pure _) (.ite (.pure _) (.ite .fault ?_))
  cases E.rename oh.h with
  | none => exact .pure _
  | some rn => exact .bind (call_commutes _ _ _) fun _ => .pure _

theorem handleSetInfo_commutes : Commutes (St.behind p) e (handleSetInfo o msg : M E UInt32) := by
  refine parsed_commutes fun req _ => withOpen_commutes fun tr oh => .ite (errBody_commutes _)
    (.ite (.bind ?_ fun r => ?_) (errBody_commutes _))
  · unfold setFileInfo
    refine .ite (.ite (.pure _) (.bind (.modify fun _ => rfl) fun _ => .pure _))
      (.ite ?_ (.ite (.ite (.pure _) (setInfo_commutes _ _))
        (.ite (renameFile_commutes _ _) (.pure _))))
    cases FileBasicInformation.parse req.buffer with
    | panic => exact .fault
    | err e => exact .pure _
    | ok bi => exact setInfo_commutes _ _
  · cases r with
    | some status => exact errBody_commutes _
    | none => exact succeed_commutes _

theorem handleLock_commutes : Commutes (St.behind p) e (handleLock o msg : M E UInt32) := by
  refine parsed_commutes fun req _ => withOpen_commutes fun _ oh => .get (fun _ => rfl) fun s => ?_
  exact .bind (modifyShared_commutes _) fun _ => .ite (succeed_commutes _) (errBody_commutes _)

theorem handleIoctl_commutes (srv : Config E) : Commutes (St.behind p) e (handleIoctl srv o msg) := by
  refine parsed_commutes fun req _ => .ite (succeed_commutes _) (.ite (succeed_commutes _)
    (.ite (.get (fun _ => rfl) fun s => ?_) (.get (fun _ => rfl) fun s => ?_)))
  · cases s.c.open? o.sid o.tid req.fileId with
    | none => exact errBody_commutes _
    | some oh =>
      dsimp only
      cases E.processPipe oh.h with
      | none => exact errBody_commutes _
      | some pp => exact .bind (call_commutes _ _ _) fun _ => succeed_commutes _
  · cases s.c.tree? o.sid o.tid with
    | none => exact errBody_commutes _
    | some tr => exact .ite (errBody_commutes _) (errBody_commutes _)

theorem handleOplockBreak_commutes {e : UInt32 × Bytes → Prop} : Commutes (St.behind p) e (handleOplockBreak msg : M E _) :=
  .ite (.bind (errBody_commutes _) fun _ => .pure _) (.bind (succeed_commutes _) fun _ => .pure _)

/-- Behind a multiple of `2^16` bytes the offset is the same. -/
theorem ofNat_behind (hp : p.length % 2 ^ 16 = 0) (b : Bytes) (n : ℕ) :
    UInt16.ofNat ((p ++ b).length + n) = UInt16.ofNat (b.length + n) := by
  rw [← UInt16.toNat_inj, UInt16.toNat_ofNat', UInt16.toNat_ofNat', length_append]
  omega

theorem sendEntries_commutes (h : p.length % 2 ^ 16 = 0 ∨ e statusSuccess) (req : QueryDirectoryRequest)
    (oh : OpenHandle E) : Commutes (St.behind p) e (sendEntries o req oh) := by
  refine .ite (.bind (.modify fun _ => rfl) fun _ => errBody_commutes _) ?_
  rcases h with hp | he
  · refine .get (fun s => ?_) fun s => .bind (.modify fun _ => rfl) fun _ => succeed_commutes _
    simp only [St.behind, ofNat_behind hp]
  · exact fun s => .inr ⟨_, _, rfl, he⟩

/-- A query that fails does so at any position. -/
theorem handleQueryDirectory_commutes (h : p.length % 2 ^ 16 = 0 ∨ e statusSuccess) :
    Commutes (St.behind p) e (handleQueryDirectory o msg : M E UInt32) := by
  refine parsed_commutes fun req _ => withOpen_commutes fun _ oh => .bind (.modify fun _ => rfl) fun _ => ?_
  refine .ite (errBody_commutes _) (.bind ?_ fun r => ?_)
  · exact .ite (.bind (call_commutes _ _ _) fun _ => .bind (.modify fun _ => rfl) fun _ => .pure _) (.pure _)
  · obtain ⟨oh', err⟩ := r
    cases err with
    | some x => exact errBody_commutes _
    | none => exact sendEntries_commutes h req oh'

theorem sessionFor_commutes {e : UInt64 → Prop} (cid : ConnId) (sid : UInt64) :
    Commutes (St.behind p) e (sessionFor cid sid : M E UInt64) := by
  refine .get (fun _ => rfl) fun s => ?_
  cases s.c.session? sid with
  | some sess => exact .pure _
  | none => exact .bind (ask_commutes _) fun _ => .of_eq fun _ => rfl

theorem acceptToken_commutes {e : Except Auth.AuthError Auth.AcceptResult → Prop} (sid : UInt64)
    (token : Bytes) : Commutes (St.behind p) e (acceptToken sid token : M E _) := by
  refine .get (fun _ => rfl) fun s => ?_
  cases s.c.session? sid with
  | none => exact .fault
  | some sess => exact .bind (ask_commutes _) fun _ => .bind (.modify fun _ => rfl) fun _ => .pure _

theorem finishSessionSetup_accepted (srv : Config E) (cid : ConnId) (sid : UInt64) (a : Auth.AcceptResult) :
    finishSessionSetup srv cid sid (.ok a) =
      (if a.identity.isSome then setIdentity srv cid sid a else pure ()) >>=
        fun _ => sendToken srv sid a.outputToken := by
  rw [finishSessionSetup]
  split_ifs <;> rfl

theorem finishSessionSetup_commutes (srv : Config E) (cid : ConnId) (sid : UInt64)
    {r : Except Auth.AuthError Auth.AcceptResult} (h : ∀ a, r = .ok a → p.length % 2 ^ 16 = 0) :
    Commutes (St.behind p) e (finishSessionSetup srv cid sid r) := by
  cases r with
  | error x => cases x <;> exact errBody_commutes _
  | ok a =>
    have htoken : Commutes (St.behind p) e (sendToken srv sid a.outputToken) := by
      refine .get (fun s => ?_) fun s => .bind (emit_commutes _) fun _ => ?_
      · simp only [St.behind, sessionSetupResponse, ofNat_behind (h a rfl)]
        rfl
      · cases s.c.session? sid with
        | none => exact .fault
        | some sess => exact .pure _
    rw [finishSessionSetup_accepted]
    exact .bind (.ite (.modify fun _ => rfl) (.pure _)) fun _ => htoken

end Commutes

/-! ### SESSION_SETUP -/

/-- What `Accept` says to a token for the session a header names, or for a new one. -/
def St.accepting (s : St E) (sid : UInt64) (token : Bytes) : Except Auth.AuthError Auth.AcceptResult :=
  match s.c.session? sid with
  | some sess => (E.accept sess.auth token s.sh.world).1.1
  | none => (E.accept (E.authFactory s.sh.world).1 token (E.authFactory s.sh.world).2).1.1

section SessionSetup

variable {srv : Config E} {o : Origin} {msg : Bytes} {hdr : Header} {s : St E} {req : SessionSetupRequest}

/-- The part of a SESSION_SETUP before its response. -/
theorem session_accepting (cid : ConnId) (sid0 : UInt64) (token : Bytes) (s : St E) :
    ∃ sid s1 s2 sess, sessionFor cid sid0 s = .ok sid s1 ∧
      acceptToken sid token s1 = .ok (s.accepting sid0 token) s2 ∧ s2.c.out = s.c.out ∧
      s2.c.session? sid = some sess := by
  have haccept : ∀ sid (s1 : St E) sess, s1.c.session? sid = some sess →
      ∃ s2 sess', acceptToken sid token s1 = .ok (E.accept sess.auth token s1.sh.world).1.1 s2 ∧
        s2.c.out = s1.c.out ∧ s2.c.session? sid = some sess' := fun sid s1 sess hs => by
    have hrun : acceptToken sid token s1 = _ := bind_ok (get_apply s1)
    rw [hs] at hrun
    refine ⟨_, { sess with auth := (E.accept sess.auth token s1.sh.world).1.2 }, hrun, rfl, ?_⟩
    simp [Conn.session?_modifySession, hs]
  unfold sessionFor St.accepting
  cases hs : s.c.session? sid0 with
  | some sess =>
    obtain ⟨s2, sess', hrun, hout, hs2⟩ := haccept sid0 s sess hs
    refine ⟨sid0, s, s2, sess', ?_, hrun, hout, hs2⟩
    rw [bind_ok (get_apply s), hs]
    rfl
  | none =>
    let s1 : St E :=
      { sh := { s.sh with
          world := (E.authFactory s.sh.world).2
          nextSess := s.sh.nextSess + 1
          trace := .session cid (s.sh.nextSess + 1) :: s.sh.trace }
        c := { s.c with
          sessions := s.c.sessions.insert (s.sh.nextSess + 1) { auth := (E.authFactory s.sh.world).1 } } }
    have hs1 : s1.c.session? (s.sh.nextSess + 1) = some { auth := (E.authFactory s.sh.world).1 } := by
      simp [s1, Conn.session?]
    obtain ⟨s2, sess', hrun, hout, hs2⟩ := haccept _ s1 _ hs1
    refine ⟨_, s1, s2, sess', ?_, hrun, hout, hs2⟩
    rw [bind_ok (get_apply s), hs]
    rfl

/-- A token that is accepted is answered with the token of the authenticator. -/
theorem handleSessionSetup_ok (srv : Config E) (o : Origin) (hreq : SessionSetupRequest.parse msg = .ok req) {a : Auth.AcceptResult}
    (ha : s.accepting hdr.sessionId req.securityBuffer = .ok a) :
    ∃ r s', handleSessionSetup srv o msg hdr s = .ok r s' ∧
      (r.1 = statusSuccess ∨ r.1 = statusMoreProcessingRequired) ∧
      s'.c.out = s.c.out ++ sessionSetupResponse s.c.out.length
        (if srv.requireEnc then sessionFlagEncryptData else 0) a.outputToken := by
  obtain ⟨sid, s1, s2, sess, h1, h2, hout, hs⟩ := session_accepting o.conn hdr.sessionId req.securityBuffer s
  rw [ha] at h2
  have hrun : handleSessionSetup srv o msg hdr s =
      (finishSessionSetup srv o.conn sid (.ok a) >>= fun status => pure (status, { hdr with sessionId := sid })) s2 := by
    rw [handleSessionSetup, hreq]
    exact (bind_ok h1).trans (bind_ok h2)
  have hsend : ∀ (s3 : St E) sess, s3.c.session? sid = some sess →
      sendToken srv sid a.outputToken s3 = .ok
        (if sess.authenticated then statusSuccess else statusMoreProcessingRequired)
        { s3 with c := { s3.c with out := s3.c.out ++ (sessionSetupResponse s3.c.out.length
          (if srv.requireEnc then sessionFlagEncryptData else 0) a.outputToken) } } := fun s3 sess hs => by
    have hrun : sendToken srv sid a.outputToken s3 = _ := bind_ok (get_apply s3)
    rw [hs] at hrun
    exact hrun
  have hstatus : ∀ b : Bool, (if b then statusSuccess else statusMoreProcessingRequired) = statusSuccess ∨
      (if b then statusSuccess else statusMoreProcessingRequired) = statusMoreProcessingRequired := by
    decide
  rw [hrun, ← hout, finishSessionSetup_accepted]
  cases hid : a.identity.isSome with
  | true =>
    have hs3 : (s2.c.modifySession sid (authenticate srv a)).session? sid = some (authenticate srv a sess) := by
      simp [Conn.session?_modifySession, hs]
    exact ⟨_, _, bind_ok (hsend { sh := _, c := s2.c.modifySession sid (authenticate srv a) } _ hs3),
      hstatus (authenticate srv a sess).authenticated, rfl⟩
  | false => exact ⟨_, _, bind_ok (hsend s2 sess hs), hstatus sess.authenticated, rfl⟩

/-- Only a token that is accepted is answered with one. -/
theorem handleSessionSetup_answered {r : UInt32 × Header} {s' : St E}
    (hrun : handleSessionSetup srv o msg hdr s = .ok r s')
    (hr : r.1 = statusSuccess ∨ r.1 = statusMoreProcessingRequired) :
    ∃ req a, SessionSetupRequest.parse msg = .ok req ∧ s.accepting hdr.sessionId req.securityBuffer = .ok a := by
  have hfail : ∀ (status : UInt32) (hdr' : Header) (s1 : St E), status ≠ statusSuccess →
      status ≠ statusMoreProcessingRequired →
      (errBody status >>= fun status => pure (status, hdr')) s1 ≠ .ok r s' := fun status hdr' s1 h1 h2 he => by
    obtain ⟨rfl, -⟩ := Outcome.ok.inj he
    exact hr.elim h1 h2
  cases hreq : SessionSetupRequest.parse msg with
  | panic => exact absurd hreq (SessionSetupRequest.parse_safe msg)
  | err e =>
    rw [handleSessionSetup, hreq] at hrun
    exact absurd hrun (hfail _ _ _ (by decide) (by decide))
  | ok req =>
    obtain ⟨sid, s1, s2, -, h1, h2, -, -⟩ := session_accepting o.conn hdr.sessionId req.securityBuffer s
    rw [handleSessionSetup, hreq] at hrun
    replace hrun := ((bind_ok h1).trans (bind_ok h2)).symm.trans hrun
    cases hacc : s.accepting hdr.sessionId req.securityBuffer with
    | ok a => exact ⟨req, a, rfl, hacc⟩
    | error x =>
      rw [hacc] at hrun
      cases x with
      | logonFailed => exact absurd hrun (hfail _ _ _ (by decide) (by decide))
      | other => exact absurd hrun (hfail _ _ _ (by decide) (by decide))

/-- Unless a token is accepted, the position is of no importance. -/
theorem handleSessionSetup_same (h : ∀ req a, SessionSetupRequest.parse msg = .ok req →
      s.accepting hdr.sessionId req.securityBuffer = .ok a → p.length % 2 ^ 16 = 0) :
    handleSessionSetup srv o msg hdr (s.behind p) = (handleSessionSetup srv o msg hdr s).map (St.behind p) := by
  cases hreq : SessionSetupRequest.parse msg with
  | panic => exact absurd hreq (SessionSetupRequest.parse_safe msg)
  | err e =>
    rw [handleSessionSetup, hreq]
    exact (Commutes.bind (errBody_commutes _) fun status => .pure (status, hdr)).eq s
  | ok req =>
    obtain ⟨sid, s1, s2, -, h1, h2, -, -⟩ := session_accepting o.conn hdr.sessionId req.securityBuffer s
    have h1' : sessionFor o.conn hdr.sessionId (s.behind p) = .ok sid (s1.behind p) := by
      rw [(sessionFor_commutes _ _).eq, h1]
      rfl
    have h2' : acceptToken sid req.securityBuffer (s1.behind p) =
        .ok (s.accepting hdr.sessionId req.securityBuffer) (s2.behind p) := by
      rw [(acceptToken_commutes _ _).eq, h2]
      rfl
    have hfin := (finishSessionSetup_commutes (p := p) (e := fun _ => False) srv o.conn sid fun a => h req a hreq).bind
      (e := fun _ => False) fun status => .pure (status, { hdr with sessionId := sid })
    rw [handleSessionSetup, hreq]
    refine ((bind_ok h1').trans (bind_ok h2')).trans ((hfin.eq s2).trans ?_)
    exact congrArg (Outcome.map (St.behind p)) ((bind_ok h1).trans (bind_ok h2)).symm

end SessionSetup

/-! ### The buffers of a response -/

/-- The responses that say where their buffer is. -/
inductive Buffered where
  | sessionSetup | queryDirectory | read | queryInfo | ioctl
  deriving DecidableEq

namespace Buffered

def cmd : Buffered → UInt16
  | sessionSetup => cmdSessionSetup
  | queryDirectory => cmdQueryDirectory
  | read => cmdRead
  | queryInfo => cmdQueryInfo
  | ioctl => cmdIoctl

/-- The length of the body before the buffer. -/
def fixed : Buffered → ℕ
  | sessionSetup | queryDirectory | queryInfo => 8
  | read => 16
  | ioctl => 48

/-- The offset and the length fields of a body.  An IOCTL has an input and an output. -/
def fields (b : Bytes) : Buffered → List (ℕ × ℕ)
  | sessionSetup => [((u16At b 4).toNat, (u16At b 6).toNat)]
  | queryDirectory | read | queryInfo => [((u16At b 2).toNat, (u32At b 4).toNat)]
  | ioctl => [((u32At b 24).toNat, (u32At b 28).toNat), ((u32At b 32).toNat, (u32At b 36).toNat)]

/-- With such a status the response has its buffer. -/
def Answered (status : UInt32) (k : Buffered) : Prop :=
  status = statusSuccess ∨ k = sessionSetup ∧ status = statusMoreProcessingRequired

/-- Read from its own header on, the response delimits exactly what follows its
fixed part. -/
def Delimits (resp : Bytes) (k : Buffered) : Prop :=
  (k.fields (resp.drop headerSize)).flatMap (fun f => slice resp f.1 f.2) = resp.drop (headerSize + k.fixed)

end Buffered

theorem take_mod_eq_iff (l : Bytes) (hn : 0 < n) : l.take (l.length % n) = l ↔ l.length < n := by
  constructor
  · intro h
    have hlen := congrArg List.length h
    rw [length_take] at hlen
    have := Nat.mod_lt l.length hn
    omega
  · intro h
    rw [Nat.mod_eq_of_lt h, take_length]

/-- One buffer, at its place: its length has to fit the field. -/
theorem delimits_iff {fixed payload : Bytes} (hn : 0 < n) (hlen : fixed.length = k.fixed)
    (hf : (k.fields (fixed ++ payload)).flatMap (fun f => slice (zeros headerSize ++ (fixed ++ payload)) f.1 f.2) =
      slice (zeros headerSize ++ (fixed ++ payload)) (headerSize + k.fixed) (payload.length % n)) :
    k.Delimits (zeros headerSize ++ (fixed ++ payload)) ↔ payload.length < n := by
  have hbody : (zeros headerSize ++ (fixed ++ payload)).drop headerSize = fixed ++ payload :=
    drop_left' (length_zeros _)
  have hdrop : (zeros headerSize ++ (fixed ++ payload)).drop (headerSize + k.fixed) = payload := by
    rw [← drop_drop, hbody]
    exact drop_left' hlen
  rw [Buffered.Delimits, hbody, hf, hdrop, slice, hdrop, take_mod_eq_iff _ hn]

theorem delimits_sessionSetup_iff (flags : UInt16) (token : Bytes) :
    Buffered.sessionSetup.Delimits (zeros headerSize ++ sessionSetupResponse headerSize flags token) ↔
      token.length < 2 ^ 16 := by
  have hb : sessionSetupResponse headerSize flags token =
      (put16 9 ++ put16 flags ++ put16 72 ++ put16 (UInt16.ofNat token.length)) ++ token := rfl
  rw [hb]
  refine delimits_iff (n := 2 ^ 16) (by norm_num) (by simp [Buffered.fixed]) ?_
  simp [Buffered.fields, Buffered.fixed, headerSize, u16At_append_right, u16At_put16]

/-- The buffer of a listing and of an information. -/
theorem delimits_info_iff (hk : k = .queryDirectory ∨ k = .queryInfo) (info : Bytes) :
    k.Delimits (zeros headerSize ++ queryInfoResponse info) ↔ info.length < 2 ^ 32 := by
  have hb : queryInfoResponse info =
      (put16 9 ++ put16 72 ++ put32 (UInt32.ofNat info.length)) ++ info := rfl
  rw [hb]
  obtain rfl | rfl := hk
  · refine delimits_iff (n := 2 ^ 32) (by norm_num) (by simp [Buffered.fixed]) ?_
    simp [Buffered.fields, Buffered.fixed, headerSize, u16At_append_right, u32At_append_right, u16At_put16,
      u32At_put32]
  · refine delimits_iff (n := 2 ^ 32) (by norm_num) (by simp [Buffered.fixed]) ?_
    simp [Buffered.fields, Buffered.fixed, headerSize, u16At_append_right, u32At_append_right, u16At_put16,
      u32At_put32]

theorem delimits_read_iff (data : Bytes) :
    Buffered.read.Delimits (zeros headerSize ++ (readResponseFixed data.length ++ data)) ↔ data.length < 2 ^ 32 := by
  refine delimits_iff (n := 2 ^ 32) (by norm_num) (by simp [Buffered.fixed, readResponseFixed]) ?_
  simp [Buffered.fields, Buffered.fixed, headerSize, readResponseFixed, u16At_append_right, u32At_append_right,
    u16At_put16, u32At_put32]

theorem delimits_ioctl_iff (ctlCode : UInt32) (fid : FileId) (output : Bytes) (flags : UInt32) :
    Buffered.ioctl.Delimits (zeros headerSize ++ ioctlResponse ctlCode fid [] output flags) ↔
      output.length < 2 ^ 32 := by
  have hb : ioctlResponse ctlCode fid [] output flags =
      (put16 49 ++ zeros 2 ++ put32 ctlCode ++ fid.1 ++ put32 0 ++ put32 0 ++
        put32 (if 0 < output.length then 112 else 0) ++ put32 (UInt32.ofNat output.length) ++ put32 flags ++ zeros 4) ++
        output := by
    simp [ioctlResponse]
  rw [hb]
  refine delimits_iff (n := 2 ^ 32) (by norm_num) (by simp [Buffered.fixed, fid.2]) ?_
  have hfid := fid.2
  cases output with
  | nil => simp [Buffered.fields, headerSize, u32At_append_right, u32At_put32, hfid, slice]
  | cons x output =>
    simp [Buffered.fields, Buffered.fixed, headerSize, u32At_append_right, u32At_put32, hfid, slice]

/-! ### Any position -/

/-- Behind `p` the computation does what it does at the start of a reply, and its
response delimits its buffer. -/
structure Placed (o : Origin) (p : Bytes) (status : α → UInt32) (m : M E α) (s : St E) : Prop where
  same : m (s.headed p) = (m (s.headed [])).map (St.behind p)
  delimited : ∀ k a s', o.cmd = Buffered.cmd k → m (s.headed p) = .ok a s' → k.Answered (status a) →
    k.Delimits (s'.c.out.drop p.length)

/-- The response to a command is the same at any position. -/
def PositionIndependent (srv : Config E) (o : Origin) (sub : Bytes) (hdr : Header) (fid : FileId) (p : Bytes)
    (s : St E) : Prop :=
  Placed o p Handled.status (dispatch srv o sub hdr fid) s

/-- A token that is accepted is answered at the start of the reply, with one whose
length fits its field. -/
def TokenSafe (sub : Bytes) (hdr : Header) (p : Bytes) (s : St E) : Prop :=
  ∀ req a, SessionSetupRequest.parse sub = .ok req → s.accepting hdr.sessionId req.securityBuffer = .ok a →
    p.length % 2 ^ 16 = 0 ∧ a.outputToken.length < 2 ^ 16

/-- A listing with entries left is sent at the start of the reply, and the length of
no beginning of it that is let in exceeds its field. -/
def ListingSafe (o : Origin) (sub p : Bytes) (s : St E) : Prop :=
  ∀ req oh, QueryDirectoryRequest.parse sub = .ok req → s.c.open? o.sid o.tid req.fileId = some oh →
    ∀ items, (E.enumerate oh.h (listingPattern req.fileName) s.sh.world).1 = items → oh.Lists req items →
      oh.left req items ≠ [] → p.length % 2 ^ 16 = 0 ∧
        ∀ t, t <+: oh.left req items → LetIn (extraBytes req.fileInformationClass) req.outputBufferLength.toNat t →
          listSpan (extraBytes req.fileInformationClass) t < 2 ^ 32

/-- The length of the answer of a pipe fits its field. -/
def PipeSafe (o : Origin) (sub : Bytes) (s : St E) : Prop :=
  ∀ req, IoctlRequest.parse sub = .ok req → req.ctlCode = fsctlPipeTransceive →
    ∀ oh pp, s.c.open? o.sid o.tid req.fileId = some oh → E.processPipe oh.h = some pp →
      (pp req.input s.sh.world).1.length < 2 ^ 32

/-- When the response to a command is the same at any position. -/
def PositionSafe (o : Origin) (sub : Bytes) (hdr : Header) (p : Bytes) (s : St E) : Prop :=
  s.c.refusal o = none →
    (o.cmd = cmdSessionSetup → TokenSafe sub hdr p s) ∧
    (o.cmd = cmdQueryDirectory → ListingSafe o sub p s) ∧
    (o.cmd = cmdIoctl → PipeSafe o sub s)

section Placed

variable {srv : Config E} {o : Origin} {sub : Bytes} {hdr : Header} {fid : FileId} {s : St E}
  {status : α → UInt32} {m : M E α}

/-- Only what the computation does behind `p` and at the start counts. -/
theorem Placed.congr {m' : M E α} (h : ∀ q, m (s.headed q) = m' (s.headed q)) :
    Placed o p status m s ↔ Placed o p status m' s := by
  constructor
  · exact fun hm => ⟨by rw [← h, ← h]; exact hm.1, by rw [← h]; exact hm.2⟩
  · exact fun hm => ⟨by rw [h, h]; exact hm.1, by rw [h]; exact hm.2⟩

theorem Placed.bind_pure_iff {β : Type} {g : α → β} {status' : β → UInt32} (status : α → UInt32)
    (hg : Injective g) (hst : ∀ a, status' (g a) = status a) :
    Placed o p status' (m >>= fun a => pure (g a)) s ↔ Placed o p status m s := by
  have hsame : (m >>= fun a => pure (g a)) (s.headed p) =
      ((m >>= fun a => pure (g a)) (s.headed [])).map (St.behind p) ↔
      m (s.headed p) = (m (s.headed [])).map (St.behind p) := by
    rw [bind_apply, bind_apply]
    cases m (s.headed p) <;> cases m (s.headed []) <;> simp [Outcome.map, hg.eq_iff]
  constructor
  · rintro ⟨h1, h2⟩
    refine ⟨hsame.1 h1, fun k a s' hk hrun ha => h2 k (g a) s' hk (bind_ok hrun) ?_⟩
    rwa [hst]
  · rintro ⟨h1, h2⟩
    refine ⟨hsame.2 h1, fun k b s' hk hrun ha => ?_⟩
    obtain ⟨a, s1, hm, hb⟩ := bind_eq_ok hrun
    obtain ⟨rfl, rfl⟩ := Outcome.ok.inj hb
    exact h2 k a s1 hk hm (hst a ▸ ha)

theorem Placed.of_commutes (h : Commutes (St.behind p) (fun _ => False) m) (hk : ∀ k, o.cmd ≠ Buffered.cmd k) :
    Placed o p status m s :=
  ⟨h.eq (s.headed []), fun k _ _ hcmd => absurd hcmd (hk k)⟩

/-- The response that follows `p` is the header and what the handler appended. -/
theorem drop_headed {s' : St E} {b : Bytes} (h : s'.c.out = (s.headed p).c.out ++ b) :
    s'.c.out.drop p.length = zeros headerSize ++ b := by
  rw [h, show (s.headed p).c.out = p ++ zeros headerSize from rfl, append_assoc, drop_left]

theorem Placed.of_body {Q : Bytes → Prop} {m : M E UInt32}
    (h : Commutes (St.behind p) (fun _ => False) m) (hb : Body Q m) (hcmd : o.cmd = k.cmd)
    (hk : k ≠ .sessionSetup) (hQ : ∀ b, Q b → k.Delimits (zeros headerSize ++ b)) : Placed o p id m s := by
  refine ⟨h.eq (s.headed []), fun k' status s' hk' hrun ha => ?_⟩
  obtain rfl : k = k' := by
    rw [hcmd] at hk'
    revert hk'
    cases k <;> cases k' <;> decide
  obtain rfl : status = statusSuccess := ha.resolve_right fun h => hk h.1
  obtain ⟨b, hout, hq⟩ := hb _ _ hrun
  rw [drop_headed hout]
  exact hQ b hq

theorem mod_of_ofNat_eq (h : UInt16.ofNat n = 0) : n % 2 ^ 16 = 0 := by
  rwa [← UInt16.toNat_inj, UInt16.toNat_ofNat'] at h

/-- Two answers with the same effect have the same body. -/
theorem body_eq_of_same {x y : α} {s1 s0 : St E} {b b0 : Bytes}
    (h : (.ok x s1 : Outcome (St E) α) = (Outcome.ok y s0).map (St.behind p))
    (h1 : s1.c.out = (s.headed p).c.out ++ b) (h0 : s0.c.out = (s.headed []).c.out ++ b0) : b = b0 := by
  obtain ⟨-, rfl⟩ := Outcome.ok.inj h
  have hout : p ++ s0.c.out = p ++ zeros headerSize ++ b := h1
  rw [h0, append_assoc] at hout
  exact (append_cancel_left (append_cancel_left hout)).symm

/-- A query that comes to entries is answered with one page of them at every position. -/
theorem handleQueryDirectory_headed {req : QueryDirectoryRequest} {oh : OpenHandle E}
    (hreq : QueryDirectoryRequest.parse sub = .ok req) (hoh : s.c.open? o.sid o.tid req.fileId = some oh)
    {items : List (Except OsError FileInfo)}
    (hitems : (E.enumerate oh.h (listingPattern req.fileName) s.sh.world).1 = items) (hlists : oh.Lists req items)
    (hne : oh.left req items ≠ []) :
    ∃ buf : Bytes, (buf.length < 2 ^ 32 ↔ ∀ t, t <+: oh.left req items →
        LetIn (extraBytes req.fileInformationClass) req.outputBufferLength.toNat t →
          listSpan (extraBytes req.fileInformationClass) t < 2 ^ 32) ∧
      ∀ q, ∃ s', handleQueryDirectory o sub (s.headed q) = .ok statusSuccess s' ∧
        s'.c.out = (s.headed q).c.out ++ DirAnswer.body (q.length + headerSize) (.page buf) := by
  obtain ⟨fi, l, hleft⟩ := exists_cons_of_ne_nil hne
  obtain ⟨buf, hbuf, hanswer⟩ : ∃ buf : Bytes, buf.length = listSpan (extraBytes req.fileInformationClass) (fi ::
      l.take (taken (extraBytes req.fileInformationClass) req.outputBufferLength.toNat
        (entrySize (extraBytes req.fileInformationClass) fi) l)) ∧ (oh.query req items).1 = .page buf :=
    ⟨_, length_chain_dirEntry _ _, by rw [OpenHandle.query_fst hlists, hleft, pageOf_cons rfl]⟩
  refine ⟨buf, ?_, fun q => ?_⟩
  · rw [hbuf, hleft]
    simp only [Nat.lt_iff_le_pred (show 0 < 2 ^ 32 by norm_num)]
    exact listSpan_page_le_iff
  · obtain ⟨s', hrun, hl⟩ := handleQueryDirectory_ok (s := s.headed q) hreq hoh hitems
    have hout := hl.out
    rw [hanswer] at hrun hout
    refine ⟨s', hrun, ?_⟩
    rw [hout]
    simp [St.headed]

theorem placed_queryDirectory_iff (hcmd : o.cmd = cmdQueryDirectory) :
    Placed o p id (handleQueryDirectory o sub) s ↔ ListingSafe o sub p s := by
  constructor
  · intro h req oh hreq hoh items hitems hlists hne
    obtain ⟨buf, hlen, hruns⟩ := handleQueryDirectory_headed hreq hoh hitems hlists hne
    obtain ⟨s1, hrun, hout⟩ := hruns p
    obtain ⟨s0, hrun0, hout0⟩ := hruns []
    have hsame := h.same
    rw [hrun, hrun0] at hsame
    have hbody := body_eq_of_same hsame hout hout0
    have hoff : UInt16.ofNat p.length = 0 := by
      simpa [DirAnswer.body, u16At_append_right, u16At_put16, Nat.add_assoc] using congrArg (u16At · 2) hbody
    have hdel := h.delimited .queryDirectory _ s1 hcmd hrun (.inl rfl)
    rw [drop_headed hout, hbody] at hdel
    exact ⟨mod_of_ofNat_eq hoff, hlen.1 ((delimits_info_iff (.inl rfl) buf).1 hdel)⟩
  · intro h
    have hpage : ∀ q s', handleQueryDirectory o sub (s.headed q) = .ok statusSuccess s' →
        p.length % 2 ^ 16 = 0 ∧ ∃ buf : Bytes, buf.length < 2 ^ 32 ∧
          s'.c.out = (s.headed q).c.out ++ DirAnswer.body (q.length + headerSize) (.page buf) := fun q s' hrun => by
      obtain ⟨req, oh, hreq, hoh, hlists, hne⟩ := handleQueryDirectory_success hrun
      obtain ⟨hp, hspan⟩ := h req oh hreq hoh _ rfl hlists hne
      obtain ⟨buf, hlen, hruns⟩ := handleQueryDirectory_headed hreq hoh rfl hlists hne
      obtain ⟨s1, hrun1, hout⟩ := hruns q
      obtain ⟨-, rfl⟩ := Outcome.ok.inj (hrun.symm.trans hrun1)
      exact ⟨hp, buf, hlen.2 hspan, hout⟩
    have hcomm : Commutes (St.behind p) (· = statusSuccess) (handleQueryDirectory o sub : M E UInt32) :=
      handleQueryDirectory_commutes (.inr rfl)
    refine ⟨?_, fun k status s' hk hrun ha => ?_⟩
    · rcases hcomm (s.headed []) with hsame | ⟨status, s', hrun, rfl⟩
      · exact hsame
      · exact (handleQueryDirectory_commutes (.inl (hpage [] s' hrun).1)).eq (s.headed [])
    · obtain rfl : k = .queryDirectory := by
        rw [hcmd] at hk
        revert hk
        cases k <;> decide
      obtain rfl : status = statusSuccess := ha.resolve_right fun h => by cases h.1
      obtain ⟨hp, buf, hlen, hout⟩ := hpage p s' hrun
      have hbody : DirAnswer.body (p.length + headerSize) (.page buf) = queryInfoResponse buf := by
        have hoff : UInt16.ofNat (p.length + headerSize + 8) = 72 := by
          rw [← UInt16.toNat_inj, UInt16.toNat_ofNat', headerSize]
          exact (by omega : (p.length + 64 + 8) % 2 ^ 16 = 72)
        rw [DirAnswer.body, hoff]
        rfl
      rw [drop_headed hout, hbody]
      exact (delimits_info_iff (.inl rfl) buf).2 hlen

/-! ### The commands -/

theorem placed_sessionSetup_iff (hcmd : o.cmd = cmdSessionSetup) :
    Placed o p Prod.fst (handleSessionSetup srv o sub hdr) s ↔ TokenSafe sub hdr p s := by
  constructor
  · intro h req a hreq ha
    obtain ⟨r, s1, hrun, hst, hout⟩ := handleSessionSetup_ok srv o (s := s.headed p) hreq ha
    obtain ⟨r0, s0, hrun0, -, hout0⟩ := handleSessionSetup_ok srv o (s := s.headed []) hreq ha
    have hsame := h.same
    rw [hrun, hrun0] at hsame
    have hbody := body_eq_of_same hsame hout hout0
    have hoff : UInt16.ofNat p.length = 0 := by
      simpa [sessionSetupResponse, u16At_append_right, u16At_put16, St.headed, Nat.add_assoc]
        using congrArg (u16At · 4) hbody
    have hdel := h.delimited .sessionSetup r s1 hcmd hrun (hst.imp_right fun h => ⟨rfl, h⟩)
    rw [drop_headed hout, hbody] at hdel
    exact ⟨mod_of_ofNat_eq hoff, (delimits_sessionSetup_iff _ _).1 hdel⟩
  · intro h
    refine ⟨handleSessionSetup_same (s := s.headed []) fun req a hreq ha => (h req a hreq ha).1, fun k r s' hk hrun ha => ?_⟩
    obtain rfl : k = .sessionSetup := by
      rw [hcmd] at hk
      revert hk
      cases k <;> decide
    obtain ⟨req, a, hreq, hacc⟩ := handleSessionSetup_answered hrun (ha.imp_right And.right)
    obtain ⟨r1, s1, hrun1, -, hout⟩ := handleSessionSetup_ok srv o hreq hacc
    obtain ⟨-, rfl⟩ := Outcome.ok.inj (hrun.symm.trans hrun1)
    obtain ⟨hp, hlen⟩ := h req a hreq hacc
    have hbody : ∀ flags token, sessionSetupResponse (s.headed p).c.out.length flags token =
        sessionSetupResponse headerSize flags token := fun flags token => by
      rw [sessionSetupResponse, show (s.headed p).c.out = p ++ zeros headerSize from rfl, ofNat_behind hp]
      rfl
    rw [drop_headed hout, hbody]
    exact (delimits_sessionSetup_iff _ _).2 hlen

/-- Every answer to an IOCTL is an output without an input. -/
theorem handleIoctl_body (srv : Config E) (o : Origin) (msg : Bytes) :
    Body (fun b => ∃ ctlCode fid output flags, b = ioctlResponse ctlCode fid [] output flags)
      (handleIoctl srv o msg) := by
  refine .parsed fun req _ => .ite (fun _ => .succeed ⟨_, _, _, _, rfl⟩) fun _ =>
    .ite (fun _ => .succeed ⟨_, _, _, _, rfl⟩) fun _ => .ite (fun _ => .get fun s => ?_) fun _ => .get fun s => ?_
  · cases s.c.open? o.sid o.tid req.fileId with
    | none => exact .errBody (by decide)
    | some oh =>
      dsimp only
      cases E.processPipe oh.h with
      | none => exact .errBody (by decide)
      | some pp => exact .call fun _ => .succeed ⟨_, _, _, _, rfl⟩
  · split
    · exact .errBody (by decide)
    · exact .ite (fun _ => .errBody (by decide)) fun _ => .errBody (by decide)

theorem placed_ioctl_iff (hcmd : o.cmd = cmdIoctl) :
    Placed o p id (handleIoctl srv o sub) s ↔ PipeSafe o sub s := by
  -- The buffer is delimited when its length is below `2^32`.
  have hdel : ∀ b, (∃ ctlCode fid output flags, b = ioctlResponse ctlCode fid [] output flags) →
      (Buffered.ioctl.Delimits (zeros headerSize ++ b) ↔ (b.drop 48).length ≤ 2 ^ 32 - 1) := by
    rintro b ⟨ctlCode, fid, output, flags, rfl⟩
    rw [delimits_ioctl_iff, drop_ioctlResponse]
    omega
  have hfits : Placed o p id (handleIoctl srv o sub) s ↔ FitsIn 48 (2 ^ 32 - 1) (handleIoctl srv o sub) (s.headed p) := by
    constructor
    · intro h s' b hrun hout
      obtain ⟨b', hout', hb'⟩ := handleIoctl_body srv o sub _ _ hrun
      obtain rfl := append_cancel_left (hout.symm.trans hout')
      have hd := h.delimited .ioctl _ s' hcmd hrun (.inl rfl)
      rw [drop_headed hout] at hd
      exact (hdel b hb').1 hd
    · intro h
      refine ⟨(handleIoctl_commutes srv).eq (s.headed []), fun k status s' hk hrun ha => ?_⟩
      obtain rfl : k = .ioctl := by
        rw [hcmd] at hk
        revert hk
        cases k <;> decide
      obtain rfl : status = statusSuccess := ha.resolve_right fun h => by cases h.1
      obtain ⟨b, hout, hb⟩ := handleIoctl_body srv o sub _ _ hrun
      rw [drop_headed hout]
      exact (hdel b hb).2 (h s' b hrun hout)
  rw [hfits]
  cases hreq : IoctlRequest.parse sub with
  | panic => exact absurd hreq (IoctlRequest.parse_safe sub)
  | err e =>
    refine iff_of_true ?_ fun req h => by cases hreq.symm.trans h
    have hrun : handleIoctl srv o sub (s.headed p) = errBody statusInvalidParameter (s.headed p) := by
      rw [handleIoctl, hreq]
      rfl
    exact fitsIn_of_errBody hrun (by decide)
  | ok req =>
    rw [handleIoctl_fitsIn_iff _ hreq]
    constructor
    · intro h req' hreq' hctl oh pp hoh hpp
      obtain rfl : req = req' := by rw [hreq] at hreq'; exact Res.ok.inj hreq'
      have := h.2 hctl oh pp hoh hpp
      exact Nat.lt_of_le_pred (by norm_num) this
    · exact fun h => ⟨fun _ => by norm_num, fun hctl oh pp hoh hpp =>
        Nat.le_pred_of_lt (h req hreq hctl oh pp hoh hpp)⟩

theorem plainHandler_commutes (srv : Config E) (sub : Bytes) (hqd : o.cmd ≠ cmdQueryDirectory) :
    Commutes (St.behind p) (fun _ => False) (plainHandler srv o sub) := by
  unfold plainHandler
  refine .ite (handleNegotiate_commutes srv) (.ite handleLogoff_commutes (.ite handleTreeDisconnect_commutes
    (.ite handleClose_commutes (.ite handleRead_commutes (.ite handleWrite_commutes ?_)))))
  rw [if_neg hqd]
  exact .ite handleQueryInfo_commutes (.ite handleSetInfo_commutes (.ite (succeed_commutes _)
    (.ite handleLock_commutes (.ite (handleIoctl_commutes srv) (.ite (succeed_commutes _) (errBody_commutes _))))))

end Placed

theorem refusal_ne {c : Conn E} {o : Origin} {status : UInt32} (h : c.refusal o = some status) :
    status ≠ statusSuccess ∧ status ≠ statusMoreProcessingRequired := by
  have hmem : status = statusUserSessionDeleted ∨ status = statusNetworkNameDeleted := by
    unfold Conn.refusal at h
    cases hs : c.session? o.sid with
    | none =>
      simp only [hs] at h
      split_ifs at h
      exact .inl (Option.some.inj h).symm
    | some sess =>
      simp only [hs] at h
      split_ifs at h
      · exact .inl (Option.some.inj h).symm
      · exact .inr (Option.some.inj h).symm
  rcases hmem with rfl | rfl <;> decide

section Handle

variable {srv : Config E} {o : Origin} {sub : Bytes} {hdr : Header} {fid : FileId} {s : St E}

theorem placed_plainHandler_iff (hss : o.cmd ≠ cmdSessionSetup) :
    Placed o p id (plainHandler srv o sub) s ↔
      (o.cmd = cmdQueryDirectory → ListingSafe o sub p s) ∧ (o.cmd = cmdIoctl → PipeSafe o sub s) := by
  by_cases hqd : o.cmd = cmdQueryDirectory
  · have hrun : plainHandler srv o sub = handleQueryDirectory o sub := by rw [plainHandler, hqd]; rfl
    rw [hrun, placed_queryDirectory_iff hqd]
    exact ⟨fun h => ⟨fun _ => h, fun h' => absurd (hqd.symm.trans h') (by decide)⟩, fun h => h.1 hqd⟩
  have hcomm := plainHandler_commutes (p := p) srv sub hqd
  by_cases hio : o.cmd = cmdIoctl
  · have hrun : plainHandler srv o sub = handleIoctl srv o sub := by rw [plainHandler, hio]; rfl
    rw [hrun, placed_ioctl_iff hio]
    exact ⟨fun h => ⟨fun h' => absurd h' hqd, fun _ => h⟩, fun h => h.2 hio⟩
  refine iff_of_true ?_ ⟨fun h => absurd h hqd, fun h => absurd h hio⟩
  by_cases hread : o.cmd = cmdRead
  · have hrun : plainHandler srv o sub = handleRead o sub := by rw [plainHandler, hread]; rfl
    rw [hrun]
    refine .of_body handleRead_commutes (handleRead_body o sub) (k := .read) hread (by decide) ?_
    rintro b ⟨data, rfl, -, hmax⟩
    exact (delimits_read_iff data).2 (hmax.trans_lt maxRead.toNat_lt)
  by_cases hqi : o.cmd = cmdQueryInfo
  · have hrun : plainHandler srv o sub = handleQueryInfo o sub := by rw [plainHandler, hqi]; rfl
    rw [hrun]
    refine .of_body handleQueryInfo_commutes (handleQueryInfo_body o sub) (k := .queryInfo) hqi (by decide) ?_
    rintro b ⟨info, rfl, -, hmax⟩
    exact (delimits_info_iff (.inr rfl) info).2 (hmax.trans_lt (by norm_num))
  refine .of_commutes hcomm fun k => ?_
  cases k with
  | sessionSetup => exact hss
  | queryDirectory => exact hqd
  | read => exact hread
  | queryInfo => exact hqi
  | ioctl => exact hio

theorem placed_handle_iff :
    Placed o p Handled.status (handle srv o sub hdr fid) s ↔
      (o.cmd = cmdSessionSetup → TokenSafe sub hdr p s) ∧
      (o.cmd = cmdQueryDirectory → ListingSafe o sub p s) ∧ (o.cmd = cmdIoctl → PipeSafe o sub s) := by
  -- A command without a buffer.
  have hbare : ∀ {m : M E Handled} {cmd : UInt16}, o.cmd = cmd → (∀ k, cmd ≠ Buffered.cmd k) →
      Commutes (St.behind p) (fun _ => False) m → (Placed o p Handled.status m s ↔
        (o.cmd = cmdSessionSetup → TokenSafe sub hdr p s) ∧
        (o.cmd = cmdQueryDirectory → ListingSafe o sub p s) ∧ (o.cmd = cmdIoctl → PipeSafe o sub s)) :=
    fun hcmd hk hm => iff_of_true (.of_commutes hm fun k => hcmd ▸ hk k)
      ⟨fun h => absurd (hcmd.symm.trans h) (hk .sessionSetup),
        fun h => absurd (hcmd.symm.trans h) (hk .queryDirectory), fun h => absurd (hcmd.symm.trans h) (hk .ioctl)⟩
  unfold handle
  by_cases hss : o.cmd = cmdSessionSetup
  · rw [if_pos hss]
    refine (Placed.bind_pure_iff (g := fun r : UInt32 × Header => (⟨r.1, r.2, sub, fid⟩ : Handled)) Prod.fst ?_
      fun _ => rfl).trans ((placed_sessionSetup_iff hss).trans ?_)
    · exact fun r r' h => Prod.ext (congrArg Handled.status h) (congrArg Handled.hdr h)
    · exact ⟨fun h => ⟨fun _ => h, fun h' => absurd (hss.symm.trans h') (by decide),
        fun h' => absurd (hss.symm.trans h') (by decide)⟩, fun h => h.1 hss⟩
  rw [if_neg hss]
  by_cases htc : o.cmd = cmdTreeConnect
  · rw [if_pos htc]
    exact hbare htc (fun k => by cases k <;> decide) (.bind (handleTreeConnect_commutes srv hdr) fun _ => .pure _)
  rw [if_neg htc]
  by_cases hcr : o.cmd = cmdCreate
  · rw [if_pos hcr]
    exact hbare hcr (fun k => by cases k <;> decide) (.bind (handleCreate_commutes fid) fun _ => .pure _)
  rw [if_neg hcr]
  by_cases hob : o.cmd = cmdOplockBreak
  · rw [if_pos hob]
    exact hbare hob (fun k => by cases k <;> decide) (.bind handleOplockBreak_commutes fun _ => .pure _)
  rw [if_neg hob]
  refine (Placed.bind_pure_iff (g := fun status : UInt32 => (⟨status, hdr, sub, fid⟩ : Handled)) id
    (fun _ _ h => congrArg Handled.status h) fun _ => rfl).trans ((placed_plainHandler_iff hss).trans ?_)
  exact ⟨fun h => ⟨fun h' => absurd h' hss, h⟩, And.right⟩

end Handle

/-- **When the response to a command is the same at any position of a reply.** -/
theorem positionIndependent_iff (srv : Config E) (o : Origin) (sub : Bytes) (hdr : Header) (fid : FileId)
    (p : Bytes) (s : St E) :
    PositionIndependent srv o sub hdr fid p s ↔ PositionSafe o sub hdr p s := by
  unfold PositionIndependent PositionSafe
  cases href : s.c.refusal o with
  | some status =>
    have hrun : ∀ q, dispatch srv o sub hdr fid (s.headed q) =
        (errBody status >>= fun status => pure (⟨status, hdr, sub, fid⟩ : Handled)) (s.headed q) := fun q => by
      rw [dispatch, Go.bind_ok (Go.get_apply _), show (s.headed q).c.refusal o = some status from href]
    rw [Placed.congr hrun]
    refine iff_of_true ⟨?_, fun k a s' _ hok ha => ?_⟩ fun h => by cases h
    · exact (Commutes.bind (errBody_commutes _) fun _ => .pure _).eq (s.headed [])
    · obtain ⟨rfl, -⟩ := Outcome.ok.inj hok
      exact (ha.elim (refusal_ne href).1 fun h => (refusal_ne href).2 h.2).elim
  | none =>
    have hrun : ∀ q, dispatch srv o sub hdr fid (s.headed q) = handle srv o sub hdr fid (s.headed q) := fun q => by
      rw [dispatch, Go.bind_ok (Go.get_apply _), show (s.headed q).c.refusal o = none from href]
    rw [Placed.congr hrun, forall_prop_of_true rfl]
    exact placed_handle_iff

/-- In the second response of a compound reply, after the 72 bytes of an ECHO, the
offset of a listing is 144. -/
theorem not_positionIndependent_listing :
    ¬∀ (E : Env) (srv : Config E) (o : Origin) (sub : Bytes) (hdr : Header) (fid : FileId) (p : Bytes) (s : St E),
      PositionIndependent srv o sub hdr fid p s := by
  intro h
  have hsame := (h (listingEnv twoFiles) ⟨[], (), dialectSMB302, 8192, false, Arr.zero 16⟩ queryOrigin
    (queryDirectoryFrame 0) { command := cmdQueryDirectory, sessionId := 1 } (Arr.zero 16) (zeros 72)
    (listingState twoFiles)).same
  have hoff := congrArg (fun r => u16At r.state.c.out (72 + 64 + 2)) hsame
  exact absurd hoff (by decide +kernel)

end Server
end SmbServer
