/-
# Related commands

A command with the flag RELATED_OPERATIONS works on the file that a CREATE before it in
the frame has opened, whatever FileId the client wrote.  `Passes` follows the loop of
`handleMessage` over one frame and remembers the FileId in the last successful CREATE
response; `inherits_iff` compares what the parser of a related command delivers with what
was sent.

The FileId is put where the parser of the command reads it, for all but CHANGE_NOTIFY,
which `fileIdOffset` does not know: its handler gets the FileId of the client.  The rest
of the request stays as it was, unless its variable part was laid over the FileId.
-/

import SmbServer.Server.Extents
import SmbServer.Server.Gating
import SmbServer.Wire.Substitution

namespace SmbServer
namespace Server

open Wire Go List Option Loop

variable {E : Env} {srv : Config E}
variable {o : Origin} {r : Handled}

/-! ### The loop over a frame -/

/-- The FileId of a CREATE response. -/
def createdFileId (resp : Bytes) : Bytes := slice resp (headerSize + 64) 16

/-- The loop of `handleMessage` has passed over commands of the frame, each with `C`, from
whatever states; the FileId is that of the last CREATE answered STATUS_SUCCESS. -/
inductive Passes (srv : Config E) (C : St E → Command E → Prop) (frame : Bytes) (via : Arrival) :
    Option FileId → Loop → Prop where
  | start : Passes srv C frame via none { msg := frame, via }
  | create {last : Option FileId} {lp lp' : Loop} {s s' : St E} (k : Command E) (r : Reply) (fid : FileId)
      (h : Passes srv C frame via last lp) (hf : lp.finished = false) (hk : nextCommand s.c lp = some k)
      (hC : C s k) (hrun : round srv lp s = .ok lp' s') (hcmd : k.hdr.command = cmdCreate)
      (hr : lp'.replies = lp.replies ++ [r]) (hst : u32At (s'.c.out.drop r.start) 8 = statusSuccess)
      (hfid : createdFileId (s'.c.out.drop r.start) = fid.1) : Passes srv C frame via (some fid) lp'
  | other {last : Option FileId} {lp lp' : Loop} {s s' : St E} (k : Command E)
      (h : Passes srv C frame via last lp) (hf : lp.finished = false) (hk : nextCommand s.c lp = some k)
      (hC : C s k) (hrun : round srv lp s = .ok lp' s')
      (hno : ¬(k.hdr.command = cmdCreate ∧ AnsweredWith lp lp' s' statusSuccess)) :
      Passes srv C frame via last lp'

theorem Passes.mono {C C' : St E → Command E → Prop} {frame : Bytes} {via : Arrival} {last : Option FileId} {lp : Loop}
    (h : Passes srv C frame via last lp) (hC : ∀ s k, C s k → C' s k) : Passes srv C' frame via last lp := by
  induction h with
  | start => exact .start
  | create k r fid _ hf hk hc hrun hcmd hr hst hfid ih => exact .create k r fid ih hf hk (hC _ _ hc) hrun hcmd hr hst hfid
  | other k _ hf hk hc hrun hno ih => exact .other k ih hf hk (hC _ _ hc) hrun hno

/-! ### The FileId the loop remembers -/

theorem CreateResponse.slice_fileId (r : CreateResponse) : slice r.encode 64 16 = r.fileId.1 := by
  refine slice_eq_of_append (put16 89 ++ [r.oplockLevel, 0] ++ put32 r.createAction ++ r.times.encode ++ put32 0)
    ⟨put32 0 ++ put32 0 ++ [0], ?_⟩ ?_ r.fileId.2
  · simp only [CreateResponse.encode, append_assoc]
  · simp [length_fileTimes]

/-- What a CREATE leaves in `*lastFileId`, and in its response. -/
theorem createFile_fileId {req : CreateRequest} {fid : FileId} {s s' : St E} {r : UInt32 × FileId}
    (h : createFile o req fid s = .ok r s') : ∃ body, s'.c.out = s.c.out ++ body ∧
      (r.1 ≠ statusSuccess ∧ r.2 = fid ∨ r.1 = statusSuccess ∧ slice body 64 16 = r.2.1) := by
  have hfail : ∀ {status : UInt32} {s1 : St E}, status ≠ statusSuccess → s1.c.out = s.c.out →
      (do return (← errBody status, fid) : M E (UInt32 × FileId)) s1 = .ok r s' →
      ∃ body, s'.c.out = s.c.out ++ body ∧
        (r.1 ≠ statusSuccess ∧ r.2 = fid ∨ r.1 = statusSuccess ∧ slice body 64 16 = r.2.1) := by
    intro status s1 hne hout h
    cases h
    exact ⟨_, congrArg (· ++ _) hout, .inl ⟨hne, rfl⟩⟩
  obtain ⟨s1, _, h1, h⟩ := bind_eq_ok h
  cases h1
  cases ht : s.c.tree? o.sid o.tid with
  | none => rw [ht] at h; cases h
  | some tr =>
    rw [ht] at h
    dsimp only at h
    split_ifs at h
    · exact hfail (by decide) rfl h
    obtain ⟨opened, s2, h2, h⟩ := bind_eq_ok h
    have hout2 : s2.c.out = s.c.out := by cases h2; rfl
    cases opened with
    | error e => exact hfail (osErrToStatus_ne e) hout2 h
    | ok f =>
      obtain ⟨st, s3, h3, h⟩ := bind_eq_ok h
      have hout3 : s3.c.out = s.c.out := by cases h3; exact hout2
      cases st with
      | error e =>
        obtain ⟨_, s4, h4, h⟩ := bind_eq_ok h
        have hout4 : s4.c.out = s.c.out := by cases h4; exact hout3
        exact hfail (osErrToStatus_ne e) hout4 h
      | ok fi =>
        cases h
        exact ⟨_, congrArg (· ++ _) hout3, .inr ⟨rfl, CreateResponse.slice_fileId _⟩⟩

/-- A command other than CREATE leaves the FileId of the loop alone. -/
theorem route_fileId {hdr : Header} {lp : Loop} {s s' : St E}
    (h : route srv o hdr lp s = .ok r s') (hcmd : o.cmd ≠ cmdCreate) : r.lastFileId = lp.lastFileId := by
  unfold route at h
  split_ifs at h
  · cases h
    rfl
  · obtain ⟨_, _, -, h⟩ := bind_eq_ok h
    cases h
    rfl
  · obtain ⟨_, s1, -, h⟩ := bind_eq_ok h
    obtain ⟨s2, _, -, h⟩ := bind_eq_ok h
    cases hr : s2.c.refusal o with
    | some status =>
      rw [hr] at h
      obtain ⟨_, _, -, h⟩ := bind_eq_ok h
      cases h
      rfl
    | none =>
      rw [hr] at h
      dsimp only [handle] at h
      split_ifs at h
      all_goals
        obtain ⟨_, _, -, h⟩ := bind_eq_ok h
        cases h
        rfl

/-- A CREATE changes it when it succeeds, to the FileId in its response. -/
theorem route_create {hdr : Header} {lp : Loop} {s s' : St E}
    (h : route srv o hdr lp s = .ok r s') (hcmd : o.cmd = cmdCreate)
    (hf : lp.chainFailed = true → lp.lastStatus ≠ statusSuccess) : ∃ body, s'.c.out = s.c.out ++ body ∧
      (r.status ≠ statusSuccess ∧ r.lastFileId = lp.lastFileId ∨
        r.status = statusSuccess ∧ slice body 64 16 = r.lastFileId.1) := by
  unfold route at h
  split_ifs at h with hfailed hcancel
  · cases h
    exact ⟨[], (append_nil _).symm, .inl ⟨hf hfailed, rfl⟩⟩
  · exact absurd (hcancel.symm.trans hcmd) (by decide)
  · obtain ⟨_, s1, h1, h⟩ := bind_eq_ok h
    obtain ⟨s2, s3, h2, h⟩ := bind_eq_ok h
    have hout : s3.c.out = s.c.out := by
      cases h1
      cases h2
      rfl
    cases hr : s2.c.refusal o with
    | some status =>
      rw [hr] at h
      cases h
      exact ⟨_, congrArg (· ++ _) hout, .inl ⟨(refusal_ne hr).1, rfl⟩⟩
    | none =>
      rw [hr] at h
      dsimp only [handle] at h
      rw [if_neg (by rw [hcmd]; decide), if_neg (by rw [hcmd]; decide), if_pos hcmd] at h
      obtain ⟨⟨status, fid⟩, s4, hc, h⟩ := bind_eq_ok h
      cases h
      unfold handleCreate at hc
      cases hreq : CreateRequest.parse lp.sub with
      | panic => rw [hreq] at hc; cases hc
      | err e =>
        rw [hreq] at hc
        cases hc
        exact ⟨_, congrArg (· ++ _) hout, .inl ⟨show statusInvalidParameter ≠ statusSuccess by decide, rfl⟩⟩
      | ok req =>
        rw [hreq] at hc
        exact hout ▸ createFile_fileId hc

/-- What the loop knows when it has passed over contained commands. -/
structure Following (frame : Bytes) (last : Option FileId) (lp : Loop) : Prop where
  fileId : ∀ fid ∈ last, lp.lastFileId = fid ∧ lp.first = false
  failed : lp.chainFailed = true → lp.lastStatus ≠ statusSuccess
  sent : lp.finished = false → lp.sub = frame.drop lp.off

theorem Following.rest {frame : Bytes} {last : Option FileId} {lp lp' : Loop} {s s' : St E} {k : Command E}
    (h : Following frame last lp) (hfin : lp.finished = false) (hk : nextCommand s.c lp = some k) (hc : k.Contained)
    (hrun : round srv lp s = .ok lp' s') (hn : k.hdr.nextCommand ≠ 0) : lp'.sub = frame.drop lp'.off := by
  obtain ⟨hoff, hsub⟩ := round_beyond hk hc hn hrun
  have hsent : lp.msg.drop lp.off = frame.drop lp.off := h.sent hfin
  rw [hsub, hoff, ← drop_drop, ← drop_drop, hsent]

section Pass

variable {frame : Bytes} {last last' : Option FileId} {lp lp' : Loop} {s s' : St E} {k : Command E}

/-- The last FileId after a pass over the command `k`. -/
def Command.Returns (k : Command E) (lp lp' : Loop) (s' : St E) (last last' : Option FileId) : Prop :=
  (last' = last ∧ ¬(k.hdr.command = cmdCreate ∧ AnsweredWith lp lp' s' statusSuccess)) ∨
    ∃ r fid, last' = some fid ∧ k.hdr.command = cmdCreate ∧ lp'.replies = lp.replies ++ [r] ∧
      u32At (s'.c.out.drop r.start) 8 = statusSuccess ∧ createdFileId (s'.c.out.drop r.start) = fid.1

theorem Following.routed {lp1 : Loop} {s0 s1 : St E} {reply : Reply} (h : Following frame last lp)
    (hrest : k.hdr.nextCommand ≠ 0 → lp'.sub = frame.drop lp'.off) (hfid : lp1.lastFileId = lp.lastFileId)
    (hfailed : lp1.chainFailed = true → lp1.lastStatus ≠ statusSuccess) (hreplies : lp1.replies = lp.replies)
    (hr : Routed srv k lp1 s0 r s1 reply lp' s') (hlast : k.Returns lp lp' s' last last') :
    Following frame last' lp' := by
  obtain ⟨hfirst, hfid', -, -, -, hnext⟩ := advance_locals (({ (lp1.setSub r.sub).settle r.status with
      lastFileId := r.lastFileId
      prevRespStart := some reply.start } : Loop).addReply reply) k.hdr.nextCommand
  rw [← Loop.answered, ← hr.loop] at hfirst hfid' hnext
  replace hfid' : lp'.lastFileId = r.lastFileId := hfid'
  refine ⟨fun fid hmem => ⟨?_, hfirst⟩, ?_, fun hfin => hrest (hnext hfin)⟩
  · rw [hfid']
    by_cases hcreate : k.hdr.command = cmdCreate
    · obtain ⟨body, hout, hcases⟩ := route_create hr.route (show k.origin.cmd = cmdCreate from hcreate) hfailed
      obtain ⟨hrep, hst, hdr, hlen, hresp, -⟩ := hr.answer hout
      rw [hreplies] at hrep
      rcases hlast with ⟨rfl, hno⟩ | ⟨r', fid', rfl, -, hrep', hst', hfid''⟩
      · rcases hcases with ⟨-, hsame⟩ | ⟨hok, -⟩
        · rw [hsame, hfid]
          exact (h.fileId fid hmem).1
        · exact absurd ⟨hcreate, reply, hrep, hst.trans hok⟩ hno
      · obtain rfl : reply = r' := by
          rw [hrep] at hrep'
          simpa using hrep'
        obtain rfl : fid' = fid := some.inj hmem
        rcases hcases with ⟨hne, -⟩ | ⟨-, hbody'⟩
        · exact absurd (hst.symm.trans hst') hne
        · refine Subtype.ext ?_
          rw [← hbody', ← hfid'', createdFileId, hresp, slice_append_right _ _ (by omega), hlen]
          rfl
    · rw [route_fileId hr.route hcreate, hfid]
      rcases hlast with ⟨rfl, -⟩ | ⟨r', fid', -, hc, -⟩
      · exact (h.fileId fid hmem).1
      · exact absurd hc hcreate
  · rw [hr.loop]
    refine answered_failed (P := (· ≠ statusSuccess)) (fun _ h _ _ => h) fun hf => ?_
    have hroute := hr.route
    unfold route at hroute
    rw [if_pos hf] at hroute
    cases hroute
    exact hfailed hf

/-- **What one pass keeps.** -/
theorem Following.pass (h : Following frame last lp) (hfin : lp.finished = false) (hk : nextCommand s.c lp = some k)
    (hc : k.Contained) (hrun : round srv lp s = .ok lp' s') (hlast : k.Returns lp lp' s' last last') :
    Following frame last' lp' := by
  obtain ⟨hfid, hstatus⟩ := nextCommand_status hk
  have hreplies := (nextCommand_spec hk).2.2.1.replies
  have hfailed : k.lp.chainFailed = true → k.lp.lastStatus ≠ statusSuccess := by
    rcases hstatus with ⟨hf, hst⟩ | ⟨-, hst⟩
    · rw [hf, hst]
      exact h.failed
    · rw [hst]
      exact fun _ => by decide
  have hrest := h.rest hfin hk hc hrun
  rcases round_routed hk hrun with ⟨hn, -, id, reply, -, -, hlp⟩ | ⟨-, r, s1, reply, hr⟩ |
    ⟨-, -, status, s0, r, s1, reply, hst, hr⟩
  · obtain ⟨hfirst, hfid', hf', hst', -, hnext⟩ := advance_locals (k.lp.addReply reply) k.hdr.nextCommand
    rw [← hlp] at hfirst hfid' hf' hst' hnext
    have hcreate : k.hdr.command ≠ cmdCreate := by
      rw [hn.1]
      decide
    refine ⟨fun fid hmem => ⟨?_, hfirst⟩, ?_, fun hfin => hrest (hnext hfin)⟩
    · rcases hlast with ⟨rfl, -⟩ | ⟨r', fid', -, hc, -⟩
      · rw [hfid']
        exact hfid.trans (h.fileId fid hmem).1
      · exact absurd hc hcreate
    · rw [hf', hst']
      exact hfailed
  · exact h.routed hrest hfid hfailed hreplies hr hlast
  · have hne : status ≠ statusSuccess := by
      rcases hst with rfl | rfl <;> decide
    have hfid1 : (k.lp.settle status).lastFileId = lp.lastFileId := hfid
    exact h.routed hrest hfid1 (fun _ => hne) hreplies hr hlast

end Pass

/-- **What the loop knows after any number of passes.** -/
theorem Passes.following {frame : Bytes} {via : Arrival} {last : Option FileId} {lp : Loop}
    (h : Passes srv (fun _ k => k.Contained) frame via last lp) : Following frame last lp := by
  induction h with
  | start => exact ⟨nofun, nofun, fun _ => rfl⟩
  | create k r fid _ hf hk hC hrun hcmd hr hst hfid ih =>
    exact ih.pass hf hk hC hrun (.inr ⟨r, fid, rfl, hcmd, hr, hst, hfid⟩)
  | other k _ hf hk hC hrun hno ih => exact ih.pass hf hk hC hrun (.inl ⟨rfl, hno⟩)

/-! ### What the parser delivers -/

theorem fileIdOffset_cmd {d : Carrier} (hd : d ≠ .changeNotify) : fileIdOffset d.cmd = some d.fileIdAt := by
  cases d with
  | changeNotify => exact absurd rfl hd
  | _ => rfl

/-- The request that reaches the handler of a related command: with the FileId of the loop
where there is room for it. -/
theorem related_msg {c : Conn E} {lp : Loop} {k : Command E} (hk : nextCommand c lp = some k)
    (hrel : k.hdr.flags &&& flagRelatedOps ≠ 0) (hfirst : lp.first = false) (hf : k.lp.chainFailed = false) :
    (∀ fo, fileIdOffset k.hdr.command = some fo → fo + 16 ≤ lp.sub.length →
      k.msg = copyAt lp.sub fo lp.lastFileId.1) ∧
    ((∀ fo, fileIdOffset k.hdr.command = some fo → lp.sub.length < fo + 16) → k.msg = lp.sub) := by
  obtain ⟨hlp, hlen⟩ := nextCommand_lp hk
  have hoff : lp.off ≤ lp.msg.length := by omega
  have hwritten : lp.Rewritten (checkSignature c k.hdr lp) := .checkSignature c k.hdr hoff
  have hf' : (checkSignature c k.hdr lp).chainFailed = false := by
    refine Bool.eq_false_iff.2 fun h => ?_
    have hpatch : (checkSignature c k.hdr lp).Kept (patchFileId k.hdr (checkSignature c k.hdr lp)) := .patchFileId ..
    rw [hlp, hpatch.failed h] at hf
    cases hf
  have hsub := checkSignature_sub hoff hf'
  have hflags : k.hdr.flags &&& flagRelatedOps ≠ 0 ∧ (checkSignature c k.hdr lp).first = false :=
    ⟨hrel, (Loop.Kept.checkSignature c k.hdr lp).first.trans hfirst⟩
  have hfid : (checkSignature c k.hdr lp).lastFileId = lp.lastFileId := by
    obtain ⟨hfid, -⟩ := nextCommand_status hk
    rw [← hfid, hlp, patchFileId, if_pos hflags]
    cases fileIdOffset k.hdr.command with
    | none => rfl
    | some fo =>
      dsimp only
      split_ifs <;> rfl
  constructor
  · intro fo hfo hle
    rw [Command.msg, hlp, patchFileId, if_pos hflags, hfo, hsub, hfid]
    dsimp only
    rw [if_pos hle, sub_setSub (by rw [hwritten.off, hwritten.length]; exact hoff)]
  · intro hnone
    rw [Command.msg, hlp, patchFileId, if_pos hflags, ← hsub]
    cases hfo : fileIdOffset k.hdr.command with
    | none => rfl
    | some fo =>
      have := hnone fo hfo
      dsimp only
      rw [hsub, if_neg (by omega), hsub]

/-- What a related command of the kind `d` must be, for its parser to deliver the FileId
`fid` and all else as it was sent. -/
def Inherits (d : Carrier) (sent : Bytes) (fid : FileId) : Prop :=
  if d = .changeNotify then ∀ req, ChangeNotifyRequest.parse sent = .ok req → req.fileId = fid
  else d.Apart sent fid

/-- **The handler of a related command gets the FileId of the last CREATE and the rest of
its request as it was sent**, exactly when the request is no CHANGE_NOTIFY with another
FileId, and has no variable part over its FileId.  For every frame, with passes over
contained commands from whatever states, and every kind of request with a FileId. -/
theorem inherits_iff (srv : Config E) (frame : Bytes) (via : Arrival) (fid : FileId) (lp : Loop)
    (hp : Passes srv (fun _ k => k.Contained) frame via (some fid) lp) (hfin : lp.finished = false) (c : Conn E)
    (k : Command E) (hk : nextCommand c lp = some k) (hrel : k.hdr.flags &&& flagRelatedOps ≠ 0)
    (hf : k.lp.chainFailed = false) (d : Carrier) (hd : k.hdr.command = d.cmd) :
    d.Delivers (frame.drop lp.off) k.msg fid ↔ Inherits d (frame.drop lp.off) fid := by
  have hfollow := hp.following
  obtain ⟨hfid, hfirst⟩ := hfollow.fileId fid rfl
  obtain ⟨hsome, hnone⟩ := related_msg hk hrel hfirst hf
  rw [hd, hfid] at hsome
  rw [hd] at hnone
  rw [← hfollow.sent hfin]
  unfold Inherits
  split_ifs with hnotify
  · subst hnotify
    rw [hnone fun fo hfo => by cases hfo]
    exact Carrier.delivers_changeNotify_iff _ _
  rcases lt_or_ge lp.sub.length (d.fileIdAt + 16) with hlt | hge
  · have hmsg : k.msg = lp.sub := hnone fun fo hfo => by
      rw [fileIdOffset_cmd hnotify] at hfo
      obtain rfl := Option.some.inj hfo
      exact hlt
    by_cases hflush : d = .flush
    · subst hflush
      exact iff_of_true rfl (Carrier.apart_of_buffer rfl fid)
    · obtain ⟨hdel, hapart⟩ := Carrier.delivers_short hflush hlt fid
      rw [hmsg]
      exact iff_of_true hdel hapart
  · rw [hsome _ (fileIdOffset_cmd hnotify) hge]
    exact Carrier.delivers_iff hnotify _ _

/-! ### A CREATE and a related command -/

/-- A CLOSE with the flag RELATED_OPERATIONS and a FileId of ones. -/
def relatedCloseFrame : Bytes :=
  Header.encode { command := cmdClose, sessionId := 1, flags := flagRelatedOps } ++
    put16 24 ++ zeros 6 ++ List.replicate 16 0xFF

/-- A CHANGE_NOTIFY with the flag RELATED_OPERATIONS and a FileId of ones. -/
def relatedNotifyFrame : Bytes :=
  Header.encode { command := cmdChangeNotify, sessionId := 1, flags := flagRelatedOps } ++
    put16 32 ++ zeros 6 ++ List.replicate 16 0xFF ++ zeros 8

/-- A client of a guest server that has connected to a share. -/
def guestConnected : St guestEnv := openedState guestEnv (0 : ℕ) () ⟨[0x73], (), false⟩ (0 : ℕ)

/-- The FileId of its next open. -/
def guestFileId : FileId := makeFileID 1 0 1

/-- A CREATE and another request. -/
def createAnd (second : Bytes) : Bytes := compound (createFrame 1 0 0 [0x61, 0x00]) second

/-- The loop after the CREATE, when the other request is related. -/
theorem passes_create (second : Bytes) (cmd : UInt16)
    (h : ∃ lp s, round (guestServer false) { msg := createAnd second, via := .plain } guestConnected = .ok lp s ∧
      lp.finished = false ∧ lp.off = 128 ∧ (∃ r, lp.replies = [r] ∧ u32At (s.c.out.drop r.start) 8 = statusSuccess ∧
        createdFileId (s.c.out.drop r.start) = guestFileId.1) ∧
      (nextCommand guestConnected.c lp).map (fun k => (k.hdr.command, k.hdr.flags, k.lp.chainFailed)) =
        some (cmd, flagRelatedOps, false))
    (hfirst : (nextCommand guestConnected.c { msg := createAnd second, via := .plain }).map
      (fun k => (k.hdr.command, decide k.Contained)) = some (cmdCreate, true)) :
    ∃ (lp : Loop) (k : Command guestEnv),
      Passes (guestServer false) (fun _ k => k.Contained) (createAnd second) .plain (some guestFileId) lp ∧
      lp.finished = false ∧ lp.off = 128 ∧ nextCommand guestConnected.c lp = some k ∧
      k.hdr.flags &&& flagRelatedOps ≠ 0 ∧ k.lp.chainFailed = false ∧ k.hdr.command = cmd := by
  obtain ⟨lp, s, hrun, hfin, hoff, ⟨r, hr, hst, hfid⟩, hnext⟩ := h
  obtain ⟨k1, hk1, hpair1⟩ := map_eq_some_iff.1 hfirst
  obtain ⟨k, hk, hpair⟩ := map_eq_some_iff.1 hnext
  simp only [Prod.mk.injEq] at hpair hpair1
  refine ⟨lp, k, ?_, hfin, hoff, hk, ?_, hpair.2.2, hpair.1⟩
  · exact .create k1 r guestFileId .start rfl hk1 (of_decide_eq_true hpair1.2) hrun hpair1.1 hr hst hfid
  · rw [hpair.2.1]
    decide

set_option maxRecDepth 4000 in
/-- A related CLOSE closes what the CREATE has opened. -/
theorem inherits_iff_close : ∃ (lp : Loop) (k : Command guestEnv),
    Passes (guestServer false) (fun _ k => k.Contained) (createAnd relatedCloseFrame) .plain (some guestFileId) lp ∧
    nextCommand guestConnected.c lp = some k ∧ k.hdr.flags &&& flagRelatedOps ≠ 0 ∧
    Carrier.close.Delivers ((createAnd relatedCloseFrame).drop lp.off) k.msg guestFileId := by
  obtain ⟨lp, k, hp, hfin, -, hk, hrel, hf, hcmd⟩ := passes_create relatedCloseFrame cmdClose
    ⟨_, _, rfl, rfl, rfl, ⟨_, rfl, by decide +kernel, by decide +kernel⟩, by decide +kernel⟩ (by decide +kernel)
  refine ⟨lp, k, hp, hk, hrel, ?_⟩
  exact (inherits_iff (guestServer false) _ .plain guestFileId lp hp hfin _ k hk hrel hf .close hcmd).2
    (Carrier.apart_of_buffer rfl _)

set_option maxRecDepth 4000 in
/-- A related CHANGE_NOTIFY keeps the FileId of the client. -/
theorem related_notify_keeps_fileId :
    ¬∀ (E : Env) (srv : Config E) (frame : Bytes) (via : Arrival) (fid : FileId) (lp : Loop),
      Passes srv (fun _ _ => True) frame via (some fid) lp → lp.finished = false → ∀ (c : Conn E) (k : Command E),
        nextCommand c lp = some k → k.hdr.flags &&& flagRelatedOps ≠ 0 → k.lp.chainFailed = false →
        ∀ d : Carrier, k.hdr.command = d.cmd → d.Delivers (frame.drop lp.off) k.msg fid := by
  intro hall
  obtain ⟨lp, k, hp, hfin, hoff, hk, hrel, hf, hcmd⟩ :=
    passes_create relatedNotifyFrame cmdChangeNotify
      ⟨_, _, rfl, rfl, rfl, ⟨_, rfl, by decide +kernel, by decide +kernel⟩, by decide +kernel⟩ (by decide +kernel)
  have hfollow := hp.following
  have hsame := hall guestEnv (guestServer false) _ .plain guestFileId lp (hp.mono fun _ _ _ => trivial) hfin _ k hk hrel
    hf .changeNotify hcmd
  have hmsg : k.msg = lp.sub := (related_msg hk hrel (hfollow.fileId _ rfl).2 hf).2 fun fo hfo => by
    rw [hcmd] at hfo
    cases hfo
  rw [hmsg, hfollow.sent hfin, Carrier.delivers_changeNotify_iff, hoff] at hsame
  have hparse : ChangeNotifyRequest.parse ((createAnd relatedNotifyFrame).drop 128) =
      .ok ⟨0, 0, ⟨List.replicate 16 0xFF, rfl⟩, 0⟩ := rfl
  exact absurd (hsame _ hparse) (by decide)

end Server
end SmbServer
