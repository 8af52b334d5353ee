/-
# Signatures of the commands of a frame

The signature of a command covers its extent: from its header up to the next one, or to
the end of the frame.  A command whose signature does not verify fails the chain, and
with it every command behind it.

The commands are read from the buffer of the frame while it is written to: a related
command gets its FileId at a place that may lie behind its extent, in the header of the
next command.  A QUERY_INFO of ten bytes so clears the flags of the command behind it,
whose signature is then not looked at (`patched_command_served`).  Where the extents of
the commands of a frame have room for what is written, a command with a bad signature
and all behind it are refused; and no command of a frame is refused that is signed over its
extent, if the extents have the fixed parts of their requests (`reach_verified`).
-/

import SmbServer.Server.Demands
import SmbServer.Server.Extents

namespace SmbServer
open Bool
namespace Server

open Wire List Option

variable {E : Env} {srv : Config E}

/-! ### Commands as they were sent -/

/-- The message of the frame of a connection, and for each of its commands so far where it
begins and the connection when it was handled. -/
structure Sent (E : Env) where
  msg : Bytes := []
  served : List (ℕ × Conn E) := []

/-- The frame of a connection after one more event. -/
def Sent.next (cid : ConnId) (f : Sent E) : FrameEvent E → Sent E
  | .received cid' msg => if cid' = cid then { msg } else f
  | .served cid' lp s _ => if cid' = cid then { f with served := f.served ++ [(lp.off, s.c)] } else f

/-- The frame a connection handles at the end of a record. -/
def sent (cid : ConnId) (log : List (FrameEvent E)) : Sent E := log.foldl (Sent.next cid) {}

/-- The signature of a message is its AES-CMAC. -/
def validSignature (cr : Crypto) (signer : Signing.Signer) (b : Bytes) : Bool :=
  64 ≤ b.length && slice b 48 16 = List.ofFn (signer.cmac cr (Signing.unsigned b))

/-- A command that is flagged as signed, and whose session has a signer, has another
signature than that of its extent.  `b` is the rest of its frame from its header on. -/
def badlySigned (b : Bytes) (c : Conn E) : Bool :=
  match Header.parse b with
  | .ok hdr => hdr.flags &&& flagSigned ≠ 0 && (c.session? hdr.sessionId).any fun sess =>
    sess.signer.any fun signer => !validSignature E.crypto signer (cmdBytes hdr b)
  | _ => false

/-- A command is flagged as signed, and has the signature of its extent if its session has a
signer. -/
def wellSigned (b : Bytes) (c : Conn E) : Bool :=
  match Header.parse b with
  | .ok hdr => hdr.flags &&& flagSigned ≠ 0 && (c.session? hdr.sessionId).all fun sess =>
    sess.signer.all fun signer => validSignature E.crypto signer (cmdBytes hdr b)
  | _ => false

/-- The bytes of a request up to the end of the fixed part of its structure. -/
def fixedPart (cmd : UInt16) : ℕ :=
  headerSize +
    if cmd = cmdNegotiate then 36
    else if cmd = cmdSessionSetup then 24
    else if cmd = cmdTreeConnect then 8
    else if cmd = cmdCreate then 56
    else if cmd = cmdClose ∨ cmd = cmdFlush ∨ cmd = cmdLock ∨ cmd = cmdOplockBreak then 24
    else if cmd = cmdRead ∨ cmd = cmdWrite then 48
    else if cmd = cmdIoctl then 56
    else if cmd = cmdQueryDirectory ∨ cmd = cmdChangeNotify ∨ cmd = cmdSetInfo then 32
    else if cmd = cmdQueryInfo then 40
    else 4

/-- The extent of a command has the fixed part of its request. -/
def hasFixedPart (b : Bytes) : Bool :=
  match Header.parse b with
  | .ok hdr => fixedPart hdr.command ≤ (cmdBytes hdr b).length
  | _ => false

/-- The extent of a command has room for what is written into its request. -/
def fits (b : Bytes) : Bool :=
  match Header.parse b with
  | .ok hdr => hdr.nextCommand = 0 || writeEnd hdr.command ≤ hdr.nextCommand.toNat
  | _ => false

/-- A command at `off`, and those of its frame before it. -/
def Sent.upTo (f : Sent E) (off : ℕ) (c : Conn E) : List (ℕ × Conn E) := f.served ++ [(off, c)]

/-- A command is refused if one of its frame up to it is badly signed. -/
def SoundAt (srv : Config E) (f : Sent E) (lp : Loop) (s : St E) : Prop :=
  (∃ x ∈ f.upTo lp.off s.c, badlySigned (f.msg.drop x.1) x.2 = true) → Refuses srv lp s statusAccessDenied

/-- A command is not rejected for its signature if those of its frame up to it are signed and
have their fixed parts. -/
def CompleteAt (f : Sent E) (lp : Loop) (s : St E) (k : Command E) : Prop :=
  (∀ x ∈ f.upTo lp.off s.c, wellSigned (f.msg.drop x.1) x.2 = true ∧ hasFixedPart (f.msg.drop x.1) = true) →
    k.lp.chainFailed = lp.chainFailed ∧ k.lp.lastStatus = lp.lastStatus

/-- **Signature checking is sound and complete** for the commands of frames that meet a
condition: it is sound for them, and complete for all. -/
def VerifiedWhen (cond : Sent E → Prop) (srv : Config E) : List (FrameEvent E) → Prop :=
  Each fun older e => ∀ cid lp s k, e = .served cid lp s k →
    (cond (sent cid older) → SoundAt srv (sent cid older) lp s) ∧ CompleteAt (sent cid older) lp s k

/-- The commands of the frame so far have room for what is written into their requests. -/
def Sent.Fits (f : Sent E) : Prop := ∀ x ∈ f.served, fits (f.msg.drop x.1) = true

/-! ### Extents -/

theorem writeEnd_le_fixedPart (cmd : UInt16) : writeEnd cmd ≤ fixedPart cmd := by
  unfold writeEnd fileIdOffset
  by_cases h72 : cmd = cmdClose ∨ cmd = cmdFlush ∨ cmd = cmdQueryDirectory ∨ cmd = cmdLock ∨ cmd = cmdIoctl
  · rw [if_pos h72]
    rcases h72 with rfl | rfl | rfl | rfl | rfl <;> decide
  by_cases h80 : cmd = cmdRead ∨ cmd = cmdWrite ∨ cmd = cmdSetInfo
  · rw [if_neg h72, if_pos h80]
    rcases h80 with rfl | rfl | rfl <;> decide
  by_cases h88 : cmd = cmdQueryInfo
  · rw [if_neg h72, if_neg h80, if_pos h88]
    subst h88
    decide
  · rw [if_neg h72, if_neg h80, if_neg h88]
    have hsmall : (if cmd = cmdOplockBreak then 12 else 0) ≤ headerSize := by
      split_ifs <;> decide
    exact hsmall.trans (Nat.le_add_right _ _)

theorem fits_of_hasFixedPart {b : Bytes} (h : hasFixedPart b = true) : fits b = true := by
  unfold hasFixedPart at h
  unfold fits
  cases hp : Header.parse b with
  | panic => rw [hp] at h; cases h
  | err e => rw [hp] at h; cases h
  | ok hdr =>
    rw [hp] at h
    have hlen : fixedPart hdr.command ≤ (cmdBytes hdr b).length := of_decide_eq_true h
    have hend := writeEnd_le_fixedPart hdr.command
    simp only [or_eq_true, decide_eq_true_eq]
    by_cases hn : hdr.nextCommand = 0
    · exact .inl hn
    · right
      unfold cmdBytes at hlen
      split_ifs at hlen with hin
      · rw [length_take] at hlen
        omega
      · have hout : b.length < hdr.nextCommand.toNat := Nat.lt_of_not_le fun h => hin ⟨hn, h⟩
        omega

theorem Command.contained_of_fits {k : Command E} {b : Bytes} (hp : Header.parse b = .ok k.hdr) (h : fits b = true) :
    k.Contained := by
  unfold fits at h
  rw [hp] at h
  simpa [Command.Contained] using h

/-! ### Signatures -/

theorem validSignature_iff (signer : Signing.Signer) (b : Bytes) : validSignature E.crypto signer b = true ↔
    (signer.verify E.crypto b).1 = some true := by
  rw [signer.verify_iff, validSignature, and_eq_true, decide_eq_true_eq, decide_eq_true_eq]

section

variable {c : Conn E} {lp : Loop} {k : Command E}

theorem nextCommand_badlySigned (hk : nextCommand c lp = some k) (h : badlySigned lp.sub c = true) :
    k.lp.chainFailed = true ∧ k.lp.lastStatus = statusAccessDenied := by
  unfold badlySigned at h
  rw [(nextCommand_spec hk).2.1] at h
  simp only [and_eq_true, decide_eq_true_eq, Option.any_eq_true, not_eq_true'] at h
  obtain ⟨hflag, sess, hs, signer, hsigner, hbad⟩ := h
  refine nextCommand_unverified hk hs hsigner hflag fun hok => ?_
  rw [(validSignature_iff signer _).2 hok] at hbad
  cases hbad

/-- A well signed command leaves the chain as it is. -/
theorem nextCommand_wellSigned (hk : nextCommand c lp = some k) (h : wellSigned lp.sub c = true) :
    k.lp.chainFailed = lp.chainFailed ∧ k.lp.lastStatus = lp.lastStatus := by
  unfold wellSigned at h
  rw [(nextCommand_spec hk).2.1] at h
  simp only [and_eq_true, decide_eq_true_eq, Option.all_eq_true] at h
  obtain ⟨hflag, hvalid⟩ := h
  obtain ⟨-, hfailed, hstatus⟩ := patchFileId_status k.hdr (checkSignature c k.hdr lp)
  rw [(nextCommand_lp hk).1, hfailed, hstatus]
  unfold checkSignature
  cases hs : c.session? k.hdr.sessionId with
  | none => exact ⟨rfl, rfl⟩
  | some sess =>
    dsimp only
    cases hsigner : sess.signer with
    | none => exact ⟨rfl, rfl⟩
    | some signer =>
      have hok := (validSignature_iff signer _).1 (hvalid sess hs signer hsigner)
      dsimp only
      rw [if_pos hflag, if_pos hok]
      exact ⟨rfl, rfl⟩

theorem nextCommand_denied (hk : nextCommand c lp = some k) (hf : lp.chainFailed = true)
    (hst : lp.lastStatus = statusAccessDenied) : k.lp.chainFailed = true ∧ k.lp.lastStatus = statusAccessDenied := by
  rcases (nextCommand_status hk).2 with ⟨h1, h2⟩ | h
  · exact ⟨h1.trans hf, h2.trans hst⟩
  · exact h

/-- The locals after a pass over a command of a failed chain. -/
theorem round_denies {s s' : St E} {lp' : Loop} (hk : nextCommand s.c lp = some k) (hf : k.lp.chainFailed = true)
    (h : round srv lp s = .ok lp' s') : lp'.chainFailed = true ∧ lp'.lastStatus = k.lp.lastStatus := by
  rcases round_routed hk h with ⟨hn, -⟩ | ⟨-, r, s1, reply, hr⟩ | ⟨hn, -⟩
  · exact absurd (hn.2.symm.trans hf) (by decide)
  · have hroute := hr.route
    rw [route_failed _ hf] at hroute
    cases hroute
    obtain ⟨-, -, hfailed, hstatus, -⟩ := Loop.advance_locals
      (({ (k.lp.setSub k.lp.sub).settle k.lp.lastStatus with
        lastFileId := k.lp.lastFileId
        prevRespStart := some reply.start } : Loop).addReply reply) k.hdr.nextCommand
    rw [hr.loop, Loop.answered, hfailed, hstatus]
    simp [Loop.addReply, Loop.settle, Loop.setSub, hf]
  · exact absurd (hn.2.symm.trans hf) (by decide)

end

/-! ### Frames -/

/-- What the locals of a frame keep of it: the rest of the message is as it was sent, and the
chain is refused once a command was badly signed, if the commands have room for what is
written. -/
structure Tracks (f : Sent E) (lp : Loop) : Prop where
  rest : f.Fits → lp.finished = false → lp.sub = f.msg.drop lp.off
  denied : f.Fits → (∃ x ∈ f.served, badlySigned (f.msg.drop x.1) x.2 = true) →
    lp.chainFailed = true ∧ lp.lastStatus = statusAccessDenied

/-- **One pass keeps track of its frame.** -/
theorem Tracks.pass {f : Sent E} {lp lp' : Loop} {s s' : St E} {k : Command E} (h : Tracks f lp)
    (hfin : lp.finished = false) (hk : nextCommand s.c lp = some k) (hround : round srv lp s = .ok lp' s') :
    Tracks { f with served := f.served ++ [(lp.off, s.c)] } lp' := by
  have hold : ({ f with served := f.served ++ [(lp.off, s.c)] } : Sent E).Fits →
      f.Fits ∧ fits (f.msg.drop lp.off) = true := fun hfits =>
    ⟨fun x hx => hfits x (mem_append_left _ hx), hfits (lp.off, s.c) (by simp)⟩
  refine ⟨fun hfits hgoing => ?_, fun hfits hbad => ?_⟩
  · obtain ⟨hfits, hthis⟩ := hold hfits
    have hsub := h.rest hfits hfin
    rw [← hsub] at hthis
    have hcontained := Command.contained_of_fits (nextCommand_spec hk).2.1 hthis
    obtain ⟨hoff, hrest⟩ := round_beyond hk hcontained (round_going hk hround hgoing) hround
    rw [hrest, hoff, ← drop_drop, ← Loop.sub, hsub, drop_drop]
  · obtain ⟨hfits, -⟩ := hold hfits
    obtain ⟨hfailed, hstatus⟩ : k.lp.chainFailed = true ∧ k.lp.lastStatus = statusAccessDenied := by
      obtain ⟨x, hx, hbad⟩ := hbad
      rcases mem_append.1 hx with hx | hx
      · obtain ⟨hf, hst⟩ := h.denied hfits ⟨x, hx, hbad⟩
        exact nextCommand_denied hk hf hst
      · obtain rfl := mem_singleton.1 hx
        exact nextCommand_badlySigned hk (h.rest hfits hfin ▸ hbad)
    obtain ⟨hf, hst⟩ := round_denies hk hfailed hround
    exact ⟨hf, hst.trans hstatus⟩

theorem Tracks.stop {f : Sent E} {lp : Loop} (h : Tracks f lp) : Tracks f lp.stop :=
  ⟨nofun, h.denied⟩

theorem sent_concat (cid : ConnId) (log : List (FrameEvent E)) (e : FrameEvent E) :
    sent cid (log ++ [e]) = (sent cid log).next cid e := by
  simp [sent]

/-- What is observed of other transitions leaves the frame of a connection alone. -/
theorem sent_other {S S' : Sys E} {l : Label} {cid : ConnId} (hsub : l ≠ .sub cid) (hrecv : ∀ raw, l ≠ .recv cid raw)
    (log : List (FrameEvent E)) : sent cid (log ++ (observeFrame S l S').toList) = sent cid log := by
  cases he : observeFrame S l S' with
  | none => rw [toList_none, append_nil]
  | some e =>
    rw [toList_some, sent_concat]
    cases e with
    | served cid' lp s k =>
      obtain ⟨c, rfl, -⟩ := observeFrame_served he
      exact if_neg fun h => hsub (congrArg Label.sub h)
    | received cid' msg =>
      obtain ⟨raw, rfl⟩ := observeFrame_received he
      exact if_neg fun h => hrecv raw (congrArg (Label.recv · raw) h)

/-- **The frames of a run are kept track of.** -/
theorem reach_tracks {D : Sys E × List (FrameEvent E) → Label → Prop} {w : E.World} {S : Sys E}
    {log : List (FrameEvent E)} (hS : ((system srv w).recording observeFrame).Reach D (S, log)) {cid : ConnId}
    {c : Conn E} {lp : Loop} (hc : S.conns cid = some c) (hlp : c.loop = some lp) : Tracks (sent cid log) lp := by
  refine hS.recorded (I := fun S log => ∀ cid c lp, S.conns cid = some c → c.loop = some lp → Tracks (sent cid log) lp)
    (fun _ _ _ hc => by cases hc) ?_ cid c lp hc hlp
  intro S log l S' _ h _ hstep cid c' lp' hc' hlp'
  cases Sys.step_frame hstep hc' hlp' with
  | idle hsub hrecv hc hframe =>
    rw [sent_other hsub hrecv]
    simp only [Conn.frame, Prod.mk.injEq] at hframe
    exact h cid _ lp' hc (hframe.2.2.symm.trans hlp')
  | @start raw msg via c s hc hscreen hlp hout hsess =>
    have hobs : observeFrame S (.recv cid raw) S' = some (.received cid lp'.msg) := by
      simp [observeFrame, hc', hlp']
    rw [hobs, toList_some, sent_concat, Sent.next, if_pos rfl]
    subst hlp
    exact ⟨fun _ _ => rfl, fun _ hbad => by simp at hbad⟩
  | @pass c lp s hc hlp hfin hround hout hsess =>
    have htracks := h cid c lp hc hlp
    cases hk : nextCommand c lp with
    | none =>
      have hobs : observeFrame S (.sub cid) S' = none := by simp [observeFrame, hc, hlp, hk]
      have hstop : lp' = lp.stop := round_stopped hk hround
      rw [hobs, toList_none, append_nil, hstop]
      exact htracks.stop
    | some k =>
      have hobs : observeFrame S (.sub cid) S' = some (.served cid lp ⟨S.sh, c⟩ k) := by
        simp [observeFrame, hc, hlp, hk]
      rw [hobs, toList_some, sent_concat, Sent.next, if_pos rfl]
      exact htracks.pass hfin hk hround

/-- **The signatures of the commands of a frame are checked soundly and completely.**  In
every run a command is refused if one of its frame up to it is badly signed and those before
it have room for what is written into them; and a command is not rejected for its signature
if those of its frame up to it are signed and have their fixed parts. -/
theorem reach_verified (srv : Config E) (w : E.World) (S : Sys E) (log : List (FrameEvent E))
    (hS : ((system srv w).recording observeFrame).Reach (fun _ _ => True) (S, log)) :
    VerifiedWhen Sent.Fits srv log := by
  refine hS.each fun S log l S' e hreach _ hstep he => ?_
  rintro cid lp s k rfl
  obtain ⟨c, rfl, hc, hlp, hk, rfl⟩ := observeFrame_served he
  have htracks := reach_tracks hreach hc hlp
  have hfin : lp.finished = false := by
    replace hstep : S.step srv (.sub cid) = some S' := hstep
    cases Sys.step_fired hstep with
    | @sub _ c' lp' hc' hlp' hfin =>
      obtain rfl := Option.some.inj (hc.symm.trans hc')
      exact Option.some.inj (hlp.symm.trans hlp') ▸ hfin
  refine ⟨fun hfits hbad => ?_, fun hall => ?_⟩
  · obtain ⟨x, hx, hbad⟩ := hbad
    obtain ⟨hfailed, hstatus⟩ : k.lp.chainFailed = true ∧ k.lp.lastStatus = statusAccessDenied := by
      rcases List.mem_append.1 hx with hx | hx
      · obtain ⟨hf, hst⟩ := htracks.denied hfits ⟨x, hx, hbad⟩
        exact nextCommand_denied hk hf hst
      · obtain rfl := List.mem_singleton.1 hx
        exact nextCommand_badlySigned hk (htracks.rest hfits hfin ▸ hbad)
    exact hstatus ▸ refuses_of_failed hk hfailed
  · have hfits : (sent cid log).Fits := fun x hx => fits_of_hasFixedPart (hall x (List.mem_append_left _ hx)).2
    have hthis := (hall (lp.off, c) (List.mem_append_right _ (List.mem_singleton_self _))).1
    exact nextCommand_wellSigned hk (htracks.rest hfits hfin ▸ hthis)

/-! ### A FileId in the wrong header -/

/-- Whether a command of the frame of the first connection is badly signed. -/
def poisoned (log : List (FrameEvent E)) : Bool :=
  (sent 0 log).served.any fun x => badlySigned ((sent 0 log).msg.drop x.1) x.2

/-- A command of session 1 that says it is signed, and is not. -/
def forged (command : UInt16) : Bytes :=
  Header.encode { command, sessionId := 1, flags := flagSigned } ++ put16 4 ++ put16 0

/-- A forged ECHO in front of another one. -/
theorem reach_verified_forged : ∃ (S : Sys guestEnv) (log : List (FrameEvent guestEnv)),
    ((guestSystem false).recording observeFrame).Reach (fun _ _ => True) (S, log) ∧
      poisoned log = true ∧ VerifiedWhen Sent.Fits (guestServer false) log := by
  obtain ⟨⟨S, log⟩, hS, hlog⟩ := Transition.Reach.of_run (T := (guestSystem false).recording observeFrame)
    (C := fun _ _ => True) (f := fun p => poisoned p.2)
    ([.accept] ++ exchange 0 setupFrame ++ [.recv 0 (compound (forged cmdEcho) (forged cmdEcho)), .sub 0, .sub 0])
    (by decide +kernel) (by decide +kernel)
  exact ⟨S, log, hS, hlog, reach_verified (guestServer false) (0 : ℕ) S log hS⟩

/-- A CREATE, a related QUERY_INFO whose extent ends after ten bytes of its request, and a
forged LOGOFF. -/
def patchedFrame : Bytes :=
  compound (createFrame 1 0 0 [0x61, 0x00])
    (Header.encode { command := cmdQueryInfo, sessionId := 1, flags := flagRelatedOps, nextCommand := 74 } ++
      put16 41 ++ [0x01, 0x05] ++ put32 1000 ++ put16 0 ++ forged cmdLogoff)

/-- **A command with a bad signature is served.**  The FileId of the QUERY_INFO clears the
flags of the LOGOFF, which ends the session. -/
theorem patched_command_served : ¬∀ (E : Env) (srv : Config E) (w : E.World) (S : Sys E) (log : List (FrameEvent E)),
    ((system srv w).recording observeFrame).Reach (fun _ _ => True) (S, log) → VerifiedWhen (fun _ => True) srv log := by
  intro hall
  obtain ⟨⟨S, log⟩, hS, hlast⟩ := Transition.Reach.of_run (T := (guestSystem false).recording observeFrame)
    (C := fun _ _ => True) (f := fun p => lastServed (fun older cid lp s k => k.hdr.command = cmdLogoff &&
      badlySigned ((sent cid older).msg.drop lp.off) s.c && guestStatus lp s = some statusSuccess) p.2)
    ([.accept] ++ exchange 0 setupFrame ++ exchange 0 (treeConnectFrame 1) ++
      [.recv 0 patchedFrame, .sub 0, .sub 0, .sub 0])
    (by decide +kernel) (by decide +kernel)
  obtain ⟨older, cid, lp, s, k, hlog, htest⟩ := lastServed_spec hlast
  simp only [Bool.and_eq_true, decide_eq_true_eq] at htest
  obtain ⟨⟨-, hbad⟩, hstatus⟩ := htest
  have hverified := hall guestEnv (guestServer false) (0 : ℕ) S log hS older _ (hlog ▸ List.prefix_rfl) cid lp s k rfl
  refine not_refuses_of_guestStatus hstatus (hverified.1 trivial ⟨(lp.off, s.c), ?_, hbad⟩)
  exact List.mem_append_right _ (List.mem_singleton_self _)

end Server
end SmbServer
