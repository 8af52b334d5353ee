/-
# Demands for signatures

A client asks for signing with a bit of `SecurityMode` in its NEGOTIATE or SESSION_SETUP.
The server parses the field and has a place to remember the demand, `session.requireSign`,
which `handleMessage` asks for; but no code sets it.  So an unsigned command of a session
whose client demanded signatures is handled as any other (`unsigned_command_served`).

A command that says that it is signed is refused with STATUS_ACCESS_DENIED unless its
signature verifies, and changes nothing then.  Signatures are so enforced in every run in
which the commands of such sessions say that they are signed (`reach_enforced`).
-/

import SmbServer.Server.Logons

namespace SmbServer
namespace Server

open Wire List Option

variable {E : Env} {srv : Config E}

/-! ### The commands of a run -/

/-- What a run does with the frames of its connections: the message of a frame is taken up,
or its next command handled, with the locals and the state it is handled in. -/
inductive FrameEvent (E : Env) where
  | received (cid : ConnId) (msg : Bytes)
  | served (cid : ConnId) (lp : Loop) (s : St E) (k : Command E)

/-- The frame or the command a transition is about. -/
def observeFrame (S : Sys E) (l : Label) (S' : Sys E) : Option (FrameEvent E) :=
  match l with
  | .recv cid _ => do
      let c ← S'.conns cid
      let lp ← c.loop
      return .received cid lp.msg
  | .sub cid => do
      let c ← S.conns cid
      let lp ← c.loop
      let k ← nextCommand c lp
      return .served cid lp ⟨S.sh, c⟩ k
  | _ => none

theorem observeFrame_served {S S' : Sys E} {l : Label} {cid : ConnId} {lp : Loop} {s : St E} {k : Command E}
    (h : observeFrame S l S' = some (.served cid lp s k)) :
    ∃ c, l = .sub cid ∧ S.conns cid = some c ∧ c.loop = some lp ∧ nextCommand c lp = some k ∧ s = ⟨S.sh, c⟩ := by
  cases l with
  | sub cid' =>
    obtain ⟨c, hc, h⟩ := bind_eq_some_iff.1 h
    obtain ⟨lp', hlp, h⟩ := bind_eq_some_iff.1 h
    obtain ⟨k', hk, h⟩ := bind_eq_some_iff.1 h
    cases h
    exact ⟨c, rfl, hc, hlp, hk, rfl⟩
  | recv cid' raw =>
    obtain ⟨c, hc, h⟩ := bind_eq_some_iff.1 h
    obtain ⟨lp', hlp, h⟩ := bind_eq_some_iff.1 h
    cases h
  | _ => cases h

theorem observeFrame_received {S S' : Sys E} {l : Label} {cid : ConnId} {msg : Bytes}
    (h : observeFrame S l S' = some (.received cid msg)) : ∃ raw, l = .recv cid raw := by
  cases l with
  | recv cid' raw =>
    obtain ⟨c, hc, h⟩ := bind_eq_some_iff.1 h
    obtain ⟨lp, hlp, h⟩ := bind_eq_some_iff.1 h
    cases h
    exact ⟨raw, rfl⟩
  | sub cid' =>
    obtain ⟨c, hc, h⟩ := bind_eq_some_iff.1 h
    obtain ⟨lp, hlp, h⟩ := bind_eq_some_iff.1 h
    obtain ⟨k, hk, h⟩ := bind_eq_some_iff.1 h
    cases h
  | _ => cases h

/-! ### Demands -/

/-- `SigningRequired`. -/
def signingRequired : UInt16 := 0x0002

/-- A NEGOTIATE that is handled and asks for signing. -/
def Command.negotiatesSigning (k : Command E) : Bool :=
  k.hdr.command = cmdNegotiate && !k.lp.chainFailed &&
    match NegotiateRequest.parse k.msg with
    | .ok req => req.securityMode &&& signingRequired ≠ 0
    | _ => false

/-- Whether a SESSION_SETUP that is handled asks for signing, and the session it is for. -/
def Command.setsUp (k : Command E) (s : St E) : Option (UInt64 × Bool) :=
  if k.hdr.command = cmdSessionSetup ∧ k.lp.chainFailed = false then
    match SessionSetupRequest.parse k.msg with
    | .ok req => some (s.setupId k.hdr.sessionId, req.securityMode.toUInt16 &&& signingRequired ≠ 0)
    | _ => none
  else none

/-- The client of a session demanded signatures: in a SESSION_SETUP of the session, or in a
NEGOTIATE of its connection before that.  `asked` is whether there was such a NEGOTIATE
already. -/
def demands (cid : ConnId) (sid : UInt64) (asked : Bool) : List (FrameEvent E) → Bool
  | [] => false
  | .received _ _ :: log => demands cid sid asked log
  | .served cid' _ s k :: log =>
    if cid' = cid then
      (k.setsUp s).any (fun setup => setup.1 = sid && (setup.2 || asked)) ||
        demands cid sid (asked || k.negotiatesSigning) log
    else demands cid sid asked log

/-- The command is signed, and its signature is that of its session. -/
def Signed (lp : Loop) (s : St E) (k : Command E) : Prop :=
  k.hdr.flags &&& flagSigned ≠ 0 ∧ ∃ sess signer, s.c.session? k.hdr.sessionId = some sess ∧
    sess.signer = some signer ∧ (signer.verify E.crypto (cmdBytes k.hdr lp.sub)).1 = some true

/-- **Required signing is enforced**: a command of an authenticated session whose client
demanded signatures, a SESSION_SETUP apart, is signed or refused. -/
def Enforced (srv : Config E) : List (FrameEvent E) → Prop :=
  Each fun older e => ∀ cid lp s k, e = .served cid lp s k →
    demands cid k.hdr.sessionId false older = true → s.c.authenticated k.hdr.sessionId = true →
    k.hdr.command ≠ cmdSessionSetup → Signed lp s k ∨ Refuses srv lp s statusAccessDenied

/-- The next command says that it is signed, if it should be. -/
def SaysSigned (p : Sys E × List (FrameEvent E)) : Label → Prop
  | .sub cid => ∀ c ∈ p.1.conns cid, ∀ lp ∈ c.loop, ∀ k ∈ nextCommand c lp,
      demands cid k.hdr.sessionId false p.2 = true → c.authenticated k.hdr.sessionId = true →
        k.hdr.command ≠ cmdSessionSetup → k.hdr.flags &&& flagSigned ≠ 0
  | _ => True

instance (p : Sys E × List (FrameEvent E)) : ∀ l, Decidable (SaysSigned p l)
  | .sub cid => inferInstanceAs (Decidable (∀ c ∈ p.1.conns cid, ∀ lp ∈ c.loop, ∀ k ∈ nextCommand c lp,
      demands cid k.hdr.sessionId false p.2 = true → c.authenticated k.hdr.sessionId = true →
        k.hdr.command ≠ cmdSessionSetup → k.hdr.flags &&& flagSigned ≠ 0))
  | .accept | .recv _ _ | .reply _ | .drain _ | .tick _ _ | .done _ _ | .close _ => isTrue trivial

/-! ### Signatures -/

theorem reach_signer {C : Sys E → Label → Prop} {w : E.World} {S : Sys E} (hS : (system srv w).Reach C S) :
    Sessions (fun sess => sess.authenticated = true → sess.signer.isSome = true) S := by
  refine Sessions.reach (fun hsame h => ?_) (fun auth h => ?_) (fun r sess _ _ => ?_) hS
  · rw [hsame.authenticated, hsame.signer]
    exact h
  · cases h
  · exact Signing.newSigner_deriveSigningKey E.crypto r.sessionKey

/-- A signature that does not verify fails the chain. -/
theorem nextCommand_unverified {c : Conn E} {lp : Loop} {k : Command E} {sess : Session E} {signer : Signing.Signer}
    (hk : nextCommand c lp = some k) (hs : c.session? k.hdr.sessionId = some sess) (hsigner : sess.signer = some signer)
    (hflag : k.hdr.flags &&& flagSigned ≠ 0)
    (hbad : (signer.verify E.crypto (cmdBytes k.hdr lp.sub)).1 ≠ some true) :
    k.lp.chainFailed = true ∧ k.lp.lastStatus = statusAccessDenied := by
  obtain ⟨-, hfailed, hstatus⟩ := patchFileId_status k.hdr (checkSignature c k.hdr lp)
  rw [(nextCommand_lp hk).1, hfailed, hstatus]
  unfold checkSignature
  rw [hs]
  dsimp only
  rw [hsigner]
  dsimp only
  rw [if_pos hflag, if_neg hbad]
  exact ⟨rfl, rfl⟩

/-- **Signatures are enforced where they are demanded**, in every run in which the commands of
the sessions concerned say that they are signed. -/
theorem reach_enforced (srv : Config E) (w : E.World) (S : Sys E) (log : List (FrameEvent E))
    (hS : ((system srv w).recording observeFrame).Reach SaysSigned (S, log)) : Enforced srv log := by
  refine hS.each fun S log l S' e hreach hC hstep he => ?_
  rintro cid lp s k rfl hdemand hauth hcmd
  obtain ⟨c, rfl, hc, hlp, hk, rfl⟩ := observeFrame_served he
  have hflag : k.hdr.flags &&& flagSigned ≠ 0 := hC c hc lp hlp k hk hdemand hauth hcmd
  obtain ⟨sess, hs, ha⟩ := Conn.authenticated_iff.1 hauth
  obtain ⟨signer, hsigner⟩ := Option.isSome_iff_exists.1 (reach_signer hreach.unrecorded cid c _ sess hc hs ha)
  by_cases hok : (signer.verify E.crypto (cmdBytes k.hdr lp.sub)).1 = some true
  · exact .inl ⟨hflag, sess, signer, hs, hsigner, hok⟩
  · obtain ⟨hfailed, hstatus⟩ := nextCommand_unverified hk hs hsigner hflag hok
    exact .inr (hstatus ▸ refuses_of_failed hk hfailed)

/-! ### An unsigned command -/

/-- A SESSION_SETUP without a token that asks for signing. -/
def demandingFrame : Bytes :=
  Header.encode { command := cmdSessionSetup } ++ put16 25 ++ [0x00, 0x02] ++ zeros 20

/-- A frame with one command, signed under the key of a guest. -/
def signedFrame (frame : Bytes) : Bytes :=
  let flagged := copyAt frame 16 (put32 flagSigned)
  ((Signing.newSigner guestEnv.crypto (Signing.deriveSigningKey guestEnv.crypto [])).bind fun signer =>
    signer.sign guestEnv.crypto flagged).getD flagged

/-- The status a guest gets for the next command. -/
def guestStatus (lp : Loop) (s : St guestEnv) : Option UInt32 :=
  match round (guestServer false) lp s with
  | .ok lp' s' => lp'.replies.getLast?.map fun reply => u32At (s'.c.out.drop reply.start) 8
  | .panic _ => none

/-- The last event of a record is a command that passes a test. -/
def lastServed (test : List (FrameEvent E) → ConnId → Loop → St E → Command E → Bool) (log : List (FrameEvent E)) :
    Bool :=
  match log.reverse with
  | .served cid lp s k :: newer => test newer.reverse cid lp s k
  | _ => false

theorem lastServed_spec {test : List (FrameEvent E) → ConnId → Loop → St E → Command E → Bool}
    {log : List (FrameEvent E)} (h : lastServed test log = true) :
    ∃ older cid lp s k, log = older ++ [.served cid lp s k] ∧ test older cid lp s k = true := by
  unfold lastServed at h
  cases hrev : log.reverse with
  | nil => rw [hrev] at h; cases h
  | cons e newer =>
    rw [hrev] at h
    cases e with
    | received cid msg => cases h
    | served cid lp s k =>
      refine ⟨newer.reverse, cid, lp, s, k, ?_, h⟩
      rw [← reverse_cons, ← hrev, reverse_reverse]

/-- A TREE_CONNECT of an authenticated session whose client demanded signatures is answered
with STATUS_SUCCESS; and `signed` is whether it says that it is signed. -/
def servedLast (signed : Bool) (log : List (FrameEvent guestEnv)) : Bool :=
  lastServed (fun older cid lp s k =>
    demands cid k.hdr.sessionId false older && s.c.authenticated k.hdr.sessionId && k.hdr.command = cmdTreeConnect &&
      decide (k.hdr.flags &&& flagSigned ≠ 0) == signed && guestStatus lp s = some statusSuccess) log

/-- What is answered with STATUS_SUCCESS is not refused. -/
theorem not_refuses_of_guestStatus {lp : Loop} {s : St guestEnv} (h : guestStatus lp s = some statusSuccess) :
    ¬Refuses (guestServer false) lp s statusAccessDenied := by
  rintro ⟨lp', s', hround, ⟨reply, hreplies, hstatus⟩, -⟩
  unfold guestStatus at h
  rw [hround] at h
  dsimp only at h
  rw [hreplies, getLast?_concat, map_some, hstatus] at h
  exact absurd h (by decide)

/-- A client that asks for signing, and signs its TREE_CONNECT. -/
theorem reach_enforced_signed : ∃ (S : Sys guestEnv) (log : List (FrameEvent guestEnv)),
    ((guestSystem false).recording observeFrame).Reach SaysSigned (S, log) ∧
      servedLast true log = true ∧ Enforced (guestServer false) log := by
  obtain ⟨⟨S, log⟩, hS, hlast⟩ := Transition.Reach.of_run (T := (guestSystem false).recording observeFrame)
    (C := SaysSigned) (f := fun p => servedLast true p.2)
    ([.accept] ++ exchange 0 demandingFrame ++ exchange 0 (signedFrame (treeConnectFrame 1)))
    (by decide +kernel) (by decide +kernel)
  exact ⟨S, log, hS, hlast, reach_enforced (guestServer false) (0 : ℕ) S log hS⟩

/-- **A client that asks for signing has its unsigned commands served.**  Its TREE_CONNECT
without a signature gets a tree. -/
theorem unsigned_command_served : ¬∀ (E : Env) (srv : Config E) (w : E.World) (S : Sys E) (log : List (FrameEvent E)),
    ((system srv w).recording observeFrame).Reach (fun _ _ => True) (S, log) → Enforced srv log := by
  intro hall
  obtain ⟨⟨S, log⟩, hS, hlast⟩ := Transition.Reach.of_run (T := (guestSystem false).recording observeFrame)
    (C := fun _ _ => True) (f := fun p => servedLast false p.2)
    ([.accept] ++ exchange 0 demandingFrame ++ exchange 0 (treeConnectFrame 1))
    (by decide +kernel) (by decide +kernel)
  obtain ⟨older, cid, lp, s, k, hlog, htest⟩ := lastServed_spec hlast
  simp only [Bool.and_eq_true, decide_eq_true_eq, beq_iff_eq] at htest
  obtain ⟨⟨⟨⟨hdemand, hauth⟩, hcmd⟩, hflag⟩, hstatus⟩ := htest
  have henforced := hall guestEnv (guestServer false) (0 : ℕ) S log hS older _ (hlog ▸ List.prefix_rfl) cid lp s k rfl
    hdemand hauth (by rw [hcmd]; decide)
  rcases henforced with hsigned | hrefuses
  · exact absurd hsigned.1 (of_decide_eq_false hflag)
  · exact not_refuses_of_guestStatus hstatus hrefuses

end Server
end SmbServer
