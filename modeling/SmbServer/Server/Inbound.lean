/-
# Commands on sessions that require encryption

`serveConn` drops a plaintext frame whose first header names a session that
requires encryption, and opens a TRANSFORM message with the cipher of the session
its own header names.  The commands of the frame then each name a session of
their own, and nothing looks at that again.

So a command reaches a session that requires encryption in the right way as long
as the chains of the clients do not leave the session their frame came in for
(`InboundOk`).  A client that leaves it need not encrypt: behind a CANCEL that names
no session, the commands of a plaintext frame are executed
(`plaintext_command_is_executed`).
-/

import SmbServer.Server.Frames

namespace SmbServer
namespace Server

open Wire List Option

variable {E : Env} {srv : Config E}

/-- The session a TRANSFORM message was opened for. -/
def Arrival.session? : Arrival → Option UInt64
  | .plain => none
  | .transform sid _ _ => some sid

/-- Every command that reached a session requiring encryption came in a TRANSFORM
message, opened for that session and under its key. -/
def InboundSafe (S : Sys E) : Prop :=
  ∀ o via, .exec o via true ∈ S.sh.trace → ∃ key, via = .transform o.sid key key

/-- A TRANSFORM message finds a cipher made from the present key of its session, or
none; and a command on a session that requires encryption comes first in its frame
when that is plaintext, and names the session of its frame otherwise. -/
def InboundOk (S : Sys E) : Label → Prop
  | .recv cid raw => ∀ c ∈ S.conns cid, ∀ sess ∈ c.session? (u64At raw 44), ∀ ccm ∈ sess.decCCM,
      u8At raw 0 = 0xFD → sess.decryptionKey = some ccm.key
  | .sub cid => ∀ c ∈ S.conns cid, ∀ lp ∈ c.loop, ∀ k ∈ nextCommand c lp,
      lp.chainFailed = false → c.requiresEncryption k.hdr.sessionId = true →
        lp.via.session? = some k.hdr.sessionId ∨ lp.via = .plain ∧ lp.first = true
  | _ => True

instance (S : Sys E) : ∀ l, Decidable (InboundOk S l)
  | .recv cid raw => inferInstanceAs (Decidable (∀ c ∈ S.conns cid,
      ∀ sess ∈ c.session? (u64At raw 44), ∀ ccm ∈ sess.decCCM, u8At raw 0 = 0xFD →
        sess.decryptionKey = some ccm.key))
  | .sub cid => inferInstanceAs (Decidable (∀ c ∈ S.conns cid, ∀ lp ∈ c.loop,
      ∀ k ∈ nextCommand c lp, lp.chainFailed = false →
        c.requiresEncryption k.hdr.sessionId = true →
        lp.via.session? = some k.hdr.sessionId ∨ lp.via = .plain ∧ lp.first = true))
  | .accept | .reply _ | .drain _ | .tick _ _ | .done _ _ | .close _ => isTrue trivial

/-- What is known of a frame: a plaintext one does not begin with a session that
requires encryption, and another one was opened under the key of its session. -/
structure Admitted (c : Conn E) (lp : Loop) : Prop where
  off : lp.first = true → lp.off = 0
  plain : lp.first = true → lp.via = .plain → headerSize ≤ lp.msg.length →
    c.requiresEncryption (u64At lp.msg 40) = false
  opened : ∀ sid key key', lp.via = .transform sid key key' → key = key'

theorem openTransform_key {raw msg : Bytes} {via : Arrival} {s s' : St E}
    (h : openTransform raw s = .ok (some (msg, via)) s')
    (hccm : ∀ sess ccm, s.c.session? (u64At raw 44) = some sess → sess.decCCM = some ccm →
      sess.decryptionKey = some ccm.key) : ∃ sid key, via = .transform sid key key := by
  unfold openTransform at h
  split_ifs at h
  · cases h
  obtain ⟨_, _, h1, h⟩ := Go.bind_eq_ok h
  cases h1
  cases hs : s.c.session? (u64At raw 44) with
  | none => rw [hs] at h; cases h
  | some sess =>
    rw [hs] at h
    dsimp only at h
    cases hk : sess.decryptionKey with
    | none => rw [hk] at h; cases h
    | some key =>
      rw [hk] at h
      dsimp only at h
      cases hc : sess.decCCM <|> Encryption.newAESCCM key with
      | none => rw [hc] at h; cases h
      | some ccm =>
        have hkey := key_of_cipher (fun ccm h => hk ▸ hccm sess ccm hs h) hc
        rw [hc] at h
        obtain ⟨_, _, -, h⟩ := Go.bind_eq_ok h
        simp only [Go.pure_apply, Outcome.ok.injEq, map_eq_some_iff,
          Prod.mk.injEq] at h
        obtain ⟨⟨m, -, -, rfl⟩, -⟩ := h
        exact ⟨_, key, by rw [some.inj hkey]⟩

/-- `serveConn` admits a frame only after its check. -/
theorem screen_admitted {raw msg : Bytes} {via : Arrival} {s s' : St E}
    (h : screen raw s = .ok (some (msg, via)) s')
    (hccm : ∀ sess ccm, u8At raw 0 = 0xFD → s.c.session? (u64At raw 44) = some sess →
      sess.decCCM = some ccm → sess.decryptionKey = some ccm.key) :
    Admitted { s'.c with out := [] } { msg, via } := by
  unfold screen at h
  split_ifs at h with hfd
  · obtain ⟨sid, key, rfl⟩ := openTransform_key h fun sess ccm => hccm sess ccm hfd.2
    refine ⟨fun _ => rfl, fun _ hv => (nomatch hv), fun sid' k k' hv => ?_⟩
    cases hv
    rfl
  · obtain ⟨_, _, h1, h⟩ := Go.bind_eq_ok h
    cases h1
    split_ifs at h with hplain
    · cases h
    · cases h
      refine ⟨fun _ => rfl, fun _ _ hlen => ?_, fun sid k k' hv => nomatch hv⟩
      exact Bool.eq_false_iff.2 fun henc => hplain ⟨hlen, henc⟩

theorem admitted_rule : FrameRule srv InboundOk Admitted where
  congr {c c' lp} _ hs h := by
    refine ⟨h.off, fun hf hv hl => ?_, h.opened⟩
    have := h.plain hf hv hl
    rwa [Conn.requiresEncryption, Conn.session?, ← hs] at this
  start _ hc hC h := screen_admitted h fun sess ccm hfd hs hccm => hC _ hc sess hs ccm hccm hfd
  pass {S cid c lp lp' s'} _ _ _ _ _ h _ hp _ := by
    have hlater : lp'.via = lp.via → lp'.first = false → Admitted s'.c lp' := fun hv hf =>
      ⟨fun h => by simp [hf] at h, fun h => by simp [hf] at h, fun sid key key' hk =>
        h.opened sid key key' (hv ▸ hk)⟩
    cases hp with
    | stop _ => exact ⟨h.off, h.plain, h.opened⟩
    | pending k id hk hn hw hout hs ha => exact hlater ha.via ha.first
    | answer k junk a hk hj ha => exact hlater ha.after.via ha.after.first

/-- What the condition says of a command about to be handled. -/
theorem admitted_command {S : Sys E} {cid : ConnId} {c : Conn E} {lp : Loop} {k : Command E}
    (hC : InboundOk S (.sub cid)) (hJ : Frames Admitted S) (hc : S.conns cid = some c)
    (hlp : c.loop = some lp) (hk : nextCommand c lp = some k) (hf : k.lp.chainFailed = false)
    (henc : c.requiresEncryption k.hdr.sessionId = true) :
    ∃ key, k.lp.via = .transform k.hdr.sessionId key key := by
  obtain ⟨-, hparse, hkept, -⟩ := nextCommand_spec hk
  have hf0 : lp.chainFailed = false := Bool.eq_false_iff.2 fun h => by simp [hkept.failed h] at hf
  have hok := hC c hc lp hlp k hk hf0 henc
  have hadm := hJ cid c lp hc hlp
  rw [hkept.via]
  rcases hok with hv | ⟨hv, hfirst⟩
  · cases hvia : lp.via with
    | plain => simp [hvia, Arrival.session?] at hv
    | transform sid key key' =>
      simp only [hvia, Arrival.session?, some.injEq] at hv
      rw [hadm.opened sid key key' hvia, hv]
      exact ⟨key', rfl⟩
  · -- The first header is the one `serveConn` looked at.
    have hsub : lp.sub = lp.msg := by rw [Loop.sub, hadm.off hfirst, drop_zero]
    rw [hsub] at hparse
    have hplain := hadm.plain hfirst hv (Header.parse_eq_ok hparse).1
    rw [Header.parse_sessionId hparse, hplain] at henc
    cases henc

/-- New events other than executions keep `InboundSafe`. -/
theorem InboundSafe.append {S : Sys E} {es : List (Event E)} (h : InboundSafe S) (S' : Sys E)
    (ht : S'.sh.trace = es ++ S.sh.trace) (hes : ∀ o via, .exec o via true ∉ es) :
    InboundSafe S' := by
  intro o via hm
  rw [ht] at hm
  exact h o via ((mem_append.1 hm).resolve_left (hes o via))

theorem inbound_preserved : Preserved srv (fun S l => InboundOk S l ∧ Frames Admitted S)
    (fun k _ => k.lp.chainFailed = false → k.before.requiresEncryption k.hdr.sessionId = true →
      ∃ key, k.lp.via = .transform k.hdr.sessionId key key) InboundSafe where
  accept S _ h := h
  aside S cid c s' _ _ h ha := by
    obtain ⟨es, ht, hes⟩ := ha.trace
    exact h.append (S.put cid s') ht fun o via hm => (Bool.false_ne_true (hes _ hm)).elim
  start S cid c lp k _ hc hlp hk _ hC hf henc := by
    rw [(nextCommand_spec hk).1] at henc
    exact admitted_command hC.1 hC.2 hc hlp hk hf henc
  carry k s s' hd _ := hd
  exec S cid c k _ _ _ hf hs h hd := by
    refine ⟨fun o via hm => ?_, hd⟩
    rcases mem_cons.1 hm with he | hm
    · simp only [Event.exec.injEq] at he
      obtain ⟨rfl, rfl, henc⟩ := he
      refine hd hf ?_
      rw [Conn.requiresEncryption, Conn.session?, ← hs]
      exact henc.symm
    · exact h o via hm
  effect S cid c k s' _ _ _ _ h hd he := by
    obtain ⟨es, ht, hes⟩ := he.trace
    exact ⟨h.append (S.put cid s') ht fun o via hm => (Bool.false_ne_true (hes _ hm)).elim, hd⟩
  close S cid c s' _ _ h _ hc := by
    obtain ⟨l, -, hends⟩ := hc.ends
    have hnone : ∀ o : Origin, none = some o → o.conn = cid := fun o h => by cases h
    obtain ⟨es, ht, hes⟩ := hends.isHandler hnone
    exact h.append (S.remove cid s'.sh) ht fun o via hm => (Bool.false_ne_true (hes _ hm)).elim

/-- **Inbound encryption.**  In every run of the server in which each step meets
`InboundOk`, every command that reaches a session requiring encryption came in a
TRANSFORM message opened under that session's key. -/
theorem reach_inboundSafe (srv : Config E) (w : E.World) (S : Sys E)
    (hS : (system srv w).Reach InboundOk S) : InboundSafe S := by
  have hS' := hS.strengthen (J := Frames Admitted) fun S h => admitted_rule.reach h
  exact (inbound_preserved.reach (fun o via h => nomatch h) hS').2

/-! ### Two runs -/

/-- Some command that reached a session requiring encryption passes a test. -/
def Sys.executed (S : Sys E) (p : Arrival → Bool) : Bool :=
  S.sh.trace.any fun e =>
    match e with
    | .exec _ via true => p via
    | _ => false

/-- A CANCEL that names no session, and behind it an ECHO on session 1. -/
def cancelEchoFrame : Bytes :=
  Header.encode { command := cmdCancel, nextCommand := 64 } ++
    Header.encode { command := cmdEcho, sessionId := 1 } ++ put16 4 ++ zeros 2

/-- **A command of a plaintext frame is executed on a session that requires
encryption.**  After a SESSION_SETUP, the frame `cancelEchoFrame` is let in because its
first header names no session, and its ECHO reaches session 1. -/
theorem plaintext_command_is_executed :
    ¬ ∀ (E : Env) (srv : Config E) (w : E.World) (S : Sys E), srv.requireEnc = true →
      (system srv w).Reach (fun _ _ => True) S → InboundSafe S := by
  intro h
  obtain ⟨S, hS, hbad⟩ := Transition.Reach.of_run (T := guestSystem true) (C := fun _ _ => True)
    (f := fun S => S.executed fun via => decide (via = .plain))
    ([.accept] ++ exchange 0 setupFrame ++ [.recv 0 cancelEchoFrame, .sub 0, .sub 0])
    (by decide +kernel) (by decide +kernel)
  obtain ⟨e, he, hp⟩ := List.any_eq_true.1 hbad
  cases e with
  | exec o via enc =>
    cases enc with
    | false => cases hp
    | true =>
      obtain ⟨key, hkey⟩ := h guestEnv (guestServer true) (0 : ℕ) S rfl hS o via he
      simp [hkey] at hp
  | _ => cases hp

/-- The hypothesis of `reach_inboundSafe` is met by a run in which an ECHO on a session
that requires encryption is executed. -/
theorem reach_inboundSafe_echo : ∃ S, (guestSystem true).Reach InboundOk S ∧
    (S.executed fun _ => true) = true ∧ InboundSafe S := by
  obtain ⟨S, hS, hexec⟩ := Transition.Reach.of_run (T := guestSystem true) (C := InboundOk)
    (f := fun S => S.executed fun _ => true)
    ([.accept] ++ exchange 0 setupFrame ++ exchange 0 sealedEchoFrame)
    (by decide +kernel) (by decide +kernel)
  exact ⟨S, hS, hexec, reach_inboundSafe (guestServer true) (0 : ℕ) S hS⟩

end Server
end SmbServer
