/-
# The keys of a session

`handleSessionSetup` derives the signer and the two keys of a session from the session
key of its Authenticator, each time that returns an Identity.  `openTransform` and
`maybeSealResponse` make the ciphers from the two keys when they first need them, and
keep them in the session from then on.

A second Identity replaces the signer and the keys and leaves the ciphers as they are.
So the five agree as long as an Identity for a session with a cipher comes with the
session key that the cipher was made from (`KeysOk`); a session that is set up again
under another key signs with the new key and goes on opening messages with the old one
(`setup_keeps_cipher`).
-/

import SmbServer.Server.Gating

namespace SmbServer
namespace Server

open Wire Go Option Conn Sys

variable {E : Env} {srv : Config E}
variable {S : Sys E} {sess : Session E} {c : Conn E} {s s' : St E}

/-- All keys of the session, and the ciphers it has, come from one session key. -/
structure Session.DerivedFrom (sess : Session E) (sessionKey : Bytes) : Prop where
  signer : sess.signer = Signing.newSigner E.crypto (Signing.deriveSigningKey E.crypto sessionKey)
  encryptionKey : sess.encryptionKey = some (Encryption.deriveServerEncryptionKey E.crypto sessionKey)
  decryptionKey : sess.decryptionKey = some (Encryption.deriveServerDecryptionKey E.crypto sessionKey)
  encCCM : ∀ ccm ∈ sess.encCCM, ccm.key = Encryption.deriveServerEncryptionKey E.crypto sessionKey
  decCCM : ∀ ccm ∈ sess.decCCM, ccm.key = Encryption.deriveServerDecryptionKey E.crypto sessionKey

/-- A session before its first Identity has neither keys nor ciphers. -/
structure Session.Keyless (sess : Session E) : Prop where
  signer : sess.signer = none
  encryptionKey : sess.encryptionKey = none
  decryptionKey : sess.decryptionKey = none
  encCCM : sess.encCCM = none
  decCCM : sess.decCCM = none

/-- The keys and the ciphers of every session agree. -/
def KeysAgree (S : Sys E) : Prop :=
  Sessions (fun sess => sess.Keyless ∨ ∃ sessionKey, sess.DerivedFrom sessionKey) S

/-- What the Authenticator of the session returns for the token of a SESSION_SETUP, if that
is an Identity. -/
def Session.granted (sess : Session E) (msg : Bytes) (w : E.World) : Option Auth.AcceptResult :=
  match SessionSetupRequest.parse msg with
  | .ok req =>
    match (E.accept sess.auth req.securityBuffer w).1.1 with
    | .ok a => if a.identity.isSome then some a else none
    | .error _ => none
  | _ => none

/-- The keys whose ciphers the session has are those of the session key of `a`. -/
def Session.Reissues (sess : Session E) (a : Auth.AcceptResult) : Prop :=
  (sess.encCCM.isSome = true →
      sess.encryptionKey = some (Encryption.deriveServerEncryptionKey E.crypto a.sessionKey)) ∧
    (sess.decCCM.isSome = true →
      sess.decryptionKey = some (Encryption.deriveServerDecryptionKey E.crypto a.sessionKey))

instance (sess : Session E) (a : Auth.AcceptResult) : Decidable (sess.Reissues a) :=
  inferInstanceAs (Decidable ((_ → _) ∧ (_ → _)))

/-- An Identity for a session that has a cipher comes with the key of the cipher. -/
def KeysOk (S : Sys E) : Label → Prop
  | .sub cid => ∀ c ∈ S.conns cid, ∀ lp ∈ c.loop, ∀ k ∈ nextCommand c lp,
      k.lp.chainFailed = false → k.hdr.command = cmdSessionSetup →
        ∀ sess ∈ c.session? k.hdr.sessionId, ∀ a ∈ sess.granted k.msg S.sh.world, sess.Reissues a
  | _ => True

instance (S : Sys E) : ∀ l, Decidable (KeysOk S l)
  | .sub cid => inferInstanceAs (Decidable (∀ c ∈ S.conns cid, ∀ lp ∈ c.loop, ∀ k ∈ nextCommand c lp,
      k.lp.chainFailed = false → k.hdr.command = cmdSessionSetup →
        ∀ sess ∈ c.session? k.hdr.sessionId, ∀ a ∈ sess.granted k.msg S.sh.world, sess.Reissues a))
  | .accept | .recv _ _ | .reply _ | .drain _ | .tick _ _ | .done _ _ | .close _ => isTrue trivial

/-! ### The keys -/

/-- The keys of a session come from one session key, whatever its ciphers. -/
def Session.Issued (sess : Session E) : Prop :=
  (sess.signer = none ∧ sess.encryptionKey = none ∧ sess.decryptionKey = none) ∨
    ∃ sessionKey, sess.signer = Signing.newSigner E.crypto (Signing.deriveSigningKey E.crypto sessionKey) ∧
      sess.encryptionKey = some (Encryption.deriveServerEncryptionKey E.crypto sessionKey) ∧
      sess.decryptionKey = some (Encryption.deriveServerDecryptionKey E.crypto sessionKey)

/-- The keys agree in every run: an Identity replaces all three. -/
theorem reach_issued {C : Sys E → Label → Prop} {w : E.World}
    (hS : (system srv w).Reach C S) : Sessions Session.Issued S := by
  refine Sessions.reach (fun hsame h => ?_) (fun _ => .inl ⟨rfl, rfl, rfl⟩) (fun a _ _ => ?_) hS
  · rw [Session.Issued, hsame.signer, hsame.encryptionKey, hsame.decryptionKey]
    exact h
  · exact .inr ⟨a.sessionKey, rfl, rfl, rfl⟩

/-- Where the keys agree and the ciphers are those of the keys, all agree. -/
theorem Session.Issued.agree (h : sess.Issued) (hc : sess.Coherent) :
    sess.Keyless ∨ ∃ sessionKey, sess.DerivedFrom sessionKey := by
  rcases h with ⟨hs, he, hd⟩ | ⟨sessionKey, hs, he, hd⟩
  · refine .inl ⟨hs, he, hd, eq_none_iff_forall_ne_some.2 fun ccm h => ?_,
      eq_none_iff_forall_ne_some.2 fun ccm h => ?_⟩
    · exact absurd (he.symm.trans (hc.1 ccm h)) (by simp)
    · exact absurd (hd.symm.trans (hc.2 ccm h)) (by simp)
  · refine .inr ⟨sessionKey, hs, he, hd, fun ccm h => ?_, fun ccm h => ?_⟩
    · exact some.inj ((hc.1 ccm h).symm.trans he)
    · exact some.inj ((hc.2 ccm h).symm.trans hd)

/-! ### The ciphers -/

theorem Session.Coherent.congr {sess' : Session E} (h : sess.Coherent) (he : sess'.encryptionKey = sess.encryptionKey)
    (hd : sess'.decryptionKey = sess.decryptionKey) (hec : sess'.encCCM = sess.encCCM)
    (hdc : sess'.decCCM = sess.decCCM) : sess'.Coherent := by
  rw [Session.Coherent, he, hd, hec, hdc]
  exact h

theorem Conn.Coherent.ofSessions {c' : Conn E} (h : c.Coherent) (hs : c'.sessions = c.sessions) : c'.Coherent := by
  intro sid sess hsess
  rw [Conn.session?, hs] at hsess
  exact h sid sess hsess

theorem Closed.coherent {origin : Option Origin} {K : UInt64 → UInt32 → Prop}
    (h : Closed origin K s s') (hc : s.c.Coherent) : s'.c.Coherent := by
  intro sid sess' hs'
  have hu := h.session sid
  rw [hs'] at hu
  obtain ⟨sess, hs, heq⟩ := map_eq_some_iff.1 hu.symm
  cases sess
  cases sess'
  simp only [Session.untreed, Session.mk.injEq] at heq
  obtain ⟨-, -, -, -, -, -, -, he, hd, -, hec, hdc⟩ := heq
  exact (hc sid _ hs).congr he.symm hd.symm hec.symm hdc.symm

/-- Of all handlers only that of SESSION_SETUP touches the keys. -/
theorem Effect.coherent {o : Origin} {msg : Bytes} (he : Effect srv o msg s s')
    (hss : o.cmd ≠ cmdSessionSetup) (hc : s.c.Coherent) : s'.c.Coherent := by
  have hmod : ∀ {c : Conn E} (sid : UInt64) (f : Session E → Session E), c.Coherent →
      (∀ sess : Session E, sess.Coherent → (f sess).Coherent) → (c.modifySession sid f).Coherent :=
    fun sid f h hf => h.modifySession fun sess hs => hf sess (h _ _ hs)
  cases he with
  | setOpen fid oh oh' h0 hh hf hp hl => exact hmod _ _ hc fun _ h => h
  | create tr req hd r _ hcmd hreq htr hopen hs =>
    simp only [registerOpen, Outcome.ok.injEq] at hs
    obtain ⟨-, rfl⟩ := hs
    exact hmod _ _ hc fun _ h => h
  | endOpen req oh hcmd hreq h0 => exact hmod _ _ hc fun _ h => h
  | session auth hcmd => exact absurd hcmd hss
  | auth sid0 w a hcmd => exact absurd hcmd hss
  | identity sid0 r hcmd h0 => exact absurd hcmd hss
  | treeConnect share sess hcmd h0 ha => exact hmod _ _ hc fun _ h => h
  | treeDisconnect s1 hcmd h0 hcl => exact hmod _ _ (hcl.coherent hc) fun _ h => h
  | logoff s1 hcmd h0 hcl =>
    intro sid sess hs
    rw [Conn.session?, GoMap.lookup_erase'] at hs
    split_ifs at hs
    exact hcl.coherent hc sid sess hs
  | _ => exact hc

theorem Session.Reissues.coherent {a : Auth.AcceptResult} (h : sess.Reissues a)
    (hc : sess.Coherent) : (authenticate srv a sess).Coherent := by
  refine ⟨fun ccm hccm => ?_, fun ccm hccm => ?_⟩
  · exact (h.1 (isSome_iff_exists.2 ⟨ccm, hccm⟩)).symm.trans (hc.1 ccm hccm)
  · exact (h.2 (isSome_iff_exists.2 ⟨ccm, hccm⟩)).symm.trans (hc.2 ccm hccm)

/-- The session of a SESSION_SETUP.  A new one has no ciphers. -/
theorem sessionFor_coherent (cid : ConnId) (sid0 : UInt64) (s : St E) (hc : s.c.Coherent) :
    ∃ sid s' sess, sessionFor cid sid0 s = .ok sid s' ∧ s'.c.Coherent ∧ s'.c.session? sid = some sess ∧
      (s.c.session? sid0 = some sess ∧ s' = s ∨ sess.encCCM = none ∧ sess.decCCM = none) := by
  unfold sessionFor
  rw [bind_ok (get_apply s)]
  cases hs : s.c.session? sid0 with
  | some sess => exact ⟨sid0, s, sess, rfl, hc, hs, .inl ⟨rfl, rfl⟩⟩
  | none =>
    let sess : Session E := { auth := (E.authFactory s.sh.world).1 }
    refine ⟨s.sh.nextSess + 1, _, sess, rfl, fun sid sess hsess => ?_, ?_, .inr ⟨rfl, rfl⟩⟩
    swap
    · simp [Conn.session?, sess]
    rw [Conn.session?, GoMap.lookup_insert'] at hsess
    split_ifs at hsess
    · cases hsess
      exact ⟨fun _ h => (by cases h), fun _ h => (by cases h)⟩
    · exact hc sid sess hsess

/-- The Authenticator of a session takes a token. -/
theorem acceptToken_coherent {sid : UInt64} (token : Bytes)
    (hs : s.c.session? sid = some sess) (hc : s.c.Coherent) : ∃ s', acceptToken sid token s = .ok (E.accept sess.auth token s.sh.world).1.1 s' ∧
      s'.c.Coherent ∧ s'.c.session? sid = some { sess with auth := (E.accept sess.auth token s.sh.world).1.2 } := by
  have hrun : acceptToken sid token s = _ := bind_ok (get_apply s)
  rw [hs] at hrun
  refine ⟨_, hrun, hc.modifySession fun sess' hs' => (hc _ _ hs').congr rfl rfl rfl rfl, ?_⟩
  simp [session?_modifySession, hs]

theorem finishSessionSetup_coherent {cid : ConnId} {sid : UInt64} {r : Except Auth.AuthError Auth.AcceptResult}
    {status : UInt32} (h : finishSessionSetup srv cid sid r s = .ok status s') (hc : s.c.Coherent)
    (hr : ∀ a sess, r = .ok a → a.identity.isSome = true → s.c.session? sid = some sess → sess.Reissues a) :
    s'.c.Coherent := by
  have hsend : ∀ {token : Bytes} {s1 : St E}, sendToken srv sid token s1 = .ok status s' → s1.c.Coherent →
      s'.c.Coherent := by
    intro token s1 h1 hc1
    rw [sendToken, bind_ok (get_apply s1)] at h1
    obtain ⟨_, s2, h2, h1⟩ := bind_eq_ok h1
    cases h2
    cases hs : s1.c.session? sid with
    | none => rw [hs] at h1; cases h1
    | some sess =>
      rw [hs] at h1
      cases h1
      exact hc1
  cases r with
  | error x => cases x <;> cases h <;> exact hc
  | ok a =>
    rw [finishSessionSetup_accepted] at h
    obtain ⟨_, s1, h1, h⟩ := bind_eq_ok h
    refine hsend h ?_
    split_ifs at h1 with hid
    · cases h1
      exact hc.modifySession fun sess hs => (hr a sess rfl hid hs).coherent (hc _ _ hs)
    · cases h1
      exact hc

/-- A SESSION_SETUP keeps the ciphers those of the keys, if an Identity it gets for a session
with ciphers comes with their key. -/
theorem handleSessionSetup_coherent {o : Origin} {msg : Bytes} {hdr : Header} {r : UInt32 × Header}
    (h : handleSessionSetup srv o msg hdr s = .ok r s') (hc : s.c.Coherent)
    (hr : ∀ sess ∈ s.c.session? hdr.sessionId, ∀ a ∈ sess.granted msg s.sh.world, sess.Reissues a) :
    s'.c.Coherent := by
  unfold handleSessionSetup at h
  cases hreq : SessionSetupRequest.parse msg with
  | panic => rw [hreq] at h; cases h
  | err e =>
    rw [hreq] at h
    cases h
    exact hc
  | ok req =>
    rw [hreq] at h
    obtain ⟨sid, s1, sess, h1, hc1, hs1, hsess⟩ := sessionFor_coherent o.conn hdr.sessionId s hc
    obtain ⟨s2, h2, hc2, hs2⟩ := acceptToken_coherent req.securityBuffer hs1 hc1
    replace h := ((bind_ok h1).trans (bind_ok h2)).symm.trans h
    obtain ⟨status, s3, h3, h⟩ := bind_eq_ok h
    cases h
    refine finishSessionSetup_coherent h3 hc2 fun a sess' ha hid hs' => ?_
    cases hs2.symm.trans hs'
    rcases hsess with ⟨hs, rfl⟩ | ⟨he, hd⟩
    · refine hr sess hs a ?_
      simp [Session.granted, hreq, ha, hid]
    · exact ⟨fun h => by simp [he] at h, fun h => by simp [hd] at h⟩

theorem round_setup (srv : Config E) {lp : Loop} {k : Command E} (hk : nextCommand c lp = some k)
    (hcmd : k.hdr.command = cmdSessionSetup) (hf : k.lp.chainFailed = false) (sh : Shared E) :
    ∃ r s1 s2 lp' c', handleSessionSetup srv k.origin k.msg k.hdr s1 = .ok r s2 ∧ s1.c.sessions = c.sessions ∧
      s1.sh.world = sh.world ∧ s1.sh.nextSess = sh.nextSess ∧ round srv lp ⟨sh, c⟩ = .ok lp' ⟨s2.sh, c'⟩ ∧
      c'.sessions = s2.c.sessions ∧
      ∀ body, s2.c.out = s1.c.out ++ body → AnsweredWith lp lp' (⟨s2.sh, c'⟩ : St E) r.1 := by
  let s0 : St E := ⟨sh, c.charge k.hdr.creditCharge⟩
  have hsess : (k.record (s0.answering k.lp)).c.sessions = c.sessions := rfl
  have ho : k.origin.cmd = cmdSessionSetup := hcmd
  have hreturns : (handleSessionSetup srv k.origin k.msg k.hdr).Returns (k.record (s0.answering k.lp)) :=
    handleSessionSetup_returns k.msg k.hdr
  obtain ⟨r, s2, hr⟩ := hreturns
  have hrefuse : (k.record (s0.answering k.lp)).c.refusal k.origin = none := by
    rw [refusal_eq, if_pos (.inr hcmd)]
  have hroute : route srv k.origin k.hdr k.lp (s0.answering k.lp) = .ok ⟨r.1, r.2, k.msg, k.lp.lastFileId⟩ s2 := by
    unfold route
    rw [if_neg (by rw [hf]; decide), if_neg (by rw [ho]; decide)]
    show dispatch srv k.origin k.msg k.hdr k.lp.lastFileId (k.record (s0.answering k.lp)) = _
    rw [dispatch, bind_ok (get_apply _), hrefuse]
    show handle srv k.origin k.msg k.hdr k.lp.lastFileId (k.record (s0.answering k.lp)) = _
    rw [handle, if_pos ho]
    exact bind_ok hr
  obtain ⟨start, reply, hrespond, -⟩ := respond_eq hroute
  have hround := (round_eq_respond srv hk (by rw [hcmd]; decide) sh).trans hrespond
  refine ⟨r, k.record (s0.answering k.lp), s2, _, _, hr, hsess, rfl, rfl, hround,
    sessions_of_tables (finishResponse_tables ..), fun body hbody => ?_⟩
  obtain ⟨lp', c', hrun, hans, -⟩ :=
    respond_answered (nextCommand_spec hk).2.2.1.replies hroute ⟨body, hbody⟩
  rw [hrespond] at hrun
  cases hrun
  exact hans

/-! ### Runs -/

/-- No SESSION_SETUP gets to its handler. -/
def NoSetup (S : Sys E) (l : Label) : Prop :=
  ∀ cid c lp k, l = .sub cid → S.conns cid = some c → c.loop = some lp → nextCommand c lp = some k →
    k.lp.chainFailed = false → k.hdr.command ≠ cmdSessionSetup

/-- The ciphers of all sessions are those of their keys. -/
def CiphersFit (S : Sys E) : Prop := ∀ cid c, S.conns cid = some c → c.Coherent

/-- Every transition keeps the ciphers those of the keys, a SESSION_SETUP apart. -/
theorem ciphersFit_preserved : Preserved srv NoSetup
    (fun k _ => k.lp.chainFailed = false → k.hdr.command ≠ cmdSessionSetup) CiphersFit where
  accept S _ h cid c hc := by
    rcases conns_accept hc with ⟨-, rfl⟩ | ⟨-, hc⟩
    · exact nofun
    · exact h _ _ hc
  aside S cid c s' _ hc h ha cid' c' hc' := by
    rcases conns_put hc' with ⟨-, rfl⟩ | ⟨-, hc'⟩
    · exact ha.coherent (h _ _ hc)
    · exact h _ _ hc'
  start S cid c lp k _ hc hlp hk _ hC := hC cid c lp k rfl hc hlp hk
  carry k s s' h _ := h
  exec S cid c k _ hc _ _ _ h hD := by
    refine ⟨fun cid' c' hc' => ?_, hD⟩
    rcases conns_put hc' with ⟨-, rfl⟩ | ⟨-, hc'⟩
    · exact h _ _ hc
    · exact h _ _ hc'
  effect S cid c k s' _ hc _ hf h hD he := by
    refine ⟨fun cid' c' hc' => ?_, hD⟩
    rcases conns_put hc' with ⟨-, rfl⟩ | ⟨-, hc'⟩
    · exact he.coherent (hD hf) (h _ _ hc)
    · exact h _ _ hc'
  close S cid c s' _ _ h _ _ cid' c' hc' := h _ _ (conns_remove hc').2

theorem ciphersFit_setup {S' : Sys E} {cid : ConnId} {lp : Loop} {k : Command E} (h : CiphersFit S)
    (hC : KeysOk S (.sub cid)) (hstep : S.step srv (.sub cid) = some S') (hc : S.conns cid = some c)
    (hlp : c.loop = some lp) (hk : nextCommand c lp = some k) (hf : k.lp.chainFailed = false)
    (hcmd : k.hdr.command = cmdSessionSetup) : CiphersFit S' := by
  obtain ⟨r, s1, s2, lp', c2, hrun, hs1, hw1, -, hround, hs2, -⟩ := round_setup srv hk hcmd hf S.sh
  have hfit : s2.c.Coherent := by
    refine handleSessionSetup_coherent hrun ((h _ _ hc).ofSessions hs1) fun sess hsess a ha => ?_
    rw [Conn.session?, hs1] at hsess
    rw [hw1] at ha
    exact hC c hc lp hlp k hk hf hcmd sess hsess a ha
  have hsub : subCommand srv lp ⟨S.sh, c⟩ = .ok () ⟨s2.sh, { c2 with loop := some lp' }⟩ := by
    unfold subCommand
    rw [bind_ok hround]
    rfl
  have hfired := step_fired hstep
  cases hfired with
  | @sub _ c' lp1 hc' hlp1 hfin =>
    cases hc.symm.trans hc'
    cases hlp.symm.trans hlp1
    intro cid' c' hc'
    rw [Sys.exec, hsub] at hc'
    rcases conns_put hc' with ⟨-, rfl⟩ | ⟨-, hc'⟩
    · exact hfit.ofSessions hs2
    · exact h _ _ hc'

theorem reach_ciphersFit {w : E.World} (hS : (system srv w).Reach KeysOk S) : CiphersFit S := by
  have hinit : Base (system srv w).init := nofun
  refine (hS.invariant (I := fun S => Base S ∧ CiphersFit S) ⟨hinit, nofun⟩ ?_).2
  rintro S l S' ⟨hb, h⟩ hC hstep
  by_cases hno : NoSetup S l
  · exact ciphersFit_preserved.step hb h hno hstep
  · simp only [NoSetup, not_forall, not_not] at hno
    obtain ⟨cid, c, lp, k, rfl, hc, hlp, hk, hf, hcmd⟩ := hno
    replace hstep : S.step srv (.sub cid) = some S' := hstep
    have htrue : Preserved srv (fun _ _ => True) (fun _ _ => True) (fun _ : Sys E => True) := by
      constructor <;> intros <;> trivial
    exact ⟨(htrue.step hb trivial trivial hstep).1, ciphersFit_setup h hC hstep hc hlp hk hf hcmd⟩

/-- **The keys and the ciphers of a session come from one session key**, in every run in which
an Identity for a session that has a cipher comes with the key of the cipher. -/
theorem reach_keysAgree (srv : Config E) (w : E.World) (S : Sys E) (hS : (system srv w).Reach KeysOk S) :
    KeysAgree S := by
  intro cid c sid sess hc hs
  exact (reach_issued hS cid c sid sess hc hs).agree (reach_ciphersFit hS cid c hc sid sess hs)

/-! ### A session set up again -/

/-- An Authenticator that takes every token for a session key, over an HMAC that shows the
first byte of its key. -/
def tokenEnv : Env :=
  { guestEnv with
    crypto := { guestEnv.crypto with hmacSha256 := fun key _ _ => key.getD 0 0 }
    accept := fun _ token w =>
      ((.ok { identity := some { username := [0x67] }, sessionKey := token }, ()), w) }

/-- A server with one share, named `s`. -/
def tokenServer : Config tokenEnv where
  shares := [⟨[0x73], (), false⟩]
  ipcBackend := ()

def tokenSystem : Transition (Sys tokenEnv) Label := system tokenServer (0 : ℕ)

/-- A SESSION_SETUP of session `sid` with a token of one byte. -/
def tokenFrame (sid : UInt64) (token : UInt8) : Bytes :=
  Header.encode { command := cmdSessionSetup, sessionId := sid } ++ put16 25 ++ zeros 10 ++
    put16 88 ++ put16 1 ++ zeros 8 ++ [token]

/-- The keys of the opening cipher of session 1 of the first connection, and of the session. -/
def openingKeys (S : Sys tokenEnv) : Option (Bytes × Bytes) := do
  let c ← S.conns 0
  let sess ← c.session? 1
  let ccm ← sess.decCCM
  let key ← sess.decryptionKey
  return (ccm.key, key)

/-- A session is set up, opens a message, and is set up again under the same key. -/
theorem reach_keysAgree_again : ∃ S, tokenSystem.Reach KeysOk S ∧ (openingKeys S).isSome = true ∧ KeysAgree S := by
  obtain ⟨S, hS, hk⟩ := Transition.Reach.of_run (T := tokenSystem) (C := KeysOk) (f := fun S => (openingKeys S).isSome)
    ([.accept] ++ exchange 0 (tokenFrame 0 1) ++ exchange 0 sealedEchoFrame ++ exchange 0 (tokenFrame 1 1))
    (by decide +kernel) (by decide +kernel)
  exact ⟨S, hS, hk, reach_keysAgree tokenServer (0 : ℕ) S hS⟩

/-- **A second SESSION_SETUP leaves the cipher of the first in place.**  The key of the
session is then another one than that of the cipher that opens its messages. -/
theorem setup_keeps_cipher : ¬∀ (E : Env) (srv : Config E) (w : E.World) (S : Sys E),
    (system srv w).Reach (fun _ _ => True) S → KeysAgree S := by
  intro hall
  obtain ⟨S, hS, hk⟩ := Transition.Reach.of_run (T := tokenSystem) (C := fun _ _ => True)
    (f := fun S => (openingKeys S).any fun keys => keys.1 ≠ keys.2)
    ([.accept] ++ exchange 0 (tokenFrame 0 1) ++ exchange 0 sealedEchoFrame ++ exchange 0 (tokenFrame 1 2))
    (by decide +kernel) (by decide +kernel)
  have hagree := hall tokenEnv tokenServer (0 : ℕ) S hS
  unfold openingKeys at hk
  cases hc : S.conns 0 with
  | none => simp [hc] at hk
  | some c =>
    cases hs : c.session? 1 with
    | none => simp [hc, hs] at hk
    | some sess =>
      rcases hagree 0 c 1 sess hc hs with hless | ⟨sessionKey, hder⟩
      · simp [hc, hs, hless.decCCM] at hk
      · cases hccm : sess.decCCM with
        | none => simp [hc, hs, hccm] at hk
        | some ccm =>
          have hkey := hder.decCCM ccm hccm
          simp [hc, hs, hccm, hder.decryptionKey, hkey] at hk

end Server
end SmbServer
