/-
# Failed logons

`handleSessionSetup` puts a session that its header does not name into the table before
it asks the Authenticator, and takes it out again on no path.  A logon that fails leaves
an unauthenticated session behind, and so does each one that follows under the id zero
(`failed_logon_stays`).

The record of a run has the SESSION_SETUPs: what `Accept` returned and for which session,
how they were answered, and the ids of the table before and after (`SetupEvent`).  Where
`Accept` returns errors only for sessions that are authenticated already, every session of
a table is authenticated or had its last token accepted, and a SESSION_SETUP that is
answered with an error makes no session (`reach_failuresLeaveNothing`).
-/

import SmbServer.Server.Failures
import SmbServer.Server.SessionKeys

namespace SmbServer
namespace Server

open Wire Go List Option Sys

variable {E : Env} {srv : Config E}
variable {sid sid₀ : UInt64} {s s' : St E}

/-! ### What is recorded -/

/-- The session whose Authenticator a SESSION_SETUP asks: the one its header names, or a new
one. -/
def St.setupId (s : St E) (sid : UInt64) : UInt64 :=
  if (s.c.session? sid).isSome then sid else s.sh.nextSess + 1

/-- The session a SESSION_SETUP asks the Authenticator of, and whether `Accept` returns no
error, where the command gets that far. -/
def Command.accepts (k : Command E) (s : St E) : Option (UInt64 × Bool) :=
  if k.lp.chainFailed then none
  else
    match SessionSetupRequest.parse k.msg with
    | .ok req => some (s.setupId k.hdr.sessionId, (s.accepting k.hdr.sessionId req.securityBuffer).isOk)
    | _ => none

/-- The status in the header of the last response of a connection. -/
def Conn.lastAnswer (c : Conn E) : Option UInt32 := do
  let lp ← c.loop
  let reply ← lp.replies.getLast?
  return u32At (c.out.drop reply.start) 8

/-- A SESSION_SETUP of a run. -/
structure SetupEvent where
  conn : ConnId
  accept : Option (UInt64 × Bool)
  named : Bool
  answer : Option UInt32
  before : UInt64 → Bool
  after : UInt64 → Bool

/-- The SESSION_SETUP a transition handles. -/
def observeSetup (S : Sys E) (l : Label) (S' : Sys E) : Option SetupEvent :=
  match l with
  | .sub cid => do
      let c ← S.conns cid
      let lp ← c.loop
      let k ← nextCommand c lp
      let c' ← S'.conns cid
      if k.hdr.command = cmdSessionSetup then
        some
          { conn := cid
            accept := k.accepts ⟨S.sh, c⟩
            named := (c.session? k.hdr.sessionId).isSome
            answer := c'.lastAnswer
            before := fun sid => (c.session? sid).isSome
            after := fun sid => (c'.session? sid).isSome }
      else none
  | _ => none

/-- What `Accept` returned in a SESSION_SETUP, if it was asked for this session. -/
def SetupEvent.acceptOf (e : SetupEvent) (cid : ConnId) (sid : UInt64) : Option Bool :=
  if e.conn = cid then e.accept.bind fun a => if a.1 = sid then some a.2 else none else none

/-- Whether the most recent `Accept` for a session returned no error. -/
def lastAccept (cid : ConnId) (sid : UInt64) (log : List SetupEvent) : Option Bool :=
  (log.filterMap fun e => e.acceptOf cid sid).getLast?

/-- Every session is authenticated, or its most recent `Accept` returned no error; and a
SESSION_SETUP that named no session is answered without an error or leaves the ids of the
table as they are. -/
structure FailuresLeaveNothing (S : Sys E) (log : List SetupEvent) : Prop where
  entries : ∀ cid c sid sess, S.conns cid = some c → c.session? sid = some sess →
    sess.authenticated = true ∨ lastAccept cid sid log = some true
  answers : ∀ e ∈ log, e.named = false →
    (e.answer = some statusSuccess ∨ e.answer = some statusMoreProcessingRequired) ∨ e.after = e.before

/-- `Accept` returns an error only for a session that is authenticated already. -/
def LogonsOk (S : Sys E) : Label → Prop
  | .sub cid => ∀ c ∈ S.conns cid, ∀ lp ∈ c.loop, ∀ k ∈ nextCommand c lp, k.hdr.command = cmdSessionSetup →
      (k.accepts ⟨S.sh, c⟩).all Prod.snd = true ∨ c.authenticated k.hdr.sessionId = true
  | _ => True

instance (S : Sys E) : ∀ l, Decidable (LogonsOk S l)
  | .sub cid => inferInstanceAs (Decidable (∀ c ∈ S.conns cid, ∀ lp ∈ c.loop, ∀ k ∈ nextCommand c lp,
      k.hdr.command = cmdSessionSetup →
        (k.accepts ⟨S.sh, c⟩).all Prod.snd = true ∨ c.authenticated k.hdr.sessionId = true))
  | .accept | .recv _ _ | .reply _ | .drain _ | .tick _ _ | .done _ _ | .close _ => isTrue trivial

theorem lastAccept_concat (cid : ConnId) (sid : UInt64) (log : List SetupEvent) (e : SetupEvent) :
    lastAccept cid sid (log ++ [e]) = (e.acceptOf cid sid).or (lastAccept cid sid log) := by
  unfold lastAccept
  rw [filterMap_append]
  cases h : e.acceptOf cid sid with
  | none => simp [h]
  | some b => simp [h]

/-! ### One SESSION_SETUP -/

/-- Nothing but session `sid` is new or has changed, and session `sid₀` is still authenticated
if it was. -/
structure Conn.Touched (sid₀ sid : UInt64) (c c' : Conn E) : Prop where
  others : ∀ sid', sid' ≠ sid → c'.session? sid' = c.session? sid'
  kept : c.authenticated sid₀ = true → c'.authenticated sid₀ = true

theorem Conn.Touched.ofSessions {c c' : Conn E} (h : c'.sessions = c.sessions) :
    c.Touched sid₀ sid c' := by
  refine ⟨fun sid' _ => ?_, fun ha => ?_⟩
  · rw [Conn.session?, Conn.session?, h]
  · rwa [Conn.authenticated, Conn.session?, h]

theorem Conn.Touched.trans {c c' c'' : Conn E} (h : c.Touched sid₀ sid c')
    (h' : c'.Touched sid₀ sid c'') : c.Touched sid₀ sid c'' :=
  ⟨fun sid' hne => (h'.others sid' hne).trans (h.others sid' hne), fun ha => h'.kept (h.kept ha)⟩

theorem Conn.Touched.modifySession (sid₀ sid : UInt64) (c : Conn E) {f : Session E → Session E}
    (hf : ∀ sess : Session E, sess.authenticated = true → (f sess).authenticated = true) :
    c.Touched sid₀ sid (c.modifySession sid f) := by
  refine ⟨fun sid' hne => ?_, fun ha => ?_⟩
  · rw [Conn.session?_modifySession, if_neg hne]
  · obtain ⟨sess, hs, ha⟩ := Conn.authenticated_iff.1 ha
    refine Conn.authenticated_iff.2 ?_
    rw [Conn.session?_modifySession, hs]
    split_ifs
    · exact ⟨f sess, rfl, hf sess ha⟩
    · exact ⟨sess, rfl, ha⟩

theorem sessionFor_touched {cid : ConnId} (h : sessionFor cid sid₀ s = .ok sid s') :
    sid = s.setupId sid₀ ∧ s.c.Touched sid₀ sid s'.c := by
  unfold sessionFor at h
  rw [bind_ok (get_apply s)] at h
  unfold St.setupId
  cases hs : s.c.session? sid₀ with
  | some sess =>
    rw [hs] at h
    cases h
    exact ⟨rfl, .ofSessions rfl⟩
  | none =>
    rw [hs] at h
    cases h
    refine ⟨rfl, fun sid' hne => ?_, fun ha => ?_⟩
    · rw [Conn.session?, GoMap.lookup_insert', if_neg hne]
      rfl
    · rw [Conn.authenticated, hs] at ha
      cases ha

theorem acceptToken_touched {token : Bytes}
    {r : Except Auth.AuthError Auth.AcceptResult} (h : acceptToken sid token s = .ok r s') :
    s.c.Touched sid₀ sid s'.c := by
  unfold acceptToken at h
  rw [bind_ok (get_apply s)] at h
  cases hs : s.c.session? sid with
  | none => rw [hs] at h; cases h
  | some sess =>
    rw [hs] at h
    cases h
    exact .modifySession _ _ _ fun _ ha => ha

theorem finishSessionSetup_touched {cid : ConnId} {status : UInt32}
    {r : Except Auth.AuthError Auth.AcceptResult} (h : finishSessionSetup srv cid sid r s = .ok status s') :
    s.c.Touched sid₀ sid s'.c := by
  have hsend : ∀ {token : Bytes} {s1 : St E}, sendToken srv sid token s1 = .ok status s' →
      s1.c.Touched sid₀ sid s'.c := by
    intro token s1 h1
    rw [sendToken, bind_ok (get_apply s1)] at h1
    obtain ⟨_, s2, h2, h1⟩ := bind_eq_ok h1
    cases h2
    cases hs : s1.c.session? sid with
    | none => rw [hs] at h1; cases h1
    | some sess =>
      rw [hs] at h1
      cases h1
      exact .ofSessions rfl
  cases r with
  | error x => cases x <;> cases h <;> exact .ofSessions rfl
  | ok a =>
    rw [finishSessionSetup_accepted] at h
    obtain ⟨_, s1, h1, h⟩ := bind_eq_ok h
    refine .trans ?_ (hsend h)
    split_ifs at h1 with hid
    · cases h1
      exact .modifySession _ _ _ fun _ _ => rfl
    · cases h1
      exact .ofSessions rfl

/-- A SESSION_SETUP that asks an Authenticator touches the session of that one only. -/
theorem handleSessionSetup_touched {o : Origin} {msg : Bytes} {hdr : Header} {req : SessionSetupRequest}
    {r : UInt32 × Header} (hreq : SessionSetupRequest.parse msg = .ok req)
    (h : handleSessionSetup srv o msg hdr s = .ok r s') :
    s.c.Touched hdr.sessionId (s.setupId hdr.sessionId) s'.c := by
  rw [handleSessionSetup, hreq] at h
  obtain ⟨sid, s1, h1, h⟩ := bind_eq_ok h
  obtain ⟨r', s2, h2, h⟩ := bind_eq_ok h
  obtain ⟨status, s3, h3, h⟩ := bind_eq_ok h
  cases h
  obtain ⟨rfl, ht⟩ := sessionFor_touched h1
  exact (ht.trans (acceptToken_touched h2)).trans (finishSessionSetup_touched h3)

/-! ### A SESSION_SETUP as a transition -/

section

variable {S S' : Sys E} {cid : ConnId} {c : Conn E} {lp : Loop} {k : Command E}

/-- The connection after a SESSION_SETUP.  The Authenticator is not asked, and the sessions
are as before; or it is, which touches its session, and there is no error in the answer where
`Accept` returned none. -/
theorem step_setup (hstep : S.step srv (.sub cid) = some S') (hc : S.conns cid = some c) (hlp : c.loop = some lp)
    (hk : nextCommand c lp = some k) (hcmd : k.hdr.command = cmdSessionSetup) :
    ∃ s', S' = S.put cid s' ∧ (k.accepts ⟨S.sh, c⟩ = none ∧ s'.c.sessions = c.sessions ∨
      ∃ sid ok, k.accepts ⟨S.sh, c⟩ = some (sid, ok) ∧ (sid = k.hdr.sessionId ∨ c.session? k.hdr.sessionId = none) ∧
        c.Touched k.hdr.sessionId sid s'.c ∧ (ok = true →
          s'.c.lastAnswer = some statusSuccess ∨ s'.c.lastAnswer = some statusMoreProcessingRequired)) := by
  have hexec : ∀ {lp' : Loop} {s' : St E}, round srv lp ⟨S.sh, c⟩ = .ok lp' s' →
      S' = S.put cid ⟨s'.sh, { s'.c with loop := some lp' }⟩ := by
    intro lp' s' hround
    have hsub : subCommand srv lp ⟨S.sh, c⟩ = .ok () ⟨s'.sh, { s'.c with loop := some lp' }⟩ := by
      unfold subCommand
      rw [bind_ok hround]
      rfl
    have hfired := step_fired hstep
    cases hfired with
    | @sub _ c' lp1 hc' hlp1 hfin =>
      cases hc.symm.trans hc'
      cases hlp.symm.trans hlp1
      rw [Sys.exec, hsub]
      rfl
  cases hf : k.lp.chainFailed with
  | true =>
    let s0 : St E := ⟨S.sh, c.charge k.hdr.creditCharge⟩
    have hroute : route srv k.origin k.hdr k.lp (s0.answering k.lp) = _ := route_failed _ hf
    obtain ⟨start, reply, hrespond, -⟩ := respond_eq hroute
    have hround := (round_eq_respond srv hk (by rw [hcmd]; decide) S.sh).trans hrespond
    refine ⟨_, hexec hround, .inl ⟨?_, ?_⟩⟩
    · rw [Command.accepts, if_pos hf]
    · exact Conn.sessions_of_tables (Conn.finishResponse_tables ..)
  | false =>
    obtain ⟨r, s1, s2, lp', c', hrun, hs1, hw1, hn1, hround, hs2, hans⟩ := round_setup srv hk hcmd hf S.sh
    refine ⟨_, hexec hround, ?_⟩
    cases hreq : SessionSetupRequest.parse k.msg with
    | panic => exact absurd hreq (SessionSetupRequest.parse_safe k.msg)
    | err e =>
      refine .inl ⟨?_, ?_⟩
      · simp [Command.accepts, hf, hreq]
      · rw [handleSessionSetup, hreq] at hrun
        cases hrun
        exact hs2.trans hs1
    | ok req =>
      have hsession : ∀ sid, s1.c.session? sid = c.session? sid := fun sid => by
        rw [Conn.session?, Conn.session?, hs1]
      have hid : s1.setupId k.hdr.sessionId = (⟨S.sh, c⟩ : St E).setupId k.hdr.sessionId := by
        rw [St.setupId, St.setupId, hsession, hn1]
      have hacc : s1.accepting k.hdr.sessionId req.securityBuffer =
          (⟨S.sh, c⟩ : St E).accepting k.hdr.sessionId req.securityBuffer := by
        rw [St.accepting, St.accepting, hsession, hw1]
      have hthis : ∀ sid, c'.session? sid = s2.c.session? sid := fun sid => by
        rw [Conn.session?, Conn.session?, hs2]
      have htouched := handleSessionSetup_touched hreq hrun
      refine .inr ⟨_, _, by rw [Command.accepts, if_neg (by rw [hf]; decide), hreq], ?_, ?_, fun hok => ?_⟩
      · unfold St.setupId
        cases hs : c.session? k.hdr.sessionId with
        | some sess => exact .inl rfl
        | none => exact .inr rfl
      · rw [← hid]
        refine ⟨fun sid' hne => ?_, fun ha => ?_⟩
        · exact ((hthis sid').trans (htouched.others sid' hne)).trans (hsession sid')
        · have hkept := htouched.kept (by rw [Conn.authenticated, hsession]; exact ha)
          show (c'.session? _).any _ = true
          rw [hthis]
          exact hkept
      · cases ha : s1.accepting k.hdr.sessionId req.securityBuffer with
        | error x =>
          rw [← hacc, ha] at hok
          cases hok
        | ok a =>
          obtain ⟨r', s', hrun', hr, hout⟩ := handleSessionSetup_ok srv k.origin hreq ha
          rw [hrun] at hrun'
          cases hrun'
          obtain ⟨reply, hreplies, hstatus⟩ := hans _ hout
          have hlast : Conn.lastAnswer { c' with loop := some lp' } = some r.1 := by
            show (lp'.replies.getLast?.bind fun reply => some (u32At (c'.out.drop reply.start) 8)) = some r.1
            rw [hreplies, getLast?_concat]
            exact congrArg some hstatus
          rw [hlast]
          exact hr.imp (congrArg some) (congrArg some)

theorem observeSetup_setup (hc : S.conns cid = some c) (hlp : c.loop = some lp) (hk : nextCommand c lp = some k)
    (hcmd : k.hdr.command = cmdSessionSetup) : observeSetup S (.sub cid) (S.put cid s') = some
      { conn := cid
        accept := k.accepts ⟨S.sh, c⟩
        named := (c.session? k.hdr.sessionId).isSome
        answer := s'.c.lastAnswer
        before := fun sid => (c.session? sid).isSome
        after := fun sid => (s'.c.session? sid).isSome } := by
  simp [observeSetup, hc, hlp, hk, hcmd]

theorem observeSetup_some {l : Label} {e : SetupEvent} (h : observeSetup S l S' = some e) :
    ∃ cid c lp k, l = .sub cid ∧ S.conns cid = some c ∧ c.loop = some lp ∧ nextCommand c lp = some k ∧
      k.hdr.command = cmdSessionSetup := by
  cases l with
  | sub cid =>
    obtain ⟨c, hc, h⟩ := bind_eq_some_iff.1 h
    obtain ⟨lp, hlp, h⟩ := bind_eq_some_iff.1 h
    obtain ⟨k, hk, h⟩ := bind_eq_some_iff.1 h
    obtain ⟨c', hc', h⟩ := bind_eq_some_iff.1 h
    split_ifs at h with hcmd
    exact ⟨cid, c, lp, k, rfl, hc, hlp, hk, hcmd⟩
  | _ => cases h

end

/-! ### Runs -/

/-- Every session is authenticated or passes a test of its connection and its id. -/
def Entries (P : ConnId → UInt64 → Prop) (S : Sys E) : Prop :=
  ∀ cid c sid sess, S.conns cid = some c → c.session? sid = some sess → sess.authenticated = true ∨ P cid sid

/-- Every transition other than a SESSION_SETUP leaves the entries as they are, or takes some
away. -/
theorem entries_preserved (P : ConnId → UInt64 → Prop) : Preserved srv NoSetup
    (fun k _ => k.lp.chainFailed = false → k.hdr.command ≠ cmdSessionSetup) (Entries P) where
  accept S _ h cid c sid sess hc hs := by
    rcases conns_accept hc with ⟨-, rfl⟩ | ⟨-, hc⟩
    · cases hs
    · exact h _ _ _ _ hc hs
  aside S cid c s' _ hc h ha cid' c' sid sess' hc' hs' := by
    rcases conns_put hc' with ⟨rfl, rfl⟩ | ⟨-, hc'⟩
    · obtain ⟨sess, hs, hsame⟩ := ha.session_of hs'
      rw [hsame.authenticated]
      exact h _ _ _ _ hc hs
    · exact h _ _ _ _ hc' hs'
  start S cid c lp k _ hc hlp hk _ hC := hC cid c lp k rfl hc hlp hk
  carry k s s' h _ := h
  exec S cid c k _ hc _ _ _ h hD := by
    refine ⟨fun cid' c' sid sess' hc' hs' => ?_, hD⟩
    rcases conns_put hc' with ⟨rfl, rfl⟩ | ⟨-, hc'⟩
    · exact h _ _ _ _ hc hs'
    · exact h _ _ _ _ hc' hs'
  effect S cid c k s' _ hc _ hf h hD he := by
    refine ⟨fun cid' c' sid sess' hc' hs' => ?_, hD⟩
    rcases conns_put hc' with ⟨rfl, rfl⟩ | ⟨-, hc'⟩
    · rcases he.session_cases hs' with ⟨sess, hs, hsame⟩ | ⟨hcmd, -⟩
      · rw [hsame.authenticated]
        exact h _ _ _ _ hc hs
      · exact absurd hcmd (hD hf)
    · exact h _ _ _ _ hc' hs'
  close S cid c s' _ _ h _ _ cid' c' sid sess' hc' hs' := h _ _ _ _ (conns_remove hc').2 hs'

/-- The next SESSION_SETUP of a run that meets the condition. -/
theorem FailuresLeaveNothing.setup {S S' : Sys E} {log : List SetupEvent} {cid : ConnId} {c : Conn E} {lp : Loop}
    {k : Command E} (h : FailuresLeaveNothing S log) (hC : LogonsOk S (.sub cid))
    (hstep : S.step srv (.sub cid) = some S') (hc : S.conns cid = some c) (hlp : c.loop = some lp)
    (hk : nextCommand c lp = some k) (hcmd : k.hdr.command = cmdSessionSetup) :
    FailuresLeaveNothing S' (log ++ (observeSetup S (.sub cid) S').toList) := by
  obtain ⟨s', rfl, hcases⟩ := step_setup hstep hc hlp hk hcmd
  rw [observeSetup_setup hc hlp hk hcmd, toList_some]
  rcases hcases with ⟨hnone, hs'⟩ | ⟨sid, ok, hsome, hid, htouched, hok⟩
  · have hsame : ∀ sid, s'.c.session? sid = c.session? sid := fun sid => by rw [Conn.session?, Conn.session?, hs']
    refine ⟨fun cid' c' sid sess hc' hs => ?_, fun e he hnamed => ?_⟩
    · rw [lastAccept_concat]
      have hskip : ∀ {e : SetupEvent}, e.accept = none → (e.acceptOf cid' sid).or (lastAccept cid' sid log) =
          lastAccept cid' sid log := fun {e} he => by simp [SetupEvent.acceptOf, he]
      rw [hskip hnone]
      rcases conns_put hc' with ⟨rfl, rfl⟩ | ⟨-, hc'⟩
      · exact h.entries _ _ _ _ hc ((hsame sid).symm.trans hs)
      · exact h.entries _ _ _ _ hc' hs
    · rcases mem_append.1 he with he | he
      · exact h.answers e he hnamed
      · obtain rfl := mem_singleton.1 he
        exact .inr (funext fun sid => congrArg isSome (hsame sid))
  · have hcond := hC c hc lp hlp k hk hcmd
    rw [hsome, all_some] at hcond
    refine ⟨fun cid' c' sid' sess hc' hs => ?_, fun e he hnamed => ?_⟩
    · rw [lastAccept_concat]
      by_cases hthis : cid' = cid ∧ sid' = sid
      · obtain ⟨rfl, rfl⟩ := hthis
        rcases conns_put hc' with ⟨-, rfl⟩ | ⟨hne, -⟩
        swap
        · exact absurd rfl hne
        rcases hcond with htrue | hauth
        · right
          simp [SetupEvent.acceptOf, hsome, show ok = true from htrue]
        · left
          have hnamed : sid' = k.hdr.sessionId := by
            refine hid.resolve_right fun hnone => ?_
            rw [Conn.authenticated, hnone] at hauth
            cases hauth
          obtain ⟨sess', hs', ha⟩ := Conn.authenticated_iff.1 (htouched.kept hauth)
          rw [← hnamed, hs] at hs'
          cases hs'
          exact ha
      · have hskip : ∀ {e : SetupEvent}, e.conn = cid → e.accept = some (sid, ok) →
            (e.acceptOf cid' sid').or (lastAccept cid' sid' log) = lastAccept cid' sid' log := fun {e} he hacc => by
          unfold SetupEvent.acceptOf
          rw [he, hacc, bind_some]
          split_ifs with h1 h2
          · exact absurd ⟨h1.symm, h2.symm⟩ hthis
          · rfl
          · rfl
        rw [hskip rfl hsome]
        rcases conns_put hc' with ⟨rfl, rfl⟩ | ⟨-, hc'⟩
        · rw [htouched.others sid' fun h => hthis ⟨rfl, h⟩] at hs
          exact h.entries _ _ _ _ hc hs
        · exact h.entries _ _ _ _ hc' hs
    · rcases mem_append.1 he with he | he
      · exact h.answers e he hnamed
      · obtain rfl := mem_singleton.1 he
        refine .inl (hok ?_)
        refine hcond.resolve_right fun hauth => ?_
        obtain ⟨sess, hs, -⟩ := Conn.authenticated_iff.1 hauth
        simp [hs] at hnamed

/-- **Failed logons leave nothing behind**, in every run in which `Accept` returns an error
only for sessions that are authenticated already. -/
theorem reach_failuresLeaveNothing (srv : Config E) (w : E.World) (S : Sys E) (log : List SetupEvent)
    (hS : ((system srv w).recording observeSetup).Reach (fun p l => LogonsOk p.1 l) (S, log)) :
    FailuresLeaveNothing S log := by
  have hinit : FailuresLeaveNothing (system srv w).init [] := by
    refine ⟨fun cid c sid sess hc => ?_, fun e he => ?_⟩
    · cases hc
    · cases he
  refine hS.recorded (I := FailuresLeaveNothing) hinit fun S log l S' hreach h hC hstep => ?_
  have hb : Base S := reach_base hreach
  replace hstep : S.step srv l = some S' := hstep
  cases he : observeSetup S l S' with
  | some e =>
    obtain ⟨cid, c, lp, k, rfl, hc, hlp, hk, hcmd⟩ := observeSetup_some he
    exact he ▸ h.setup hC hstep hc hlp hk hcmd
  | none =>
    have hno : NoSetup S l := by
      rintro cid c lp k rfl hc hlp hk hf hcmd
      obtain ⟨s', rfl, -⟩ := step_setup hstep hc hlp hk hcmd
      rw [observeSetup_setup hc hlp hk hcmd] at he
      cases he
    rw [Option.toList_none, List.append_nil]
    exact ⟨((entries_preserved fun cid sid => lastAccept cid sid log = some true).step hb h.entries hno hstep).2,
      h.answers⟩

/-! ### A logon that fails -/

/-- A guest logs on, and has a session. -/
theorem reach_failuresLeaveNothing_guest : ∃ (S : Sys guestEnv) (log : List SetupEvent),
    ((guestSystem false).recording observeSetup).Reach (fun p l => LogonsOk p.1 l) (S, log) ∧
      lastAccept 0 1 log = some true ∧ FailuresLeaveNothing S log := by
  obtain ⟨⟨S, log⟩, hS, hlog⟩ := Transition.Reach.of_run (T := (guestSystem false).recording observeSetup)
    (C := fun p l => LogonsOk p.1 l) (f := fun p => lastAccept 0 1 p.2 = some true)
    ([.accept] ++ exchange 0 setupFrame) (by decide +kernel) (by decide +kernel)
  exact ⟨S, log, hS, of_decide_eq_true hlog, reach_failuresLeaveNothing (guestServer false) (0 : ℕ) S log hS⟩

/-- An Authenticator that lets nobody in. -/
def refusingEnv : Env := { guestEnv with accept := fun _ _ w => ((.error .logonFailed, ()), w) }

/-- A server with no share. -/
def refusingServer : Config refusingEnv where
  shares := []
  ipcBackend := ()

/-- Session `sid` of the first connection, if it is not authenticated. -/
def unauthenticated (S : Sys refusingEnv) (sid : UInt64) : Bool :=
  (S.conns 0).any fun c => (c.session? sid).any fun sess => !sess.authenticated

theorem unauthenticated_spec {S : Sys refusingEnv} (h : unauthenticated S sid = true) :
    ∃ c sess, S.conns 0 = some c ∧ c.session? sid = some sess ∧ sess.authenticated = false := by
  simp only [unauthenticated, Option.any_eq_true, Bool.not_eq_true'] at h
  obtain ⟨c, hc, sess, hs, ha⟩ := h
  exact ⟨c, sess, hc, hs, ha⟩

/-- **A client that fails to log on twice has two sessions in the table.** -/
theorem failed_logon_stays : ¬∀ (E : Env) (srv : Config E) (w : E.World) (S : Sys E) (log : List SetupEvent),
    ((system srv w).recording observeSetup).Reach (fun _ _ => True) (S, log) → FailuresLeaveNothing S log := by
  intro hall
  obtain ⟨⟨S, log⟩, hS, htest⟩ := Transition.Reach.of_run
    (T := (system refusingServer (0 : ℕ)).recording observeSetup) (C := fun _ _ => True)
    (f := fun p => unauthenticated p.1 1 && unauthenticated p.1 2 && lastAccept 0 2 p.2 == some false)
    ([.accept] ++ exchange 0 setupFrame ++ exchange 0 setupFrame) (by decide +kernel) (by decide +kernel)
  simp only [Bool.and_eq_true, beq_iff_eq] at htest
  obtain ⟨⟨-, htwo⟩, hlast⟩ := htest
  obtain ⟨c, sess, hc, hs, ha⟩ := unauthenticated_spec htwo
  rcases (hall refusingEnv refusingServer (0 : ℕ) S log hS).entries 0 c 2 sess hc hs with hauth | hok
  · rw [ha] at hauth
    cases hauth
  · rw [hlast] at hok
    cases hok

end Server
end SmbServer
