/-
# Invariants of the server

A transition of the server is a new connection, a command of one connection, an
aside of one connection, or the end of one (`Sys.Moved`, `Sys.step_moved`).
`Preserved` collects what has to be shown of an invariant: that each of these
keeps it, for a command one step of `Change` at a time.  A condition on runs enters
as what it says of the command that is about to be handled (`D`), which the steps
of that command have to carry along.
-/

import SmbServer.Server.Tables

namespace SmbServer
namespace Server

open Wire Go Function List Option Conn Sys Event

variable {E : Env} {srv : Config E}
variable {S S' : Sys E} {cid cid' : ConnId} {c : Conn E} {s s' : St E} {l : Label} {lp : Loop}
  {k : Option (Command E)}

namespace Sys

/-- The system with the state of one connection replaced. -/
def put (S : Sys E) (cid : ConnId) (s : St E) : Sys E :=
  { S with sh := s.sh, conns := Function.update S.conns cid (some s.c) }

/-- The system with a connection gone. -/
def remove (S : Sys E) (cid : ConnId) (sh : Shared E) : Sys E :=
  { S with sh, conns := Function.update S.conns cid none }

/-- The system with a new connection. -/
def accept (S : Sys E) : Sys E :=
  { S with conns := Function.update S.conns S.next (some (newConn S.next)), next := S.next + 1 }

theorem put_put (S : Sys E) (cid : ConnId) (s s' : St E) : (S.put cid s).put cid s' = S.put cid s' := by
  simp [put]

theorem put_self (h : S.conns cid = some c) :
    S.put cid ⟨S.sh, c⟩ = S := by
  simp [put, ← h]

@[simp] theorem put_conns_self (S : Sys E) (cid : ConnId) (s : St E) :
    (S.put cid s).conns cid = some s.c := by
  simp [put]

theorem put_conns_of_ne (S : Sys E) (h : cid' ≠ cid) (s : St E) :
    (S.put cid s).conns cid' = S.conns cid' := update_of_ne h ..

@[simp] theorem put_sh (S : Sys E) (cid : ConnId) (s : St E) : (S.put cid s).sh = s.sh := rfl

/-- A connection after `put` is the one put or an old one. -/
theorem conns_put
    (h : (S.put cid s).conns cid' = some c) :
    cid' = cid ∧ c = s.c ∨ cid' ≠ cid ∧ S.conns cid' = some c := by
  by_cases hc : cid' = cid
  · subst hc
    simp only [put_conns_self, some.injEq] at h
    exact .inl ⟨rfl, h.symm⟩
  · simp only [put, update_of_ne hc] at h
    exact .inr ⟨hc, h⟩

theorem conns_remove {sh : Shared E}
    (h : (S.remove cid sh).conns cid' = some c) : cid' ≠ cid ∧ S.conns cid' = some c := by
  by_cases hc : cid' = cid
  · subst hc
    simp [remove] at h
  · simp only [remove, update_of_ne hc] at h
    exact ⟨hc, h⟩

/-- A connection after `accept` is the new one or an old one. -/
theorem conns_accept (h : S.accept.conns cid = some c) :
    cid = S.next ∧ c = newConn S.next ∨ cid ≠ S.next ∧ S.conns cid = some c := by
  by_cases hc : cid = S.next
  · subst hc
    simp only [accept, update_self, some.injEq] at h
    exact .inl ⟨rfl, h.symm⟩
  · simp only [accept, update_of_ne hc] at h
    exact .inr ⟨hc, h⟩

/-- The state a connection is cleaned up from. -/
def closing (S : Sys E) (c : Conn E) : St E :=
  ⟨{ S.sh with connDone := Function.update S.sh.connDone c.id true },
    { c with pending := ∅, pendingByMsg := ∅ }⟩

/-- What a transition is. -/
inductive Moved (srv : Config E) (S : Sys E) : Label → Sys E → Prop where
  | accept : Moved srv S .accept S.accept
  | sub {cid : ConnId} {c : Conn E} {lp : Loop} {s' : St E} (hc : S.conns cid = some c)
      (hlp : c.loop = some lp)
      (h : c.Listed → Relation.ReflTransGen (Change srv (nextCommand c lp)) ⟨S.sh, c⟩ s') :
      Moved srv S (.sub cid) (S.put cid s')
  | aside {l : Label} {cid : ConnId} {c : Conn E} {s' : St E} (hc : S.conns cid = some c)
      (h : Aside Event.isAside ⟨S.sh, c⟩ s') : Moved srv S l (S.put cid s')
  | close {cid : ConnId} {c : Conn E} {s' : St E} (hc : S.conns cid = some c)
      (h : Closed none (fun _ _ => True) (S.closing c) s') :
      Moved srv S (.close cid) (S.remove cid s'.sh)

/-- After a computation the connection is in its last state, up to the marks of a
panic. -/
theorem exec_eq (S : Sys E) (cid : ConnId) (c : Conn E) (m : M E Unit) :
    ∃ s', Aside (fun _ => false) (m ⟨S.sh, c⟩).state s' ∧ S.exec cid c m = S.put cid s' := by
  unfold exec
  cases m ⟨S.sh, c⟩ with
  | ok _ s => exact ⟨s, .refl s, rfl⟩
  | panic s => exact ⟨{ s with c := { s.c with loop := none, dead := true } }, .ofConn rfl, rfl⟩

theorem exec_sh (S : Sys E) (cid : ConnId) (c : Conn E) (m : M E Unit) :
    (S.exec cid c m).sh = (m ⟨S.sh, c⟩).state.sh := by
  unfold exec
  cases m ⟨S.sh, c⟩ <;> rfl

theorem moved_of_aside {m : M E Unit}
    (hc : S.conns cid = some c) (hm : Aside isAside ⟨S.sh, c⟩ (m ⟨S.sh, c⟩).state) :
    Moved srv S l (S.exec cid c m) := by
  obtain ⟨s', h, e⟩ := S.exec_eq cid c m
  rw [e]
  exact .aside hc (hm.trans (h.mono fun _ h => nomatch h))

/-- A transition of a connection that does not end it runs an action that is enabled
there. -/
theorem step_conn (h : S.step srv l = some S')
    (hl : l.conn? = some cid) (he : l.ends = false) :
    ∃ c m, S.conns cid = some c ∧ action srv S.sh c l = some m ∧ S' = S.exec cid c m := by
  unfold step at h
  rw [hl] at h
  obtain ⟨c, hc, h⟩ := bind_eq_some_iff.1 h
  obtain ⟨m, hm, h⟩ := map_eq_some_iff.1 h
  rw [he] at h
  exact ⟨c, m, hc, hm, h.symm⟩

theorem step_close (h : S.step srv (.close cid) = some S') :
    ∃ c s', S.conns cid = some c ∧ Closed none (fun _ _ => True) (S.closing c) s' ∧
      S' = S.remove cid s'.sh := by
  obtain ⟨c, hc, h⟩ := bind_eq_some_iff.1 h
  obtain ⟨m, hm, rfl⟩ := map_eq_some_iff.1 h
  simp only [action] at hm
  split_ifs at hm
  cases hm
  obtain ⟨s', hr, hcl⟩ := cleanup_run ⟨S.sh, c⟩
  refine ⟨c, s', hc, hcl, ?_⟩
  have e : S.exec cid c cleanup = S.put cid s' := by
    unfold exec
    rw [hr]
    rfl
  rw [if_pos (by rfl), e]
  simp [put, remove]

theorem step_of_action {m : M E Unit}
    (hl : l.conn? = some cid) (he : l.ends = false) (hc : S.conns cid = some c)
    (ha : action srv S.sh c l = some m) (hm : m ⟨S.sh, c⟩ = .ok () s') : S.step srv l = some (S.put cid s') := by
  unfold Sys.step
  rw [hl]
  simp [hc, ha, he, Sys.exec, hm, Sys.put]

/-- After the reply the connection is idle or dead. -/
theorem sendReply_idle (h : sendReply lp s = .ok () s') : s'.c.loop = none := by
  unfold sendReply at h
  obtain ⟨s0, s1, hget, h⟩ := bind_eq_ok h
  split_ifs at h
  · cases h
    rfl
  · obtain ⟨sealed, s2, -, h⟩ := bind_eq_ok h
    cases sealed with
    | none =>
      obtain ⟨ok, s3, -, h⟩ := bind_eq_ok h
      cases h
      rfl
    | some frame =>
      obtain ⟨ok, s3, -, h⟩ := bind_eq_ok h
      cases h
      rfl

theorem exec_idle (S : Sys E) (cid : ConnId) (c : Conn E) (lp : Loop) :
    ∃ c', (S.exec cid c (sendReply lp)).conns cid = some c' ∧ c'.loop = none := by
  unfold Sys.exec
  cases h : sendReply lp ⟨S.sh, c⟩ with
  | ok a s' => exact ⟨s'.c, update_self .., sendReply_idle h⟩
  | panic s' => exact ⟨_, update_self .., rfl⟩

/-- What each label does where it is enabled. -/
inductive Fired (srv : Config E) (S : Sys E) : Label → Sys E → Prop where
  | accept : Fired srv S .accept S.accept
  | recv {cid : ConnId} {c : Conn E} (raw : Bytes) (hc : S.conns cid = some c)
      (hlp : c.loop = none) : Fired srv S (.recv cid raw) (S.exec cid c (receive raw))
  | sub {cid : ConnId} {c : Conn E} {lp : Loop} (hc : S.conns cid = some c)
      (hlp : c.loop = some lp) (hfin : lp.finished = false) :
      Fired srv S (.sub cid) (S.exec cid c (subCommand srv lp))
  | reply {cid : ConnId} {c : Conn E} {lp : Loop} (hc : S.conns cid = some c)
      (hlp : c.loop = some lp) (hfin : lp.finished = true) :
      Fired srv S (.reply cid) (S.exec cid c (sendReply lp))
  | drain {cid : ConnId} {c : Conn E} {q : Queued} {rest : List Queued}
      (hc : S.conns cid = some c) (hq : S.sh.asyncResp c.id = q :: rest) :
      Fired srv S (.drain cid) (S.exec cid c (drainOne q rest))
  | tick {cid : ConnId} {c : Conn E} {i : ℕ} {w : Watcher E} (hc : S.conns cid = some c)
      (hw : w ∈ c.watchers) : Fired srv S (.tick cid i) (S.exec cid c (watchTick i w))
  | done {cid : ConnId} {c : Conn E} {i : ℕ} {w : Watcher E} (hc : S.conns cid = some c)
      (hw : w ∈ c.watchers) : Fired srv S (.done cid i) (S.exec cid c (watchDone i w))
  | close {cid : ConnId} {c : Conn E} {s' : St E} (hc : S.conns cid = some c)
      (h : Closed none (fun _ _ => True) (S.closing c) s') :
      Fired srv S (.close cid) (S.remove cid s'.sh)

theorem step_fired (h : S.step srv l = some S') : Fired srv S l S' := by
  cases l with
  | accept =>
    cases h
    exact .accept
  | recv cid raw =>
    obtain ⟨c, m, hc, hm, rfl⟩ := step_conn h rfl rfl
    simp only [action] at hm
    split_ifs at hm with hidle
    cases hm
    exact .recv raw hc (by simp at hidle; exact hidle.2)
  | sub cid =>
    obtain ⟨c, m, hc, hm, rfl⟩ := step_conn h rfl rfl
    simp only [action] at hm
    cases hlp : c.loop with
    | none => simp [hlp] at hm
    | some lp =>
      simp only [hlp] at hm
      split_ifs at hm with hrun
      cases hm
      exact .sub hc hlp (by simp at hrun; exact hrun.2)
  | reply cid =>
    obtain ⟨c, m, hc, hm, rfl⟩ := step_conn h rfl rfl
    simp only [action] at hm
    cases hlp : c.loop with
    | none => simp [hlp] at hm
    | some lp =>
      simp only [hlp] at hm
      split_ifs at hm with hrun
      cases hm
      exact .reply hc hlp (by simp at hrun; exact hrun.2)
  | drain cid =>
    obtain ⟨c, m, hc, hm, rfl⟩ := step_conn h rfl rfl
    simp only [action] at hm
    cases hq : S.sh.asyncResp c.id with
    | nil => simp [hq] at hm
    | cons q rest =>
      simp only [hq] at hm
      split_ifs at hm
      cases hm
      exact .drain hc hq
  | tick cid i =>
    obtain ⟨c, m, hc, hm, rfl⟩ := step_conn h rfl rfl
    obtain ⟨w, hw, rfl⟩ := map_eq_some_iff.1 hm
    exact .tick hc (mem_of_getElem? hw)
  | done cid i =>
    obtain ⟨c, m, hc, hm, rfl⟩ := step_conn h rfl rfl
    simp only [action] at hm
    cases hw : c.watchers[i]? with
    | none => simp [hw] at hm
    | some w =>
      simp only [hw] at hm
      split_ifs at hm
      cases hm
      exact .done hc (mem_of_getElem? hw)
  | close cid =>
    obtain ⟨c, s', hc, hcl, rfl⟩ := step_close h
    exact .close hc hcl

/-- **Every transition is one of the four.** -/
theorem step_moved (h : S.step srv l = some S') : Moved srv S l S' := by
  cases step_fired h with
  | accept => exact .accept
  | recv raw hc hlp => exact moved_of_aside hc (receive_quiet raw _)
  | @sub cid c lp hc hlp hfin =>
    obtain ⟨s', ha, e⟩ := S.exec_eq cid c (subCommand srv lp)
    rw [e]
    exact .sub hc hlp fun hl => (subCommand_moves srv lp hl).tail (.aside ha)
  | reply hc hlp hfin =>
    exact moved_of_aside hc ((sendReply_quiet _ _).mono isAside_of_isWrite)
  | drain hc hq => exact moved_of_aside hc ((drainOne_aside hq).mono isAside_of_isWrite)
  | @tick cid c i w hc hw =>
    have hw' : w ∈ (⟨S.sh, c⟩ : St E).c.watchers := hw
    exact moved_of_aside hc ((watchTick_aside hw').mono isAside_of_isWatch)
  | @done cid c i w hc hw =>
    have hw' : w ∈ (⟨S.sh, c⟩ : St E).c.watchers := hw
    exact moved_of_aside hc (finalizeCN_aside hw' _ _)
  | close hc hcl => exact .close hc hcl

end Sys

/-- A connection faces a command that passes a test. -/
def Sys.faces (S : Sys E) (cid : ConnId) (p : Command E → Bool) : Bool :=
  (S.conns cid).any fun c => c.loop.any fun lp => (nextCommand c lp).any p

theorem Sys.faces_spec {p : Command E → Bool} (h : S.faces cid p = true) :
    ∃ c lp k, S.conns cid = some c ∧ c.loop = some lp ∧ nextCommand c lp = some k ∧ p k = true := by
  unfold faces at h
  cases hc : S.conns cid with
  | none => rw [hc] at h; cases h
  | some c =>
    rw [hc, any_some] at h
    cases hlp : c.loop with
    | none => rw [hlp] at h; cases h
    | some lp =>
      rw [hlp, any_some] at h
      cases hk : nextCommand c lp with
      | none => rw [hk] at h; cases h
      | some k =>
        rw [hk, any_some] at h
        exact ⟨c, lp, k, rfl, hlp, hk, h⟩

/-- A plain frame comes in on an idle connection. -/
theorem Sys.step_recv (srv : Config E) {frame : Bytes} (hc : S.conns cid = some c)
    (hidle : c.loop = none) (hlive : c.dead = false) (hplain : u8At frame 0 ≠ 0xFD)
    (henc : c.requiresEncryption (u64At frame 40) = false) :
    ∃ c', S.step srv (.recv cid frame) = some (S.put cid ⟨S.sh, c'⟩) ∧
      c'.loop = some { msg := frame, via := .plain } ∧ c'.dead = false ∧ c'.sessions = c.sessions ∧
      c'.out = [] := by
  have hscreen : screen frame ⟨S.sh, c⟩ = .ok (some (frame, .plain)) ⟨S.sh, c⟩ := by
    unfold screen
    rw [if_neg fun h => hplain h.2, bind_ok (get_apply _)]
    simp [henc]
  have hstep : S.step srv (.recv cid frame) = some (S.put cid ⟨S.sh, c.begin frame .plain⟩) := by
    refine step_of_action rfl rfl hc (m := receive frame) ?_ ?_
    · simp [action, hidle, hlive]
    · rw [receive, bind_ok hscreen]
      rfl
  have hpreauth : ∀ c' : Conn E, (c'.updatePreauth frame).loop = c'.loop ∧
      (c'.updatePreauth frame).dead = c'.dead ∧ (c'.updatePreauth frame).sessions = c'.sessions ∧
        (c'.updatePreauth frame).out = c'.out := fun c' => by
    unfold updatePreauth
    split_ifs <;> exact ⟨rfl, rfl, rfl, rfl⟩
  refine ⟨_, hstep, ?_⟩
  unfold begin
  split_ifs
  · obtain ⟨h1, h2, h3⟩ := hpreauth { c with out := [], loop := some { msg := frame, via := .plain } }
    exact ⟨h1, h2.trans hlive, h3⟩
  · exact ⟨rfl, hlive, rfl, rfl⟩

/-- The loop after a command that succeeded. -/
structure Loop.Follows (hdr : Header) (lp lp' : Loop) : Prop where
  msg : lp'.msg = lp.msg
  chain : lp'.chainFailed = false
  more : hdr.nextCommand ≠ 0 → lp'.off = lp.off + hdr.nextCommand.toNat ∧ lp'.finished = lp.finished
  last : hdr.nextCommand = 0 → lp'.finished = true

/-- A command without flags is taken up as it is, where its session needs no signature. -/
theorem nextCommand_unsigned {hdr : Header} (hlen : lp.off + headerSize ≤ lp.msg.length)
    (hp : Header.parse lp.sub = .ok hdr) (hflags : hdr.flags = 0)
    (hsign : ∀ sess, c.session? hdr.sessionId = some sess → sess.requireSign = false) :
    nextCommand c lp = some ⟨c, hdr, lp⟩ := by
  have hzero : ∀ f : UInt32, ¬hdr.flags &&& f ≠ 0 := fun f => by rw [hflags]; simp
  have hcheck : checkSignature c hdr lp = lp := by
    unfold checkSignature
    cases hs : c.session? hdr.sessionId with
    | none => rfl
    | some sess =>
      dsimp only
      cases sess.signer with
      | none => rfl
      | some signer =>
        dsimp only
        rw [if_neg (hzero _), if_neg (by rw [hsign sess hs]; decide)]
  have hpatch : patchFileId hdr lp = lp := by rw [patchFileId, if_neg fun h => hzero _ h.1]
  rw [nextCommand, if_neg (by omega), hp]
  show some (⟨c, hdr, patchFileId hdr (checkSignature c hdr lp)⟩ : Command E) = _
  rw [hcheck, hpatch]

/-- An unsigned command comes to `dispatch`, and the transition ends as it does. -/
theorem Sys.step_sub (srv : Config E) {hdr : Header}
    (hc : S.conns cid = some c) (hlp : c.loop = some lp) (hlive : c.dead = false) (hfin : lp.finished = false)
    (hlen : lp.off + headerSize ≤ lp.msg.length) (hp : Header.parse lp.sub = .ok hdr) (hflags : hdr.flags = 0)
    (hchain : lp.chainFailed = false)
    (hsign : ∀ sess, c.session? hdr.sessionId = some sess → sess.requireSign = false)
    (hcn : hdr.command ≠ cmdChangeNotify) (hcancel : hdr.command ≠ cmdCancel) :
    ∃ s1 : St E, s1.c.sessions = c.sessions ∧ s1.c.dead = c.dead ∧
      s1.sh = { S.sh with
        trace := .exec (originOf c hdr) lp.via (c.requiresEncryption hdr.sessionId) :: S.sh.trace } ∧
      ∀ r s2, dispatch srv (originOf c hdr) lp.sub hdr lp.lastFileId s1 = .ok r s2 →
        ∃ lp' s', S.step srv (.sub cid) = some (S.put cid s') ∧ s'.sh = s2.sh ∧ s'.c.sessions = s2.c.sessions ∧
          s'.c.dead = s2.c.dead ∧ s'.c.loop = some lp' ∧
          (r.status = statusSuccess → r.sub = lp.sub → lp.Follows hdr lp') := by
  have hk := nextCommand_unsigned hlen hp hflags hsign
  let s0 : St E := ⟨S.sh, c.charge hdr.creditCharge⟩
  let s1 : St E := ⟨{ S.sh with
    trace := .exec (originOf c hdr) lp.via (c.requiresEncryption hdr.sessionId) :: S.sh.trace }, (s0.answering lp).c⟩
  refine ⟨s1, rfl, rfl, rfl, fun r s2 hrun => ?_⟩
  have hroute : route srv (originOf c hdr) hdr lp (s0.answering lp) = .ok r s2 := by
    unfold route
    rw [if_neg (by rw [hchain]; decide), if_neg (show ¬(originOf c hdr).cmd = cmdCancel from hcancel)]
    exact hrun
  obtain ⟨start, reply, hrespond, -⟩ := respond_eq hroute
  have hround := (round_eq_respond srv hk hcn S.sh).trans hrespond
  have hsub : subCommand srv lp ⟨S.sh, c⟩ = .ok () ⟨s2.sh, { s2.c.finishResponse srv lp.first r.status r.hdr start with
      loop := some ((({ (lp.setSub r.sub).settle r.status with
        lastFileId := r.lastFileId
        prevRespStart := some start } : Loop).addReply reply).advance hdr.nextCommand) }⟩ := by
    unfold subCommand
    rw [bind_ok hround]
    rfl
  have haction : action srv S.sh c (.sub cid) = some (subCommand srv lp) := by simp [action, hlp, hlive, hfin]
  have hstep := step_of_action rfl rfl hc haction hsub
  refine ⟨_, _, hstep, rfl, sessions_of_tables (finishResponse_tables ..), finishResponse_dead .., rfl,
    fun hst hsub => ?_⟩
  have hmsg : (lp.setSub r.sub).msg = lp.msg := by
    rw [hsub]
    exact take_append_drop ..
  unfold Loop.advance
  split_ifs with hnext
  · exact ⟨hmsg, by simp [Loop.addReply, Loop.settle, Loop.setSub, hchain, hst], fun h => absurd hnext h,
      fun _ => rfl⟩
  · exact ⟨hmsg, by simp [Loop.addReply, Loop.settle, Loop.setSub, hchain, hst], fun _ => ⟨rfl, rfl⟩,
      fun h => absurd h hnext⟩

/-! ### What holds in every run -/

/-- The connections carry their own ids, below the next one, and what their opens
remember are listings. -/
def Base (S : Sys E) : Prop :=
  ∀ cid c, S.conns cid = some c → c.id = cid ∧ cid < S.next ∧ c.Listed

theorem Aside.base {p : Event E → Bool} (h : Aside p s s') (hl : s.c.Listed) :
    s'.c.id = s.c.id ∧ s'.c.Listed := by
  refine ⟨h.id, fun sid tid fid oh ho => hl sid tid fid oh ?_⟩
  rwa [h.open?] at ho

/-- A step of a transition keeps the id of its connection and its listings. -/
theorem Change.base (h : Change srv k s s')
    (hl : s.c.Listed) : s'.c.id = s.c.id ∧ s'.c.Listed := by
  cases h with
  | aside h => exact h.base hl
  | exec cmd hk hf hs => exact ⟨rfl, hl⟩
  | effect cmd hk hf h =>
    refine ⟨?_, fun sid tid fid oh ho => ?_⟩
    · cases h with
      | create tr req hd r _ hcmd hreq htr hopen hs =>
        simp only [registerOpen, Outcome.ok.injEq] at hs
        obtain ⟨-, rfl⟩ := hs
        rfl
      | treeDisconnect s1 hcmd h0 hc =>
        have hid := congrArg Conn.id hc.conn
        exact hid
      | logoff s1 hcmd h0 hc =>
        have hid := congrArg Conn.id hc.conn
        exact hid
      | _ => rfl
    · rcases h.open_cases ho with ⟨oh0, h0, -, -, -, hl'⟩ | ⟨-, -, -, tr, req, hd, r, -, -, -, -, -, rfl⟩
      · exact hl' (hl _ _ _ _ h0)
      · exact .inl rfl

/-- What has to be shown of an invariant `I` of the runs that meet `C`.  `D` is what
`C` says of the command about to be handled. -/
structure Preserved (srv : Config E) (C : Sys E → Label → Prop) (D : Command E → St E → Prop)
    (I : Sys E → Prop) : Prop where
  accept : ∀ S, Base S → I S → I S.accept
  aside : ∀ S cid c s', Base S → S.conns cid = some c → I S →
    Aside Event.isAside ⟨S.sh, c⟩ s' → I (S.put cid s')
  start : ∀ S cid c lp k, Base S → S.conns cid = some c → c.loop = some lp →
    nextCommand c lp = some k → I S → C S (.sub cid) → D k ⟨S.sh, c⟩
  carry : ∀ k s s', D k s → Aside Event.isAside s s' → D k s'
  exec : ∀ S cid c k, Base S → S.conns cid = some c → k.origin.conn = cid →
    k.lp.chainFailed = false → c.sessions = k.before.sessions → I S → D k ⟨S.sh, c⟩ →
    I (S.put cid (k.record ⟨S.sh, c⟩)) ∧ D k (k.record ⟨S.sh, c⟩)
  effect : ∀ S cid c k s', Base S → S.conns cid = some c → k.origin.conn = cid →
    k.lp.chainFailed = false → I S → D k ⟨S.sh, c⟩ →
    Effect srv k.origin k.msg ⟨S.sh, c⟩ s' → I (S.put cid s') ∧ D k s'
  close : ∀ S cid c s', Base S → S.conns cid = some c → I S → C S (.close cid) →
    Closed none (fun _ _ => True) (S.closing c) s' → I (S.remove cid s'.sh)

theorem Base.put (hb : Base S)
    (hc : S.conns cid = some c) (hid : s'.c.id = c.id) (hl : s'.c.Listed) : Base (S.put cid s') := by
  intro cid' c' h
  rcases conns_put h with ⟨rfl, rfl⟩ | ⟨-, h⟩
  · exact ⟨hid.trans (hb _ _ hc).1, (hb _ _ hc).2.1, hl⟩
  · exact hb _ _ h

section

variable {C : Sys E → Label → Prop} {D : Command E → St E → Prop} {I : Sys E → Prop}

/-- What the steps of a command keep while they move a connection of `S`. -/
def Holding (D : Command E → St E → Prop) (I : Sys E → Prop) (S : Sys E) (cid : ConnId)
    (k : Option (Command E)) (s : St E) : Prop :=
  Base (S.put cid s) ∧ I (S.put cid s) ∧ ∀ cmd, k = some cmd → D cmd s

theorem Preserved.change (hI : Preserved srv C D I)
    (ho : ∀ cmd, k = some cmd → cmd.origin.conn = cid)
    (h : Holding D I S cid k s) (hs : Change srv k s s') : Holding D I S cid k s' := by
  obtain ⟨hb, hi, hd⟩ := h
  have hc : (S.put cid s).conns cid = some s.c := put_conns_self ..
  have hbase := hs.base (hb _ _ hc).2.2
  unfold Holding
  rw [← put_put S cid s s']
  refine ⟨hb.put hc hbase.1 hbase.2, ?_⟩
  cases hs with
  | aside ha =>
    have ha' : Aside isAside s s' := ha.mono fun _ h => nomatch h
    exact ⟨hI.aside _ _ _ _ hb hc hi ha', fun cmd hk => hI.carry _ _ _ (hd cmd hk) ha'⟩
  | exec cmd hk hf hs =>
    have h := hI.exec _ _ _ cmd hb hc (ho cmd hk) hf hs hi (hd cmd hk)
    exact ⟨h.1, fun cmd' hk' => some.inj (hk.symm.trans hk') ▸ h.2⟩
  | effect cmd hk hf he =>
    have h := hI.effect _ _ _ cmd _ hb hc (ho cmd hk) hf hi (hd cmd hk) he
    exact ⟨h.1, fun cmd' hk' => some.inj (hk.symm.trans hk') ▸ h.2⟩

theorem Preserved.changes (hI : Preserved srv C D I)
    (ho : ∀ cmd, k = some cmd → cmd.origin.conn = cid)
    (h : Holding D I S cid k s) (hs : Relation.ReflTransGen (Change srv k) s s') :
    Holding D I S cid k s' := by
  induction hs with
  | refl => exact h
  | tail _ hst ih => exact hI.change ho ih hst

/-- A transition keeps an invariant that every kind of step keeps. -/
theorem Preserved.step (hI : Preserved srv C D I) (hb : Base S) (hi : I S) (hC : C S l)
    (hstep : S.step srv l = some S') : Base S' ∧ I S' := by
  have hmoved : Moved srv S l S' := step_moved hstep
  cases hmoved with
  | accept =>
    refine ⟨fun cid c h => ?_, hI.accept S hb hi⟩
    rcases conns_accept h with ⟨rfl, rfl⟩ | ⟨-, h⟩
    · exact ⟨rfl, Nat.lt_succ_self _, nofun⟩
    · exact ⟨(hb _ _ h).1, (hb _ _ h).2.1.trans (Nat.lt_succ_self _), (hb _ _ h).2.2⟩
  | aside hc h =>
    have hbase := h.base (hb _ _ hc).2.2
    exact ⟨hb.put hc hbase.1 hbase.2, hI.aside _ _ _ _ hb hc hi h⟩
  | close hc h =>
    exact ⟨fun cid c h => hb _ _ (conns_remove h).2, hI.close _ _ _ _ hb hc hi hC h⟩
  | @sub cid c lp s' hc hlp h =>
    have ho : ∀ cmd, nextCommand c lp = some cmd → cmd.origin.conn = cid := fun cmd hk => by
      rw [Command.origin, originOf, (nextCommand_spec hk).1]
      exact (hb _ _ hc).1
    have hstart : Holding D I S cid (nextCommand c lp) ⟨S.sh, c⟩ := by
      unfold Holding
      rw [put_self hc]
      exact ⟨hb, hi, fun cmd hk => hI.start S cid c lp cmd hb hc hlp hk hi hC⟩
    have hend := hI.changes ho hstart (h (hb _ _ hc).2.2)
    exact ⟨hend.1, hend.2.1⟩

/-- **An invariant that every kind of step keeps holds in every state reached.** -/
theorem Preserved.reach (hI : Preserved srv C D I) {w : E.World} (h0 : I (system srv w).init)
    (hS : (system srv w).Reach C S) : Base S ∧ I S := by
  have hinit : Base (system srv w).init := fun cid c h => nomatch h
  refine hS.invariant (I := fun S => Base S ∧ I S) ⟨hinit, h0⟩ ?_
  rintro S l S' ⟨hb, hi⟩ hC hstep
  exact hI.step hb hi hC hstep

end

/-! ### Properties of sessions -/

/-- Every session of every connection has the property. -/
def Sessions (P : Session E → Prop) (S : Sys E) : Prop :=
  ∀ cid c sid sess, S.conns cid = some c → c.session? sid = some sess → P sess

/-- **A property of the keys of a session that a new session has and an identity keeps
is one of all sessions in every state reached.** -/
theorem Sessions.reach {C : Sys E → Label → Prop} {P : Session E → Prop}
    (hsame : ∀ {sess sess' : Session E}, sess.Same sess' → P sess → P sess')
    (hnew : ∀ auth, P { auth }) (hauth : ∀ r sess, P sess → P (authenticate srv r sess))
    {w : E.World} (hS : (system srv w).Reach C S) : Sessions P S := by
  have hI : Preserved srv C (fun _ _ => True) (Sessions P) := by
    refine ⟨fun S _ h => ?_, fun S cid c s' _ hc h ha => ?_, fun _ _ _ _ _ _ _ _ _ _ _ => trivial,
      fun _ _ _ _ _ => trivial, fun S cid c k _ hc _ _ _ h _ => ⟨?_, trivial⟩,
      fun S cid c k s' _ hc _ _ h _ he => ⟨?_, trivial⟩, fun S cid c s' _ _ h _ _ => ?_⟩
    · intro cid c sid sess hc hs
      rcases conns_accept hc with ⟨-, rfl⟩ | ⟨-, hc⟩
      · cases hs
      · exact h _ _ _ _ hc hs
    · intro cid' c' sid sess' hc' hs'
      rcases conns_put hc' with ⟨-, rfl⟩ | ⟨-, hc'⟩
      · obtain ⟨sess, hs, hsess⟩ := ha.session_of hs'
        exact hsame hsess (h _ _ _ _ hc hs)
      · exact h _ _ _ _ hc' hs'
    · intro cid' c' sid sess' hc' hs'
      rcases conns_put hc' with ⟨-, rfl⟩ | ⟨-, hc'⟩
      · exact h _ _ _ _ hc hs'
      · exact h _ _ _ _ hc' hs'
    · intro cid' c' sid sess' hc' hs'
      rcases conns_put hc' with ⟨-, rfl⟩ | ⟨-, hc'⟩
      · rcases he.session_cases hs' with ⟨sess, hs, hsess⟩ | ⟨-, ⟨r, sess, hs, rfl, -⟩ | ⟨a, -, rfl, -⟩⟩
        · exact hsame hsess (h _ _ _ _ hc hs)
        · exact hauth r sess (h _ _ _ _ hc hs)
        · exact hnew a
      · exact h _ _ _ _ hc' hs'
    · intro cid' c' sid sess' hc' hs'
      exact h _ _ _ _ (conns_remove hc').2 hs'
  exact (hI.reach (fun cid c sid sess hc => nomatch hc) hS).2

end Server
end SmbServer
