/-
# The gate before the handlers

`dispatch` asks for an authenticated session and for a tree before it calls a handler
(`Conn.refusal`).  `Gated` is what this should come to for every command: its handling
ends, and without a session or a tree it is answered with the status for that and
changes nothing.

Behind the gate no handler meets a nil pointer (`handle_returns`).  But CHANGE_NOTIFY
and CANCEL do not pass it: `handleMessage` calls `handleChangeNotify` and
`handleCancel` itself.  A CHANGE_NOTIFY without a tree dereferences a nil `*tree`, or
is answered STATUS_INVALID_PARAMETER when it is short, and a CANCEL is always answered
STATUS_SUCCESS.  So these two are gated exactly when the gate is open (`gated_iff`).
-/

import SmbServer.Server.Decoding
import SmbServer.Server.Position
import SmbServer.Server.Response

namespace SmbServer
namespace Server

open Wire Go List Option Sys

variable {E : Env} {srv : Config E} {o : Origin} {s : St E}
variable {hdr : Header} {s' : St E}

/-! ### What the gate asks for -/

/-- The session is one of the connection, and authenticated. -/
def Conn.authenticated (c : Conn E) (sid : UInt64) : Bool := (c.session? sid).any Session.authenticated

theorem Conn.authenticated_iff {c : Conn E} {sid : UInt64} :
    c.authenticated sid = true ↔ ∃ sess, c.session? sid = some sess ∧ sess.authenticated = true := by
  unfold Conn.authenticated
  cases c.session? sid with
  | none => simp
  | some sess => simp

/-- A connection without what every response changes: the reply, the credits and the hash
of the messages that set up sessions. -/
def Conn.bare (c : Conn E) : Conn E := { c with out := [], creditBalance := 0, preauthHash := [] }

/-- Nothing changed but the reply and what goes with it: the trace has at most records of
commands that reached `dispatch`. -/
structure Unchanged (s s' : St E) : Prop where
  conn : s'.c.bare = s.c.bare
  shared : ∃ es, s'.sh = { s.sh with trace := es ++ s.sh.trace } ∧ ∀ e ∈ es, ∃ o via enc, e = .exec o via enc

/-- A pass of the loop appends one response, whose header tells the status. -/
def AnsweredWith (lp lp' : Loop) (s' : St E) (status : UInt32) : Prop :=
  ∃ r, lp'.replies = lp.replies ++ [r] ∧ u32At (s'.c.out.drop r.start) 8 = status

/-- The next command is answered with the status, and changes nothing. -/
def Refuses (srv : Config E) (lp : Loop) (s : St E) (status : UInt32) : Prop :=
  ∃ lp' s', round srv lp s = .ok lp' s' ∧ AnsweredWith lp lp' s' status ∧ Unchanged s s'

/-- A SET_INFO of an open whose rename buffer is sliced out of range. -/
def Command.SlicesOut (k : Command E) : Prop :=
  k.hdr.command = cmdSetInfo ∧ nameWraps k.msg = true ∧ ∃ req, SetInfoRequest.parse k.msg = .ok req ∧
    (k.before.open? k.hdr.sessionId k.hdr.treeId req.fileId).isSome

/-- **Uniform gating** of the next command `k`: it is handled to its end, a slice out of
range being the only run-time error; without an authenticated session it is refused with
STATUS_USER_SESSION_DELETED, and otherwise without a tree that it needs with
STATUS_NETWORK_NAME_DELETED. -/
structure Gated (srv : Config E) (k : Command E) (lp : Loop) (s : St E) : Prop where
  ends : (round srv lp).Returns s ∨ k.SlicesOut
  session : k.hdr.command ≠ cmdNegotiate → k.hdr.command ≠ cmdSessionSetup →
    s.c.authenticated k.hdr.sessionId = false → Refuses srv lp s statusUserSessionDeleted
  tree : k.hdr.command = cmdNegotiate ∨ k.hdr.command = cmdSessionSetup ∨
      s.c.authenticated k.hdr.sessionId = true →
    requiresTree k.hdr.command = true → s.c.tree? k.hdr.sessionId k.hdr.treeId = none →
    Refuses srv lp s statusNetworkNameDeleted

theorem Conn.refusal_eq (c : Conn E) (o : Origin) :
    c.refusal o =
      if o.cmd = cmdNegotiate ∨ o.cmd = cmdSessionSetup then none
      else if c.authenticated o.sid = false then some statusUserSessionDeleted
      else if requiresTree o.cmd = true ∧ c.tree? o.sid o.tid = none then some statusNetworkNameDeleted
      else none := by
  unfold Conn.refusal Conn.authenticated Conn.tree?
  by_cases hn : o.cmd = cmdNegotiate
  · simp [requiresSession, hn]
  by_cases hset : o.cmd = cmdSessionSetup
  · cases c.session? o.sid with
    | none => simp [hset]
    | some sess => simp [hset, requiresTree]
  cases c.session? o.sid with
  | none => simp [requiresSession, hn, hset]
  | some sess =>
    by_cases ha : sess.authenticated = true
    · simp [requiresSession, hn, hset, ha]
    · simp [requiresSession, hn, hset, ha]

/-! ### Handlers return -/

theorem call_returns {α β : Type} {origin : Option Origin} {op : α → Call E} {f : E.World → α × E.World}
    {k : α → M E β} (h : ∀ a s', (k a).Returns s') : (call origin op f >>= k).Returns s :=
  .bind ⟨_, _, rfl⟩ fun a s' _ => h a s'

theorem errBody_returns (status : UInt32) : (errBody status : M E UInt32).Returns s := ⟨_, _, rfl⟩

theorem succeed_returns (b : Bytes) : (succeed b : M E UInt32).Returns s := ⟨_, _, rfl⟩

theorem parsed_returns {ρ : Type} {r : Res Wire.Error ρ} {k : ρ → M E UInt32} (hr : r.Safe)
    (h : ∀ req, r = .ok req → (k req).Returns s) : (parsed r k).Returns s := by
  cases r with
  | ok req => exact h req rfl
  | err e => exact errBody_returns _
  | panic => exact absurd rfl hr

theorem withTree_returns {α : Type} {k : Tree E → M E α} (ht : (s.c.tree? o.sid o.tid).isSome)
    (h : ∀ tr, (k tr).Returns s) : (withTree o k).Returns s := by
  obtain ⟨tr, htr⟩ := isSome_iff_exists.1 ht
  obtain ⟨a, s', hrun⟩ := h tr
  exact ⟨a, s', (withTree_apply k htr).trans hrun⟩

theorem withOpen_returns {fid : FileId} {k : Tree E → OpenHandle E → M E UInt32}
    (ht : (s.c.tree? o.sid o.tid).isSome)
    (h : ∀ tr oh, s.c.open? o.sid o.tid fid = some oh → (k tr oh).Returns s) : (withOpen o fid k).Returns s := by
  obtain ⟨tr, htr⟩ := isSome_iff_exists.1 ht
  cases ho : s.c.open? o.sid o.tid fid with
  | some oh =>
    obtain ⟨a, s', hrun⟩ := h tr oh ho
    exact ⟨a, s', (withOpen_apply k htr ho).trans hrun⟩
  | none =>
    rcases withOpen_none k ho with hp | he
    · rw [withOpen, withTree_apply _ htr] at hp
      rw [Conn.open?, htr] at ho
      simp only [show tr.opens.lookup fid = none from ho] at hp
      cases hp
    · exact ⟨_, _, he⟩

theorem handleNegotiate_returns (msg : Bytes) : (handleNegotiate srv msg).Returns s :=
  parsed_returns (NegotiateRequest.parse_safe _) fun _ _ =>
    .ite (fun _ => errBody_returns _) fun _ => succeed_returns _

theorem handleSessionSetup_returns (msg : Bytes) (hdr : Header) : (handleSessionSetup srv o msg hdr).Returns s := by
  unfold handleSessionSetup
  have hsafe := SessionSetupRequest.parse_safe msg
  cases hreq : SessionSetupRequest.parse msg with
  | panic => exact absurd hreq hsafe
  | err e => exact ⟨_, _, rfl⟩
  | ok req =>
    obtain ⟨sid, s1, s2, sess, h1, h2, -, hs⟩ := session_accepting o.conn hdr.sessionId req.securityBuffer s
    have hsend : ∀ (s3 : St E) token, (s3.c.session? sid).isSome → (sendToken srv sid token).Returns s3 := by
      intro s3 token h
      obtain ⟨sess', hs'⟩ := isSome_iff_exists.1 h
      refine .get (.bind ⟨_, _, rfl⟩ fun _ s4 _ => ?_)
      rw [hs']
      exact .pure _
    have hfinish : ∀ r, (finishSessionSetup srv o.conn sid r).Returns s2 := by
      intro r
      cases r with
      | error x => cases x <;> exact errBody_returns _
      | ok a =>
        rw [finishSessionSetup_accepted]
        split_ifs
        · refine .bind (.modify _) fun _ s3 h3 => ?_
          cases h3
          exact hsend _ _ (by simp [Conn.session?_modifySession, hs])
        · refine .bind (.pure ()) fun _ s3 h3 => ?_
          cases h3
          exact hsend _ _ (by rw [hs]; rfl)
    dsimp only
    refine .bind ⟨_, _, h1⟩ fun sid' s' h' => ?_
    rw [h1] at h'
    cases h'
    refine .bind ⟨_, _, h2⟩ fun r s' h' => ?_
    rw [h2] at h'
    cases h'
    exact .bind (hfinish _) fun _ _ _ => .pure _

theorem handleLogoff_returns (h : (s.c.session? o.sid).isSome) : (handleLogoff o).Returns s := by
  obtain ⟨s', hrun, -⟩ := closeAllTrees_run (some o) h
  exact .bind ⟨_, _, hrun⟩ fun _ _ _ => ⟨_, _, rfl⟩

theorem handleTreeConnect_returns (msg : Bytes) (hdr : Header) (h : (s.c.session? o.sid).isSome) :
    (handleTreeConnect srv o msg hdr).Returns s := by
  obtain ⟨sess, hs⟩ := isSome_iff_exists.1 h
  unfold handleTreeConnect
  have hsafe := TreeConnectRequest.parse_safe msg
  cases hreq : TreeConnectRequest.parse msg with
  | panic => exact absurd hreq hsafe
  | err e => exact ⟨_, _, rfl⟩
  | ok req =>
    dsimp only
    cases srv.shareByName (parseShareName (utf16FromBytes req.path)) with
    | none => exact ⟨_, _, rfl⟩
    | some sh =>
      refine .get ?_
      rw [hs]
      exact ⟨_, _, rfl⟩

theorem removePending_returns (tr : Tree E) (oh : OpenHandle E) (s : St E) : (removePending o tr oh).Returns s := by
  unfold removePending
  split_ifs
  · exact .pure _
  · exact .pure _
  · cases E.remove tr.share.backend with
    | none => exact .pure _
    | some rm => exact call_returns fun _ _ => .pure _

theorem sendInfo_returns (limit : UInt32) (info : Option Bytes) (s : St E) : (sendInfo limit info).Returns s := by
  cases info with
  | none => exact errBody_returns _
  | some b => exact succeed_returns _

section Tree

variable (ht : (s.c.tree? o.sid o.tid).isSome) (msg : Bytes)

include ht

theorem handleTreeDisconnect_returns : (handleTreeDisconnect o).Returns s := by
  obtain ⟨tr, htr⟩ := isSome_iff_exists.1 ht
  obtain ⟨s', hrun, -⟩ := closeAllOpens_run (some o) htr
  exact .bind ⟨_, _, hrun⟩ fun _ _ _ => ⟨_, _, rfl⟩

theorem handleCreate_returns (fid : FileId) : (handleCreate o msg fid).Returns s := by
  unfold handleCreate
  have hsafe := CreateRequest.parse_safe msg
  cases hreq : CreateRequest.parse msg with
  | panic => exact absurd hreq hsafe
  | err e => exact ⟨_, _, rfl⟩
  | ok req =>
    refine withTree_returns ht fun tr => ?_
    dsimp only
    split_ifs
    · exact ⟨_, _, rfl⟩
    · refine call_returns fun opened s1 => ?_
      cases opened with
      | error e => exact ⟨_, _, rfl⟩
      | ok h =>
        refine call_returns fun st s2 => ?_
        cases st with
        | error e => exact call_returns fun _ _ => ⟨_, _, rfl⟩
        | ok fi => exact .bind ⟨_, _, rfl⟩ fun _ _ _ => ⟨_, _, rfl⟩

theorem handleClose_returns : (handleClose o msg).Returns s := by
  refine parsed_returns (CloseRequest.parse_safe msg) fun req _ => withOpen_returns ht fun tr oh _ => ?_
  refine call_returns fun st s1 => call_returns fun err s2 => ?_
  split
  · exact errBody_returns _
  · refine .bind (.modify _) fun _ s3 _ => .bind (removePending_returns tr oh s3) fun r s4 _ => ?_
    cases r with
    | some status => exact errBody_returns _
    | none => exact succeed_returns _

theorem handleRead_returns : (handleRead o msg).Returns s := by
  refine parsed_returns (ReadRequest.parse_safe msg) fun req _ => .ite (fun _ => errBody_returns _) fun _ =>
    withOpen_returns ht fun tr oh _ => .get (.ite (fun _ => errBody_returns _) fun _ => call_returns ?_)
  rintro ⟨data, err⟩ s1
  dsimp only
  cases err.filter fun e => decide (e ≠ .eof) with
  | some e => exact errBody_returns _
  | none => exact .ite (fun _ => errBody_returns _) fun _ => succeed_returns _

theorem handleWrite_returns : (handleWrite o msg).Returns s := by
  refine parsed_returns (WriteRequest.parse_safe msg) fun req _ => .ite (fun _ => errBody_returns _) fun _ =>
    withTree_returns ht fun tr => .ite (fun _ => errBody_returns _) fun _ =>
      withOpen_returns ht fun tr oh _ => .get (.ite (fun _ => errBody_returns _) fun _ => call_returns ?_)
  intro r s1
  cases r with
  | error e => exact errBody_returns _
  | ok n => exact succeed_returns _

theorem handleQueryDirectory_returns : (handleQueryDirectory o msg).Returns s := by
  refine parsed_returns (QueryDirectoryRequest.parse_safe msg) fun req _ => withOpen_returns ht fun tr oh _ =>
    .bind (.modify _) fun _ s1 _ => .ite (fun _ => errBody_returns _) fun _ => .bind ?_ ?_
  · exact .ite (fun _ => call_returns fun _ _ => ⟨_, _, rfl⟩) fun _ => .pure _
  · rintro ⟨oh', err⟩ s2 -
    dsimp only
    cases err with
    | some e => exact errBody_returns _
    | none => exact .ite (fun _ => ⟨_, _, rfl⟩) fun _ => ⟨_, _, rfl⟩

theorem handleQueryInfo_returns : (handleQueryInfo o msg).Returns s := by
  refine parsed_returns (QueryInfoRequest.parse_safe msg) fun req _ => withOpen_returns ht fun tr oh _ =>
    .ite (fun _ => call_returns fun st s1 => ?_) fun _ =>
      .ite (fun _ => sendInfo_returns _ _ _) fun _ => errBody_returns _
  cases st with
  | error e => exact errBody_returns _
  | ok fi => exact sendInfo_returns _ _ _

/-- A SET_INFO returns unless it renames an open and its name wraps. -/
theorem handleSetInfo_returns (h : ∀ req oh, SetInfoRequest.parse msg = .ok req →
      s.c.open? o.sid o.tid req.fileId = some oh → nameWraps msg = false) : (handleSetInfo o msg).Returns s := by
  refine parsed_returns (SetInfoRequest.parse_safe msg) fun req hreq => withOpen_returns ht fun tr oh ho =>
    .ite (fun _ => errBody_returns _) fun _ => .ite (fun hty => ?_) fun _ => errBody_returns _
  have hwraps := h req oh hreq ho
  rw [nameWraps, hreq] at hwraps
  refine .bind ((setFileInfo_returns_iff o req oh s).2 fun hw => ?_) fun r s1 _ => ?_
  · exact (of_decide_eq_false hwraps) ⟨hty, hw⟩
  · cases r with
    | some status => exact errBody_returns _
    | none => exact succeed_returns _

theorem handleLock_returns : (handleLock o msg).Returns s :=
  parsed_returns (LockRequest.parse_safe msg) fun _ _ => withOpen_returns ht fun _ _ _ =>
    .get (.bind (.modify _) fun _ _ _ => .ite (fun _ => succeed_returns _) fun _ => errBody_returns _)

omit ht in
theorem handleIoctl_returns : (handleIoctl srv o msg).Returns s := by
  refine parsed_returns (IoctlRequest.parse_safe msg) fun req _ => .ite (fun _ => succeed_returns _) fun _ =>
    .ite (fun _ => succeed_returns _) fun _ => .ite (fun _ => .get ?_) fun _ => .get ?_
  · cases s.c.open? o.sid o.tid req.fileId with
    | none => exact errBody_returns _
    | some oh =>
      dsimp only
      cases E.processPipe oh.h with
      | none => exact errBody_returns _
      | some pp => exact call_returns fun _ _ => succeed_returns _
  · cases s.c.tree? o.sid o.tid with
    | none => exact errBody_returns _
    | some tr => exact .ite (fun _ => errBody_returns _) fun _ => errBody_returns _

end Tree

/-- **Behind the gate every handler returns**, but for a SET_INFO that slices out of
range. -/
theorem handle_returns (sub : Bytes) (hdr : Header) (fid : FileId) (h : s.c.refusal o = none)
    (hset : o.cmd = cmdSetInfo → ∀ req oh, SetInfoRequest.parse sub = .ok req →
      s.c.open? o.sid o.tid req.fileId = some oh → nameWraps sub = false) : (handle srv o sub hdr fid).Returns s := by
  rw [Conn.refusal_eq] at h
  have hsess : ¬(o.cmd = cmdNegotiate ∨ o.cmd = cmdSessionSetup) → (s.c.session? o.sid).isSome := by
    intro hn
    rw [if_neg hn] at h
    split_ifs at h with ha
    obtain ⟨sess, hs, -⟩ := Conn.authenticated_iff.1 (Bool.of_not_eq_false ha)
    exact hs ▸ rfl
  have htree : requiresTree o.cmd = true → (s.c.tree? o.sid o.tid).isSome := by
    intro hr
    have hn : ¬(o.cmd = cmdNegotiate ∨ o.cmd = cmdSessionSetup) := by
      rintro (hc | hc) <;> rw [hc] at hr <;> exact absurd hr (by decide)
    rw [if_neg hn] at h
    split_ifs at h with ha ht
    exact isSome_iff_ne_none.2 fun hnone => ht ⟨hr, hnone⟩
  have hneeds : ∀ cmd, o.cmd = cmd → requiresTree cmd = true → (s.c.tree? o.sid o.tid).isSome :=
    fun cmd hc hr => htree (hc ▸ hr)
  have hplain : (plainHandler srv o sub).Returns s := by
    refine .ite (fun _ => handleNegotiate_returns _) fun _ => .ite (fun hc => ?_) fun _ => ?_
    · exact handleLogoff_returns (hsess (by rw [hc]; decide))
    refine .ite (fun hc => handleTreeDisconnect_returns (hneeds _ hc rfl)) fun _ => ?_
    refine .ite (fun hc => handleClose_returns (hneeds _ hc rfl) _) fun _ => ?_
    refine .ite (fun hc => handleRead_returns (hneeds _ hc rfl) _) fun _ => ?_
    refine .ite (fun hc => handleWrite_returns (hneeds _ hc rfl) _) fun _ => ?_
    refine .ite (fun hc => handleQueryDirectory_returns (hneeds _ hc rfl) _) fun _ => ?_
    refine .ite (fun hc => handleQueryInfo_returns (hneeds _ hc rfl) _) fun _ => ?_
    refine .ite (fun hc => handleSetInfo_returns (hneeds _ hc rfl) _ (hset hc)) fun _ => ?_
    refine .ite (fun _ => succeed_returns _) fun _ => ?_
    refine .ite (fun hc => handleLock_returns (hneeds _ hc rfl) _) fun _ => ?_
    refine .ite (fun _ => handleIoctl_returns _) fun _ => ?_
    exact .ite (fun _ => succeed_returns _) fun _ => errBody_returns _
  refine .ite (fun _ => .bind (handleSessionSetup_returns _ _) fun _ _ _ => .pure _) fun _ => ?_
  refine .ite (fun hc => .bind (handleTreeConnect_returns _ _ (hsess (by rw [hc]; decide))) fun _ _ _ => .pure _)
    fun _ => ?_
  refine .ite (fun hc => .bind (handleCreate_returns (hneeds _ hc rfl) _ _) fun _ _ _ => .pure _) fun _ => ?_
  refine .ite (fun _ => .bind (.ite (fun _ => ⟨_, _, rfl⟩) fun _ => ⟨_, _, rfl⟩) fun _ _ _ => .pure _) fun _ => ?_
  exact .bind hplain fun _ _ _ => .pure _

/-! ### Answers -/

theorem AnsweredWith.unique {lp lp' : Loop} {a b : UInt32} (ha : AnsweredWith lp lp' s a)
    (hb : AnsweredWith lp lp' s b) : a = b := by
  obtain ⟨r, hr, rfl⟩ := ha
  obtain ⟨r', hr', rfl⟩ := hb
  rw [hr] at hr'
  obtain rfl : r = r' := by simpa using hr'
  rfl

theorem Conn.finishResponse_bare (first : Bool) (status : UInt32) (hdr : Header) (start : ℕ) (c : Conn E) :
    (c.finishResponse srv first status hdr start).bare = c.bare := by
  unfold Conn.finishResponse
  extract_lets hdr' c1 c2
  have h2 : c2.bare = c.bare := by
    unfold c2 Conn.updatePreauth
    split_ifs <;> rfl
  cases c2.signerFor hdr' with
  | none => exact h2
  | some signer => exact h2

/-- A command is answered with the status its handler returns. -/
theorem respond_answered {lp0 lp : Loop} {r : Handled} (hlp : lp.replies = lp0.replies)
    (h : route srv o hdr lp (s.answering lp) = .ok r s')
    (hout : ∃ body, s'.c.out = (s.answering lp).c.out ++ body) :
    ∃ lp' c', respond srv o hdr lp s = .ok lp' ⟨s'.sh, c'⟩ ∧
      AnsweredWith lp0 lp' (⟨s'.sh, c'⟩ : St E) r.status ∧ c'.bare = s'.c.bare := by
  obtain ⟨body, hbody⟩ := hout
  obtain ⟨start, reply, hrun, rfl, hreply⟩ := respond_eq h
  refine ⟨_, _, hrun, ⟨reply, ?_, ?_⟩, Conn.finishResponse_bare ..⟩
  · rw [← hlp, Loop.advance]
    split_ifs <;> rfl
  · rw [hreply, Conn.finishResponse_out hbody, drop_left]
    exact (Answer.element_status _ _).1

/-! ### Trees and sessions -/

/-- Trees are those of authenticated sessions. -/
def Conn.Entered (c : Conn E) : Prop := ∀ sid tid tr, c.tree? sid tid = some tr → c.authenticated sid = true

theorem Conn.session?_of_tree? {c : Conn E} {sid : UInt64} {tid : UInt32} {tr : Tree E}
    (h : c.tree? sid tid = some tr) : ∃ sess, c.session? sid = some sess ∧ sess.trees.lookup tid = some tr :=
  bind_eq_some_iff.1 h

theorem Conn.Entered.shrinks {c c' : Conn E} (h : c.Entered) (hc : c.Shrinks c') : c'.Entered := by
  intro sid tid tr' ht'
  obtain ⟨sess', hs', -⟩ := Conn.session?_of_tree? ht'
  obtain ⟨tr, ht, -⟩ := hc.tree sid tid tr' ht'
  obtain ⟨sess, hs, ha, -⟩ := hc.session sid sess' hs'
  obtain ⟨sess1, hs1, ha1⟩ := Conn.authenticated_iff.1 (h sid tid tr ht)
  rw [hs] at hs1
  cases hs1
  exact Conn.authenticated_iff.2 ⟨sess', hs', ha.trans ha1⟩

theorem Effect.entered {msg : Bytes} (he : Effect srv o msg s s') (h : s.c.Entered) : s'.c.Entered := by
  intro sid tid tr' ht'
  obtain ⟨sess', hs', hl⟩ := Conn.session?_of_tree? ht'
  refine Conn.authenticated_iff.2 ⟨sess', hs', ?_⟩
  rcases he.session_cases hs' with ⟨sess, hs, hsame⟩ | ⟨-, ⟨r, sess, hs, rfl, -⟩ | ⟨a, -, rfl, -⟩⟩
  · rw [hsame.authenticated]
    rcases he.tree_cases ht' with ⟨tr, ht, -⟩ | ⟨-, -, ⟨sess1, hs1, ha⟩, -⟩
    · obtain ⟨sess1, hs1, ha⟩ := Conn.authenticated_iff.1 (h sid tid tr ht)
      exact some.inj (hs.symm.trans hs1) ▸ ha
    · exact some.inj (hs.symm.trans hs1) ▸ ha
  · rfl
  · cases hl

/-- **In every state reached, trees are those of authenticated sessions.** -/
theorem reach_entered {C : Sys E → Label → Prop} {w : E.World} {S : Sys E} (hS : (system srv w).Reach C S)
    {cid : ConnId} {c : Conn E} (hc : S.conns cid = some c) : c.Entered := by
  have hI : Preserved srv C (fun _ _ => True) fun S : Sys E => ∀ cid c, S.conns cid = some c → c.Entered := by
    refine ⟨fun S _ h cid c hc => ?_, fun S cid c s' _ hc h ha cid' c' hc' => ?_,
      fun _ _ _ _ _ _ _ _ _ _ _ => trivial, fun _ _ _ _ _ => trivial,
      fun S cid c k _ hc _ _ _ h _ => ⟨fun cid' c' hc' => ?_, trivial⟩,
      fun S cid c k s' _ hc _ _ h _ he => ⟨fun cid' c' hc' => ?_, trivial⟩,
      fun S cid c s' _ _ h _ _ cid' c' hc' => h _ _ (conns_remove hc').2⟩
    · rcases conns_accept hc with ⟨-, rfl⟩ | ⟨-, hc⟩
      · intro sid tid tr ht
        cases ht
      · exact h _ _ hc
    · rcases conns_put hc' with ⟨-, rfl⟩ | ⟨-, hc'⟩
      · exact (h _ _ hc).shrinks ha.shrinks
      · exact h _ _ hc'
    · rcases conns_put hc' with ⟨-, rfl⟩ | ⟨-, hc'⟩
      · exact h _ _ hc
      · exact h _ _ hc'
    · rcases conns_put hc' with ⟨-, rfl⟩ | ⟨-, hc'⟩
      · exact he.entered (h _ _ hc)
      · exact h _ _ hc'
  exact (hI.reach (nofun) hS).2 cid c hc

/-! ### Through the gate -/

section Gate

variable {c : Conn E} {lp : Loop} {k : Command E} {sh : Shared E}

theorem refuses_of_refusal (hk : nextCommand c lp = some k) (hf : k.lp.chainFailed = false)
    (hnotify : k.hdr.command ≠ cmdChangeNotify) (hcancel : k.hdr.command ≠ cmdCancel) {status : UInt32}
    (hr : c.refusal k.origin = some status) : Refuses srv lp ⟨sh, c⟩ status := by
  let s1 : St E := ⟨sh, c.charge k.hdr.creditCharge⟩
  let s2 : St E := k.record (s1.answering k.lp)
  have hr2 : s2.c.refusal k.origin = some status := hr
  have hroute : route srv k.origin k.hdr k.lp (s1.answering k.lp) =
      .ok ⟨status, k.hdr, k.lp.sub, k.lp.lastFileId⟩ { s2 with c := { s2.c with out := s2.c.out ++ errorResponse } } := by
    unfold route
    rw [hf, if_neg Bool.false_ne_true, if_neg (show ¬k.origin.cmd = cmdCancel from hcancel)]
    have hexec : logExec k.origin k.lp.via (s1.answering k.lp) = .ok () s2 := rfl
    rw [bind_ok hexec, dispatch, bind_ok (get_apply s2), hr2]
    rfl
  obtain ⟨lp', c', hrun, hans, hbare⟩ := respond_answered (nextCommand_spec hk).2.2.1.replies hroute ⟨_, rfl⟩
  refine ⟨lp', _, (round_eq_respond srv hk hnotify sh).trans hrun, hans, hbare, [_], rfl, ?_⟩
  intro e he
  obtain rfl := mem_singleton.1 he
  exact ⟨_, _, _, rfl⟩

/-- A command of a failed chain is refused with its status. -/
theorem refuses_of_failed (hk : nextCommand c lp = some k) (hf : k.lp.chainFailed = true) :
    Refuses srv lp ⟨sh, c⟩ k.lp.lastStatus := by
  let s1 : St E := ⟨sh, c.charge k.hdr.creditCharge⟩
  have hroute : route srv k.origin k.hdr k.lp (s1.answering k.lp) =
      .ok ⟨k.lp.lastStatus, k.hdr, k.lp.sub, k.lp.lastFileId⟩ (s1.answering k.lp) := by
    unfold route
    rw [if_pos hf]
    rfl
  have hround : round srv lp ⟨sh, c⟩ = respond srv k.origin k.hdr k.lp s1 := by
    rw [round_eq srv hk, if_neg fun h => by rw [hf] at h; exact absurd h.2 (by decide)]
  obtain ⟨lp', c', hrun, hans, hbare⟩ :=
    respond_answered (nextCommand_spec hk).2.2.1.replies hroute ⟨[], (append_nil _).symm⟩
  exact ⟨lp', _, hround.trans hrun, hans, hbare, [], rfl, nofun⟩

theorem respond_returns (h : (route srv o hdr lp).Returns (s.answering lp)) :
    (respond srv o hdr lp).Returns s := by
  obtain ⟨r, s', hroute⟩ := h
  obtain ⟨start, reply, hrun, -⟩ := respond_eq hroute
  exact ⟨_, _, hrun⟩

/-- The answer to a failed CHANGE_NOTIFY has its status. -/
theorem notify_fails {lp0 : Loop} {status : UInt32} (hlp : lp.replies = lp0.replies)
    (h : handleChangeNotify o lp.sub hdr { s with sh := { s.sh with
      trace := .exec o lp.via (s.c.requiresEncryption o.sid) :: s.sh.trace } } = .ok (status, false) s')
    (hst : status ≠ statusSuccess ∧ status ≠ statusMoreProcessingRequired) :
    ∃ lp' s'', notify srv o hdr lp s = .ok lp' s'' ∧ AnsweredWith lp0 lp' s'' status := by
  have hfail : (lp.settle status).chainFailed = true := by simp [Loop.settle, hst]
  have hroute : route srv o hdr (lp.settle status) (s'.answering (lp.settle status)) =
      .ok ⟨status, hdr, (lp.settle status).sub, (lp.settle status).lastFileId⟩ (s'.answering (lp.settle status)) := by
    unfold route
    rw [if_pos hfail]
    rfl
  obtain ⟨lp', c', hrun, hans, -⟩ :=
    respond_answered (show (lp.settle status).replies = lp0.replies from hlp) hroute ⟨[], (append_nil _).symm⟩
  refine ⟨lp', _, ?_, hans⟩
  unfold notify
  have hexec : logExec o lp.via s = .ok () { s with sh := { s.sh with
      trace := .exec o lp.via (s.c.requiresEncryption o.sid) :: s.sh.trace } } := rfl
  rw [bind_ok hexec, bind_ok (get_apply _), bind_ok h]
  exact hrun

theorem notify_returns (ht : (s.c.tree? o.sid o.tid).isSome) : (notify srv o hdr lp).Returns s := by
  let s1 : St E := { s with sh := { s.sh with
    trace := .exec o lp.via (s.c.requiresEncryption o.sid) :: s.sh.trace } }
  have hfails : ∀ status, (∃ s', handleChangeNotify o lp.sub hdr s1 = .ok (status, false) s') →
      status ≠ statusSuccess ∧ status ≠ statusMoreProcessingRequired → (notify srv o hdr lp).Returns s := by
    rintro status ⟨s', h⟩ hst
    obtain ⟨lp', s'', hrun, -⟩ := notify_fails rfl h hst
    exact ⟨_, _, hrun⟩
  have hsafe := ChangeNotifyRequest.parse_safe lp.sub
  cases hreq : ChangeNotifyRequest.parse lp.sub with
  | panic => exact absurd hreq hsafe
  | err e =>
    refine hfails statusInvalidParameter ?_ (by decide)
    rw [handleChangeNotify, hreq]
    exact ⟨_, rfl⟩
  | ok req =>
    obtain ⟨tr, htr⟩ := isSome_iff_exists.1 ht
    have htr1 : s1.c.tree? o.sid o.tid = some tr := htr
    cases hl : tr.opens.lookup req.fileId with
    | none =>
      refine hfails statusInvalidHandle ?_ (by decide)
      rw [handleChangeNotify, hreq]
      dsimp only
      rw [withTree_apply _ htr1, hl]
      exact ⟨_, rfl⟩
    | some oh =>
      have hpending : ∃ s', handleChangeNotify o lp.sub hdr s1 = .ok (statusPending, true) s' := by
        rw [handleChangeNotify, hreq]
        dsimp only
        rw [withTree_apply _ htr1, hl]
        exact ⟨_, rfl⟩
      obtain ⟨s', hrun⟩ := hpending
      unfold notify
      have hexec : logExec o lp.via s = .ok () s1 := rfl
      exact ⟨_, _, (bind_ok hexec).trans ((bind_ok (get_apply _)).trans (bind_ok hrun))⟩

/-- Where the gate is open, a command is handled to its end. -/
theorem round_ends (hk : nextCommand c lp = some k) (hf : k.lp.chainFailed = false)
    (hopen : c.refusal k.origin = none) : (round srv lp).Returns ⟨sh, c⟩ ∨ k.SlicesOut := by
  obtain ⟨hbefore, -⟩ := nextCommand_spec hk
  by_cases hslice : k.SlicesOut
  · exact .inr hslice
  refine .inl ?_
  let s1 : St E := ⟨sh, c.charge k.hdr.creditCharge⟩
  have hround : ∀ m : M E Loop, m.Returns s1 → round srv lp ⟨sh, c⟩ = m s1 → (round srv lp).Returns ⟨sh, c⟩ :=
    fun m ⟨a, s', h⟩ heq => ⟨a, s', heq.trans h⟩
  by_cases hnotify : k.hdr.command = cmdChangeNotify
  · refine hround (notify srv k.origin k.hdr k.lp) (notify_returns ?_) ?_
    · rw [Conn.refusal_eq, if_neg (by rw [show k.origin.cmd = cmdChangeNotify from hnotify]; decide)] at hopen
      split_ifs at hopen with ha ht
      exact isSome_iff_ne_none.2 fun h => ht ⟨by rw [show k.origin.cmd = cmdChangeNotify from hnotify]; rfl, h⟩
    · rw [round_eq srv hk, if_pos ⟨hnotify, hf⟩]
  refine hround _ (respond_returns ?_) (round_eq_respond srv hk hnotify sh)
  unfold route
  rw [hf, if_neg Bool.false_ne_true]
  refine .ite (fun _ => .bind ⟨_, _, rfl⟩ fun _ _ _ => .pure _) fun _ => .bind (.modify _) fun _ s2 h2 => ?_
  obtain rfl : k.record (s1.answering k.lp) = s2 := (Outcome.ok.inj h2).2
  refine .get ?_
  have hopen2 : (k.record (s1.answering k.lp)).c.refusal k.origin = none := hopen
  rw [hopen2]
  refine handle_returns _ _ _ hopen2 fun hset req oh hreq ho => ?_
  refine Bool.eq_false_iff.2 fun hw => hslice ⟨hset, hw, req, hreq, ?_⟩
  rw [hbefore]
  exact isSome_iff_exists.2 ⟨oh, ho⟩

theorem Conn.cancelPending_out (c : Conn E) (id : UInt64) : (c.cancelPending id).out = c.out := by
  unfold Conn.cancelPending
  cases c.pending.lookup id with
  | none => rfl
  | some op => rfl

theorem cancel_answered (hk : nextCommand c lp = some k) (hf : k.lp.chainFailed = false)
    (hcancel : k.hdr.command = cmdCancel) :
    ∃ lp' s', round srv lp ⟨sh, c⟩ = .ok lp' s' ∧ AnsweredWith lp lp' s' statusSuccess := by
  let s1 : St E := ⟨sh, c.charge k.hdr.creditCharge⟩
  have hroute : ∃ s2, route srv k.origin k.hdr k.lp (s1.answering k.lp) =
      .ok ⟨statusSuccess, k.hdr, k.lp.sub, k.lp.lastFileId⟩ s2 ∧
      ∃ body, s2.c.out = (s1.answering k.lp).c.out ++ body := by
    unfold route
    rw [hf, if_neg Bool.false_ne_true, if_pos (show k.origin.cmd = cmdCancel from hcancel)]
    exact ⟨_, rfl, simpleResponse, congrArg (· ++ simpleResponse) (Conn.cancelPending_out ..)⟩
  obtain ⟨s2, hroute, hout⟩ := hroute
  obtain ⟨lp', c', hrun, hans, -⟩ := respond_answered (nextCommand_spec hk).2.2.1.replies hroute hout
  have hne : k.hdr.command ≠ cmdChangeNotify := by
    rw [hcancel]
    decide
  exact ⟨lp', _, (round_eq_respond srv hk hne sh).trans hrun, hans⟩

/-- A CHANGE_NOTIFY without a tree dereferences it, or is answered
STATUS_INVALID_PARAMETER. -/
theorem notify_untreed (hk : nextCommand c lp = some k) (hf : k.lp.chainFailed = false)
    (hnotify : k.hdr.command = cmdChangeNotify) (ht : c.tree? k.hdr.sessionId k.hdr.treeId = none) :
    ¬(round srv lp).Returns ⟨sh, c⟩ ∨
      ∃ lp' s', round srv lp ⟨sh, c⟩ = .ok lp' s' ∧ AnsweredWith lp lp' s' statusInvalidParameter := by
  let s1 : St E := ⟨sh, c.charge k.hdr.creditCharge⟩
  have hround : round srv lp ⟨sh, c⟩ = notify srv k.origin k.hdr k.lp s1 := by
    rw [round_eq srv hk, if_pos ⟨hnotify, hf⟩]
  have hsafe := ChangeNotifyRequest.parse_safe k.lp.sub
  cases hreq : ChangeNotifyRequest.parse k.lp.sub with
  | panic => exact absurd hreq hsafe
  | err e =>
    have hrun : ∃ s', handleChangeNotify k.origin k.lp.sub k.hdr (k.record s1) =
        .ok (statusInvalidParameter, false) s' := by
      rw [handleChangeNotify, hreq]
      exact ⟨_, rfl⟩
    obtain ⟨s', hrun⟩ := hrun
    obtain ⟨lp', s'', hn, hans⟩ := notify_fails (s := s1) (nextCommand_spec hk).2.2.1.replies hrun (by decide)
    exact .inr ⟨lp', s'', hround.trans hn, hans⟩
  | ok req =>
    refine .inl ?_
    rintro ⟨lp', s', hrun⟩
    rw [hround] at hrun
    obtain ⟨_, s2, h2, hrun⟩ := bind_eq_ok hrun
    cases h2
    obtain ⟨_, s2, h2, hrun⟩ := bind_eq_ok hrun
    cases h2
    obtain ⟨r, s3, h3, -⟩ := bind_eq_ok hrun
    rw [handleChangeNotify, hreq] at h3
    dsimp only at h3
    have ht1 : (k.record s1).c.tree? k.origin.sid k.origin.tid = none := ht
    have hpanic := h3.symm.trans (withTree_none _ ht1)
    cases hpanic

end Gate

/-- **Commands are gated, but for CHANGE_NOTIFY and CANCEL where the gate is shut.**  For
every connection of every state reached and every command it may take up next in a chain
that has not failed. -/
theorem gated_iff (srv : Config E) (w : E.World) (S : Sys E) (hS : (system srv w).Reach (fun _ _ => True) S)
    (cid : ConnId) (c : Conn E) (hc : S.conns cid = some c) (lp : Loop) (k : Command E)
    (hk : nextCommand c lp = some k) (hf : k.lp.chainFailed = false) :
    Gated srv k lp ⟨S.sh, c⟩ ↔ (k.hdr.command = cmdChangeNotify ∨ k.hdr.command = cmdCancel →
      c.authenticated k.hdr.sessionId = true ∧ (c.tree? k.hdr.sessionId k.hdr.treeId).isSome) := by
  have hentered := reach_entered hS hc
  have hsid : k.origin.sid = k.hdr.sessionId := rfl
  have hrefusal := c.refusal_eq k.origin
  constructor
  · rintro ⟨hends, hsession, htree⟩ hcmd
    -- Without a tree, neither of the two is refused as it should be.
    by_contra hshut
    have hnone : c.tree? k.hdr.sessionId k.hdr.treeId = none := by
      cases ht : c.tree? k.hdr.sessionId k.hdr.treeId with
      | none => rfl
      | some tr => exact absurd ⟨hentered _ _ _ ht, ht ▸ rfl⟩ hshut
    have hneeds : requiresTree k.hdr.command = true := by
      rcases hcmd with h | h <;> rw [h] <;> rfl
    have hplain : k.hdr.command ≠ cmdNegotiate ∧ k.hdr.command ≠ cmdSessionSetup := by
      rcases hcmd with h | h <;> rw [h] <;> decide
    have hrefuses : ∃ status, Refuses srv lp ⟨S.sh, c⟩ status ∧
        (status = statusUserSessionDeleted ∨ status = statusNetworkNameDeleted) := by
      cases ha : c.authenticated k.hdr.sessionId with
      | false => exact ⟨_, hsession hplain.1 hplain.2 ha, .inl rfl⟩
      | true => exact ⟨_, htree (.inr (.inr ha)) hneeds hnone, .inr rfl⟩
    obtain ⟨status, ⟨lp', s', hrun, hans, -⟩, hstatus⟩ := hrefuses
    have hdiffers : ∀ {lp₁ : Loop} {s₁ : St E} {a : UInt32}, round srv lp ⟨S.sh, c⟩ = .ok lp₁ s₁ →
        AnsweredWith lp lp₁ s₁ a → a = status := by
      intro lp₁ s₁ a h₁ ha
      rw [hrun] at h₁
      cases h₁
      exact ha.unique hans
    rcases hcmd with hnotify | hcancel
    · rcases notify_untreed hk hf hnotify hnone with hpanic | ⟨lp₁, s₁, h₁, ha⟩
      · exact hpanic ⟨_, _, hrun⟩
      · have := hdiffers h₁ ha
        rcases hstatus with h | h <;> rw [h] at this <;> exact absurd this (by decide)
    · obtain ⟨lp₁, s₁, h₁, ha⟩ := cancel_answered hk hf hcancel
      have := hdiffers h₁ ha
      rcases hstatus with h | h <;> rw [h] at this <;> exact absurd this (by decide)
  · intro hopen
    have hgate : ∀ status, c.refusal k.origin = some status → Refuses srv lp ⟨S.sh, c⟩ status := by
      intro status hr
      refine refuses_of_refusal hk hf (fun h => ?_) (fun h => ?_) hr
      · obtain ⟨ha, ht⟩ := hopen (.inl h)
        rw [hrefusal, if_neg (by rw [show k.origin.cmd = cmdChangeNotify from h]; decide), hsid, ha,
          if_neg (by decide), if_neg fun hn => by
            rw [show c.tree? k.hdr.sessionId k.hdr.treeId = none from hn.2] at ht
            cases ht] at hr
        cases hr
      · obtain ⟨ha, ht⟩ := hopen (.inr h)
        rw [hrefusal, if_neg (by rw [show k.origin.cmd = cmdCancel from h]; decide), hsid, ha,
          if_neg (by decide), if_neg fun hn => by
            rw [show c.tree? k.hdr.sessionId k.hdr.treeId = none from hn.2] at ht
            cases ht] at hr
        cases hr
    refine ⟨?_, fun h₁ h₂ ha => hgate _ ?_, fun hpass hneeds hnone => hgate _ ?_⟩
    · cases hr : c.refusal k.origin with
      | none => exact round_ends hk hf hr
      | some status =>
        obtain ⟨lp', s', hrun, -⟩ := hgate status hr
        exact .inl ⟨_, _, hrun⟩
    · rw [hrefusal, if_neg fun h => h.elim h₁ h₂, if_pos (show c.authenticated k.origin.sid = false from ha)]
    · have hne : ∀ cmd, requiresTree cmd = false → k.hdr.command ≠ cmd := fun cmd hcmd h => by
        rw [h, hcmd] at hneeds
        cases hneeds
      have ha : c.authenticated k.hdr.sessionId = true :=
        (hpass.resolve_left (hne _ rfl)).resolve_left (hne _ rfl)
      rw [hrefusal, if_neg fun h => h.elim (hne _ rfl) (hne _ rfl), hsid, ha, if_neg (by decide),
        if_pos ⟨hneeds, hnone⟩]

theorem exists_nextCommand (c : Conn E) (frame : Bytes) (cmd : UInt16)
    (h : (nextCommand c { msg := frame, via := .plain }).map (fun k => (k.hdr.command, k.lp.chainFailed)) =
      some (cmd, false)) :
    ∃ k, nextCommand c { msg := frame, via := .plain } = some k ∧ k.hdr.command = cmd ∧ k.lp.chainFailed = false := by
  obtain ⟨k, hk, hpair⟩ := map_eq_some_iff.1 h
  exact ⟨k, hk, congrArg Prod.fst hpair, congrArg Prod.snd hpair⟩

theorem guest_accepted : ∃ S : Sys guestEnv, (guestSystem false).Reach (fun _ _ => True) S ∧
    S.conns 0 = some (newConn 0) :=
  ⟨_, .step .init trivial (l := .accept) rfl, rfl⟩

/-- An ECHO without a session is refused. -/
theorem gated_iff_echo : ∃ (S : Sys guestEnv) (k : Command guestEnv), (guestSystem false).Reach (fun _ _ => True) S ∧
    k.hdr.command = cmdEcho ∧
      Gated (guestServer false) k { msg := Header.encode { command := cmdEcho }, via := .plain } ⟨S.sh, newConn 0⟩ := by
  obtain ⟨S, hS, hc⟩ := guest_accepted
  obtain ⟨k, hk, hcmd, hf⟩ := exists_nextCommand (newConn 0 : Conn guestEnv)
    (Header.encode { command := cmdEcho }) cmdEcho (by decide +kernel)
  refine ⟨S, k, hS, hcmd, (gated_iff (guestServer false) (0 : ℕ) S hS 0 _ hc _ k hk hf).2 fun h => ?_⟩
  rw [hcmd] at h
  exact absurd h (by decide)

/-- A CHANGE_NOTIFY of a client that has not logged on dereferences a nil tree. -/
theorem notify_unauthenticated_panics :
    ¬∀ (E : Env) (srv : Config E) (w : E.World) (S : Sys E), (system srv w).Reach (fun _ _ => True) S →
      ∀ cid c, S.conns cid = some c → ∀ lp k, nextCommand c lp = some k → k.lp.chainFailed = false →
        Gated srv k lp ⟨S.sh, c⟩ := by
  intro hall
  obtain ⟨S, hS, hc⟩ := guest_accepted
  obtain ⟨k, hk, hcmd, hf⟩ := exists_nextCommand (newConn 0 : Conn guestEnv)
    (Header.encode { command := cmdChangeNotify } ++ zeros 32) cmdChangeNotify (by decide +kernel)
  obtain ⟨hends, -, -⟩ := hall guestEnv (guestServer false) (0 : ℕ) S hS 0 _ hc _ k hk hf
  rcases hends with hreturns | ⟨hset, -⟩
  · have hpanic : ∀ sh, ∃ s', round (guestServer false)
        { msg := Header.encode { command := cmdChangeNotify } ++ zeros 32, via := .plain } ⟨sh, newConn 0⟩ =
          .panic s' := fun sh => ⟨_, rfl⟩
    obtain ⟨s', hpanic⟩ := hpanic S.sh
    obtain ⟨lp', s'', hrun⟩ := hreturns
    rw [hpanic] at hrun
    cases hrun
  · rw [hcmd] at hset
    exact absurd hset (by decide)

end Server
end SmbServer
