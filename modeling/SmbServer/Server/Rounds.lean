/-
# What a transition can do

A command moves along `Change`: what goes on beside its handler (`Aside`), the
record that it reaches a handler, and the steps of the handler (`Effect`).  The
other transitions of a connection, except its end, are asides: they leave the
lock managers, the oplock table and all of a session but its two ciphers alone.
-/

import SmbServer.Server.Handlers

namespace SmbServer
namespace Server

open Wire Go Function List Event

variable {E : Env} {srv : Config E}
variable {c : Conn E}

/-- A session without its ciphers. -/
def Session.core (sess : Session E) : Session E := { sess with encCCM := none, decCCM := none }

/-- A frame written. -/
def Event.isWrite : Event E → Bool
  | .wrote .. => true
  | _ => false

/-- A call of a watcher. -/
def Event.isWatch : Event E → Bool
  | .call none (.enumerate ..) => true
  | _ => false

/-- A frame written, or a call of a watcher. -/
def Event.isAside (e : Event E) : Bool := e.isWrite || e.isWatch

theorem Event.isAside_of_isWrite (e : Event E) (h : e.isWrite = true) : e.isAside = true := by
  rw [isAside, h, Bool.true_or]

theorem Event.isAside_of_isWatch (e : Event E) (h : e.isWatch = true) : e.isAside = true := by
  rw [isAside, h, Bool.or_true]

/-- The parts of a connection its invariants are about. -/
def Conn.tables (c : Conn E) : ConnId × GoMap UInt64 (Session E) × List (Watcher E) :=
  (c.id, c.sessions, c.watchers)

theorem Conn.sessions_of_tables {c' : Conn E} (h : c'.tables = c.tables) :
    c'.sessions = c.sessions := congrArg (fun t => t.2.1) h

/-- A message with which a watcher ends. -/
def Watcher.Sends (w : Watcher E) (q : Queued) : Prop :=
  ∃ status body, q = { frame := finalizeAsync w.hdr w.op.asyncID status body, dest := w.dest }

/-- The ciphers of the session are those of its keys. -/
def Session.Coherent (sess : Session E) : Prop :=
  (∀ ccm, sess.encCCM = some ccm → sess.encryptionKey = some ccm.key) ∧
    ∀ ccm, sess.decCCM = some ccm → sess.decryptionKey = some ccm.key

def Conn.Coherent (c : Conn E) : Prop := ∀ sid sess, c.session? sid = some sess → sess.Coherent

theorem Conn.Coherent.modifySession (h : c.Coherent) {sid : UInt64} {f : Session E → Session E}
    (hf : ∀ sess, c.session? sid = some sess → (f sess).Coherent) : (c.modifySession sid f).Coherent := by
  intro sid' sess' hs
  rw [Conn.session?_modifySession] at hs
  split_ifs at hs with he
  · subst he
    obtain ⟨sess, hsess, rfl⟩ := Option.map_eq_some_iff.1 hs
    exact hf sess hsess
  · exact h _ _ hs

/-- A cipher that is kept, or else made from the key, is one of the key. -/
theorem key_of_cipher {ccm : Encryption.AESCCM} {ccm? : Option Encryption.AESCCM} {key : Bytes}
    (hk : ∀ ccm, ccm? = some ccm → some key = some ccm.key) (h : (ccm? <|> Encryption.newAESCCM key) = some ccm) :
    some key = some ccm.key := by
  cases ccm? with
  | some ccm' =>
    cases h
    exact hk _ rfl
  | none =>
    replace h : Encryption.newAESCCM key = some ccm := h
    unfold Encryption.newAESCCM at h
    split_ifs at h
    cases h
    rfl

/-- What goes on beside the handlers, with events of the kind `p`. -/
structure Aside (p : Event E → Bool) (s s' : St E) : Prop where
  id : s'.c.id = s.c.id
  session : ∀ sid, (s'.c.session? sid).map Session.core = (s.c.session? sid).map Session.core
  locks : s'.sh.locks = s.sh.locks
  oplocks : s'.sh.oplocks = s.sh.oplocks
  nextSess : s'.sh.nextSess = s.sh.nextSess
  connDone : s'.sh.connDone = s.sh.connDone
  trace : ∃ es, s'.sh.trace = es ++ s.sh.trace ∧ ∀ e ∈ es, p e = true
  watchers : s'.c.watchers ⊆ s.c.watchers
  queue : ∀ cid, ∀ q ∈ s'.sh.asyncResp cid,
    q ∈ s.sh.asyncResp cid ∨ ∃ w ∈ s.c.watchers, w.Sends q
  world : Runs (fun op => ∃ origin, p (.call origin op) = true) s.sh.world s'.sh.world
  coherent : s.c.Coherent → s'.c.Coherent

namespace Aside

variable {p q : Event E → Bool} {s s₁ s₂ : St E}

theorem ofTrace {sh' : Shared E} (hl : sh'.locks = s.sh.locks) (ho : sh'.oplocks = s.sh.oplocks)
    (hn : sh'.nextSess = s.sh.nextSess) (hd : sh'.connDone = s.sh.connDone)
    (hq : ∀ cid, sh'.asyncResp cid ⊆ s.sh.asyncResp cid)
    (ht : ∃ es, sh'.trace = es ++ s.sh.trace ∧ ∀ e ∈ es, p e = true)
    (hw : Runs (fun op => ∃ origin, p (.call origin op) = true) s.sh.world sh'.world) :
    Aside p s { s with sh := sh' } :=
  ⟨rfl, fun _ => rfl, hl, ho, hn, hd, ht, List.Subset.refl _, fun cid _ hm => .inl (hq cid hm), hw,
    fun h => h⟩

theorem refl (s : St E) : Aside p s s :=
  ofTrace rfl rfl rfl rfl (fun _ => List.Subset.refl _) ⟨[], rfl, by simp⟩ .refl

theorem trans (h1 : Aside p s s₁) (h2 : Aside p s₁ s₂) : Aside p s s₂ := by
  obtain ⟨es1, e1, ha1⟩ := h1.trace
  obtain ⟨es2, e2, ha2⟩ := h2.trace
  refine ⟨h2.id.trans h1.id, fun sid => (h2.session sid).trans (h1.session sid),
    h2.locks.trans h1.locks, h2.oplocks.trans h1.oplocks, h2.nextSess.trans h1.nextSess,
    h2.connDone.trans h1.connDone, ⟨es2 ++ es1, by rw [e2, e1, append_assoc], fun e he => ?_⟩,
    List.Subset.trans h2.watchers h1.watchers, fun cid q hq => ?_, h1.world.trans h2.world,
    h2.coherent ∘ h1.coherent⟩
  · exact (mem_append.1 he).elim (ha2 e) (ha1 e)
  · rcases h2.queue cid q hq with hq | ⟨w, hw, hs⟩
    · exact h1.queue cid q hq
    · exact .inr ⟨w, h1.watchers hw, hs⟩

theorem mono (h : Aside p s s₁) (hpq : ∀ e, p e = true → q e = true) : Aside q s s₁ := by
  obtain ⟨es, e, ha⟩ := h.trace
  exact ⟨h.id, h.session, h.locks, h.oplocks, h.nextSess, h.connDone,
    ⟨es, e, fun e he => hpq e (ha e he)⟩, h.watchers, h.queue,
    h.world.mono fun _ ⟨origin, hp⟩ => ⟨origin, hpq _ hp⟩, h.coherent⟩

theorem trace_eq (h : Aside (fun _ => false) s s₁) : s₁.sh.trace = s.sh.trace := by
  obtain ⟨es, e, ha⟩ := h.trace
  cases es with
  | nil => exact e
  | cons e' es => cases ha e' (mem_cons_self ..)

/-- Only other fields of the connection have changed. -/
theorem ofConn {c' : Conn E} (h : c'.tables = s.c.tables) : Aside p s { s with c := c' } := by
  simp only [Conn.tables, Prod.mk.injEq] at h
  refine ⟨h.1, fun sid => by simp only [Conn.session?, h.2.1], rfl, rfl, rfl, rfl, ⟨[], rfl, by simp⟩,
    h.2.2 ▸ List.Subset.refl _, fun _ _ hq => .inl hq, .refl, fun hc sid sess hs => hc sid sess ?_⟩
  rwa [Conn.session?, h.2.1] at hs

theorem tree? (h : Aside p s s₁) (sid : UInt64) (tid : UInt32) :
    s₁.c.tree? sid tid = s.c.tree? sid tid := by
  have hs := congrArg (Option.bind · fun sess => sess.trees.lookup tid) (h.session sid)
  simpa [Option.bind_map, comp_def, Session.core, Conn.tree?] using hs

theorem open? (h : Aside p s s₁) (sid : UInt64) (tid : UInt32) (fid : FileId) :
    s₁.c.open? sid tid fid = s.c.open? sid tid fid := by
  rw [Conn.open?, h.tree?, Conn.open?]

end Aside

/-! ### Commands -/

/-- A command of a frame: the connection before it, its header, and the locals of the
loop after the signature check and the FileId of a related command. -/
structure Command (E : Env) where
  before : Conn E
  hdr : Header
  lp : Loop

namespace Command

def origin (k : Command E) : Origin := originOf k.before k.hdr

def msg (k : Command E) : Bytes := k.lp.sub

/-- The record that the command reaches its handler. -/
def record (k : Command E) (s : St E) : St E :=
  { s with sh := { s.sh with
    trace := .exec k.origin k.lp.via (s.c.requiresEncryption k.origin.sid) :: s.sh.trace } }

end Command

/-- The command `handleMessage` takes up next. -/
def nextCommand (c : Conn E) (lp : Loop) : Option (Command E) :=
  if lp.msg.length < lp.off + headerSize then none
  else
    match Header.parse lp.sub with
    | .ok hdr => some ⟨c, hdr, patchFileId hdr (checkSignature c hdr lp)⟩
    | _ => none

/-- `lp'` is `lp` up to the message, the statuses and `lastFileId`. -/
structure Loop.Kept (lp lp' : Loop) : Prop where
  via : lp'.via = lp.via
  first : lp'.first = lp.first
  off : lp'.off = lp.off
  prev : lp'.prevRespStart = lp.prevRespStart
  finished : lp'.finished = lp.finished
  replies : lp'.replies = lp.replies
  failed : lp.chainFailed = true → lp'.chainFailed = true

namespace Loop.Kept

variable {lp lp' lp'' : Loop}

theorem refl (lp : Loop) : lp.Kept lp := ⟨rfl, rfl, rfl, rfl, rfl, rfl, id⟩

theorem trans (h : lp.Kept lp') (h' : lp'.Kept lp'') : lp.Kept lp'' :=
  ⟨h'.via.trans h.via, h'.first.trans h.first, h'.off.trans h.off, h'.prev.trans h.prev,
    h'.finished.trans h.finished, h'.replies.trans h.replies, h'.failed ∘ h.failed⟩

theorem setSub (lp : Loop) (b : Bytes) : lp.Kept (lp.setSub b) := ⟨rfl, rfl, rfl, rfl, rfl, rfl, id⟩

theorem refuse (lp : Loop) : lp.Kept lp.refuse := ⟨rfl, rfl, rfl, rfl, rfl, rfl, fun _ => rfl⟩

theorem settle (lp : Loop) (status : UInt32) : lp.Kept (lp.settle status) :=
  ⟨rfl, rfl, rfl, rfl, rfl, rfl, fun h => by simp [Loop.settle, h]⟩

theorem checkSignature (c : Conn E) (hdr : Header) (lp : Loop) :
    lp.Kept (checkSignature c hdr lp) := by
  unfold Server.checkSignature
  cases c.session? hdr.sessionId with
  | none => exact refl lp
  | some sess =>
    dsimp only
    cases sess.signer with
    | none => exact refl lp
    | some signer =>
      dsimp only
      split_ifs
      · exact setSub lp _
      · exact (setSub lp _).trans (refuse _)
      · exact refuse lp
      · exact refl lp

theorem patchFileId (hdr : Header) (lp : Loop) : lp.Kept (patchFileId hdr lp) := by
  unfold Server.patchFileId
  split_ifs
  · cases fileIdOffset hdr.command with
    | none => exact refl lp
    | some fo =>
      dsimp only
      split_ifs
      · exact setSub lp _
      · exact refl lp
  · exact refl lp

end Loop.Kept

/-! ### The request under its command -/

/-- The request is written to, but not in the first 48 bytes of its header. -/
structure Loop.Rewritten (lp lp' : Loop) : Prop where
  off : lp'.off = lp.off
  length : lp'.msg.length = lp.msg.length
  header : slice lp'.sub 0 48 = slice lp.sub 0 48

namespace Loop.Rewritten

variable {lp lp' lp'' : Loop}

theorem refl (lp : Loop) : lp.Rewritten lp := ⟨rfl, rfl, rfl⟩

theorem trans (h : lp.Rewritten lp') (h' : lp'.Rewritten lp'') : lp.Rewritten lp'' :=
  ⟨h'.off.trans h.off, h'.length.trans h.length, h'.header.trans h.header⟩

theorem setSub {b : Bytes} (hoff : lp.off ≤ lp.msg.length) (hl : b.length = lp.sub.length)
    (hb : slice b 0 48 = slice lp.sub 0 48) : lp.Rewritten (lp.setSub b) := by
  have htake : (lp.msg.take lp.off).length = lp.off := by rw [length_take]; omega
  refine ⟨rfl, ?_, ?_⟩
  · rw [Loop.sub, length_drop] at hl
    simp only [Loop.setSub, length_append, htake, hl]
    omega
  · have hsub : (lp.setSub b).sub = b := by
      unfold Loop.sub Loop.setSub
      exact drop_left' htake
    rw [hsub, hb]

theorem checkSignature (c : Conn E) (hdr : Header) (hoff : lp.off ≤ lp.msg.length) :
    lp.Rewritten (checkSignature c hdr lp) := by
  have hverify : ∀ signer : Signing.Signer, lp.Rewritten (lp.setSub
      ((signer.verify E.crypto (cmdBytes hdr lp.sub)).2 ++
        lp.sub.drop (signer.verify E.crypto (cmdBytes hdr lp.sub)).2.length)) := by
    intro signer
    obtain ⟨n, hn⟩ : ∃ n, cmdBytes hdr lp.sub = lp.sub.take n := by
      unfold cmdBytes
      split_ifs
      · exact ⟨_, rfl⟩
      · exact ⟨lp.sub.length, (take_length).symm⟩
    rw [hn]
    rcases signer.verify_buffer E.crypto (lp.sub.take n) with he | ⟨hlen, hl, hs⟩
    · have hid : lp.sub.take n ++ lp.sub.drop (lp.sub.take n).length = lp.sub := by
        rw [length_take]
        rcases le_total n lp.sub.length with h | h
        · rw [min_eq_left h, take_append_drop]
        · rw [min_eq_right h, take_of_length_le h, drop_length, append_nil]
      rw [he, hid]
      exact setSub hoff rfl rfl
    · rw [length_take] at hlen hl
      refine setSub hoff ?_ ?_
      · rw [length_append, length_drop, hl]
        omega
      · rw [slice_append_left _ (by rw [hl]; omega), hs, slice, slice, drop_zero,
          drop_zero, take_take, min_eq_left (by omega)]
  unfold Server.checkSignature
  cases c.session? hdr.sessionId with
  | none => exact refl lp
  | some sess =>
    dsimp only
    cases sess.signer with
    | none => exact refl lp
    | some signer =>
      dsimp only
      split_ifs
      · exact hverify signer
      · exact ⟨(hverify signer).off, (hverify signer).length, (hverify signer).header⟩
      · exact ⟨rfl, rfl, rfl⟩
      · exact refl lp

theorem patchFileId (hdr : Header) (hoff : lp.off ≤ lp.msg.length) :
    lp.Rewritten (patchFileId hdr lp) := by
  unfold Server.patchFileId
  split_ifs
  · cases hfo : fileIdOffset hdr.command with
    | none => exact refl lp
    | some fo =>
      have h48 : 48 ≤ fo := by
        unfold fileIdOffset at hfo
        split_ifs at hfo <;> · obtain rfl := Option.some.inj hfo; decide
      dsimp only
      split_ifs
      · exact setSub hoff (length_copyAt ..) (slice_copyAt_before _ _ (by omega))
      · exact refl lp
  · exact refl lp

end Loop.Rewritten

/-- The next command is read from the message of the loop and keeps its locals; its
header is still that of the request. -/
theorem nextCommand_spec {lp : Loop} {k : Command E} (h : nextCommand c lp = some k) :
    k.before = c ∧ Header.parse lp.sub = .ok k.hdr ∧ lp.Kept k.lp ∧ k.hdr.In k.msg := by
  unfold nextCommand at h
  split_ifs at h with hlen
  cases hp : Header.parse lp.sub with
  | ok hdr =>
    rw [hp] at h
    cases h
    refine ⟨rfl, rfl, (Loop.Kept.checkSignature c hdr lp).trans (.patchFileId hdr _), ?_⟩
    have hoff : lp.off ≤ lp.msg.length := by omega
    have h1 := Loop.Rewritten.checkSignature c hdr hoff
    have h2 := h1.trans (.patchFileId hdr (by rw [h1.off, h1.length]; exact hoff))
    refine Header.in_of_slice hp h2.header ?_
    rw [Command.msg, Loop.sub, length_drop, h2.length, h2.off]
    unfold headerSize at hlen
    omega
  | err e => simp [hp] at h
  | panic => simp [hp] at h

/-- The locals of the next command are those of the loop after the signature check and the
FileId of a related command; there is room for its header. -/
theorem nextCommand_lp {lp : Loop} {k : Command E} (h : nextCommand c lp = some k) :
    k.lp = patchFileId k.hdr (checkSignature c k.hdr lp) ∧ lp.off + headerSize ≤ lp.msg.length := by
  unfold nextCommand at h
  split_ifs at h with hlen
  cases hp : Header.parse lp.sub with
  | ok hdr =>
    rw [hp] at h
    cases h
    exact ⟨rfl, by omega⟩
  | err e => simp [hp] at h
  | panic => simp [hp] at h

theorem patchFileId_status (hdr : Header) (lp : Loop) :
    (patchFileId hdr lp).lastFileId = lp.lastFileId ∧ (patchFileId hdr lp).chainFailed = lp.chainFailed ∧
      (patchFileId hdr lp).lastStatus = lp.lastStatus := by
  unfold patchFileId
  split_ifs
  · cases fileIdOffset hdr.command with
    | none => exact ⟨rfl, rfl, rfl⟩
    | some fo =>
      dsimp only
      split_ifs <;> exact ⟨rfl, rfl, rfl⟩
  · exact ⟨rfl, rfl, rfl⟩

/-- The next command has the FileId of the loop, and its statuses unless its signature is
refused. -/
theorem nextCommand_status {lp : Loop} {k : Command E} (h : nextCommand c lp = some k) :
    k.lp.lastFileId = lp.lastFileId ∧
      (k.lp.chainFailed = lp.chainFailed ∧ k.lp.lastStatus = lp.lastStatus ∨
        k.lp.chainFailed = true ∧ k.lp.lastStatus = statusAccessDenied) := by
  obtain ⟨hfid, hfailed, hstatus⟩ := patchFileId_status k.hdr (checkSignature c k.hdr lp)
  rw [(nextCommand_lp h).1, hfid, hfailed, hstatus]
  unfold checkSignature
  cases c.session? k.hdr.sessionId with
  | none => exact ⟨rfl, .inl ⟨rfl, rfl⟩⟩
  | some sess =>
    dsimp only
    cases sess.signer with
    | none => exact ⟨rfl, .inl ⟨rfl, rfl⟩⟩
    | some signer =>
      dsimp only
      split_ifs
      · exact ⟨rfl, .inl ⟨rfl, rfl⟩⟩
      · exact ⟨rfl, .inr ⟨rfl, rfl⟩⟩
      · exact ⟨rfl, .inr ⟨rfl, rfl⟩⟩
      · exact ⟨rfl, .inl ⟨rfl, rfl⟩⟩

theorem round_eq (srv : Config E) {lp : Loop} {k : Command E} (hk : nextCommand c lp = some k)
    (sh : Shared E) :
    round srv lp ⟨sh, c⟩ = (if k.hdr.command = cmdChangeNotify ∧ k.lp.chainFailed = false then
        notify srv k.origin k.hdr k.lp else respond srv k.origin k.hdr k.lp)
      ⟨sh, c.charge k.hdr.creditCharge⟩ := by
  unfold nextCommand at hk
  split_ifs at hk with hlen
  cases hp : Header.parse lp.sub with
  | panic => simp [hp] at hk
  | err e => simp [hp] at hk
  | ok hdr =>
    rw [hp] at hk
    cases hk
    unfold round
    rw [if_neg hlen, hp]
    rfl

/-- A pass of the loop over a command other than CHANGE_NOTIFY answers it. -/
theorem round_eq_respond (srv : Config E) {lp : Loop} {k : Command E}
    (hk : nextCommand c lp = some k) (hne : k.hdr.command ≠ cmdChangeNotify) (sh : Shared E) :
    round srv lp ⟨sh, c⟩ = respond srv k.origin k.hdr k.lp ⟨sh, c.charge k.hdr.creditCharge⟩ := by
  rw [round_eq srv hk, if_neg fun h => hne h.1]

/-- The steps of a transition that handles the command `k`. -/
inductive Change (srv : Config E) (k : Option (Command E)) (s : St E) : St E → Prop where
  | aside {s' : St E} (h : Aside (fun _ => false) s s') : Change srv k s s'
  | exec (cmd : Command E) (hk : k = some cmd) (hf : cmd.lp.chainFailed = false)
      (hs : s.c.sessions = cmd.before.sessions) : Change srv k s (cmd.record s)
  | effect {s' : St E} (cmd : Command E) (hk : k = some cmd) (hf : cmd.lp.chainFailed = false)
      (h : Effect srv cmd.origin cmd.msg s s') : Change srv k s s'

section

variable {k : Option (Command E)} {cmd : Command E} {α : Type} {P : St E → Prop}

/-- The steps of a handler are steps of its transition. -/
theorem Change.ofEffect {m : M E α} {Q : α → St E → Prop} (hk : k = some cmd)
    (hf : cmd.lp.chainFailed = false)
    (h : Moves (Effect srv cmd.origin cmd.msg) P m Q) : Moves (Change srv k) P m Q :=
  fun s hs => ⟨(h s hs).1.lift id fun _ _ he => .effect cmd hk hf he, (h s hs).2⟩

/-- An update of the connection beside its tables. -/
theorem Change.modifyConn {f : Conn E → Conn E} {Q : Unit → St E → Prop}
    (hf : ∀ c, (f c).tables = c.tables) (hQ : ∀ s : St E, P s → Q () { s with c := f s.c }) :
    Moves (Change srv k) P (Server.modifyConn f) Q :=
  Moves.step (fun _ => rfl) (fun _ _ => .aside (.ofConn (hf _))) hQ

end

theorem Conn.updatePreauth_tables (c : Conn E) (b : Bytes) : (c.updatePreauth b).tables = c.tables := by
  unfold Conn.updatePreauth
  split_ifs <;> rfl

/-- `finishResponse` leaves the tables of the connection alone. -/
theorem Conn.finishResponse_tables (first : Bool) (status : UInt32) (hdr : Header) (start : ℕ)
    (c : Conn E) : (c.finishResponse srv first status hdr start).tables = c.tables := by
  unfold Conn.finishResponse
  extract_lets hdr' c1 c2
  have h2 : c2.tables = c.tables := by
    unfold c2
    split_ifs
    · exact updatePreauth_tables c1 _
    · rfl
  cases c2.signerFor hdr' with
  | none => exact h2
  | some signer => exact h2

/-- The loop variables with which a response begins: the chain has failed, or they are
those of the command and its sessions are as before it. -/
def Fresh (cmd : Command E) (lp : Loop) (s : St E) : Prop :=
  lp.chainFailed = true ∨
    lp = cmd.lp ∧ cmd.lp.chainFailed = false ∧ s.c.sessions = cmd.before.sessions ∧ s.c.Listed

theorem route_moves (cmd : Command E) (lp : Loop) :
    Moves (Change srv (some cmd)) (Fresh cmd lp) (route srv cmd.origin cmd.hdr lp)
      fun _ _ => True := by
  intro s hs
  by_cases hf : lp.chainFailed = true
  · unfold route
    rw [if_pos hf]
    exact ⟨.refl, fun _ _ _ => trivial⟩
  · obtain ⟨rfl, hf', hsess, hl⟩ := hs.resolve_left hf
    unfold route
    rw [if_neg hf]
    split_ifs with hcancel
    · have hc : Answers srv cmd.origin cmd.msg (fun _ => True) (handleCancel cmd.hdr) :=
        handleCancel_answers hcancel cmd.hdr
      have h := Change.ofEffect (k := some cmd) rfl hf' (hc.map (fun status =>
        (⟨status, cmd.hdr, cmd.lp.sub, cmd.lp.lastFileId⟩ : Handled)) s.c.out)
      exact ⟨(h s ⟨trivial, rfl⟩).1, fun _ _ _ => trivial⟩
    · have hd : Answers srv cmd.origin cmd.msg Conn.Listed
          (dispatch srv cmd.origin cmd.msg cmd.hdr cmd.lp.lastFileId) :=
        dispatch_answers cmd.hdr cmd.lp.lastFileId
      have h := Change.ofEffect (k := some cmd) rfl hf' (hd s.c.out)
      exact ⟨.head (.exec cmd rfl hf' hsess) (h (cmd.record s) ⟨hl, rfl⟩).1, fun _ _ _ => trivial⟩

theorem respond_moves (cmd : Command E) (lp : Loop) :
    Moves (Change srv (some cmd)) (Fresh cmd lp) (respond srv cmd.origin cmd.hdr lp)
      fun _ _ => True := by
  unfold respond
  refine Moves.bind (Q := fun _ => Fresh cmd lp)
    (Change.modifyConn (fun _ => rfl) fun s hs => hs) fun _ => ?_
  refine Moves.bind (Q := fun _ => Fresh cmd lp) (Moves.get fun s hs => hs) fun before => ?_
  refine Moves.bind (Q := fun _ => Fresh cmd lp)
    (Moves.step (fun _ => rfl) (fun s _ => .aside (.ofConn rfl)) fun s hs => hs) fun _ => ?_
  refine Moves.bind (route_moves cmd lp) fun r => ?_
  refine Moves.bind (Q := fun _ _ => True)
    (Change.modifyConn (fun c => c.finishResponse_tables ..) fun s hs => hs) fun _ => ?_
  exact Moves.bind (Q := fun _ _ => True) (Moves.get fun s hs => hs) fun after =>
    Moves.pure fun _ _ => trivial

/-- The state in which the body of a response is written. -/
def St.answering (s : St E) (lp : Loop) : St E :=
  ⟨s.sh, { s.c with out := linkPrevious lp.prevRespStart s.c.out ++ zeros headerSize }⟩

theorem respond_eq {o : Origin} {hdr : Header} {lp : Loop} {s s' : St E} {r : Handled}
    (h : route srv o hdr lp (s.answering lp) = .ok r s') :
    ∃ start reply, respond srv o hdr lp s = .ok
      ((({ (lp.setSub r.sub).settle r.status with
          lastFileId := r.lastFileId
          prevRespStart := some start } : Loop).addReply reply).advance hdr.nextCommand)
      ⟨s'.sh, s'.c.finishResponse srv lp.first r.status r.hdr start⟩ ∧
      start = (linkPrevious lp.prevRespStart s.c.out).length ∧ reply.start = start := by
  let before := { s.c with out := linkPrevious lp.prevRespStart s.c.out }
  let start := before.out.length
  let s₂ : St E := ⟨s'.sh, s'.c.finishResponse srv lp.first r.status r.hdr start⟩
  have hrest : respond srv o hdr lp s = (route srv o hdr lp >>= fun r => do
      modifyConn (Conn.finishResponse srv lp.first r.status r.hdr start)
      let after ← Go.get
      let lp := { (lp.setSub r.sub).settle r.status with lastFileId := r.lastFileId, prevRespStart := some start }
      return (lp.addReply (replyOf before after.c o hdr r.hdr start)).advance hdr.nextCommand) (s.answering lp) := rfl
  refine ⟨start, replyOf before s₂.c o hdr r.hdr start, ?_, rfl, rfl⟩
  rw [hrest, bind_ok h]
  rfl

theorem Conn.finishResponse_dead (first : Bool) (status : UInt32) (hdr : Header) (start : ℕ)
    (c : Conn E) : (c.finishResponse srv first status hdr start).dead = c.dead := by
  unfold Conn.finishResponse
  extract_lets hdr' c1 c2
  have h2 : c2.dead = c.dead := by
    unfold c2 Conn.updatePreauth
    split_ifs <;> rfl
  cases c2.signerFor hdr' with
  | none => exact h2
  | some signer => exact h2

/-- A CHANGE_NOTIFY that fails fails the chain, so that nothing but its error body and
the header of a response follows. -/
theorem notify_moves (cmd : Command E) (hcmd : cmd.hdr.command = cmdChangeNotify)
    (hhdr : cmd.hdr.In cmd.msg) :
    Moves (Change srv (some cmd))
      (fun s => cmd.lp.chainFailed = false ∧ s.c.sessions = cmd.before.sessions)
      (notify srv cmd.origin cmd.hdr cmd.lp) fun _ _ => True := by
  unfold notify
  refine Moves.bind (Q := fun _ _ => cmd.lp.chainFailed = false)
    (Moves.step (fun _ => rfl) (fun s hs => .exec cmd rfl hs.1 hs.2) fun s hs => hs.1)
    fun _ => ?_
  refine Moves.bind (Q := fun _ _ => cmd.lp.chainFailed = false)
    (Moves.get fun s hs => hs) fun before => ?_
  refine Moves.bind (Q := fun r _ => r.2 = true ∨
    r.1 ≠ statusSuccess ∧ r.1 ≠ statusMoreProcessingRequired) ?_ fun r => ?_
  · intro s hs
    have hn : Steps srv cmd.origin cmd.msg _ (handleChangeNotify cmd.origin cmd.msg cmd.hdr) _ :=
      handleChangeNotify_steps hcmd hhdr s.c.out
    have h := Change.ofEffect (k := some cmd) rfl hs hn
    refine ⟨(h s rfl).1, fun r s' hr => ?_⟩
    rcases (h s rfl).2 r s' hr with ⟨rfl, -⟩ | ⟨⟨h1, h2, -⟩, -⟩
    · exact .inl rfl
    · exact .inr ⟨h1, h2⟩
  · rcases r with ⟨status, pending⟩
    dsimp only
    split_ifs with hp
    · exact Moves.pure fun _ _ => trivial
    · refine Moves.mono (respond_moves cmd _) (fun s hs => .inl ?_) fun _ _ h => h
      obtain ⟨h1, h2⟩ := hs.resolve_left hp
      simp [Loop.settle, h1, h2]

/-- One pass of the loop moves along the steps of its command. -/
theorem round_moves (srv : Config E) (lp : Loop) {s : St E} (hl : s.c.Listed) :
    Relation.ReflTransGen (Change srv (nextCommand s.c lp)) s (round srv lp s).state := by
  unfold round nextCommand
  split_ifs with hoff
  · exact .refl
  cases hp : Header.parse lp.sub with
  | panic => exact .refl
  | err e => exact .refl
  | ok hdr =>
    let cmd : Command E := ⟨s.c, hdr, patchFileId hdr (checkSignature s.c hdr lp)⟩
    let s₁ : St E := { s with c := s.c.charge hdr.creditCharge }
    have h1 : Change srv (some cmd) s s₁ := .aside (.ofConn rfl)
    refine .head h1 ?_
    change Relation.ReflTransGen (Change srv (some cmd)) s₁
      ((if hdr.command = cmdChangeNotify ∧ cmd.lp.chainFailed = false then
        notify srv cmd.origin hdr cmd.lp else respond srv cmd.origin hdr cmd.lp) s₁).state
    split_ifs with hn
    · have hk : nextCommand s.c lp = some cmd := by simp [nextCommand, hoff, hp, cmd]
      exact (notify_moves cmd hn.1 (nextCommand_spec hk).2.2.2 s₁ ⟨hn.2, rfl⟩).1
    · refine (respond_moves cmd cmd.lp s₁ ?_).1
      cases hf : cmd.lp.chainFailed with
      | true => exact .inl hf
      | false => exact .inr ⟨rfl, hf, rfl, hl⟩

/-- **A transition that handles a command moves along the steps of that command.** -/
theorem subCommand_moves (srv : Config E) (lp : Loop) {s : St E} (hl : s.c.Listed) :
    Relation.ReflTransGen (Change srv (nextCommand s.c lp)) s (subCommand srv lp s).state := by
  have h := round_moves srv lp hl
  unfold subCommand
  rw [bind_apply]
  cases hr : round srv lp s with
  | panic s' => rw [hr] at h; exact h
  | ok lp' s' => rw [hr] at h; exact h.tail (.aside (.ofConn rfl))

/-! ### The other transitions -/

theorem Aside.modifySession {p : Event E → Bool} {s : St E} {sid : UInt64}
    {f : Session E → Session E} (hf : ∀ sess, (f sess).core = sess.core)
    (hc : s.c.Coherent → ∀ sess, s.c.session? sid = some sess → (f sess).Coherent) :
    Aside p s { s with c := s.c.modifySession sid f } := by
  refine ⟨rfl, fun sid' => ?_, rfl, rfl, rfl, rfl, ⟨[], rfl, by simp⟩, List.Subset.refl _,
    fun _ _ hq => .inl hq, .refl, fun h => h.modifySession (hc h)⟩
  rw [Conn.session?_modifySession]
  split_ifs
  · rw [Option.map_map]
    exact Option.map_congr fun sess _ => hf sess
  · rfl

/-- A computation that is an aside from every state. -/
def Quiet {α : Type} (p : Event E → Bool) (m : M E α) : Prop := ∀ s, Aside p s (m s).state

namespace Quiet

variable {α β : Type} {p q : Event E → Bool}

theorem pure (a : α) : Quiet p (Pure.pure a : M E α) := fun s => .refl s

theorem bind {m : M E α} {f : α → M E β} (hm : Quiet p m) (hf : ∀ a, Quiet p (f a)) :
    Quiet p (m >>= f) := by
  intro s
  have h := hm s
  rw [bind_apply]
  cases hms : m s with
  | ok a s' => rw [hms] at h; exact h.trans (hf a s')
  | panic s' => rw [hms] at h; exact h

theorem mono {m : M E α} (h : Quiet p m) (hpq : ∀ e, p e = true → q e = true) : Quiet q m :=
  fun s => (h s).mono hpq

theorem get {f : St E → M E β} (hf : ∀ s, Quiet p (f s)) : Quiet p (Go.get >>= f) :=
  bind (fun s => .refl s) hf

theorem modifyConn {f : Conn E → Conn E} (hf : ∀ c, (f c).tables = c.tables) :
    Quiet p (Server.modifyConn f) := fun _ => .ofConn (hf _)

theorem ask {f : E.World → α × E.World} (hf : ∀ w, Asked w (f w).2) : Quiet p (Server.ask f) :=
  fun _ => .ofTrace rfl rfl rfl rfl (fun _ => List.Subset.refl _) ⟨[], rfl, by simp⟩
    (.single (.inl (hf _)))

theorem writeMessage (frame : Bytes) (sealing : Option (UInt64 × Bytes × Bytes))
    (content : List Addressee) : Quiet isWrite (writeMessage frame sealing content : M E Bool) := by
  intro s
  unfold Server.writeMessage
  split_ifs
  · exact .refl s
  · exact .ofTrace rfl rfl rfl rfl (fun _ => List.Subset.refl _)
      ⟨[.wrote s.c.id frame sealing content], rfl, by simp [isWrite]⟩ .refl

end Quiet

theorem openTransform_quiet {p : Event E → Bool} (b : Bytes) : Quiet p (openTransform b : M E _) := by
  unfold openTransform
  split_ifs
  · exact .pure _
  · intro s
    rw [bind_ok (get_apply s)]
    cases hs : s.c.session? (u64At b 44) with
    | none => exact .refl s
    | some sess =>
      dsimp only
      cases hk : sess.decryptionKey with
      | none => exact .refl s
      | some key =>
        dsimp only
        cases hccm : sess.decCCM <|> Encryption.newAESCCM key with
        | none => exact .refl s
        | some ccm =>
          refine .modifySession (fun _ => rfl) fun hc sess' hs' => ?_
          cases hs.symm.trans hs'
          obtain ⟨henc, hdec⟩ := hc _ _ hs
          rw [hk] at hdec
          have hkey := key_of_cipher hdec hccm
          exact ⟨henc, fun ccm' h => by cases h; exact hk.trans hkey⟩

theorem receive_quiet {p : Event E → Bool} (raw : Bytes) : Quiet p (receive raw : M E Unit) := by
  refine .bind ?_ fun r => ?_
  · unfold screen
    split_ifs
    · exact openTransform_quiet raw
    · refine .get fun s => ?_
      split_ifs
      · exact .pure _
      · exact .pure _
  · cases r with
    | none => exact .modifyConn fun _ => rfl
    | some r =>
      refine .modifyConn fun c => ?_
      simp only [Conn.begin]
      split_ifs
      · exact Conn.updatePreauth_tables _ _
      · rfl

theorem maybeSealResponse_quiet {p : Event E → Bool} (out : Bytes) : Quiet p (maybeSealResponse out : M E _) := by
  unfold maybeSealResponse
  extract_lets cmd sid
  split_ifs
  · exact .pure _
  · intro s
    rw [bind_ok (get_apply s)]
    cases hs : s.c.session? sid with
    | none => exact .refl s
    | some sess =>
      dsimp only
      cases hk : sess.encryptionKey with
      | none => exact .refl s
      | some key =>
        dsimp only
        split_ifs
        · exact .refl s
        · cases hccm : sess.encCCM <|> Encryption.newAESCCM key with
          | none => exact .refl s
          | some ccm =>
            let s₁ : St E := { s with c := s.c.modifySession sid fun sess => { sess with encCCM := some ccm } }
            have h1 : Aside p s s₁ := by
              refine .modifySession (fun _ => rfl) fun hc sess' hs' => ?_
              cases hs.symm.trans hs'
              obtain ⟨henc, hdec⟩ := hc _ _ hs
              rw [hk] at henc
              have hkey := key_of_cipher henc hccm
              exact ⟨fun ccm' h => by cases h; exact hk.trans hkey, hdec⟩
            have h2 : Quiet p (ask E.nonce : M E _) := .ask fun _ => .nonce
            exact h1.trans (h2 s₁)

theorem sendReply_quiet (lp : Loop) : Quiet isWrite (sendReply lp : M E Unit) := by
  refine .get fun s => ?_
  split_ifs
  · exact .modifyConn fun _ => rfl
  · refine .bind (maybeSealResponse_quiet _) fun r => ?_
    cases r with
    | none => exact .bind (.writeMessage _ _ _) fun ok => .modifyConn fun _ => rfl
    | some r => exact .bind (.writeMessage _ _ _) fun ok => .modifyConn fun _ => rfl

/-- `drainOne` takes a message out of the queue of its connection. -/
theorem drainOne_aside {q : Queued} {rest : List Queued} {s : St E}
    (h : s.sh.asyncResp s.c.id = q :: rest) :
    Aside isWrite s (drainOne q rest s).state := by
  let s₁ : St E := { s with sh := { s.sh with
    asyncResp := Function.update s.sh.asyncResp s.c.id rest } }
  have h1 : Aside isWrite s s₁ := by
    refine .ofTrace rfl rfl rfl rfl (fun cid => ?_) ⟨[], rfl, by simp⟩ .refl
    dsimp only
    by_cases hc : cid = s.c.id
    · subst hc
      rw [update_self, h]
      exact subset_cons_self q rest
    · rw [update_of_ne hc]
      exact List.Subset.refl _
  have h2 : Quiet isWrite (writeMessage q.frame none [q.dest] >>= fun _ => pure () : M E Unit) :=
    .bind (.writeMessage _ _ _) fun _ => .pure _
  exact h1.trans (h2 s₁)

theorem Shared.sendFinal_asyncResp (sh : Shared E) (cid cid' : ConnId) (q : Queued) :
    ∀ q' ∈ (sh.sendFinal cid q).asyncResp cid', q' ∈ sh.asyncResp cid' ∨ q' = q := by
  intro q' hq
  unfold Shared.sendFinal at hq
  split_ifs at hq
  · exact .inl hq
  · dsimp only at hq
    by_cases hc : cid' = cid
    · subst hc
      simpa using hq
    · rw [update_of_ne hc] at hq
      exact .inl hq

/-- `finalizeCN` sends the message of a watcher. -/
theorem finalizeCN_aside {p : Event E → Bool} {i : ℕ} {w : Watcher E} {s : St E}
    (h : w ∈ s.c.watchers) (status : UInt32) (body : Bytes) :
    Aside p s (finalizeCN i w status body s).state := by
  have hsame : ∀ {α : Type} (f : Shared E → α), (∀ sh (r : ConnId → List Queued),
      f { sh with asyncResp := r } = f sh) → ∀ q, f (s.sh.sendFinal s.c.id q) = f s.sh := by
    intro α f hf q
    unfold Shared.sendFinal
    split_ifs
    · rfl
    · exact hf s.sh _
  refine ⟨rfl, fun _ => rfl, hsame Shared.locks (fun _ _ => rfl) _,
    hsame Shared.oplocks (fun _ _ => rfl) _, hsame Shared.nextSess (fun _ _ => rfl) _,
    hsame Shared.connDone (fun _ _ => rfl) _, ⟨[], hsame Shared.trace (fun _ _ => rfl) _, by simp⟩,
    eraseIdx_subset .., fun cid q hq => ?_, ?_, fun h => h⟩
  · rcases s.sh.sendFinal_asyncResp _ cid _ q hq with hq | rfl
    · exact .inl hq
    · exact .inr ⟨w, h, status, body, rfl⟩
  · have hw := hsame Shared.world (fun _ _ => rfl)
      { frame := finalizeAsync w.hdr w.op.asyncID status body, dest := w.dest }
    change Runs _ s.sh.world (s.sh.sendFinal s.c.id _).world
    rw [hw]
    exact .refl

theorem watchTick_aside {i : ℕ} {w : Watcher E} {s : St E} (h : w ∈ s.c.watchers) :
    Aside isWatch s (watchTick i w s).state := by
  let items := E.enumerate w.h [0x2A] s.sh.world
  let cur := snapshotMap (untilError items.1).1
  let curNames := E.rangeOrder _ cur.keys items.2
  let oldNames := E.rangeOrder _ w.snap.keys curNames.2
  let events := diffEntries w.snap cur w.req.completionFilter curNames.1 oldNames.1
  let s₁ : St E := { s with sh := { s.sh with
    world := oldNames.2, trace := .call none (.enumerate w.h [0x2A]) :: s.sh.trace } }
  have h1 : Aside isWatch s s₁ := .ofTrace rfl rfl rfl rfl (fun _ => List.Subset.refl _)
    ⟨[.call none (.enumerate w.h [0x2A])], rfl, by simp [isWatch]⟩
    (((Relation.ReflTransGen.single (.inr ⟨.enumerate w.h [0x2A], ⟨none, rfl⟩, rfl⟩)).tail
      (.inl (.rangeOrder _ _))).tail (.inl (.rangeOrder _ _)))
  have hrun : watchTick i w s = (if events ≠ [] then
      finalizeCN i w statusSuccess (buildChangeNotifyBody w.req.outputBufferLength [] events)
    else pure ()) s₁ := rfl
  rw [hrun]
  split_ifs
  · have h2 : w ∈ s₁.c.watchers := h
    exact h1.trans (finalizeCN_aside h2 _ _)
  · exact h1

end Server
end SmbServer
