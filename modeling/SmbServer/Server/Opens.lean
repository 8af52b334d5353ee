/-
# The opens of a server

`Sys.live` lists the opens of all connections, each with the ids that lead to it and the
share of its tree.  What a step does to them is one of three things: a CREATE adds one
(`registerOpen_open?`), CLOSE, TREE_DISCONNECT, LOGOFF and the end of a connection take
some away together with their entries in the server-wide tables (`Ended`), and every
other step leaves them and these tables as they are (`Effect.opens_cases`).

What a client was told about an open is read off the trace: `createdAs` is the path and
the oplock level of the CREATE that made it, `holds` whether the level was not zero and
no break has been queued since.
-/

import SmbServer.Server.Frames

namespace SmbServer
namespace Server

open Wire Function List Option Conn Sys

variable {E : Env} {srv : Config E} {o : Origin} {msg : Bytes} {s s' : St E}

/-- The ids that lead to an open. -/
structure OpenId where
  cid : ConnId
  sid : UInt64
  tid : UInt32
  fid : FileId
  deriving DecidableEq

/-- An open of a connection, with the share of its tree. -/
structure Live (E : Env) extends OpenId where
  share : Share E
  oh : OpenHandle E

/-- The opens of a connection. -/
def Conn.live (c : Conn E) : List (Live E) :=
  c.sessions.entries.flatMap fun sess => sess.2.trees.entries.flatMap fun tr =>
    tr.2.opens.entries.map fun oh => ⟨⟨c.id, sess.1, tr.1, oh.1⟩, tr.2.share, oh.2⟩

/-- The opens of all connections. -/
def Sys.live (S : Sys E) : List (Live E) :=
  (List.range S.next).flatMap fun cid => ((S.conns cid).map Conn.live).getD []

theorem Conn.mem_live {c : Conn E} {x : Live E} :
    x ∈ c.live ↔ x.cid = c.id ∧ ∃ tr, c.tree? x.sid x.tid = some tr ∧ tr.share = x.share ∧
      tr.opens.lookup x.fid = some x.oh := by
  unfold Conn.live
  simp only [mem_flatMap, List.mem_map]
  constructor
  · rintro ⟨⟨sid, sess⟩, hs, ⟨tid, tr⟩, ht, ⟨fid, oh⟩, ho, rfl⟩
    refine ⟨rfl, tr, ?_, rfl, AList.mem_lookup_iff.2 ho⟩
    rw [Conn.tree?, Conn.session?, mem_def.1 (AList.mem_lookup_iff.2 hs)]
    exact AList.mem_lookup_iff.2 ht
  · rintro ⟨hid, tr, ht, hsh, ho⟩
    obtain ⟨sess, hs, ht⟩ := bind_eq_some_iff.1 ht
    refine ⟨⟨x.sid, sess⟩, AList.mem_lookup_iff.1 hs, ⟨x.tid, tr⟩, AList.mem_lookup_iff.1 ht,
      ⟨x.fid, x.oh⟩, AList.mem_lookup_iff.1 ho, ?_⟩
    obtain ⟨⟨cid, sid, tid, fid⟩, share, oh⟩ := x
    obtain rfl : cid = c.id := hid
    obtain rfl : tr.share = share := hsh
    rfl

theorem Sys.mem_live {S : Sys E} (hb : Base S) {x : Live E} :
    x ∈ S.live ↔ ∃ c, S.conns x.cid = some c ∧ x ∈ c.live := by
  unfold Sys.live
  simp only [mem_flatMap, mem_range]
  constructor
  · rintro ⟨cid, -, hx⟩
    cases hc : S.conns cid with
    | none => simp [hc] at hx
    | some c =>
      rw [hc] at hx
      refine ⟨c, ?_, hx⟩
      rw [(Conn.mem_live.1 hx).1, (hb _ _ hc).1]
      exact hc
  · rintro ⟨c, hc, hx⟩
    exact ⟨x.cid, (hb _ _ hc).2.1, by rw [hc]; exact hx⟩

theorem Sys.open?_of_mem_live {S : Sys E} (hb : Base S) {x : Live E} (hx : x ∈ S.live) :
    ∃ c, S.conns x.cid = some c ∧ c.open? x.sid x.tid x.fid = some x.oh := by
  obtain ⟨c, hc, hx⟩ := (Sys.mem_live hb).1 hx
  obtain ⟨-, tr, htr, -, ho⟩ := Conn.mem_live.1 hx
  exact ⟨c, hc, open?_eq_some.2 ⟨tr, htr, ho⟩⟩

/-! ### CREATE -/

/-- The request of a CREATE that is handled. -/
def Command.create? (k : Command E) : Option CreateRequest :=
  if k.lp.chainFailed = false ∧ k.origin.cmd = cmdCreate then
    match CreateRequest.parse k.msg with
    | .ok req => some req
    | _ => none
  else none

theorem Command.create?_eq_some {k : Command E} {req : CreateRequest} (hf : k.lp.chainFailed = false)
    (hcmd : k.origin.cmd = cmdCreate) (hreq : CreateRequest.parse k.msg = .ok req) : k.create? = some req := by
  rw [Command.create?, if_pos ⟨hf, hcmd⟩, hreq]

theorem Command.cmd_of_create? {k : Command E} {req : CreateRequest} (h : k.create? = some req) :
    k.origin.cmd = cmdCreate := by
  unfold Command.create? at h
  split_ifs at h with hk
  exact hk.2

/-- The open a CREATE makes. -/
def newOpen (o : Origin) (tr : Tree E) (req : CreateRequest) (h : E.Handle) : OpenHandle E where
  h
  fileId := makeFileID o.sid o.tid (tr.nextID + 1)
  path := (openOptions req).path
  deletePending := deleteOnClose req

/-- `registerOpen` adds one open under its new id. -/
theorem registerOpen_open? {tr : Tree E} {req : CreateRequest} {h : E.Handle} {r : FileId × UInt8}
    (htr : s.c.tree? o.sid o.tid = some tr) (hs : registerOpen o tr req h s = .ok r s')
    (sid : UInt64) (tid : UInt32) (fid : FileId) :
    s'.c.open? sid tid fid = if sid = o.sid ∧ tid = o.tid ∧ fid = r.1 then some (newOpen o tr req h)
      else s.c.open? sid tid fid := by
  simp only [registerOpen, Outcome.ok.injEq] at hs
  obtain ⟨rfl, rfl⟩ := hs
  unfold Conn.open?
  simp only [tree?_modifyTree]
  by_cases hids : sid = o.sid ∧ tid = o.tid
  · obtain ⟨rfl, rfl⟩ := hids
    by_cases hfid : fid = makeFileID o.sid o.tid (tr.nextID + 1)
    · subst hfid
      simp [htr, newOpen]
    · simp [htr, hfid]
  · rw [if_neg hids, if_neg fun h => hids ⟨h.1, h.2.1⟩]

/-! ### The end of opens -/

/-- What a client is told about an open: that it was created, or that its oplock breaks. -/
def Event.tells : Event E → Bool
  | .created .. | .oplockBreak .. => true
  | _ => false

/-- The opens are filed under their own ids. -/
def Conn.Named (c : Conn E) : Prop := ∀ sid tid fid oh, c.open? sid tid fid = some oh → oh.fileId = fid

/-- `s'` is `s` after the opens in `K` have ended. -/
structure Ended (K : UInt64 → UInt32 → FileId → Prop) (s s' : St E) : Prop where
  opens : ∀ sid tid fid oh,
    s'.c.open? sid tid fid = some oh ↔ ¬K sid tid fid ∧ s.c.open? sid tid fid = some oh
  oplocks : ∀ p, (s'.sh.oplocks p = none ∧
      ∃ sid tid fid oh, K sid tid fid ∧ s.c.open? sid tid fid = some oh ∧ oh.path = p) ∨
    (s'.sh.oplocks p = s.sh.oplocks p ∧
      ∀ sid tid fid oh, K sid tid fid → s.c.open? sid tid fid = some oh → oh.path ≠ p)
  locks : ∀ p r, r ∈ (s'.sh.locks p).ranges → r ∈ (s.sh.locks p).ranges ∧
    ∀ sid tid fid oh, K sid tid fid → s.c.open? sid tid fid = some oh → oh.path = p → r.fileId ≠ fid
  trace : ∃ es, s'.sh.trace = es ++ s.sh.trace ∧ ∀ e ∈ es, e.tells = false

/-- Closing the opens of a set of trees ends them. -/
theorem Closed.ended {origin : Option Origin} {K : UInt64 → UInt32 → Prop} (hn : s.c.Named)
    (h : Closed origin K s s') : Ended (fun sid tid _ => K sid tid) s s' := by
  obtain ⟨l, hl, hends⟩ := h.ends
  refine ⟨fun sid tid fid oh => h.open_iff sid tid fid oh, fun p => ?_, fun p r hr => ?_, ?_⟩
  · rw [hends.oplocks]
    split_ifs with hp
    · obtain ⟨oh, hm, rfl⟩ := hp
      obtain ⟨sid, tid, fid, hK, ho⟩ := (hl oh).1 hm
      exact .inl ⟨rfl, sid, tid, fid, oh, hK, ho, rfl⟩
    · exact .inr ⟨rfl, fun sid tid fid oh hK ho heq =>
        hp ⟨oh, (hl oh).2 ⟨sid, tid, fid, hK, ho⟩, heq⟩⟩
  · rw [hends.locks, mem_filter, decide_eq_true_iff] at hr
    refine ⟨hr.1, fun sid tid fid oh hK ho hp => ?_⟩
    rw [← hn sid tid fid oh ho]
    exact hr.2 oh ((hl oh).2 ⟨sid, tid, fid, hK, ho⟩) hp
  · obtain ⟨es, he, hes⟩ := hends.trace
    refine ⟨es, he, fun e hm => ?_⟩
    obtain ⟨oh, -, rfl⟩ := hes e hm
    rfl

/-- The opens a command ends. -/
def Ends (o : Origin) (msg : Bytes) (sid : UInt64) (tid : UInt32) (fid : FileId) : Prop :=
  sid = o.sid ∧ (o.cmd = cmdClose ∧ tid = o.tid ∧ (∃ req, CloseRequest.parse msg = .ok req ∧ req.fileId = fid) ∨
    o.cmd = cmdTreeDisconnect ∧ tid = o.tid ∨ o.cmd = cmdLogoff)

/-- `s'` is `s` up to what opens remember, and to locks taken through them. -/
structure Kept (o : Origin) (s s' : St E) : Prop where
  opens : ∀ sid tid fid oh, s'.c.open? sid tid fid = some oh → Persists s sid tid fid oh
  oplocks : s'.sh.oplocks = s.sh.oplocks
  locks : ∀ p r, r ∈ (s'.sh.locks p).ranges → r ∈ (s.sh.locks p).ranges ∨
    ∃ oh, s.c.open? o.sid o.tid r.fileId = some oh ∧ oh.path = p
  trace : ∃ es, s'.sh.trace = es ++ s.sh.trace ∧ ∀ e ∈ es, e.tells = false

/-- A CREATE that succeeds. -/
structure Registers (o : Origin) (msg : Bytes) (tr : Tree E) (req : CreateRequest) (h : E.Handle)
    (r : FileId × UInt8) (s s' : St E) : Prop where
  cmd : o.cmd = cmdCreate
  parse : CreateRequest.parse msg = .ok req
  tree : s.c.tree? o.sid o.tid = some tr
  opened : JustOpened o tr.share (openOptions req) (.ok h) s.sh.trace
  run : registerOpen o tr req h s = .ok r s'

theorem LockManager.mem_unlock {m : LockManager} {fid : FileId} {start length : UInt64} {r : LockRange}
    (h : r ∈ (m.unlock fid start length).ranges) : r ∈ m.ranges := mem_of_mem_eraseP h

theorem LockManager.mem_release {fid : FileId} {ls : List LockElement} {m : LockManager} {r : LockRange}
    (h : r ∈ (m.release fid ls).ranges) : r ∈ m.ranges := by
  induction ls generalizing m with
  | nil => exact h
  | cons l ls ih => exact LockManager.mem_unlock (ih h)

theorem LockManager.mem_tryLock {m m' : LockManager} {fid : FileId} {start length : UInt64} {exclusive : Bool}
    (ht : m.tryLock fid start length exclusive = some m') {r : LockRange} (h : r ∈ m'.ranges) :
    r ∈ m.ranges ∨ r.fileId = fid := by
  simp only [LockManager.tryLock] at ht
  split_ifs at ht
  cases ht
  rcases mem_append.1 h with h | h
  · exact .inl h
  · rw [mem_singleton.1 h]
    exact .inr rfl

/-- The ranges a LOCK leaves were there before or are of its open. -/
theorem LockManager.mem_lockElements {fid : FileId} {ls acquired : List LockElement} {m : LockManager}
    {r : LockRange} (h : r ∈ (m.lockElements fid acquired ls).2.ranges) :
    r ∈ m.ranges ∨ r.fileId = fid := by
  induction ls generalizing m acquired with
  | nil => exact .inl h
  | cons l ls ih =>
    unfold lockElements at h
    split_ifs at h
    · exact .inl (LockManager.mem_release h)
    · exact (ih h).imp_left LockManager.mem_unlock
    · split at h
      next ht => exact .inl (LockManager.mem_release h)
      next m' ht => exact (ih h).elim (LockManager.mem_tryLock ht) .inr
    · split at h
      next ht => exact .inl (LockManager.mem_release h)
      next m' ht => exact (ih h).elim (LockManager.mem_tryLock ht) .inr
    · exact .inl h

/-- The opens, the oplock table and the locks as they were. -/
theorem Kept.of_eq (hopens : ∀ sid tid fid oh, s'.c.open? sid tid fid = some oh → Persists s sid tid fid oh)
    (ho : s'.sh.oplocks = s.sh.oplocks) (hl : s'.sh.locks = s.sh.locks) {es : List (Event E)}
    (ht : s'.sh.trace = es ++ s.sh.trace) (hes : ∀ e ∈ es, e.tells = false) : Kept o s s' :=
  ⟨hopens, ho, fun p r hr => .inl (by rwa [hl] at hr), es, ht, hes⟩

theorem ended_endOpen {req : CloseRequest} {oh : OpenHandle E} (hcmd : o.cmd = cmdClose)
    (hreq : CloseRequest.parse msg = .ok req) (h : s.c.open? o.sid o.tid req.fileId = some oh) :
    Ended (Ends o msg) s (Server.endOpen o req.fileId oh.path s).state := by
  have hends : ∀ sid tid fid, Ends o msg sid tid fid ↔ sid = o.sid ∧ tid = o.tid ∧ fid = req.fileId := by
    intro sid tid fid
    unfold Ends
    rw [hreq, hcmd]
    simp [cmdClose, cmdTreeDisconnect, cmdLogoff, eq_comm (a := fid)]
  have hone : ∀ {sid tid fid oh'}, Ends o msg sid tid fid → s.c.open? sid tid fid = some oh' → oh' = oh := by
    intro sid tid fid oh' hK ho'
    obtain ⟨rfl, rfl, rfl⟩ := (hends _ _ _).1 hK
    exact some.inj (ho'.symm.trans h)
  have hself : Ends o msg o.sid o.tid req.fileId := (hends _ _ _).2 ⟨rfl, rfl, rfl⟩
  refine ⟨fun sid tid fid oh' => ?_, fun p => ?_, fun p r hr => ?_, [], rfl, by simp⟩
  · rw [hends]
    unfold Conn.open?
    simp only [Server.endOpen, Go.modify_apply, Outcome.state, tree?_modifyTree]
    by_cases hids : sid = o.sid ∧ tid = o.tid
    · rw [if_pos hids]
      cases s.c.tree? sid tid with
      | none => simp
      | some t => by_cases hfid : fid = req.fileId <;> simp [hids, hfid, GoMap.lookup_erase']
    · rw [if_neg hids]
      simp only [iff_and_self]
      exact fun _ hK => hids ⟨hK.1, hK.2.1⟩
  · by_cases hp : oh.path = p
    · subst hp
      exact .inl ⟨update_self .., o.sid, o.tid, req.fileId, oh, hself, h, rfl⟩
    · refine .inr ⟨update_of_ne (Ne.symm hp) .., fun sid tid fid oh' hK ho' => ?_⟩
      rwa [hone hK ho']
  · by_cases hp : oh.path = p
    · subst hp
      simp only [Server.endOpen, Go.modify_apply, Outcome.state, Shared.unlockAll, Shared.release,
        update_self, LockManager.unlockAll, mem_filter, decide_eq_true_iff] at hr
      refine ⟨hr.1, fun sid tid fid oh' hK ho' _ => ?_⟩
      rw [((hends _ _ _).1 hK).2.2]
      exact hr.2
    · simp only [Server.endOpen, Go.modify_apply, Outcome.state, Shared.unlockAll, Shared.release,
        update_of_ne (Ne.symm hp)] at hr
      refine ⟨hr, fun sid tid fid oh' hK ho' heq => ?_⟩
      rw [hone hK ho'] at heq
      exact absurd heq hp

/-- Opens that have ended, and then tables that have none of them left. -/
theorem Ended.drop {K K' : UInt64 → UInt32 → FileId → Prop} {s1 : St E} (h : Ended K s s1)
    (hK : ∀ sid tid fid, K sid tid fid ↔ K' sid tid fid)
    (hopens : ∀ sid tid fid oh, s'.c.open? sid tid fid = some oh ↔
      s1.c.open? sid tid fid = some oh)
    (ho : s'.sh.oplocks = s1.sh.oplocks) (hl : s'.sh.locks = s1.sh.locks) {e : Event E}
    (ht : s'.sh.trace = e :: s1.sh.trace) (he : e.tells = false) : Ended K' s s' := by
  obtain rfl : K = K' := by
    funext sid tid fid
    exact propext (hK sid tid fid)
  refine ⟨fun sid tid fid oh => (hopens ..).trans (h.opens ..), fun p => ?_, fun p r hr => ?_, ?_⟩
  · rw [ho]
    exact h.oplocks p
  · rw [hl] at hr
    exact h.locks p r hr
  · obtain ⟨es, hes, htells⟩ := h.trace
    exact ⟨e :: es, by rw [ht, hes]; rfl, forall_mem_cons.2 ⟨he, htells⟩⟩

/-- Without a tree that has no opens, the opens are the same. -/
theorem Conn.open?_eraseTree {c : Conn E} {sid0 : UInt64} {tid0 : UInt32}
    (hnone : ∀ fid, c.open? sid0 tid0 fid = none) (sid : UInt64) (tid : UInt32) (fid : FileId) :
    (c.modifySession sid0 fun sess => { sess with trees := sess.trees.erase tid0 }).open? sid tid fid =
      c.open? sid tid fid := by
  by_cases hs : sid = sid0
  · subst hs
    by_cases ht : tid = tid0
    · subst ht
      rw [hnone]
      unfold Conn.open?
      rw [tree?_modifySession, if_pos rfl]
      cases c.session? sid <;> simp
    · unfold Conn.open?
      rw [tree?_modifySession, if_pos rfl]
      simp [Conn.tree?, ht]
  · unfold Conn.open?
    rw [tree?_modifySession, if_neg hs]

/-- Without a session that has no opens, the opens are the same. -/
theorem Conn.open?_eraseSession {c : Conn E} {sid0 : UInt64} (hnone : ∀ tid fid, c.open? sid0 tid fid = none)
    (sid : UInt64) (tid : UInt32) (fid : FileId) :
    ({ c with sessions := c.sessions.erase sid0 } : Conn E).open? sid tid fid = c.open? sid tid fid := by
  by_cases hs : sid = sid0
  · subst hs
    rw [hnone]
    simp [Conn.open?, Conn.tree?, Conn.session?]
  · simp [Conn.open?, Conn.tree?, Conn.session?, hs]

theorem Closed.open?_eq_none {origin : Option Origin} {K : UInt64 → UInt32 → Prop} (h : Closed origin K s s')
    {sid : UInt64} {tid : UInt32} (hK : K sid tid) (fid : FileId) : s'.c.open? sid tid fid = none := by
  cases ho : s'.c.open? sid tid fid with
  | none => rfl
  | some oh => exact absurd hK ((h.open_iff sid tid fid oh).1 ho).1

/-- A TREE_DISCONNECT ends the opens of its tree. -/
theorem ended_treeDisconnect {s1 : St E} (hcmd : o.cmd = cmdTreeDisconnect) (hn : s.c.Named)
    (hc : Closed (some o) (fun sid tid => sid = o.sid ∧ tid = o.tid) s s1) :
    Ended (Ends o msg) s
      { sh := { s1.sh with trace := .treeDisconnect o.conn o.sid o.tid :: s1.sh.trace }
        c := s1.c.modifySession o.sid fun sess => { sess with trees := sess.trees.erase o.tid } } := by
  refine (hc.ended hn).drop (fun sid tid fid => ?_) (fun sid tid fid oh => ?_) rfl rfl rfl rfl
  · unfold Ends
    rw [hcmd]
    simp [cmdClose, cmdTreeDisconnect, cmdLogoff]
  · rw [open?_eraseTree fun fid => hc.open?_eq_none ⟨rfl, rfl⟩ fid]

theorem ended_logoff {s1 : St E} (hcmd : o.cmd = cmdLogoff) (hn : s.c.Named)
    (hc : Closed (some o) (fun sid _ => sid = o.sid) s s1) :
    Ended (Ends o msg) s
      { sh := { s1.sh with trace := .logoff o.conn o.sid :: s1.sh.trace }
        c := { s1.c with sessions := s1.c.sessions.erase o.sid } } := by
  refine (hc.ended hn).drop (fun sid tid fid => ?_) (fun sid tid fid oh => ?_) rfl rfl rfl rfl
  · unfold Ends
    rw [hcmd]
    simp [cmdClose, cmdTreeDisconnect, cmdLogoff]
  · rw [open?_eraseSession fun tid fid => hc.open?_eq_none rfl fid]

/-- **What a step does to the opens**: a CREATE registers one, some end, or they stay. -/
theorem Effect.opens_cases (he : Effect srv o msg s s') (hn : s.c.Named) :
    (∃ tr req h r, Registers o msg tr req h r s s') ∨ Ended (Ends o msg) s s' ∨ Kept o s s' := by
  have hopens : o.cmd ≠ cmdCreate → ∀ sid tid fid oh, s'.c.open? sid tid fid = some oh →
      Persists s sid tid fid oh := fun hcmd sid tid fid oh h =>
    (he.open_cases h).resolve_right fun hc => hcmd hc.2.2.cmd
  have hnil : ∀ e ∈ ([] : List (Event E)), e.tells = false := by simp
  have hone : ∀ {e : Event E}, e.tells = false → ∀ e' ∈ [e], e'.tells = false := fun h e' hm =>
    mem_singleton.1 hm ▸ h
  cases he with
  | create tr req h r _ hcmd hreq htr hopen hs => exact .inl ⟨tr, req, h, r, hcmd, hreq, htr, hopen, hs⟩
  | endOpen req oh hcmd hreq h => exact .inr (.inl (ended_endOpen hcmd hreq h))
  | treeDisconnect s1 hcmd h hc => exact .inr (.inl (ended_treeDisconnect hcmd hn hc))
  | logoff s1 hcmd h hc => exact .inr (.inl (ended_logoff hcmd hn hc))
  | setOpen fid0 oh0 oh' h0 hh hf hp hl =>
    refine .inr (.inr (.of_eq (fun sid tid fid oh h => ?_) rfl rfl rfl hnil))
    rw [open?_modifyOpen] at h
    split_ifs at h with heq
    · obtain ⟨rfl, rfl, rfl⟩ := heq
      rw [h0] at h
      cases h
      exact ⟨oh0, h0, hh, hf, hp, hl⟩
    · exact .ofOpen h
  | lock req oh hcmd hreq h =>
    refine .inr (.inr ⟨fun sid tid fid oh h => .ofOpen h, rfl, fun p r hr => ?_, [], rfl, hnil⟩)
    by_cases hp : oh.path = p
    · subst hp
      simp only [update_self] at hr
      rcases LockManager.mem_lockElements hr with hr | hr
      · exact .inl hr
      · exact .inr ⟨oh, hr ▸ h, rfl⟩
    · simp only [update_of_ne (Ne.symm hp)] at hr
      exact .inl hr
  | call w op h =>
    exact .inr (.inr (.of_eq (fun _ _ _ _ h => .ofOpen h) rfl rfl rfl (hone rfl)))
  | session auth hcmd =>
    exact .inr (.inr (.of_eq (hopens (by rw [hcmd]; decide)) rfl rfl rfl (hone rfl)))
  | auth sid w a hcmd =>
    exact .inr (.inr (.of_eq (hopens (by rw [hcmd]; decide)) rfl rfl rfl hnil))
  | identity sid r hcmd h =>
    exact .inr (.inr (.of_eq (hopens (by rw [hcmd]; decide)) rfl rfl rfl (hone rfl)))
  | treeConnect share sess hcmd h ha =>
    exact .inr (.inr (.of_eq (hopens (by rw [hcmd]; decide)) rfl rfl rfl (hone rfl)))
  | _ => exact .inr (.inr (.of_eq (fun _ _ _ _ h => .ofOpen h) rfl rfl rfl hnil))

theorem Effect.named (he : Effect srv o msg s s') (hn : s.c.Named) : s'.c.Named := by
  intro sid tid fid oh ho
  rcases he.open_cases ho with ⟨oh0, ho0, -, hf, -, -⟩ | ⟨-, -, -, tr, req, hd, r, -, -, -, -, -, rfl⟩
  · rw [hf]
    exact hn sid tid fid oh0 ho0
  · rfl

theorem Change.named {k : Option (Command E)} (h : Change srv k s s') (hn : s.c.Named) : s'.c.Named := by
  cases h with
  | aside ha => exact fun sid tid fid oh ho => hn sid tid fid oh (by rwa [ha.open?] at ho)
  | exec cmd hk hf hs => exact hn
  | effect cmd hk hf he => exact he.named hn

theorem Change.named_run {k : Option (Command E)} (h : Relation.ReflTransGen (Change srv k) s s')
    (hn : s.c.Named) : s'.c.Named := by
  induction h with
  | refl => exact hn
  | tail _ hst ih => exact hst.named ih

/-! ### What clients were told -/

/-- The open a CREATE answered with. -/
def Origin.made (o : Origin) (fid : FileId) : OpenId := ⟨o.conn, o.sid, o.tid, fid⟩

/-- The path and the oplock level of the last CREATE that returned the id. -/
def OpenId.createdAs (id : OpenId) : List (Event E) → Option (GoString × UInt8)
  | [] => none
  | .created o fid path level :: t => if o.made fid = id then some (path, level) else id.createdAs t
  | _ :: t => id.createdAs t

/-- The path on which an open was granted an oplock that has not been broken since. -/
def OpenId.holds (id : OpenId) : List (Event E) → Option GoString
  | [] => none
  | .created o fid path level :: t =>
    if o.made fid = id then if level = 0 then none else some path else id.holds t
  | .oplockBreak cid fid _ :: t => if cid = id.cid ∧ fid = id.fid then none else id.holds t
  | _ :: t => id.holds t

namespace OpenId

variable {id : OpenId} {t : List (Event E)}

theorem createdAs_append {es : List (Event E)} (h : ∀ e ∈ es, ∀ o fid path level, e ≠ .created o fid path level) :
    id.createdAs (es ++ t) = id.createdAs t := by
  induction es with
  | nil => rfl
  | cons e es ih =>
    have hes := ih fun e he => h e (mem_cons_of_mem _ he)
    cases e with
    | created o fid path level => exact absurd rfl (h _ (mem_cons_self ..) o fid path level)
    | _ => exact hes

theorem holds_append {es : List (Event E)} (h : ∀ e ∈ es, e.tells = false) :
    id.holds (es ++ t) = id.holds t := by
  induction es with
  | nil => rfl
  | cons e es ih =>
    have hes := ih fun e he => h e (mem_cons_of_mem _ he)
    have he := h e (mem_cons_self ..)
    cases e with
    | created o fid path level => cases he
    | oplockBreak cid fid path => cases he
    | _ => exact hes

end OpenId

theorem Event.not_created_of_tells {e : Event E} (h : e.tells = false) (o : Origin) (fid : FileId)
    (path : GoString) (level : UInt8) : e ≠ .created o fid path level := by
  rintro rfl
  cases h

/-- A step adds an open to the trace only when it registers it. -/
theorem Registers.createdAs {tr : Tree E} {req : CreateRequest} {h : E.Handle} {r : FileId × UInt8}
    (hr : Registers o msg tr req h r s s') (id : OpenId) :
    id.createdAs s'.sh.trace =
      if o.made r.1 = id then some ((openOptions req).path, r.2) else id.createdAs s.sh.trace := by
  obtain ⟨es, he, hes⟩ := registerOpen_trace hr.run
  rw [he, cons_append, OpenId.createdAs, OpenId.createdAs_append]
  intro e hm o' fid path level heq
  obtain ⟨cid, fid', path', rfl⟩ := hes e hm
  cases heq

/-- The opens are filed under ids of their trees, and clients were told their paths. -/
def Told (S : Sys E) : Prop :=
  ∀ cid c sid tid fid oh, S.conns cid = some c → c.open? sid tid fid = some oh →
    oh.fileId = fid ∧ (∃ n, fid = makeFileID sid tid n) ∧
      ∃ level, OpenId.createdAs ⟨cid, sid, tid, fid⟩ S.sh.trace = some (oh.path, level)

theorem Told.named {S : Sys E} (h : Told S) {cid : ConnId} {c : Conn E} (hc : S.conns cid = some c) :
    c.Named := fun sid tid fid oh ho => (h cid c sid tid fid oh hc ho).1

/-- An open is known by its connection and its FileId. -/
theorem Told.live_ext {S : Sys E} (h : Told S) (hb : Base S) {x y : Live E} (hx : x ∈ S.live) (hy : y ∈ S.live)
    (hc : x.cid = y.cid) (hf : x.fid = y.fid) : x = y := by
  obtain ⟨c, hxc, hx⟩ := (Sys.mem_live hb).1 hx
  obtain ⟨c', hyc, hy⟩ := (Sys.mem_live hb).1 hy
  rw [← hc] at hyc
  cases hxc.symm.trans hyc
  obtain ⟨-, tx, htx, hsx, hox⟩ := Conn.mem_live.1 hx
  obtain ⟨-, ty, hty, hsy, hoy⟩ := Conn.mem_live.1 hy
  obtain ⟨-, ⟨n, hn⟩, -⟩ := h x.cid c x.sid x.tid x.fid x.oh hxc (open?_eq_some.2 ⟨tx, htx, hox⟩)
  obtain ⟨-, ⟨m, hm⟩, -⟩ := h x.cid c y.sid y.tid y.fid y.oh hxc (open?_eq_some.2 ⟨ty, hty, hoy⟩)
  obtain ⟨hsid, htid, -⟩ := makeFileID_inj (hn.symm.trans (hf.trans hm))
  rw [hsid, htid] at htx
  cases htx.symm.trans hty
  rw [hf] at hox
  have hoh : x.oh = y.oh := some.inj (hox.symm.trans hoy)
  obtain ⟨⟨_, _, _, _⟩, _, _⟩ := x
  obtain ⟨⟨_, _, _, _⟩, _, _⟩ := y
  simp_all

/-- Opens that were there before, and a trace that tells nothing new. -/
theorem Told.put {S : Sys E} (h : Told S) {cid : ConnId} {c : Conn E} (hc : S.conns cid = some c)
    (hopens : ∀ sid tid fid oh, s'.c.open? sid tid fid = some oh → Persists ⟨S.sh, c⟩ sid tid fid oh)
    (htrace : ∀ id : OpenId, id.createdAs s'.sh.trace = id.createdAs S.sh.trace) : Told (S.put cid s') := by
  intro cid' c' sid tid fid oh hc' ho
  rw [put_sh, htrace]
  rcases conns_put hc' with ⟨rfl, rfl⟩ | ⟨-, hc'⟩
  · obtain ⟨oh0, ho0, -, hf, hp, -⟩ := hopens sid tid fid oh ho
    rw [hf, hp]
    exact h cid' c sid tid fid oh0 hc ho0
  · exact h cid' c' sid tid fid oh hc' ho

theorem told_preserved (srv : Config E) : Preserved srv (fun _ _ => True) (fun _ _ => True) (Told (E := E)) where
  accept := by
    intro S _ h cid c sid tid fid oh hc ho
    rcases conns_accept hc with ⟨-, rfl⟩ | ⟨-, hc⟩
    · cases ho
    · exact h cid c sid tid fid oh hc ho
  aside := by
    intro S cid c s' _ hc h ha
    refine h.put hc (fun sid tid fid oh ho => .ofOpen (by rwa [ha.open?] at ho)) fun id => ?_
    obtain ⟨es, he, hes⟩ := ha.trace
    rw [he]
    refine OpenId.createdAs_append fun e hm o fid path level heq => ?_
    have := hes e hm
    rw [heq] at this
    cases this
  start _ _ _ _ _ _ _ _ _ _ _ := trivial
  carry _ _ _ _ _ := trivial
  exec := by
    intro S cid c k _ hc _ _ _ h _
    exact ⟨h.put hc (fun sid tid fid oh ho => .ofOpen ho) fun id => rfl, trivial⟩
  effect := by
    intro S cid c k s' _ hc hk _ h _ he
    refine ⟨?_, trivial⟩
    have hn : c.Named := h.named hc
    rcases he.opens_cases hn with ⟨tr, req, hd, r, hr⟩ | hends | hkept
    · intro cid' c' sid tid fid oh hc' ho
      rw [put_sh, hr.createdAs]
      rcases conns_put hc' with ⟨rfl, rfl⟩ | ⟨hne, hc'⟩
      · rw [registerOpen_open? hr.tree hr.run] at ho
        split_ifs at ho with hids
        · obtain ⟨rfl, rfl, rfl⟩ := hids
          cases ho
          rw [if_pos (by rw [Origin.made, hk])]
          have hrun := hr.run
          simp only [registerOpen, Outcome.ok.injEq] at hrun
          obtain ⟨rfl, -⟩ := hrun
          exact ⟨rfl, ⟨_, rfl⟩, _, rfl⟩
        · rw [if_neg fun heq => hids ?_]
          · exact h cid' c sid tid fid oh hc ho
          · simp only [Origin.made, OpenId.mk.injEq] at heq
            exact ⟨heq.2.1.symm, heq.2.2.1.symm, heq.2.2.2.symm⟩
      · rw [if_neg fun heq => hne ?_]
        · exact h cid' c' sid tid fid oh hc' ho
        · simp only [Origin.made, OpenId.mk.injEq] at heq
          rw [← heq.1, hk]
    · obtain ⟨es, he, hes⟩ := hends.trace
      refine h.put hc (fun sid tid fid oh ho => .ofOpen ((hends.opens ..).1 ho).2) fun id => ?_
      rw [he]
      exact OpenId.createdAs_append fun e hm => e.not_created_of_tells (hes e hm)
    · obtain ⟨es, he, hes⟩ := hkept.trace
      refine h.put hc hkept.opens fun id => ?_
      rw [he]
      exact OpenId.createdAs_append fun e hm => e.not_created_of_tells (hes e hm)
  close := by
    intro S cid c s' _ hc h _ hcl cid' c' sid tid fid oh hc' ho
    obtain ⟨hne, hc'⟩ := conns_remove hc'
    have hn : (S.closing c).c.Named := fun sid tid fid oh ho => h.named hc sid tid fid oh ho
    obtain ⟨es, he, hes⟩ := (hcl.ended hn).trace
    have htrace : (S.remove cid s'.sh).sh.trace = es ++ S.sh.trace := he
    rw [htrace, OpenId.createdAs_append fun e hm => e.not_created_of_tells (hes e hm)]
    exact h cid' c' sid tid fid oh hc' ho

/-- In every run the opens are what clients were told. -/
theorem reach_told {C : Sys E → Label → Prop} {w : E.World} {S : Sys E} (hS : (system srv w).Reach C S) :
    Base S ∧ Told S :=
  (told_preserved srv).reach (fun _ _ _ _ _ _ hc => nomatch hc) (hS.mono fun _ _ _ => trivial)

end Server
end SmbServer
