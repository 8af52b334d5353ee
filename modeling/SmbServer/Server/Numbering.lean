/-
# The numbers of sessions, trees and opens

Session ids come from a counter of the server, tree ids from a counter of the session and
FileIds from a counter of the tree.  The counters are words of 64 and 32 bits; the trace
shows the true counts.  As long as these fit (`Within`), the counters agree with them and
every id is handed out once (`Numbered`).  What a step adds then takes no other's place,
and an open stays until it is ended (`Effect.remains`).
-/

import SmbServer.Server.Opens

namespace SmbServer
open GoMap Nat
namespace Server

open Wire List Option

variable {E : Env} {srv : Config E} {o : Origin} {msg : Bytes} {s s' : St E}
variable {es t : List (Event E)} {c : Conn E} {origin : Option Origin} {sh sh' : Shared E} {sid : UInt64}
  {sess : Session E} {tr : Tree E} {req : CreateRequest} {r : FileId × UInt8} {cid : ConnId} {oh : OpenHandle E}

/-! ### Counting -/

/-- A session is put into the table. -/
def Event.logsOn : Event E → Bool
  | .session .. => true
  | _ => false

/-- A TREE_CONNECT of a session. -/
def Event.connects (cid : ConnId) (sid : UInt64) : Event E → Bool
  | .treeConnect cid' sid' _ _ => decide (cid' = cid ∧ sid' = sid)
  | _ => false

/-- A CREATE on a tree. -/
def Event.creates (cid : ConnId) (sid : UInt64) (tid : UInt32) : Event E → Bool
  | .created o _ _ _ => decide (o.conn = cid ∧ o.sid = sid ∧ o.tid = tid)
  | _ => false

/-- The sessions of the server so far. -/
def sessionCount (t : List (Event E)) : ℕ := t.countP Event.logsOn

/-- The TREE_CONNECTs of a session so far. -/
def treeCount (cid : ConnId) (sid : UInt64) (t : List (Event E)) : ℕ := t.countP (Event.connects cid sid)

/-- The CREATEs on a tree so far. -/
def openCount (cid : ConnId) (sid : UInt64) (tid : UInt32) (t : List (Event E)) : ℕ :=
  t.countP (Event.creates cid sid tid)

/-- No session has had `2 ^ 32` TREE_CONNECTs, and no tree as many CREATEs. -/
structure TreesWithin (t : List (Event E)) : Prop where
  trees : ∀ cid sid, treeCount cid sid t < 2 ^ 32
  opens : ∀ cid sid tid, openCount cid sid tid t < 2 ^ 32

/-- And the server has not had `2 ^ 64` sessions. -/
structure Within (t : List (Event E)) : Prop extends TreesWithin t where
  sessions : sessionCount t < 2 ^ 64

theorem TreesWithin.of_append (h : TreesWithin (es ++ t)) : TreesWithin t := by
  constructor
  · intro cid sid
    have htrees := h.trees cid sid
    rw [treeCount, countP_append] at htrees
    exact (Nat.le_add_left ..).trans_lt htrees
  · intro cid sid tid
    have hopens := h.opens cid sid tid
    rw [openCount, countP_append] at hopens
    exact (Nat.le_add_left ..).trans_lt hopens

theorem Within.of_append (h : Within (es ++ t)) : Within t := by
  refine ⟨h.toTreesWithin.of_append, ?_⟩
  have hsessions := h.sessions
  rw [sessionCount, countP_append] at hsessions
  exact (Nat.le_add_left ..).trans_lt hsessions

theorem Within.of_length (h : t.length < 2 ^ 32) : Within t where
  trees _ _ := countP_le_length.trans_lt h
  opens _ _ _ := countP_le_length.trans_lt h
  sessions := countP_le_length.trans_lt (h.trans (by norm_num))

/-- The events that hand out a number. -/
def Event.numbers : Event E → Bool
  | .session .. | .treeConnect .. | .created .. => true
  | _ => false

/-- Events that hand out no number, or those of another connection, leave a count. -/
theorem countP_append_of_not {p : Event E → Bool} (hes : ∀ e ∈ es, p e = false)
    (t : List (Event E)) : (es ++ t).countP p = t.countP p := by
  rw [countP_append, countP_eq_zero.2 fun e he => by simp [hes e he], Nat.zero_add]

theorem Event.connects_of_not_numbers {e : Event E} (h : e.numbers = false) (cid : ConnId) (sid : UInt64) :
    e.connects cid sid = false := by
  cases e <;> first | rfl | cases h

theorem Event.creates_of_not_numbers {e : Event E} (h : e.numbers = false) (cid : ConnId) (sid : UInt64)
    (tid : UInt32) : e.creates cid sid tid = false := by
  cases e <;> first | rfl | cases h

theorem Event.logsOn_of_not_numbers {e : Event E} (h : e.numbers = false) : e.logsOn = false := by
  cases e <;> first | rfl | cases h

/-! ### The numbers and the counts -/

/-- What the trace says of the ids that were handed out. -/
structure Shared.Numbered (sh : Shared E) : Prop where
  next : sh.nextSess = UInt64.ofNat (sessionCount sh.trace)
  session : ∀ cid sid, .session cid sid ∈ sh.trace → sid.toNat ≤ sessionCount sh.trace
  owner : ∀ cid cid' sid, .session cid sid ∈ sh.trace → .session cid' sid ∈ sh.trace → cid = cid'
  tree : ∀ cid sid tid share, .treeConnect cid sid tid share ∈ sh.trace → .session cid sid ∈ sh.trace
  opens : ∀ o fid path level, .created o fid path level ∈ sh.trace → .session o.conn o.sid ∈ sh.trace ∧
    o.tid.toNat < treeCount o.conn o.sid sh.trace ∧ ∃ n, fid = makeFileID o.sid o.tid n

/-- The tables of a connection and the counts. -/
structure Conn.Numbered (t : List (Event E)) (c : Conn E) : Prop where
  session : ∀ sid sess, c.session? sid = some sess →
    .session c.id sid ∈ t ∧ sess.nextTreeID = UInt32.ofNat (treeCount c.id sid t)
  tree : ∀ sid tid tr, c.tree? sid tid = some tr →
    tid.toNat < treeCount c.id sid t ∧ tr.nextID = UInt64.ofNat (openCount c.id sid tid t)
  opens : ∀ sid tid fid oh, c.open? sid tid fid = some oh →
    ∃ n ≤ openCount c.id sid tid t, fid = makeFileID sid tid (UInt64.ofNat n)

/-- Every session, tree and open was there before, with its counter. -/
structure Conn.Fewer (c c' : Conn E) : Prop where
  id : c'.id = c.id
  session : ∀ sid sess', c'.session? sid = some sess' →
    ∃ sess, c.session? sid = some sess ∧ sess'.nextTreeID = sess.nextTreeID
  tree : ∀ sid tid tr', c'.tree? sid tid = some tr' →
    ∃ tr, c.tree? sid tid = some tr ∧ tr'.nextID = tr.nextID
  opens : ∀ sid tid fid oh', c'.open? sid tid fid = some oh' → ∃ oh, c.open? sid tid fid = some oh

theorem Conn.Shrinks.fewer {c' : Conn E} (h : c.Shrinks c') (hid : c'.id = c.id) : c.Fewer c' := by
  refine ⟨hid, fun sid sess' hs => ?_, fun sid tid tr' ht => ?_, fun sid tid fid oh' ho => ?_⟩
  · obtain ⟨sess, hs, -, hn⟩ := h.session sid sess' hs
    exact ⟨sess, hs, hn⟩
  · obtain ⟨tr, ht, -, hn, -⟩ := h.tree sid tid tr' ht
    exact ⟨tr, ht, hn⟩
  · obtain ⟨tr', ht', hl'⟩ := Conn.open?_eq_some.1 ho
    obtain ⟨tr, ht, -, -, hopens⟩ := h.tree sid tid tr' ht'
    obtain ⟨oh, hl, -⟩ := hopens fid oh' hl'
    exact ⟨oh, Conn.open?_eq_some.2 ⟨tr, ht, hl⟩⟩

/-- What a step does to the numbers: it hands one out, or it leaves them. -/
inductive Numbers (o : Origin) (msg : Bytes) (s s' : St E) : Prop where
  | session (auth : E.Authenticator)
      (ht : s'.sh.trace = .session o.conn (s.sh.nextSess + 1) :: s.sh.trace)
      (hn : s'.sh.nextSess = s.sh.nextSess + 1)
      (hc : s'.c = { s.c with sessions := s.c.sessions.insert (s.sh.nextSess + 1) { auth } })
  | treeConnect (share : Share E) (sess : Session E) (h : s.c.session? o.sid = some sess)
      (ht : s'.sh.trace = .treeConnect o.conn o.sid sess.nextTreeID share :: s.sh.trace)
      (hn : s'.sh.nextSess = s.sh.nextSess)
      (hc : s'.c = s.c.modifySession o.sid fun sess => { sess with
        nextTreeID := sess.nextTreeID + 1
        trees := sess.trees.insert sess.nextTreeID { share } })
  | create (tr : Tree E) (req : CreateRequest) (h : E.Handle) (r : FileId × UInt8)
      (hr : Registers o msg tr req h r s s')
  | quiet (hc : s.c.Fewer s'.c) (hn : s'.sh.nextSess = s.sh.nextSess) (es : List (Event E))
      (ht : s'.sh.trace = es ++ s.sh.trace) (hes : ∀ e ∈ es, e.numbers = false)

theorem Shared.Ends.not_numbers {l : List (OpenHandle E)}
    (h : sh.Ends origin l sh') : ∃ es, sh'.trace = es ++ sh.trace ∧ ∀ e ∈ es, e.numbers = false := by
  obtain ⟨es, ht, hes⟩ := h.trace
  refine ⟨es, ht, fun e he => ?_⟩
  obtain ⟨oh, -, rfl⟩ := hes e he
  rfl

theorem Effect.numbers (he : Effect srv o msg s s') : Numbers o msg s s' := by
  have hsame : ∀ {c' : Conn E}, c'.sessions = s.c.sessions → c'.id = s.c.id → s.c.Fewer c' :=
    fun h hid => (Conn.Shrinks.of_sessions h).fewer hid
  have hnone : ∀ e ∈ ([] : List (Event E)), e.numbers = false := by simp
  cases he with
  | session auth hcmd => exact .session auth rfl rfl rfl
  | treeConnect share sess hcmd h ha => exact .treeConnect share sess h rfl rfl rfl
  | create tr req h r _ hcmd hreq htr hopen hs => exact .create tr req h r ⟨hcmd, hreq, htr, hopen, hs⟩
  | call w op h => exact .quiet (hsame rfl rfl) rfl [_] rfl (by simp [Event.numbers])
  | setOpen fid oh oh' h hh hf hp hl =>
    refine .quiet (Conn.Shrinks.fewer ?_ rfl) rfl [] rfl hnone
    refine Conn.shrinks_modifyTree _ _ _ (fun _ => ⟨rfl, rfl⟩) fun tr fid' oh1 ht hl1 => ?_
    rw [lookup_mapAt] at hl1
    split_ifs at hl1 with heq
    · subst heq
      obtain ⟨oh0, hl0, rfl⟩ := map_eq_some_iff.1 hl1
      have hoh : s.c.open? o.sid o.tid fid' = some oh0 := Conn.open?_eq_some.2 ⟨tr, ht, hl0⟩
      rw [h] at hoh
      exact ⟨oh0, hl0, hh.trans (congrArg OpenHandle.h (some.inj hoh))⟩
    · exact ⟨oh1, hl1, rfl⟩
  | endOpen req oh hcmd hreq h hclosed =>
    refine .quiet (Conn.Shrinks.fewer ?_ rfl) rfl [] rfl hnone
    refine Conn.shrinks_modifyTree _ _ _ (fun _ => ⟨rfl, rfl⟩) fun tr fid' oh1 ht hl1 => ?_
    rw [lookup_erase'] at hl1
    split_ifs at hl1
    exact ⟨oh1, hl1, rfl⟩
  | auth sid w a hcmd =>
    refine .quiet (Conn.Shrinks.fewer ?_ rfl) rfl [] rfl hnone
    exact Conn.shrinks_modifySession _ _ (fun _ => ⟨rfl, rfl⟩) fun _ _ _ h => h
  | identity sid r hcmd h =>
    refine .quiet ⟨rfl, fun sid' sess' hs => ?_, fun sid' tid tr' ht => ?_, fun sid' tid fid oh' ho => ?_⟩ rfl
      [_] rfl (by simp [Event.numbers])
    · rw [Conn.session?_modifySession] at hs
      split_ifs at hs
      · obtain ⟨sess, hs0, rfl⟩ := map_eq_some_iff.1 hs
        exact ⟨sess, hs0, rfl⟩
      · exact ⟨sess', hs, rfl⟩
    · exact ⟨tr', Conn.tree?_of_modifySession ht fun _ _ _ hl => hl, rfl⟩
    · exact ⟨oh', Conn.open?_of_modifySession ho fun _ _ _ hl => .inl hl⟩
  | treeDisconnect s1 hcmd h hc =>
    obtain ⟨l, -, hends⟩ := hc.ends
    obtain ⟨es, ht, hes⟩ := hends.not_numbers
    have hid := congrArg Conn.id hc.conn
    refine .quiet ((hc.shrinks.trans ?_).fewer hid) hends.nextSess (_ :: es) (congrArg _ ht)
      (forall_mem_cons.2 ⟨rfl, hes⟩)
    refine Conn.shrinks_modifySession _ _ (fun _ => ⟨rfl, rfl⟩) fun sess tid tr hl => ?_
    rw [lookup_erase'] at hl
    split_ifs at hl
    exact hl
  | logoff s1 hcmd h hc =>
    obtain ⟨l, -, hends⟩ := hc.ends
    obtain ⟨es, ht, hes⟩ := hends.not_numbers
    have hid := congrArg Conn.id hc.conn
    have herase : s1.c.Shrinks { s1.c with sessions := s1.c.sessions.erase o.sid } := by
      refine ⟨fun sid sess' hs => ?_, fun sid tid tr' htr => ?_⟩
      · rw [Conn.session?, lookup_erase'] at hs
        split_ifs at hs
        exact ⟨sess', hs, rfl, rfl⟩
      · obtain ⟨sess, hs, hl⟩ := bind_eq_some_iff.1 htr
        rw [Conn.session?, lookup_erase'] at hs
        split_ifs at hs
        refine ⟨tr', ?_, rfl, rfl, fun fid oh hl => ⟨oh, hl, rfl⟩⟩
        rw [Conn.tree?, Conn.session?, hs]
        exact hl
    exact .quiet ((hc.shrinks.trans herase).fewer hid) hends.nextSess (_ :: es) (congrArg _ ht)
      (forall_mem_cons.2 ⟨rfl, hes⟩)
  | _ => exact .quiet (hsame rfl rfl) rfl [] rfl hnone

/-! ### Numbers are handed out once -/

/-- More sessions on record, and the same counts for this connection. -/
theorem Conn.Numbered.grow {t' : List (Event E)} (h : c.Numbered t)
    (hmem : ∀ sid, .session c.id sid ∈ t → .session c.id sid ∈ t')
    (htree : ∀ sid, treeCount c.id sid t' = treeCount c.id sid t)
    (hopen : ∀ sid tid, openCount c.id sid tid t' = openCount c.id sid tid t) : c.Numbered t' := by
  refine ⟨fun sid sess hs => ?_, fun sid tid tr ht => ?_, fun sid tid fid oh ho => ?_⟩
  · rw [htree]
    exact ⟨hmem sid (h.session sid sess hs).1, (h.session sid sess hs).2⟩
  · rw [htree, hopen]
    exact h.tree sid tid tr ht
  · rw [hopen]
    exact h.opens sid tid fid oh ho

theorem Conn.Numbered.fewer {c' : Conn E} (h : c.Numbered t) (hc : c.Fewer c') :
    c'.Numbered t := by
  refine ⟨fun sid sess' hs => ?_, fun sid tid tr' ht => ?_, fun sid tid fid oh' ho => ?_⟩
  · obtain ⟨sess, hs, hn⟩ := hc.session sid sess' hs
    rw [hc.id, hn]
    exact h.session sid sess hs
  · obtain ⟨tr, ht, hn⟩ := hc.tree sid tid tr' ht
    rw [hc.id, hn]
    exact h.tree sid tid tr ht
  · obtain ⟨oh, ho⟩ := hc.opens sid tid fid oh' ho
    rw [hc.id]
    exact h.opens sid tid fid oh ho

theorem Conn.Numbered.quiet (h : c.Numbered t)
    (hes : ∀ e ∈ es, e.numbers = false) : c.Numbered (es ++ t) :=
  h.grow (fun _ hm => mem_append_right _ hm)
    (fun sid => countP_append_of_not (fun e he => e.connects_of_not_numbers (hes e he) c.id sid) t)
    fun sid tid => countP_append_of_not (fun e he => e.creates_of_not_numbers (hes e he) c.id sid tid) t

theorem Shared.Numbered.quiet (h : sh.Numbered)
    (ht : sh'.trace = es ++ sh.trace) (hn : sh'.nextSess = sh.nextSess) (hes : ∀ e ∈ es, e.numbers = false) :
    sh'.Numbered := by
  have hmem : ∀ {e : Event E}, e.numbers = true → e ∈ sh'.trace → e ∈ sh.trace := by
    intro e hnum he
    rw [ht] at he
    rcases mem_append.1 he with he | he
    · rw [hes e he] at hnum
      cases hnum
    · exact he
  have hold : ∀ {e : Event E}, e ∈ sh.trace → e ∈ sh'.trace := fun he => ht ▸ mem_append_right _ he
  have hcount : sessionCount sh'.trace = sessionCount sh.trace := by
    rw [ht]
    exact countP_append_of_not (fun e he => e.logsOn_of_not_numbers (hes e he)) _
  have htrees : ∀ cid sid, treeCount cid sid sh'.trace = treeCount cid sid sh.trace := by
    intro cid sid
    rw [ht]
    exact countP_append_of_not (fun e he => e.connects_of_not_numbers (hes e he) cid sid) _
  refine ⟨by rw [hn, hcount]; exact h.next, fun cid sid hs => ?_, fun cid cid' sid hs hs' => ?_,
    fun cid sid tid share hs => ?_, fun o fid path level ho => ?_⟩
  · rw [hcount]
    exact h.session cid sid (hmem rfl hs)
  · exact h.owner cid cid' sid (hmem rfl hs) (hmem rfl hs')
  · exact hold (h.tree cid sid tid share (hmem rfl hs))
  · obtain ⟨hs, hlt, hfid⟩ := h.opens o fid path level (hmem rfl ho)
    rw [htrees]
    exact ⟨hold hs, hlt, hfid⟩

theorem Shared.Numbered.nextSess_toNat (h : sh.Numbered) (hw : sessionCount sh.trace + 1 < 2 ^ 64) :
    (sh.nextSess + 1).toNat = sessionCount sh.trace + 1 := by
  rw [h.next, UInt64.toNat_add, UInt64.toNat_ofNat']
  have h1 : (1 : UInt64).toNat = 1 := rfl
  rw [h1]
  omega

theorem Shared.Numbered.fresh_session (h : sh.Numbered) (hw : sessionCount sh.trace + 1 < 2 ^ 64)
    (cid : ConnId) : .session cid (sh.nextSess + 1) ∉ sh.trace := by
  intro hm
  have hle := h.session cid _ hm
  rw [h.nextSess_toNat hw] at hle
  omega

theorem Shared.Numbered.cons {e : Event E} (h : sh.Numbered) (ht : sh'.trace = e :: sh.trace)
    (hnext : sh'.nextSess = UInt64.ofNat (sessionCount sh'.trace))
    (hsession : ∀ cid sid, e = .session cid sid →
      sid.toNat ≤ sessionCount sh'.trace ∧ ∀ cid', .session cid' sid ∉ sh.trace)
    (htree : ∀ cid sid tid share, e = .treeConnect cid sid tid share → .session cid sid ∈ sh.trace)
    (hopen : ∀ o fid path level, e = .created o fid path level → .session o.conn o.sid ∈ sh.trace ∧
      o.tid.toNat < treeCount o.conn o.sid sh.trace ∧ ∃ n, fid = makeFileID o.sid o.tid n) : sh'.Numbered := by
  have hmem : ∀ {e' : Event E}, e' ∈ sh'.trace → e = e' ∨ e' ∈ sh.trace := fun he =>
    (mem_cons.1 (ht ▸ he)).imp_left Eq.symm
  have hold : ∀ {e' : Event E}, e' ∈ sh.trace → e' ∈ sh'.trace := fun he => ht ▸ mem_cons_of_mem _ he
  have hcount : sessionCount sh.trace ≤ sessionCount sh'.trace := by
    rw [ht]
    exact (sublist_cons_self _ _).countP_le
  have htrees : ∀ cid sid, treeCount cid sid sh.trace ≤ treeCount cid sid sh'.trace := by
    intro cid sid
    rw [ht]
    exact (sublist_cons_self _ _).countP_le
  refine ⟨hnext, fun cid sid hm => ?_, fun cid cid' sid hm hm' => ?_, fun cid sid tid share hm => ?_,
    fun o fid path level hm => ?_⟩
  · rcases hmem hm with heq | hm
    · exact (hsession cid sid heq).1
    · exact (h.session cid sid hm).trans hcount
  · rcases hmem hm with heq | hm <;> rcases hmem hm' with heq' | hm'
    · exact (Event.session.inj (heq.symm.trans heq')).1
    · exact absurd hm' ((hsession cid sid heq).2 cid')
    · exact absurd hm ((hsession cid' sid heq').2 cid)
    · exact h.owner cid cid' sid hm hm'
  · rcases hmem hm with heq | hm
    · exact hold (htree cid sid tid share heq)
    · exact hold (h.tree cid sid tid share hm)
  · obtain ⟨hsess, hlt, hfid⟩ := (hmem hm).elim (hopen o fid path level) (h.opens o fid path level)
    exact ⟨hold hsess, hlt.trans_le (htrees _ _), hfid⟩

theorem Conn.Numbered.insertSession (h : c.Numbered t)
    (hzero : treeCount c.id sid t = 0) (auth : E.Authenticator) :
    Conn.Numbered (.session c.id sid :: t) { c with sessions := c.sessions.insert sid { auth } } := by
  have htrees : ∀ cid sid', treeCount cid sid' (.session c.id sid :: t) = treeCount cid sid' t :=
    fun cid sid' => countP_cons_of_neg (by simp [Event.connects])
  have hopens : ∀ cid sid' tid, openCount cid sid' tid (.session c.id sid :: t) = openCount cid sid' tid t :=
    fun cid sid' tid => countP_cons_of_neg (by simp [Event.creates])
  have htree : ∀ {sid' tid tr}, Conn.tree? { c with sessions := c.sessions.insert sid { auth } } sid' tid = some tr →
      c.tree? sid' tid = some tr := by
    intro sid' tid tr htr
    obtain ⟨sess, hsess, hl⟩ := bind_eq_some_iff.1 htr
    rw [Conn.session?, lookup_insert'] at hsess
    split_ifs at hsess
    · cases hsess
      cases hl
    · rw [Conn.tree?, Conn.session?, hsess]
      exact hl
  refine ⟨fun sid' sess hs => ?_, fun sid' tid tr htr => ?_, fun sid' tid fid oh ho => ?_⟩
  · rw [Conn.session?, lookup_insert'] at hs
    rw [htrees]
    split_ifs at hs with heq
    · cases hs
      subst heq
      exact ⟨mem_cons_self .., by rw [hzero]; rfl⟩
    · exact ⟨mem_cons_of_mem _ (h.session sid' sess hs).1, (h.session sid' sess hs).2⟩
  · rw [htrees, hopens]
    exact h.tree sid' tid tr (htree htr)
  · rw [hopens]
    obtain ⟨tr, htr, hl⟩ := Conn.open?_eq_some.1 ho
    exact h.opens sid' tid fid oh (Conn.open?_eq_some.2 ⟨tr, htree htr, hl⟩)

theorem numbered_session {auth : E.Authenticator} (hcid : o.conn = s.c.id) (hs : s.sh.Numbered)
    (hn : s.c.Numbered s.sh.trace) (ht : s'.sh.trace = .session o.conn (s.sh.nextSess + 1) :: s.sh.trace)
    (hnext : s'.sh.nextSess = s.sh.nextSess + 1)
    (hc : s'.c = { s.c with sessions := s.c.sessions.insert (s.sh.nextSess + 1) { auth } })
    (hw : Within s'.sh.trace) : s'.sh.Numbered ∧ s'.c.Numbered s'.sh.trace := by
  have hcount : sessionCount s'.sh.trace = sessionCount s.sh.trace + 1 := by
    rw [ht]
    exact countP_cons_of_pos rfl
  have hfits : sessionCount s.sh.trace + 1 < 2 ^ 64 := hcount ▸ hw.sessions
  have hsid := hs.nextSess_toNat hfits
  have hfresh := hs.fresh_session hfits
  constructor
  · refine hs.cons ht (UInt64.toNat.inj ?_) (fun cid sid heq => ?_) (nofun)
      nofun
    · rw [hnext, hsid, hcount, UInt64.toNat_ofNat', mod_eq_of_lt hfits]
    · obtain ⟨-, rfl⟩ := Event.session.inj heq
      exact ⟨by rw [hcount, hsid], hfresh⟩
  · -- A session that is not on record has no trees on record.
    have hzero : treeCount s.c.id (s.sh.nextSess + 1) s.sh.trace = 0 := by
      refine countP_eq_zero.2 fun e he hconn => ?_
      cases e with
      | treeConnect cid sid tid share =>
        obtain ⟨rfl, rfl⟩ := of_decide_eq_true hconn
        exact hfresh _ (hs.tree _ _ _ _ he)
      | _ => cases hconn
    rw [ht, hc, hcid]
    exact hn.insertSession hzero auth

theorem Conn.Numbered.nextTreeID_toNat (h : c.Numbered t)
    (hsess : c.session? sid = some sess) (hw : treeCount c.id sid t < 2 ^ 32) :
    sess.nextTreeID.toNat = treeCount c.id sid t := by
  rw [(h.session sid sess hsess).2, UInt32.toNat_ofNat', mod_eq_of_lt hw]

theorem Conn.Numbered.insertTree (h : c.Numbered t)
    (hsess : c.session? sid = some sess) (hfits : treeCount c.id sid t + 1 < 2 ^ 32)
    (hzero : openCount c.id sid sess.nextTreeID t = 0) (share : Share E) :
    Conn.Numbered (.treeConnect c.id sid sess.nextTreeID share :: t)
      (c.modifySession sid fun sess => { sess with
        nextTreeID := sess.nextTreeID + 1
        trees := sess.trees.insert sess.nextTreeID { share } }) := by
  have hself : treeCount c.id sid (.treeConnect c.id sid sess.nextTreeID share :: t) = treeCount c.id sid t + 1 :=
    countP_cons_of_pos (decide_eq_true ⟨rfl, rfl⟩)
  have hother : ∀ sid', sid' ≠ sid →
      treeCount c.id sid' (.treeConnect c.id sid sess.nextTreeID share :: t) = treeCount c.id sid' t := by
    intro sid' hne
    exact countP_cons_of_neg fun hconn => hne (of_decide_eq_true hconn).2.symm
  have hopens : ∀ sid' tid, openCount c.id sid' tid (.treeConnect c.id sid sess.nextTreeID share :: t) =
      openCount c.id sid' tid t := fun sid' tid => countP_cons_of_neg (by simp [Event.creates])
  have htid := h.nextTreeID_toNat hsess (lt_of_succ_lt hfits)
  refine ⟨fun sid' sess' hs => ?_, fun sid' tid tr htr => ?_, fun sid' tid fid oh ho => ?_⟩
  · rw [Conn.session?_modifySession] at hs
    refine ⟨?_, ?_⟩
    · split_ifs at hs with heq
      · subst heq
        exact mem_cons_of_mem _ (h.session _ _ hsess).1
      · exact mem_cons_of_mem _ (h.session _ _ hs).1
    · split_ifs at hs with heq
      · subst heq
        rw [hsess] at hs
        cases hs
        refine UInt32.toNat.inj ?_
        show (sess.nextTreeID + 1).toNat = (UInt32.ofNat (treeCount c.id sid' _)).toNat
        rw [hself, UInt32.toNat_add, htid, UInt32.toNat_ofNat']
        rfl
      · show _ = UInt32.ofNat (treeCount c.id sid' _)
        rw [hother sid' heq]
        exact (h.session _ _ hs).2
  · show tid.toNat < treeCount c.id sid' _ ∧ tr.nextID = UInt64.ofNat (openCount c.id sid' tid _)
    rw [hopens]
    rw [Conn.tree?_modifySession] at htr
    split_ifs at htr with heq
    · subst heq
      rw [hself]
      rw [hsess, bind_some, lookup_insert'] at htr
      split_ifs at htr with htid'
      · cases htr
        subst htid'
        rw [htid, hzero]
        exact ⟨lt_succ_self _, rfl⟩
      · have htr' : c.tree? sid' tid = some tr := by
          rw [Conn.tree?, hsess]
          exact htr
        exact ⟨(h.tree _ _ _ htr').1.trans (lt_succ_self _), (h.tree _ _ _ htr').2⟩
    · rw [hother sid' heq]
      exact h.tree sid' tid tr htr
  · show ∃ n ≤ openCount c.id sid' tid _, _
    rw [hopens]
    refine h.opens sid' tid fid oh (Conn.open?_of_modifySession ho fun sess tid tr hl => ?_)
    rw [lookup_insert'] at hl
    split_ifs at hl
    · cases hl
      exact .inr rfl
    · exact .inl hl

theorem numbered_treeConnect {share : Share E} (hcid : o.conn = s.c.id) (hs : s.sh.Numbered)
    (hn : s.c.Numbered s.sh.trace) (h : s.c.session? o.sid = some sess)
    (ht : s'.sh.trace = .treeConnect o.conn o.sid sess.nextTreeID share :: s.sh.trace)
    (hnext : s'.sh.nextSess = s.sh.nextSess)
    (hc : s'.c = s.c.modifySession o.sid fun sess => { sess with
      nextTreeID := sess.nextTreeID + 1
      trees := sess.trees.insert sess.nextTreeID { share } })
    (hw : Within s'.sh.trace) : s'.sh.Numbered ∧ s'.c.Numbered s'.sh.trace := by
  have hcount : sessionCount s'.sh.trace = sessionCount s.sh.trace := by
    rw [ht]
    exact countP_cons_of_neg (by simp [Event.logsOn])
  have hfits : treeCount s.c.id o.sid s.sh.trace + 1 < 2 ^ 32 := by
    have hlt := hw.trees s.c.id o.sid
    rw [ht, hcid, treeCount] at hlt
    rwa [countP_cons_of_pos (by simp [Event.connects])] at hlt
  constructor
  · refine hs.cons ht (by rw [hnext, hcount]; exact hs.next) (nofun)
      (fun cid sid tid share' heq => ?_) nofun
    obtain ⟨rfl, rfl, -, -⟩ := Event.treeConnect.inj heq
    rw [hcid]
    exact (hn.session _ _ h).1
  · -- No CREATE has been answered on a tree of this number.
    have hzero : openCount s.c.id o.sid sess.nextTreeID s.sh.trace = 0 := by
      refine countP_eq_zero.2 fun e he hcr => ?_
      cases e with
      | created o' fid path level =>
        obtain ⟨h1, h2, h3⟩ := of_decide_eq_true hcr
        have hlt := (hs.opens o' fid path level he).2.1
        rw [h1, h2, h3, hn.nextTreeID_toNat h (lt_of_succ_lt hfits)] at hlt
        exact absurd hlt (lt_irrefl _)
      | _ => cases hcr
    rw [ht, hc, hcid]
    exact hn.insertTree h hfits hzero share

theorem registerOpen_fid {h : E.Handle}
    (hrun : registerOpen o tr req h s = .ok r s') : r.1 = makeFileID o.sid o.tid (tr.nextID + 1) := by
  simp only [registerOpen, Outcome.ok.injEq] at hrun
  rw [← hrun.1]

theorem Registers.conn_eq {h : E.Handle}
    (hr : Registers o msg tr req h r s s') :
    s'.sh.nextSess = s.sh.nextSess ∧ s'.c = s.c.modifyTree o.sid o.tid fun t => { t with
      nextID := tr.nextID + 1
      opens := t.opens.insert r.1 (newOpen o tr req h) } := by
  have hrun := hr.run
  simp only [registerOpen, Outcome.ok.injEq] at hrun
  obtain ⟨rfl, rfl⟩ := hrun
  exact ⟨Shared.requestOplock_nextSess .., rfl⟩

theorem Conn.Numbered.nextID_succ (h : c.Numbered t)
    {tid : UInt32} (htr : c.tree? sid tid = some tr) :
    tr.nextID + 1 = UInt64.ofNat (openCount c.id sid tid t + 1) := by
  rw [(h.tree sid tid tr htr).2, UInt64.ofNat_add]
  rfl

theorem Conn.Numbered.insertOpen (h : c.Numbered t)
    (htr : c.tree? o.sid o.tid = some tr) (hcid : o.conn = c.id) (path : GoString) (level : UInt8)
    (oh : OpenHandle E) :
    Conn.Numbered (.created o (makeFileID o.sid o.tid (tr.nextID + 1)) path level :: t)
      (c.modifyTree o.sid o.tid fun t => { t with
        nextID := tr.nextID + 1
        opens := t.opens.insert (makeFileID o.sid o.tid (tr.nextID + 1)) oh }) := by
  generalize hfid : makeFileID o.sid o.tid (tr.nextID + 1) = fid
  have htrees : ∀ sid, treeCount c.id sid (.created o fid path level :: t) = treeCount c.id sid t :=
    fun sid => countP_cons_of_neg (by simp [Event.connects])
  have hself : openCount c.id o.sid o.tid (.created o fid path level :: t) = openCount c.id o.sid o.tid t + 1 :=
    countP_cons_of_pos (decide_eq_true ⟨hcid, rfl, rfl⟩)
  have hother : ∀ sid tid, ¬(sid = o.sid ∧ tid = o.tid) →
      openCount c.id sid tid (.created o fid path level :: t) = openCount c.id sid tid t := by
    intro sid tid hne
    refine countP_cons_of_neg fun hcr => hne ?_
    obtain ⟨-, h2, h3⟩ := of_decide_eq_true hcr
    exact ⟨h2.symm, h3.symm⟩
  refine ⟨fun sid sess' hs => ?_, fun sid tid tr' htr' => ?_, fun sid tid fid' oh' ho => ?_⟩
  · show _ ∧ _ = UInt32.ofNat (treeCount c.id sid _)
    rw [htrees]
    have hsess : ∃ sess, c.session? sid = some sess ∧ sess'.nextTreeID = sess.nextTreeID := by
      rw [Conn.modifyTree, Conn.session?_modifySession] at hs
      split_ifs at hs
      · obtain ⟨sess, hsess, rfl⟩ := map_eq_some_iff.1 hs
        exact ⟨sess, hsess, rfl⟩
      · exact ⟨sess', hs, rfl⟩
    obtain ⟨sess, hs, hnext⟩ := hsess
    rw [hnext]
    exact ⟨mem_cons_of_mem _ (h.session sid sess hs).1, (h.session sid sess hs).2⟩
  · show _ < treeCount c.id sid _ ∧ _ = UInt64.ofNat (openCount c.id sid tid _)
    rw [htrees]
    rw [Conn.tree?_modifyTree] at htr'
    split_ifs at htr' with hids
    · obtain ⟨rfl, rfl⟩ := hids
      rw [htr] at htr'
      cases htr'
      rw [hself]
      exact ⟨(h.tree _ _ _ htr).1, h.nextID_succ htr⟩
    · rw [hother _ _ hids]
      exact h.tree sid tid tr' htr'
  · show ∃ n ≤ openCount c.id sid tid _, _
    obtain ⟨tr', htr', hl⟩ := Conn.open?_eq_some.1 ho
    rw [Conn.tree?_modifyTree] at htr'
    split_ifs at htr' with hids
    · obtain ⟨rfl, rfl⟩ := hids
      rw [htr] at htr'
      cases htr'
      rw [hself]
      rw [lookup_insert'] at hl
      split_ifs at hl with heq
      · refine ⟨_, le_refl _, ?_⟩
        rw [heq, ← hfid, h.nextID_succ htr]
      · obtain ⟨n, hn, hfid'⟩ := h.opens _ _ _ _ (Conn.open?_eq_some.2 ⟨tr, htr, hl⟩)
        exact ⟨n, hn.trans (le_succ _), hfid'⟩
    · rw [hother _ _ hids]
      exact h.opens sid tid fid' oh' (Conn.open?_eq_some.2 ⟨tr', htr', hl⟩)

theorem numbered_create {h : E.Handle}
    (hcid : o.conn = s.c.id) (hs : s.sh.Numbered) (hn : s.c.Numbered s.sh.trace)
    (hr : Registers o msg tr req h r s s') : s'.sh.Numbered ∧ s'.c.Numbered s'.sh.trace := by
  obtain ⟨es, ht, hes⟩ := registerOpen_trace hr.run
  obtain ⟨hnext, hc⟩ := hr.conn_eq
  have hquiet : ∀ e ∈ es, e.numbers = false := by
    intro e he
    obtain ⟨cid, fid, path, rfl⟩ := hes e he
    rfl
  -- The breaks come first and hand out no number.
  have hs1 : ({ s.sh with trace := es ++ s.sh.trace } : Shared E).Numbered := hs.quiet rfl rfl hquiet
  have hn1 : s.c.Numbered (es ++ s.sh.trace) := hn.quiet hquiet
  obtain ⟨sess, hsess, -⟩ := bind_eq_some_iff.1 hr.tree
  have hcount : sessionCount s'.sh.trace = sessionCount (es ++ s.sh.trace) := by
    rw [ht]
    exact countP_cons_of_neg (by simp [Event.logsOn])
  constructor
  · refine hs1.cons ht (by rw [hnext, hcount]; exact hs1.next) (nofun)
      (nofun) fun o' fid path level heq => ?_
    obtain ⟨rfl, rfl, -, -⟩ := Event.created.inj heq
    rw [hcid]
    exact ⟨(hn1.session _ _ hsess).1, (hn1.tree _ _ _ hr.tree).1, _, registerOpen_fid hr.run⟩
  · rw [ht, hc, registerOpen_fid hr.run]
    exact hn1.insertOpen hr.tree hcid _ _ _

/-- **A step keeps the numbers in order**, as long as they fit. -/
theorem Effect.numbered (he : Effect srv o msg s s') (hcid : o.conn = s.c.id) (hs : s.sh.Numbered)
    (hn : s.c.Numbered s.sh.trace) (hw : Within s'.sh.trace) : s'.sh.Numbered ∧ s'.c.Numbered s'.sh.trace := by
  cases he.numbers with
  | session auth ht hnext hc => exact numbered_session hcid hs hn ht hnext hc hw
  | treeConnect share sess h ht hnext hc => exact numbered_treeConnect hcid hs hn h ht hnext hc hw
  | create tr req h r hr => exact numbered_create hcid hs hn hr
  | quiet hc hnext es ht hes =>
    refine ⟨hs.quiet ht hnext hes, ?_⟩
    rw [ht]
    exact (hn.quiet hes).fewer hc

/-! ### Opens stay until they are ended -/

/-- An open is there, with its handle and its path. -/
def Conn.Holds (c : Conn E) (sid : UInt64) (tid : UInt32) (fid : FileId) (oh : OpenHandle E) : Prop :=
  ∃ oh', c.open? sid tid fid = some oh' ∧ oh'.h = oh.h ∧ oh'.path = oh.path

/-- A backend returned the handle to a command of the connection. -/
def Event.Opened (cid : ConnId) (h : E.Handle) (e : Event E) : Prop :=
  ∃ o share opts, e = .call (some o) (.openFile share opts (.ok h)) ∧ o.conn = cid

/-- Each time the connection got the handle, it was closed later. -/
def Shut (cid : ConnId) (h : E.Handle) (t : List (Event E)) : Prop :=
  ∀ es e t₀, t = es ++ e :: t₀ → e.Opened cid h → ∃ origin, .call origin (.close h) ∈ es

theorem Shut.of_not {h : E.Handle} (hes : ∀ e ∈ t, ¬e.Opened cid h) :
    Shut cid h t := by
  intro es e t0 ht ho
  exact absurd ho (hes e (by rw [ht]; simp))

theorem Shut.append {h : E.Handle} (hes : Shut cid h es)
    (ht : Shut cid h t) : Shut cid h (es ++ t) := by
  intro es' e t0 heq ho
  rcases append_eq_append_iff.1 heq with ⟨as, rfl, hsplit⟩ | ⟨bs, rfl, hsplit⟩
  · obtain ⟨origin, hm⟩ := ht as e t0 hsplit ho
    exact ⟨origin, mem_append_right _ hm⟩
  · cases bs with
    | nil =>
      obtain ⟨origin, hm⟩ := ht [] e t0 hsplit.symm ho
      cases hm
    | cons b bs =>
      obtain ⟨rfl, -⟩ := List.cons.inj hsplit
      exact hes es' e bs rfl ho

/-- A handle that is closed and not opened again. -/
theorem Shut.of_close {h : E.Handle}
    (hclose : .call origin (.close h) ∈ es) (hes : ∀ e ∈ es, ¬e.Opened cid h) : Shut cid h (es ++ t) := by
  intro es' e t0 heq ho
  rcases append_eq_append_iff.1 heq with ⟨as, rfl, -⟩ | ⟨bs, rfl, hsplit⟩
  · exact ⟨origin, mem_append_left _ hclose⟩
  · cases bs with
    | nil => exact ⟨origin, by simpa using hclose⟩
    | cons b bs =>
      obtain ⟨rfl, -⟩ := List.cons.inj hsplit
      exact absurd ho (hes e (by simp))

/-- The handles of opens that were closed are shut. -/
theorem Shared.Ends.shut {l : List (OpenHandle E)}
    (h : sh.Ends origin l sh') (hm : oh ∈ l) (cid : ConnId) : Shut cid oh.h sh'.trace := by
  obtain ⟨es, ht, hes⟩ := h.trace
  rw [ht]
  refine .of_close (h.closed oh hm es ht) fun e he => ?_
  rintro ⟨o, share, opts, rfl, -⟩
  obtain ⟨oh', -, heq⟩ := hes _ he
  cases heq

theorem registerOpen_fresh {h : E.Handle}
    (hcid : o.conn = s.c.id) (hn : s.c.Numbered s.sh.trace) (htr : s.c.tree? o.sid o.tid = some tr)
    (hrun : registerOpen o tr req h s = .ok r s') (hw : Within s'.sh.trace)
    (ho : s.c.open? o.sid o.tid r.1 = some oh) : False := by
  obtain ⟨n, hle, hfid⟩ := hn.opens _ _ _ _ ho
  rw [registerOpen_fid hrun, hn.nextID_succ htr] at hfid
  have hcount : openCount s.c.id o.sid o.tid s.sh.trace + 1 < 2 ^ 32 := by
    obtain ⟨es, ht, -⟩ := registerOpen_trace hrun
    have hlt := hw.opens s.c.id o.sid o.tid
    rw [ht, cons_append, openCount, countP_cons_of_pos (by simp [Event.creates, hcid]),
      countP_append] at hlt
    unfold openCount
    omega
  have heq := congrArg UInt32.toNat (makeFileID_inj hfid).2.2
  simp only [UInt64.toNat_toUInt32, UInt64.toNat_ofNat'] at heq
  omega

/-- **An open stays until a command ends it**, and then its handle is closed. -/
theorem Effect.remains (he : Effect srv o msg s s') (hname : s.c.Named) (hcid : o.conn = s.c.id)
    (hs : s.sh.Numbered) (hn : s.c.Numbered s.sh.trace) (hw : Within s'.sh.trace) {tid : UInt32} {fid : FileId}
    (ho : s.c.open? sid tid fid = some oh) :
    s'.c.Holds sid tid fid oh ∨ Ended (Ends o msg) s s' ∧ ∀ cid, Shut cid oh.h s'.sh.trace := by
  obtain ⟨tr, htr, hl⟩ := Conn.open?_eq_some.1 ho
  obtain ⟨sess, hsess, htree⟩ := bind_eq_some_iff.1 htr
  have hsame : ∀ {c' : Conn E}, c'.open? sid tid fid = s.c.open? sid tid fid → c'.Holds sid tid fid oh :=
    fun h => ⟨oh, h.trans ho, rfl, rfl⟩
  cases he with
  | session auth hcmd =>
    refine .inl (hsame ?_)
    have hne : sid ≠ s.sh.nextSess + 1 := by
      rintro rfl
      refine hs.fresh_session ?_ s.c.id (hn.session _ _ hsess).1
      have hlt := hw.sessions
      rwa [sessionCount, countP_cons_of_pos rfl] at hlt
    unfold Conn.open? Conn.tree? Conn.session?
    rw [lookup_insert', if_neg hne]
  | treeConnect share sess0 hcmd h ha =>
    refine .inl (hsame ?_)
    unfold Conn.open?
    rw [Conn.tree?_modifySession]
    split_ifs with heq
    · subst heq
      obtain rfl := some.inj (h.symm.trans hsess)
      have hne : tid ≠ sess0.nextTreeID := by
        rintro rfl
        have hlt := hw.trees s.c.id o.sid
        simp only [hcid, treeCount] at hlt
        rw [countP_cons_of_pos (by simp [Event.connects])] at hlt
        have heq := hn.nextTreeID_toNat h (lt_of_succ_lt hlt)
        exact absurd (hn.tree _ _ _ htr).1 (by rw [heq]; exact lt_irrefl _)
      rw [h, bind_some, lookup_insert', if_neg hne, Conn.tree?, h]
      rfl
    · rfl
  | create tr0 req h r _ hcmd hreq htr0 hopen hs' =>
    refine .inl (hsame ?_)
    rw [registerOpen_open? htr0 hs', if_neg]
    rintro ⟨rfl, rfl, rfl⟩
    exact registerOpen_fresh hcid hn htr0 hs' hw ho
  | setOpen fid0 oh0 oh' h hh hf hp hl =>
    refine .inl ?_
    unfold Conn.Holds
    rw [Conn.open?_modifyOpen]
    split_ifs with heq
    · obtain ⟨rfl, rfl, rfl⟩ := heq
      cases h.symm.trans ho
      rw [h]
      exact ⟨oh', rfl, hh, hp⟩
    · exact ⟨oh, ho, rfl, rfl⟩
  | endOpen req oh0 hcmd hreq h hclosed =>
    by_cases hK : Ends o msg sid tid fid
    · refine .inr ⟨ended_endOpen hcmd hreq h, fun cid => ?_⟩
      obtain ⟨t, ht⟩ := hclosed
      have hoh : oh0 = oh := by
        obtain ⟨rfl, ⟨-, rfl, req', hreq', rfl⟩ | ⟨hcmd', -⟩ | hcmd'⟩ := hK
        · rw [hreq] at hreq'
          cases hreq'
          exact some.inj (h.symm.trans ho)
        · exact absurd (hcmd.symm.trans hcmd') (by decide)
        · exact absurd (hcmd.symm.trans hcmd') (by decide)
      subst hoh
      have htr' : (Server.endOpen o req.fileId oh0.path s).state.sh.trace =
          [.call (some o) (.close oh0.h)] ++ t := ht
      rw [htr']
      refine .of_close (mem_singleton_self _) fun e he => ?_
      rintro ⟨o', share, opts, rfl, -⟩
      cases mem_singleton.1 he
    · exact .inl ⟨oh, ((ended_endOpen hcmd hreq h).opens ..).2 ⟨hK, ho⟩, rfl, rfl⟩
  | auth sid0 w a hcmd =>
    refine .inl (hsame ?_)
    unfold Conn.open?
    rw [Conn.tree?_modifySession]
    split_ifs with heq
    · rw [Conn.tree?]
    · rfl
  | identity sid0 r hcmd h =>
    refine .inl (hsame ?_)
    unfold Conn.open?
    rw [Conn.tree?_modifySession]
    split_ifs with heq
    · rw [Conn.tree?]
      rfl
    · rfl
  | treeDisconnect s1 hcmd h hc =>
    by_cases hK : sid = o.sid ∧ tid = o.tid
    · refine .inr ⟨ended_treeDisconnect hcmd hname hc, fun cid => ?_⟩
      obtain ⟨l, hl, hends⟩ := hc.ends
      have hlast : ∀ {e : Event E}, e.Opened cid oh.h → e ∉ [.treeDisconnect o.conn o.sid o.tid] := by
        rintro _ ⟨o', share, opts, rfl, -⟩ he
        cases mem_singleton.1 he
      exact (Shut.of_not fun e he ho => hlast ho he).append (hends.shut ((hl oh).2 ⟨sid, tid, fid, hK, ho⟩) cid)
    · refine .inl ⟨oh, ?_, rfl, rfl⟩
      rw [Conn.open?_eraseTree fun fid => hc.open?_eq_none ⟨rfl, rfl⟩ fid]
      exact (hc.open_iff ..).2 ⟨hK, ho⟩
  | logoff s1 hcmd h hc =>
    by_cases hK : sid = o.sid
    · refine .inr ⟨ended_logoff hcmd hname hc, fun cid => ?_⟩
      obtain ⟨l, hl, hends⟩ := hc.ends
      have hlast : ∀ {e : Event E}, e.Opened cid oh.h → e ∉ [.logoff o.conn o.sid] := by
        rintro _ ⟨o', share, opts, rfl, -⟩ he
        cases mem_singleton.1 he
      exact (Shut.of_not fun e he ho => hlast ho he).append (hends.shut ((hl oh).2 ⟨sid, tid, fid, hK, ho⟩) cid)
    · refine .inl ⟨oh, ?_, rfl, rfl⟩
      rw [Conn.open?_eraseSession fun tid fid => hc.open?_eq_none rfl fid]
      exact (hc.open_iff ..).2 ⟨hK, ho⟩
  | _ => exact .inl (hsame rfl)

end Server
end SmbServer
