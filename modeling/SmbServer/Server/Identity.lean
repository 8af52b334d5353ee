/-
# Every number names one thing

The FileId of an open is packed from the session's number, the tree's and a counter of the
tree, and a TreeId comes from a counter of its session.  The trace tells in which order
they were handed out: the number of a CREATE is the count of the CREATEs on its tree, and
that of a TREE_CONNECT the count of those of its session (`InOrder`).  While the counts fit
their words, no number is handed out twice on the whole server, and what a CREATE or a
TREE_CONNECT puts into a table takes nothing's place (`step_uniqueIds`).

The session numbers are words too.  After `2^64` sessions the first number comes again, in
another connection, and with it the FileIds of its opens (`session_wrap_repeats`).
-/

import SmbServer.Server.Teardown

namespace SmbServer
namespace Server

open Wire Go Function List Option Conn Sys Event

variable {E : Env} {srv : Config E} {o : Origin} {msg : Bytes} {s s' : St E} {S S' : Sys E}
  {t : List (Event E)}

/-! ### The property -/

/-- The FileId a CREATE handed out. -/
def Event.fileId? : Event E → Option FileId
  | .created _ fid _ _ => some fid
  | _ => none

/-- The TreeId a TREE_CONNECT of the session handed out. -/
def Event.treeId? (cid : ConnId) (sid : UInt64) : Event E → Option UInt32
  | .treeConnect cid' sid' tid _ => if cid' = cid ∧ sid' = sid then some tid else none
  | _ => none

/-- **Numbers are unique.**  No FileId was handed out twice, no TreeId twice in a session,
and the owner of a locked range is one open. -/
structure UniqueIds (S : Sys E) : Prop where
  files : (S.sh.trace.filterMap Event.fileId?).Nodup
  trees : ∀ cid sid, (S.sh.trace.filterMap (Event.treeId? cid sid)).Nodup
  opens : ∀ x ∈ S.live, ∀ y ∈ S.live, x.fid = y.fid → x = y
  locks : ∀ p, ∀ r ∈ (S.sh.locks p).ranges, ∃! x, x ∈ S.live ∧ x.fid = r.fileId

/-- What a step hands out was not in its table before. -/
structure TakesFree (S S' : Sys E) : Prop where
  opens : ∀ es o fid path level c, S'.sh.trace = es ++ S.sh.trace → .created o fid path level ∈ es →
    S.conns o.conn = some c → c.open? o.sid o.tid fid = none
  trees : ∀ es cid sid tid share c, S'.sh.trace = es ++ S.sh.trace → .treeConnect cid sid tid share ∈ es →
    S.conns cid = some c → c.tree? sid tid = none

/-! ### The order of the numbers -/

/-- The number an event hands out is the next one after `t`. -/
def Event.InTurn (t : List (Event E)) : Event E → Prop
  | .treeConnect cid sid tid _ => tid = UInt32.ofNat (treeCount cid sid t)
  | .created o fid _ _ => fid = makeFileID o.sid o.tid (UInt64.ofNat (openCount o.conn o.sid o.tid t + 1))
  | _ => True

/-- Every number was handed out in its turn. -/
def InOrder : List (Event E) → Prop
  | [] => True
  | e :: t => e.InTurn t ∧ InOrder t

theorem Event.inTurn_of_not_numbers {e : Event E} (h : e.numbers = false) (t : List (Event E)) : e.InTurn t := by
  cases e <;> trivial

theorem InOrder.quiet (h : InOrder t) {es : List (Event E)} (hes : ∀ e ∈ es, e.numbers = false) :
    InOrder (es ++ t) := by
  induction es with
  | nil => exact h
  | cons e es ih =>
    exact ⟨inTurn_of_not_numbers (hes e mem_cons_self) _, ih fun e he => hes e (mem_cons_of_mem _ he)⟩

/-- An event that came after `t` had its turn then. -/
theorem InOrder.inTurn {es : List (Event E)} (h : InOrder (es ++ t)) {e : Event E} (he : e ∈ es) :
    ∃ es1 es2, es ++ t = es1 ++ e :: (es2 ++ t) ∧ e.InTurn (es2 ++ t) := by
  induction es with
  | nil => cases he
  | cons e' es ih =>
    rcases mem_cons.1 he with rfl | he
    · exact ⟨[], es, rfl, h.1⟩
    · obtain ⟨es1, es2, heq, hturn⟩ := ih h.2 he
      exact ⟨e' :: es1, es2, congrArg (List.cons e') heq, hturn⟩

theorem Effect.inOrder (he : Effect srv o msg s s') (hcid : o.conn = s.c.id) (hn : s.c.Numbered s.sh.trace)
    (h : InOrder s.sh.trace) : InOrder s'.sh.trace := by
  cases he.numbers with
  | session auth ht hnext hc =>
    rw [ht]
    exact ⟨trivial, h⟩
  | treeConnect share sess hsess ht hnext hc =>
    rw [ht]
    refine ⟨?_, h⟩
    rw [InTurn, hcid]
    exact (hn.session _ _ hsess).2
  | create tr req hd r hr =>
    obtain ⟨es, ht, hes⟩ := registerOpen_trace hr.run
    have hquiet : ∀ e ∈ es, e.numbers = false := by
      intro e he
      obtain ⟨cid, fid, path, rfl⟩ := hes e he
      rfl
    rw [ht]
    refine ⟨?_, h.quiet hquiet⟩
    have hnext := (hn.quiet hquiet).nextID_succ hr.tree
    rw [← hcid] at hnext
    exact (registerOpen_fid hr.run).trans (congrArg _ hnext)
  | quiet hc hnext es ht hes =>
    rw [ht]
    exact h.quiet hes

/-- The numbers and the tables are in order, and so is the trace. -/
def Ordered (S : Sys E) : Prop := Orderly S ∧ (Within S.sh.trace → InOrder S.sh.trace)

theorem ordered_preserved (srv : Config E) :
    Preserved srv (fun _ _ => True) (fun _ _ => True) (Ordered (E := E)) where
  accept S hb h := ⟨(orderly_preserved srv).accept S hb h.1, h.2⟩
  aside := by
    rintro S cid c s' hb hc ⟨hord, h⟩ ha
    refine ⟨(orderly_preserved srv).aside S cid c s' hb hc hord ha, fun hw => ?_⟩
    obtain ⟨es, ht, hes⟩ := ha.trace
    rw [put_sh, ht] at hw ⊢
    refine (h hw.of_append).quiet fun e he => ?_
    have hside := hes e he
    cases e <;> first | rfl | cases hside
  start _ _ _ _ _ _ _ _ _ _ _ := trivial
  carry _ _ _ _ _ := trivial
  exec := by
    rintro S cid c k hb hc hk hf hs ⟨hord, h⟩ -
    refine ⟨⟨((orderly_preserved srv).exec S cid c k hb hc hk hf hs hord trivial).1, fun hw => ?_⟩, trivial⟩
    have ht : (k.record ⟨S.sh, c⟩).sh.trace =
        [.exec k.origin k.lp.via (c.requiresEncryption k.origin.sid)] ++ S.sh.trace := rfl
    rw [put_sh, ht] at hw ⊢
    exact ⟨trivial, h hw.of_append⟩
  effect := by
    rintro S cid c k s' hb hc hk hf ⟨hord, h⟩ - he
    refine ⟨⟨((orderly_preserved srv).effect S cid c k s' hb hc hk hf hord trivial he).1, fun hw => ?_⟩, trivial⟩
    obtain ⟨es, ht, -⟩ := he.trace
    have hw' : Within (es ++ S.sh.trace) := ht ▸ hw
    have hnum := (hord.2 hw'.of_append).1
    exact he.inOrder (hk.trans (hb _ _ hc).1.symm) (hnum.conns _ _ hc) (h hw'.of_append)
  close := by
    rintro S cid c s' hb hc ⟨hord, h⟩ hC hcl
    refine ⟨(orderly_preserved srv).close S cid c s' hb hc hord trivial hcl, fun hw => ?_⟩
    obtain ⟨l, -, hends⟩ := hcl.ends
    obtain ⟨es, ht, hes⟩ := hends.not_numbers
    have ht' : (S.remove cid s'.sh).sh.trace = es ++ S.sh.trace := ht
    rw [ht'] at hw ⊢
    exact (h hw.of_append).quiet hes

theorem reach_ordered {C : Sys E → Label → Prop} {w : E.World} (hS : (system srv w).Reach C S) :
    Base S ∧ Ordered S := by
  refine (ordered_preserved srv).reach ⟨?_, fun _ => trivial⟩ (hS.mono fun _ _ _ => trivial)
  exact (reach_orderly (Transition.Reach.init (T := system srv w) (C := C))).2

/-! ### No number comes twice -/

theorem openCount_append (cid : ConnId) (sid : UInt64) (tid : UInt32) (es t : List (Event E)) :
    openCount cid sid tid (es ++ t) = openCount cid sid tid es + openCount cid sid tid t := countP_append

theorem openCount_created (o : Origin) (fid : FileId) (path : GoString) (level : UInt8) (t : List (Event E)) :
    openCount o.conn o.sid o.tid (.created o fid path level :: t) = openCount o.conn o.sid o.tid t + 1 :=
  countP_cons_of_pos (by simp [Event.creates])

theorem treeCount_append (cid : ConnId) (sid : UInt64) (es t : List (Event E)) :
    treeCount cid sid (es ++ t) = treeCount cid sid es + treeCount cid sid t := countP_append

theorem treeCount_treeConnect (cid : ConnId) (sid : UInt64) (tid : UInt32) (share : Share E) (t : List (Event E)) :
    treeCount cid sid (.treeConnect cid sid tid share :: t) = treeCount cid sid t + 1 :=
  countP_cons_of_pos (by simp [Event.connects])

/-- Two numbers of opens of one tree that fit 32 bits. -/
theorem eq_of_makeFileID {sid : UInt64} {tid : UInt32} {n m : ℕ} (hn : n < 2 ^ 32) (hm : m < 2 ^ 32)
    (h : makeFileID sid tid (UInt64.ofNat n) = makeFileID sid tid (UInt64.ofNat m)) : n = m := by
  have heq := congrArg UInt32.toNat (makeFileID_inj h).2.2
  simp only [UInt64.toNat_toUInt32, UInt64.toNat_ofNat'] at heq
  omega

/-- The CREATEs of one session are of one connection. -/
def OneOwner (t : List (Event E)) : Prop :=
  ∀ o fid p l o' fid' p' l', .created o fid p l ∈ t → .created o' fid' p' l' ∈ t → o.sid = o'.sid → o.conn = o'.conn

theorem Shared.Numbered.oneOwner {sh : Shared E} (h : sh.Numbered) : OneOwner sh.trace := by
  intro o fid p l o' fid' p' l' hm hm' hsid
  have hs := (h.opens _ _ _ _ hm).1
  rw [hsid] at hs
  exact h.owner _ _ _ hs (h.opens _ _ _ _ hm').1

theorem InOrder.nodup_fileIds (h : InOrder t) (hw : TreesWithin t) (hown : OneOwner t) :
    (t.filterMap fileId?).Nodup := by
  induction t with
  | nil => exact nodup_nil
  | cons e t ih =>
    have ih := ih h.2 ((show TreesWithin ([e] ++ t) from hw).of_append) fun o fid p l o' fid' p' l' hm hm' =>
      hown o fid p l o' fid' p' l' (mem_cons_of_mem _ hm) (mem_cons_of_mem _ hm')
    cases e with
    | created o fid path level =>
      refine nodup_cons.2 ⟨fun hmem => ?_, ih⟩
      obtain ⟨e', he', hfid'⟩ := mem_filterMap.1 hmem
      cases e' with
      | created o' fid' path' level' =>
        obtain rfl := some.inj hfid'
        -- The two CREATEs are on one tree, and the later one has the greater number.
        have hconn := hown _ _ _ _ _ _ _ _ mem_cons_self (mem_cons_of_mem _ he')
        obtain ⟨es1, es2, heq, hturn⟩ := (show InOrder (t ++ []) by simpa using h.2).inTurn he'
        simp only [append_nil] at heq hturn
        have hfid : fid' = makeFileID o.sid o.tid _ := h.1
        have hfid1 : fid' = makeFileID o'.sid o'.tid _ := hturn
        obtain ⟨hsid, htid, -⟩ := makeFileID_inj (hfid.symm.trans hfid1)
        have hcount := openCount_created o' fid' path' level' es2
        have hlt := hw.opens o.conn o.sid o.tid
        rw [openCount_created, heq, openCount_append, hconn hsid, hsid, htid, hcount] at hlt
        rw [heq, hconn hsid, hsid, htid, openCount_append, hcount] at hfid
        have := eq_of_makeFileID (by omega) (by omega) (hfid.symm.trans hfid1)
        omega
      | _ => cases hfid'
    | _ => exact ih

theorem InOrder.nodup_treeIds (h : InOrder t) (hw : TreesWithin t) (cid : ConnId) (sid : UInt64) :
    (t.filterMap (treeId? cid sid)).Nodup := by
  induction t with
  | nil => exact nodup_nil
  | cons e t ih =>
    have ih := ih h.2 (show TreesWithin ([e] ++ t) from hw).of_append
    cases e with
    | treeConnect cid0 sid0 tid share =>
      rw [filterMap_cons, treeId?]
      split_ifs with hids
      · obtain ⟨rfl, rfl⟩ := hids
        refine nodup_cons.2 ⟨fun hmem => ?_, ih⟩
        obtain ⟨e', he', htid'⟩ := mem_filterMap.1 hmem
        cases e' with
        | treeConnect cid' sid' tid' share' =>
          rw [treeId?] at htid'
          split_ifs at htid' with hids
          obtain ⟨rfl, rfl⟩ := hids
          obtain rfl := some.inj htid'
          obtain ⟨es1, es2, heq, hturn⟩ := (show InOrder (t ++ []) by simpa using h.2).inTurn he'
          simp only [append_nil] at heq hturn
          have htid : tid' = UInt32.ofNat _ := h.1
          have htid1 : tid' = UInt32.ofNat _ := hturn
          have hlt := hw.trees cid' sid'
          have hcount := treeCount_treeConnect cid' sid' tid' share' es2
          rw [treeCount_treeConnect, heq, treeCount_append, hcount] at hlt
          rw [heq, treeCount_append, hcount] at htid
          have := congrArg UInt32.toNat (htid.symm.trans htid1)
          simp only [UInt32.toNat_ofNat'] at this
          omega
        | _ => cases htid'
      · exact ih
    | _ => exact ih

/-! ### The tables -/

theorem Sys.Numbered.open_eq (hnum : S.Numbered) (htold : Told S) (hb : Base S) {x y : Live E} (hx : x ∈ S.live)
    (hy : y ∈ S.live) (hfid : x.fid = y.fid) : x = y := by
  have hsession : ∀ z ∈ S.live, .session z.cid z.sid ∈ S.sh.trace ∧ ∃ n, z.fid = makeFileID z.sid z.tid n := by
    intro z hz
    obtain ⟨c, hc, hz⟩ := (Sys.mem_live hb).1 hz
    obtain ⟨hid, tr, htr, -, ho⟩ := Conn.mem_live.1 hz
    obtain ⟨sess, hsess, -⟩ := bind_eq_some_iff.1 htr
    obtain ⟨n, -, hn⟩ := (hnum.conns _ _ hc).opens _ _ _ _ (open?_eq_some.2 ⟨tr, htr, ho⟩)
    rw [hid]
    exact ⟨((hnum.conns _ _ hc).session _ _ hsess).1, _, hn⟩
  obtain ⟨hsx, n, hn⟩ := hsession x hx
  obtain ⟨hsy, m, hm⟩ := hsession y hy
  have hsid := (makeFileID_inj (hn.symm.trans (hfid.trans hm))).1
  rw [hsid] at hsx
  exact htold.live_ext hb hx hy (hnum.shared.owner _ _ _ hsx hsy) hfid

/-- **Every number names one thing**: in every state that a step of the server leads to,
as long as the numbers fit. -/
theorem step_uniqueIds (srv : Config E) (w : E.World) (S : Sys E) (l : Label) (S' : Sys E)
    (hS : (system srv w).Reach (fun _ _ => True) S) (hstep : S.step srv l = some S') (hw : Within S'.sh.trace) :
    UniqueIds S' ∧ TakesFree S S' := by
  obtain ⟨hb, hord⟩ := reach_ordered hS
  obtain ⟨hb', hord'⟩ := reach_ordered (hS.step (l := l) trivial hstep)
  obtain ⟨hnum', htab'⟩ := hord'.1.2 hw
  have horder := hord'.2 hw
  refine ⟨⟨horder.nodup_fileIds hw.toTreesWithin hnum'.shared.oneOwner,
    horder.nodup_treeIds hw.toTreesWithin, fun x hx y hy => hnum'.open_eq hord'.1.1 hb' hx hy, fun p r hr => ?_⟩, ?_, ?_⟩
  · obtain ⟨x, hx, hfid⟩ := (htab'.locks p r hr).mem_live hb'
    exact ⟨x, ⟨hx, hfid⟩, fun y hy => hnum'.open_eq hord'.1.1 hb' hy.1 hx (hy.2.trans hfid.symm)⟩
  · intro es o fid path level c ht hm hc
    rw [ht] at hw horder
    have hnum := (hord.1.2 hw.of_append).1
    obtain ⟨es₁, es₂, heq, hturn⟩ := horder.inTurn hm
    by_contra hne
    obtain ⟨oh, ho⟩ := Option.ne_none_iff_exists'.1 hne
    obtain ⟨n, hle, hfid⟩ := (hnum.conns _ _ hc).opens _ _ _ _ ho
    have hturn : fid = makeFileID o.sid o.tid _ := hturn
    have hlt := hw.opens o.conn o.sid o.tid
    rw [(hb _ _ hc).1] at hle
    rw [heq, openCount_append, openCount_created, openCount_append] at hlt
    rw [openCount_append] at hturn
    have := eq_of_makeFileID (by omega) (by omega) (hturn.symm.trans hfid)
    omega
  · intro es cid sid tid share c ht hm hc
    rw [ht] at hw horder
    have hnum := (hord.1.2 hw.of_append).1
    obtain ⟨es₁, es₂, heq, hturn⟩ := horder.inTurn hm
    by_contra hne
    obtain ⟨tr, htr⟩ := Option.ne_none_iff_exists'.1 hne
    have hlt' := ((hnum.conns _ _ hc).tree _ _ _ htr).1
    have hturn : tid = UInt32.ofNat _ := hturn
    have hlt := hw.trees cid sid
    rw [(hb _ _ hc).1] at hlt'
    rw [heq, treeCount_append, treeCount_treeConnect, treeCount_append] at hlt
    rw [treeCount_append] at hturn
    have := congrArg UInt32.toNat hturn
    rw [UInt32.toNat_ofNat'] at this
    omega

/-- The hypotheses of `step_uniqueIds` are met by the second of two CREATEs. -/
theorem step_uniqueIds_second : ∃ S S', (guestSystem false).Reach (fun _ _ => True) S ∧
    S.step (guestServer false) (.sub 0) = some S' ∧ Within S'.sh.trace ∧ S.live.length = 1 ∧ S'.live.length = 2 ∧
    UniqueIds S' ∧ TakesFree S S' := by
  obtain ⟨S, hS, htest⟩ := Transition.Reach.of_run (T := guestSystem false) (C := fun _ _ => True)
    (f := fun S => decide (S.live.length = 1) && (S.step (guestServer false) (.sub 0)).any fun S' =>
      decide (S'.sh.trace.length < 2 ^ 32) && decide (S'.live.length = 2))
    (.accept :: exchange 0 setupFrame ++ exchange 0 (treeConnectFrame 1) ++
      exchange 0 (createFrame 1 0 0 [0x61, 0x00]) ++ [.recv 0 (createFrame 1 0 0 [0x62, 0x00])])
    (by decide +kernel) (by decide +kernel)
  obtain ⟨hone, hany⟩ := Bool.and_eq_true_iff.1 htest
  obtain ⟨S', hstep, htest'⟩ := (Option.any_eq_true ..).1 hany
  obtain ⟨hlen, htwo⟩ := Bool.and_eq_true_iff.1 htest'
  have hw : Within S'.sh.trace := .of_length (of_decide_eq_true hlen)
  exact ⟨S, S', hS, hstep, hw, of_decide_eq_true hone, of_decide_eq_true htwo,
    step_uniqueIds (guestServer false) (0 : ℕ) S (.sub 0) S' hS hstep hw⟩

/-! ### When the session numbers wrap -/

section Dispatch

variable {sub : Bytes} {hdr : Header} (fid : FileId)

theorem dispatch_treeConnect {r : UInt32 × Header} (href : s.c.refusal o = none) (hcmd : o.cmd = cmdTreeConnect)
    (hrun : handleTreeConnect srv o sub hdr s = .ok r s') :
    dispatch srv o sub hdr fid s = .ok ⟨r.1, r.2, sub, fid⟩ s' := by
  unfold dispatch
  rw [bind_ok (get_apply s), href]
  dsimp only [handle]
  rw [if_neg (by rw [hcmd]; decide), if_pos hcmd, bind_ok hrun]
  rfl

theorem dispatch_create {r : UInt32 × FileId} (href : s.c.refusal o = none) (hcmd : o.cmd = cmdCreate)
    (hrun : handleCreate o sub fid s = .ok r s') :
    dispatch srv o sub hdr fid s = .ok ⟨r.1, hdr, sub, r.2⟩ s' := by
  unfold dispatch
  rw [bind_ok (get_apply s), href]
  dsimp only [handle]
  rw [if_neg (by rw [hcmd]; decide), if_neg (by rw [hcmd]; decide), if_pos hcmd, bind_ok hrun]
  rfl

end Dispatch

theorem dispatch_guest_treeConnect {o : Origin} {sub : Bytes} {req : TreeConnectRequest} {s : St guestEnv}
    {sess : Session guestEnv} (hdr : Header) (fid : FileId) (hreq : TreeConnectRequest.parse sub = .ok req)
    (hname : parseShareName (utf16FromBytes req.path) = [0x73]) (hcmd : o.cmd = cmdTreeConnect)
    (hs : s.c.session? o.sid = some sess) (hauth : sess.authenticated = true) :
    ∃ r s', dispatch (guestServer false) o sub hdr fid s = .ok r s' ∧ r.status = statusSuccess ∧ r.sub = sub ∧
      s'.sh = { s.sh with trace := .treeConnect o.conn o.sid sess.nextTreeID ⟨[0x73], (), false⟩ :: s.sh.trace } ∧
      s'.c.dead = s.c.dead ∧ s'.c.session? o.sid = some { sess with
        nextTreeID := sess.nextTreeID + 1
        trees := sess.trees.insert sess.nextTreeID { share := ⟨[0x73], (), false⟩ } } := by
  have hrefusal : s.c.refusal o = none := by
    rw [refusal, hs, hcmd]
    simp [hauth, requiresTree]
  obtain ⟨out, hrun⟩ : ∃ out, handleTreeConnect (guestServer false) o sub hdr s =
      .ok (statusSuccess, { hdr with treeId := sess.nextTreeID })
        ⟨{ s.sh with trace := .treeConnect o.conn o.sid sess.nextTreeID ⟨[0x73], (), false⟩ :: s.sh.trace },
          { s.c.modifySession o.sid (fun sess => { sess with
              nextTreeID := sess.nextTreeID + 1
              trees := sess.trees.insert sess.nextTreeID { share := ⟨[0x73], (), false⟩ } }) with out := out }⟩ := by
    rw [handleTreeConnect, hreq]
    dsimp only
    rw [hname, show (guestServer false).shareByName [0x73] = some ⟨[0x73], (), false⟩ from rfl]
    dsimp only
    rw [bind_ok (get_apply s), hs]
    exact ⟨_, rfl⟩
  refine ⟨_, _, dispatch_treeConnect fid hrefusal hcmd hrun, rfl, rfl, rfl, rfl, ?_⟩
  show (s.c.modifySession o.sid _).session? o.sid = _
  rw [session?_modifySession, if_pos rfl, hs]
  rfl

/-- A CREATE of a guest that asks for no oplock. -/
theorem dispatch_guest_create {o : Origin} {sub : Bytes} {req : CreateRequest} {s : St guestEnv}
    {sess : Session guestEnv} {tr : Tree guestEnv} (hdr : Header) (fid : FileId) (hreq : CreateRequest.parse sub = .ok req)
    (hlevel : req.requestedOplockLevel = 0) (hcmd : o.cmd = cmdCreate) (hs : s.c.session? o.sid = some sess)
    (hauth : sess.authenticated = true) (htr : sess.trees.lookup o.tid = some tr) (hro : tr.share.readOnly = false) :
    ∃ r s' calls path, dispatch (guestServer false) o sub hdr fid s = .ok r s' ∧
      s'.sh.trace = .created o (makeFileID o.sid o.tid (tr.nextID + 1)) path 0 :: (calls ++ s.sh.trace) ∧
      ∀ e ∈ calls, ∃ op, e = .call (some o) op := by
  have htree : s.c.tree? o.sid o.tid = some tr := by
    rw [Conn.tree?, hs]
    exact htr
  have hrefusal : s.c.refusal o = none := by
    rw [refusal, hs]
    simp [hauth, htr]
  have hregister : ∀ (h : ℕ) (s1 : St guestEnv), ∃ s2, registerOpen o tr req h s1 =
      .ok (makeFileID o.sid o.tid (tr.nextID + 1), 0) s2 ∧
      s2.sh.trace = .created o (makeFileID o.sid o.tid (tr.nextID + 1)) (openOptions req).path 0 :: s1.sh.trace := by
    intro h s1
    unfold registerOpen
    rw [hlevel]
    exact ⟨_, rfl, rfl⟩
  let s1 : St guestEnv := { s with sh := { s.sh with
    world := Nat.succ s.sh.world
    trace := .call (some o) (.stat s.sh.world) ::
      .call (some o) (.openFile tr.share (openOptions req) (.ok s.sh.world)) :: s.sh.trace } }
  obtain ⟨s2, hreg, htrace⟩ := hregister s.sh.world s1
  have hrun : handleCreate o sub fid s = (registerOpen o tr req s.sh.world >>= fun r =>
      succeed (CreateResponse.encode
        { oplockLevel := r.2
          createAction := createAction req.createDisposition
          times := fileTimes ⟨[], 0, false, Time.zero, Time.zero, Time.zero, Time.zero⟩
          fileId := r.1 }) >>= fun status => pure (status, r.1) : M guestEnv (UInt32 × FileId)) s1 := by
    rw [handleCreate, hreq]
    dsimp only
    rw [createFile, withTree_apply _ htree, hro]
    rfl
  exact ⟨_, _, [_, _], _, dispatch_create fid hrefusal hcmd (hrun.trans (bind_ok hreg)), htrace, by simp⟩

/-- SESSION_SETUP, TREE_CONNECT and CREATE in one frame, of a client that will have the
session number 1. -/
structure Newcomer (frame : Bytes) (hdr₁ hdr₂ hdr₃ : Header) (connect : TreeConnectRequest)
    (create : CreateRequest) : Prop where
  setup : OpensWithSetup frame hdr₁
  len : 168 + headerSize ≤ frame.length
  next₁ : hdr₁.nextCommand = 88
  parse₂ : Header.parse (frame.drop 88) = .ok hdr₂
  second : hdr₂.command = cmdTreeConnect ∧ hdr₂.sessionId = 1 ∧ hdr₂.flags = 0 ∧ hdr₂.nextCommand = 80
  connects : TreeConnectRequest.parse (frame.drop 88) = .ok connect
  share : parseShareName (utf16FromBytes connect.path) = [0x73]
  parse₃ : Header.parse (frame.drop 168) = .ok hdr₃
  third : hdr₃.command = cmdCreate ∧ hdr₃.sessionId = 1 ∧ hdr₃.treeId = 0 ∧ hdr₃.flags = 0
  creates : CreateRequest.parse (frame.drop 168) = .ok create
  level : create.requestedOplockLevel = 0

set_option maxRecDepth 4000 in
theorem exists_newcomer : ∃ frame hdr1 hdr2 hdr3 connect create, Newcomer frame hdr1 hdr2 hdr3 connect create :=
  ⟨Header.encode { command := cmdSessionSetup, nextCommand := 88 } ++ put16 25 ++ zeros 22 ++
      (Header.encode { command := cmdTreeConnect, sessionId := 1, nextCommand := 80 } ++
        put16 9 ++ put16 0 ++ put16 72 ++ put16 2 ++ [0x73, 0x00] ++ zeros 6) ++ createFrame 1 0 0 [0x62, 0x00],
    _, _, _, _, _,
    { setup := ⟨by decide, by decide, rfl, ⟨_, rfl⟩, by decide, by decide, by decide⟩
      len := by decide
      next₁ := by decide
      parse₂ := rfl
      second := by decide
      connects := rfl
      share := by decide
      parse₃ := rfl
      third := by decide
      creates := rfl
      level := by decide }⟩

/-- A new client of a server whose next session has the number 1. -/
theorem newcomer_creates {S : Sys guestEnv} (hS : (guestSystem false).Reach (fun _ _ => True) S)
    (hwrap : S.sh.nextSess + 1 = 1) :
    ∃ S1 S2 es, (guestSystem false).Reach (fun _ _ => True) S1 ∧
      S1.step (guestServer false) (.sub S.next) = some S2 ∧ S2.sh.trace = es ++ S.sh.trace ∧
      es.filterMap fileId? = [makeFileID 1 0 1] ∧ es.countP Event.registers = 2 := by
  obtain ⟨frame, hdr1, hdr2, hdr3, connect, create, hf⟩ := exists_newcomer
  -- The session.
  have hS1 : (guestSystem false).Reach (fun _ _ => True) S.accept := hS.step (l := .accept) trivial rfl
  have hc1 : S.accept.conns S.next = some (newConn S.next) := update_self ..
  obtain ⟨s1, lp1, hS1, -, ⟨es1, ht1, hes1⟩, hlive1, hlp1, hfollows1, hsess1⟩ :=
    setup_step hS1 hc1 rfl rfl rfl hf.setup
  obtain ⟨hoff1, hfin1⟩ := hfollows1.more (by rw [hf.next₁]; decide)
  rw [hf.next₁] at hoff1
  have hsub1 : lp1.sub = frame.drop 88 := by
    rw [Loop.sub, hfollows1.msg, hoff1]
    rfl
  -- The tree.
  obtain ⟨hcmd2, hsid2, hflags2, hnext2⟩ := hf.second
  have hguest : s1.c.session? hdr2.sessionId = some guestSession := by
    rw [hsid2, hsess1]
    exact if_pos hwrap.symm
  obtain ⟨hauth, hsign, htid, htrees⟩ := guestSession_plain
  obtain ⟨s2, hsame2, hdead2, hsh2, hsub2⟩ := step_sub (guestServer false) (put_conns_self S.accept S.next s1)
    hlp1 hlive1 hfin1 (by rw [hfollows1.msg, hoff1]; exact le_trans (by simp) hf.len) (by rw [hsub1]; exact hf.parse₂)
    hflags2 hfollows1.chain (fun sess hs => by rw [hguest] at hs; cases hs; exact hsign) (by rw [hcmd2]; decide)
    (by rw [hcmd2]; decide)
  have hguest2 : s2.c.session? (originOf s1.c hdr2).sid = some guestSession := by
    show s2.c.session? hdr2.sessionId = _
    rwa [Conn.session?, hsame2]
  obtain ⟨r2, s3, hrun2, hst2, hrsub2, hsh3, hdead3, hsess3⟩ := dispatch_guest_treeConnect hdr2
    lp1.lastFileId hf.connects hf.share hcmd2 hguest2 hauth
  rw [← hsub1] at hrun2 hrsub2
  obtain ⟨lp4, s4, hstep4, hsh4, hses4, hdead4, hlp4, hfollows4⟩ := hsub2 r2 s3 hrun2
  replace hfollows4 := hfollows4 hst2 hrsub2
  rw [put_put] at hstep4
  have hS4 : (guestSystem false).Reach (fun _ _ => True) (S.accept.put S.next s4) :=
    hS1.step (l := .sub S.next) trivial hstep4
  obtain ⟨hoff4, hfin4⟩ := hfollows4.more (by rw [hnext2]; decide)
  rw [hnext2, hoff1] at hoff4
  have hsub4 : lp4.sub = frame.drop 168 := by
    rw [Loop.sub, hfollows4.msg, hfollows1.msg, hoff4]
    rfl
  -- The open.
  obtain ⟨hcmd5, hsid5, htid5, hflags5⟩ := hf.third
  rw [show (originOf s1.c hdr2).sid = hdr3.sessionId from hsid2.trans hsid5.symm, Conn.session?, ← hses4] at hsess3
  obtain ⟨sess, hsess4, hauth4, hsign4, htree4⟩ : ∃ sess, s4.c.session? hdr3.sessionId = some sess ∧
      sess.authenticated = true ∧ sess.requireSign = false ∧
      sess.trees.lookup hdr3.treeId = some { share := ⟨[0x73], (), false⟩ } :=
    ⟨_, hsess3, hauth, hsign, by rw [htid, htid5]; exact AList.lookup_insert _⟩
  obtain ⟨s5, hsame5, hdead5, hsh5, hsub5⟩ := step_sub (guestServer false) (put_conns_self S.accept S.next s4)
    hlp4 (by rw [hdead4, hdead3, hdead2, hlive1]) (by rw [hfin4, hfin1])
    (by rw [hfollows4.msg, hfollows1.msg, hoff4]; exact hf.len) (by rw [hsub4]; exact hf.parse₃) hflags5
    hfollows4.chain (fun sess' hs => by rw [hsess4] at hs; cases hs; exact hsign4) (by rw [hcmd5]; decide)
    (by rw [hcmd5]; decide)
  have hsess5 : s5.c.session? (originOf s4.c hdr3).sid = some sess := by
    show s5.c.session? hdr3.sessionId = _
    rwa [Conn.session?, hsame5]
  obtain ⟨r5, s6, calls, path, hrun5, ht6, hcalls⟩ := dispatch_guest_create hdr3 lp4.lastFileId hf.creates
    hf.level hcmd5 hsess5 hauth4 htree4 rfl
  rw [← hsub4] at hrun5
  obtain ⟨lp7, s7, hstep7, hsh7, -⟩ := hsub5 r5 s6 hrun5
  have hidle : ∀ es : List (Event guestEnv), (∀ e ∈ es, fileId? e = none ∧ e.registers = false) →
      es.filterMap fileId? = [] ∧ es.countP Event.registers = 0 := fun es h =>
    ⟨filterMap_eq_nil_iff.2 fun e he => (h e he).1, countP_eq_zero.2 fun e he => by simp [(h e he).2]⟩
  obtain ⟨hf1, hr1⟩ := hidle es1 fun e he => by
    have hsetup := hes1 e he
    cases e <;> first | exact ⟨rfl, rfl⟩ | cases hsetup
  obtain ⟨hfc, hrc⟩ := hidle calls fun e he => by
    obtain ⟨op, rfl⟩ := hcalls e he
    exact ⟨rfl, rfl⟩
  obtain ⟨e2, ht2, hf2, hr2⟩ : ∃ e, s2.sh.trace = e :: s1.sh.trace ∧ fileId? e = none ∧ e.registers = false :=
    ⟨_, congrArg Shared.trace hsh2, rfl, rfl⟩
  obtain ⟨e3, ht3, hf3, hr3⟩ : ∃ e, s3.sh.trace = e :: s2.sh.trace ∧ fileId? e = none ∧ e.registers = true :=
    ⟨_, congrArg Shared.trace hsh3, rfl, rfl⟩
  obtain ⟨e5, ht5, hf5, hr5⟩ : ∃ e, s5.sh.trace = e :: s4.sh.trace ∧ fileId? e = none ∧ e.registers = false :=
    ⟨_, congrArg Shared.trace hsh5, rfl, rfl⟩
  rw [show (originOf s4.c hdr3).sid = 1 from hsid5, show (originOf s4.c hdr3).tid = 0 from htid5] at ht6
  refine ⟨_, _, .created (originOf s4.c hdr3) (makeFileID 1 0 1) path 0 :: (calls ++ e5 :: e3 :: e2 :: es1), hS4,
    hstep7, ?_, ?_, ?_⟩
  · rw [put_sh, hsh7, ht6, ht5, hsh4, ht3, ht2, ht1]
    simp only [cons_append, append_assoc]
    rfl
  · refine congrArg (List.cons (makeFileID 1 0 1)) ?_
    rw [filterMap_append, hfc, filterMap_cons_none hf5, filterMap_cons_none hf3,
      filterMap_cons_none hf2, hf1]
    rfl
  · rw [countP_cons_of_pos rfl, countP_append, hrc, countP_cons_of_neg (by simp [hr5]),
      countP_cons_of_pos hr3, countP_cons_of_neg (by simp [hr2]), hr1]

/-- Connection 0 has one open in its one session. -/
def openedOnce (S : Sys guestEnv) : Bool :=
  decide (S.sh.nextSess = 1) && decide (makeFileID 1 0 1 ∈ S.sh.trace.filterMap Event.fileId?) &&
    decide (S.sh.trace.countP Event.registers ≤ 2)

/-- **Once the session numbers wrap, a CREATE hands out a FileId for the second time.** -/
theorem session_wrap_repeats :
    ¬∀ (E : Env) (srv : Config E) (w : E.World) (S : Sys E) (l : Label) (S' : Sys E),
      (system srv w).Reach (fun _ _ => True) S → S.step srv l = some S' → TreesWithin S'.sh.trace →
      UniqueIds S' ∧ TakesFree S S' := by
  intro hall
  obtain ⟨S₀, hS₀, htest⟩ := Transition.Reach.of_run (T := guestSystem false) (C := fun _ _ => True) (f := openedOnce)
    (.accept :: exchange 0 setupFrame ++ exchange 0 (treeConnectFrame 1) ++
      exchange 0 (createFrame 1 0 0 [0x61, 0x00])) (by decide +kernel) (by decide +kernel)
  simp only [openedOnce, Bool.and_eq_true, decide_eq_true_eq] at htest
  obtain ⟨⟨hsess₀, hfirst⟩, hcount₀⟩ := htest
  obtain ⟨S₁, hS₁, hsess₁, -, -, es₁, ht₁, hes₁⟩ := setup_clients hS₀ (2 ^ 64 - 1)
  have hwrap : S₁.sh.nextSess + 1 = 1 := by
    rw [hsess₁, hsess₀]
    rfl
  obtain ⟨S₂, S₃, es₂, hS₂, hstep, ht₂, hfid, hcount₂⟩ := newcomer_creates hS₁ hwrap
  have hquiet : ∀ e ∈ es₁, e.registers = false := by
    intro e he
    have hsetup := hes₁ e he
    cases e <;> first | rfl | cases hsetup
  have htrace : S₃.sh.trace = es₂ ++ (es₁ ++ S₀.sh.trace) := by rw [ht₂, ht₁]
  have hwithin : TreesWithin S₃.sh.trace := by
    refine .of_countP ?_
    rw [htrace, List.countP_append, countP_append_of_not hquiet, hcount₂]
    omega
  have hfiles := (hall guestEnv (guestServer false) (0 : ℕ) S₂ _ S₃ hS₂ hstep hwithin).1.files
  rw [htrace, List.filterMap_append, hfid, List.singleton_append, List.nodup_cons] at hfiles
  refine hfiles.1 ?_
  rw [List.filterMap_append]
  exact List.mem_append_right _ hfirst

end Server
end SmbServer
