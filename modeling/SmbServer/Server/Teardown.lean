/-
# Nothing is left behind

Opens end by CLOSE, TREE_DISCONNECT, LOGOFF and the cleanup of their connection.  As long
as the numbers fit (`Within`), each open stays until one of these ends it, so that every
range of a lock manager and every entry of the oplock table is of an open with that path
(`Tabled`), and every handle a connection got is that of one of its opens or has been
closed since (`Sys.Settled`).  A connection that is gone has no opens left; nothing of
it is in the tables, and all its handles are closed (`reach_noLeak`).

The numbers of sessions are words of 64 bits.  The session after the last of them takes the
place of an older one, whose opens are then out of reach of every teardown
(`session_wrap_leaks`).
-/

import SmbServer.Server.OplockTable

namespace SmbServer
namespace Server

open Wire Go Function List Option

variable {E : Env} {srv : Config E} {o : Origin} {msg : Bytes} {s s' : St E} {S : Sys E} {cid : ConnId}
  {c : Conn E}
variable {es : List (Event E)} {p : GoString} {fid : FileId} {hdr : Header}

/-! ### The property -/

/-- **No leak.**  The tables name live opens, and a connection that is gone has closed its
handles and left nothing in the tables. -/
structure NoLeak (S : Sys E) : Prop where
  locks : ∀ p, ∀ r ∈ (S.sh.locks p).ranges, ∃ x ∈ S.live, x.fid = r.fileId
  oplocks : ∀ p, ∀ info ∈ S.sh.oplocks p, ∃ x ∈ S.live, x.fid = info.fileId
  closed : ∀ cid < S.next, S.conns cid = none → ∀ h, Shut cid h S.sh.trace
  freed : ∀ cid < S.next, S.conns cid = none → ∀ o fid path level,
    .created o fid path level ∈ S.sh.trace → o.conn = cid →
      (∀ p, ∀ r ∈ (S.sh.locks p).ranges, r.fileId ≠ fid) ∧ ∀ p, ∀ info ∈ S.sh.oplocks p, info.fileId ≠ fid

/-! ### The numbers of all connections -/

/-- The numbers of the server and of its connections are in order. -/
structure Sys.Numbered (S : Sys E) : Prop where
  shared : S.sh.Numbered
  conns : ∀ cid c, S.conns cid = some c → c.Numbered S.sh.trace

theorem Event.connects_of_isHandler {e : Event E} (h : e.isHandler cid = true) {cid' : ConnId} (hne : cid' ≠ cid)
    (sid : UInt64) : e.connects cid' sid = false := by
  cases e with
  | treeConnect cid0 sid0 tid share =>
    obtain rfl : cid0 = cid := of_decide_eq_true h
    exact decide_eq_false fun heq => hne heq.1.symm
  | _ => rfl

theorem Event.creates_of_isHandler {e : Event E} (h : e.isHandler cid = true) {cid' : ConnId} (hne : cid' ≠ cid)
    (sid : UInt64) (tid : UInt32) : e.creates cid' sid tid = false := by
  cases e with
  | created o fid path level =>
    obtain rfl : o.conn = cid := of_decide_eq_true h
    exact decide_eq_false fun heq => hne heq.1.symm
  | _ => rfl

/-- The other connections do not see the numbers one connection hands out. -/
theorem Sys.Numbered.put (h : S.Numbered) (hb : Base S) (hs : s'.sh.Numbered) (hn : s'.c.Numbered s'.sh.trace)
    (ht : s'.sh.trace = es ++ S.sh.trace)
    (hes : ∀ e ∈ es, e.isHandler cid = true ∨ e.numbers = false) : (S.put cid s').Numbered := by
  refine ⟨hs, fun cid' c' hc' => ?_⟩
  rcases Sys.conns_put hc' with ⟨-, rfl⟩ | ⟨hne, hc'⟩
  · exact hn
  · rw [Sys.put_sh, ht]
    obtain rfl : c'.id = cid' := (hb _ _ hc').1
    refine (h.conns _ _ hc').grow (fun sid hm => mem_append_right _ hm) (fun sid => ?_) fun sid tid => ?_
    · exact countP_append_of_not (fun e he => (hes e he).elim (Event.connects_of_isHandler · hne sid)
        (Event.connects_of_not_numbers · _ sid)) _
    · exact countP_append_of_not (fun e he => (hes e he).elim (Event.creates_of_isHandler · hne sid tid)
        (Event.creates_of_not_numbers · _ sid tid)) _

/-- Sessions, trees and opens that were there before, and events that hand out no number. -/
theorem Sys.Numbered.quiet (h : S.Numbered) (hb : Base S) (hc : S.conns cid = some c) (hf : c.Fewer s'.c)
    (hnext : s'.sh.nextSess = S.sh.nextSess) (ht : s'.sh.trace = es ++ S.sh.trace)
    (hes : ∀ e ∈ es, e.numbers = false) : (S.put cid s').Numbered := by
  refine h.put hb (h.shared.quiet ht hnext hes) ?_ ht fun e he => .inr (hes e he)
  rw [ht]
  exact ((h.conns _ _ hc).quiet hes).fewer hf

/-! ### The tables name opens -/

/-- An open of some connection has the path and the FileId. -/
def Sys.Owns (S : Sys E) (p : GoString) (fid : FileId) : Prop :=
  ∃ cid c sid tid oh, S.conns cid = some c ∧ c.open? sid tid fid = some oh ∧ oh.path = p

/-- Locks and oplocks are those of opens with that path. -/
structure Tabled (S : Sys E) : Prop where
  locks : ∀ p, ∀ r ∈ (S.sh.locks p).ranges, S.Owns p r.fileId
  oplocks : ∀ p info, S.sh.oplocks p = some info → S.Owns p info.fileId

theorem Sys.Owns.mem_live (hb : Base S) (h : S.Owns p fid) :
    ∃ x ∈ S.live, x.fid = fid := by
  obtain ⟨cid, c, sid, tid, oh, hc, ho, -⟩ := h
  obtain ⟨tr, htr, hl⟩ := Conn.open?_eq_some.1 ho
  obtain rfl : c.id = cid := (hb _ _ hc).1
  exact ⟨⟨⟨c.id, sid, tid, fid⟩, tr.share, oh⟩, (Sys.mem_live hb).2
    ⟨c, hc, Conn.mem_live.2 ⟨rfl, tr, htr, rfl, hl⟩⟩, rfl⟩

/-- An open of another connection stays, whatever this one does. -/
theorem Sys.Owns.put_cases (h : S.Owns p fid) (hc : S.conns cid = some c) :
    (∃ sid tid oh, c.open? sid tid fid = some oh ∧ oh.path = p) ∨ ∀ s', (S.put cid s').Owns p fid := by
  obtain ⟨cid', c', sid, tid, oh, hc', ho, hp⟩ := h
  by_cases hcid : cid' = cid
  · subst hcid
    cases hc.symm.trans hc'
    exact .inl ⟨sid, tid, oh, ho, hp⟩
  · exact .inr fun s' => ⟨cid', c', sid, tid, oh, (S.put_conns_of_ne hcid s').trans hc', ho, hp⟩

/-- An open that is held is that of its connection. -/
theorem Conn.Holds.owns {sid : UInt64} {tid : UInt32} {oh : OpenHandle E}
    (h : s'.c.Holds sid tid fid oh) : (S.put cid s').Owns oh.path fid := by
  obtain ⟨oh', ho, -, hp⟩ := h
  exact ⟨cid, s'.c, sid, tid, oh', Sys.put_conns_self .., ho, hp⟩

/-- Where no open goes, nothing is without its open. -/
theorem Sys.Owns.put (h : S.Owns p fid) (hc : S.conns cid = some c)
    (hholds : ∀ sid tid fid oh, c.open? sid tid fid = some oh → s'.c.Holds sid tid fid oh) :
    (S.put cid s').Owns p fid := by
  rcases h.put_cases hc with ⟨sid, tid, oh, ho, rfl⟩ | h
  · exact (hholds sid tid fid oh ho).owns
  · exact h s'

theorem Tabled.put (h : Tabled S) (hc : S.conns cid = some c)
    (hholds : ∀ sid tid fid oh, c.open? sid tid fid = some oh → s'.c.Holds sid tid fid oh)
    (hl : ∀ p, ∀ r ∈ (s'.sh.locks p).ranges, r ∈ (S.sh.locks p).ranges ∨ (S.put cid s').Owns p r.fileId)
    (ho : ∀ p info, s'.sh.oplocks p = some info → S.sh.oplocks p = some info ∨ (S.put cid s').Owns p info.fileId) :
    Tabled (S.put cid s') := by
  refine ⟨fun p r hr => ?_, fun p info hi => ?_⟩
  · exact (hl p r hr).elim (fun hr => (h.locks p r hr).put hc hholds) id
  · exact (ho p info hi).elim (fun hi => (h.oplocks p info hi).put hc hholds) id

/-- What an end takes out of the tables is all there was of the opens it ended. -/
theorem Tabled.ended {K : UInt64 → UInt32 → FileId → Prop} (h : Tabled S) (hc : S.conns cid = some c)
    (hends : Ended K ⟨S.sh, c⟩ s') : Tabled (S.put cid s') := by
  have hstays : ∀ {sid tid fid oh}, ¬K sid tid fid → c.open? sid tid fid = some oh →
      (S.put cid s').Owns oh.path fid := fun hK ho =>
    Conn.Holds.owns ⟨_, (hends.opens ..).2 ⟨hK, ho⟩, rfl, rfl⟩
  refine ⟨fun p r hr => ?_, fun p info hi => ?_⟩
  · obtain ⟨hr, hnot⟩ := hends.locks p r hr
    rcases (h.locks p r hr).put_cases hc with ⟨sid, tid, oh, ho, rfl⟩ | h
    · exact hstays (fun hK => hnot sid tid r.fileId oh hK ho rfl rfl) ho
    · exact h s'
  · rcases hends.oplocks p with ⟨hnone, -⟩ | ⟨heq, hnot⟩
    · rw [Sys.put_sh, hnone] at hi
      cases hi
    · rw [Sys.put_sh, heq] at hi
      rcases (h.oplocks p info hi).put_cases hc with ⟨sid, tid, oh, ho, rfl⟩ | h
      · exact hstays (fun hK => hnot sid tid info.fileId oh hK ho rfl) ho
      · exact h s'

/-- A step of a command leaves nothing without its open. -/
theorem Tabled.effect (h : Tabled S) (htold : Told S) (hnum : S.Numbered) (hc : S.conns cid = some c)
    (hcid : o.conn = c.id) (he : Effect srv o msg ⟨S.sh, c⟩ s') (hw : Within s'.sh.trace) :
    Tabled (S.put cid s') := by
  have hname := htold.named hc
  by_cases hends : Ended (Ends o msg) ⟨S.sh, c⟩ s'
  · exact h.ended hc hends
  · have hholds : ∀ sid tid fid oh, c.open? sid tid fid = some oh → s'.c.Holds sid tid fid oh :=
      fun sid tid fid oh ho => (he.remains hname hcid hnum.shared (hnum.conns _ _ hc) hw ho).resolve_right
        fun hne => hends hne.1
    rcases he.opens_cases hname with ⟨tr, req, hd, r, hr⟩ | hends' | hkept
    · have hnew : (S.put cid s').Owns (openOptions req).path r.1 := by
        refine ⟨cid, s'.c, o.sid, o.tid, newOpen o tr req hd, Sys.put_conns_self .., ?_, rfl⟩
        rw [registerOpen_open? hr.tree hr.run, if_pos ⟨rfl, rfl, rfl⟩]
      refine h.put hc hholds (fun p r hmem => .inl ?_) fun p info hi => ?_
      · have hrun := hr.run
        simp only [registerOpen, Outcome.ok.injEq] at hrun
        obtain ⟨-, rfl⟩ := hrun
        rwa [Shared.requestOplock_locks] at hmem
      · rcases hr.oplock_cases with ⟨-, -, htab, -⟩ | ⟨-, -, -, htab, -⟩ | ⟨b, -, -, htab, -⟩
        · exact .inl (htab ▸ hi)
        · rw [htab, update_apply] at hi
          split_ifs at hi with hp
          · subst hp
            cases hi
            exact .inr hnew
          · exact .inl hi
        · rw [htab, update_apply] at hi
          split_ifs at hi
          exact .inl hi
    · exact absurd hends' hends
    · refine h.put hc hholds (fun p r hmem => ?_) fun p info hi => .inl (by rwa [hkept.oplocks] at hi)
      rcases hkept.locks p r hmem with hmem | ⟨oh, ho, rfl⟩
      · exact .inl hmem
      · exact .inr (hholds _ _ _ _ ho).owns

/-- The opens, the numbers and the tables in order. -/
def Orderly (S : Sys E) : Prop := Told S ∧ (Within S.sh.trace → S.Numbered ∧ Tabled S)

theorem Conn.Holds.of_open? {c' : Conn E} (h : ∀ sid tid fid, c'.open? sid tid fid = c.open? sid tid fid)
    (sid : UInt64) (tid : UInt32) (fid : FileId) (oh : OpenHandle E) (ho : c.open? sid tid fid = some oh) :
    c'.Holds sid tid fid oh := ⟨oh, (h ..).trans ho, rfl, rfl⟩

theorem orderly_preserved (srv : Config E) :
    Preserved srv (fun _ _ => True) (fun _ _ => True) (Orderly (E := E)) where
  accept := by
    rintro S hb ⟨htold, h⟩
    refine ⟨(told_preserved srv).accept S hb htold, fun hw => ?_⟩
    obtain ⟨hnum, htab⟩ := h hw
    have howns : ∀ {p fid}, S.Owns p fid → S.accept.Owns p fid := by
      rintro p fid ⟨cid, c, sid, tid, oh, hc, ho, hp⟩
      refine ⟨cid, c, sid, tid, oh, ?_, ho, hp⟩
      exact (update_of_ne (hb _ _ hc).2.1.ne ..).trans hc
    refine ⟨⟨hnum.shared, fun cid c hc => ?_⟩, fun p r hr => howns (htab.locks p r hr),
      fun p info hi => howns (htab.oplocks p info hi)⟩
    rcases Sys.conns_accept hc with ⟨-, rfl⟩ | ⟨-, hc⟩
    · exact ⟨fun _ _ hs => (by cases hs), fun _ _ _ ht => (by cases ht), fun _ _ _ _ ho => (by cases ho)⟩
    · exact hnum.conns cid c hc
  aside := by
    rintro S cid c s' hb hc ⟨htold, h⟩ ha
    refine ⟨(told_preserved srv).aside S cid c s' hb hc htold ha, fun hw => ?_⟩
    obtain ⟨es, ht, hes⟩ := ha.trace
    rw [Sys.put_sh, ht] at hw
    obtain ⟨hnum, htab⟩ := h hw.of_append
    have hquiet : ∀ e ∈ es, e.numbers = false := by
      intro e he
      have hside := hes e he
      cases e <;> first | rfl | cases hside
    refine ⟨hnum.quiet hb hc (ha.shrinks.fewer ha.id) ha.nextSess ht hquiet, ?_⟩
    refine htab.put hc (.of_open? ha.open?) (fun p r hr => .inl ?_) fun p info hi => .inl ?_
    · rwa [ha.locks] at hr
    · rwa [ha.oplocks] at hi
  start _ _ _ _ _ _ _ _ _ _ _ := trivial
  carry _ _ _ _ _ := trivial
  exec := by
    rintro S cid c k hb hc hk hf hs ⟨htold, h⟩ -
    refine ⟨⟨((told_preserved srv).exec S cid c k hb hc hk hf hs htold trivial).1, fun hw => ?_⟩, trivial⟩
    have ht : (k.record ⟨S.sh, c⟩).sh.trace =
        [.exec k.origin k.lp.via (c.requiresEncryption k.origin.sid)] ++ S.sh.trace := rfl
    rw [Sys.put_sh, ht] at hw
    obtain ⟨hnum, htab⟩ := h hw.of_append
    refine ⟨hnum.quiet hb hc ((Conn.Shrinks.of_sessions rfl).fewer rfl) rfl ht (by simp [Event.numbers]), ?_⟩
    exact htab.put hc (.of_open? fun _ _ _ => rfl) (fun p r hr => .inl hr) fun p info hi => .inl hi
  effect := by
    rintro S cid c k s' hb hc hk hf ⟨htold, h⟩ - he
    refine ⟨⟨((told_preserved srv).effect S cid c k s' hb hc hk hf htold trivial he).1, fun hw => ?_⟩, trivial⟩
    obtain ⟨es, ht, hes⟩ := he.trace
    have hcid : k.origin.conn = c.id := hk.trans (hb _ _ hc).1.symm
    have hw' : Within (es ++ S.sh.trace) := ht ▸ hw
    obtain ⟨hnum, htab⟩ := h hw'.of_append
    obtain ⟨hs', hn'⟩ := he.numbered hcid hnum.shared (hnum.conns _ _ hc) hw
    refine ⟨hnum.put hb hs' hn' ht fun e hm => .inl (hk ▸ hes e hm), ?_⟩
    exact htab.effect htold hnum hc hcid he hw
  close := by
    rintro S cid c s' hb hc ⟨htold, h⟩ hC hcl
    refine ⟨(told_preserved srv).close S cid c s' hb hc htold trivial hcl, fun hw => ?_⟩
    obtain ⟨l, -, hends⟩ := hcl.ends
    obtain ⟨es, ht, hes⟩ := hends.not_numbers
    have hw' : Within (es ++ S.sh.trace) := ht ▸ hw
    obtain ⟨hnum, htab⟩ := h hw'.of_append
    have hname : (S.closing c).c.Named := fun sid tid fid oh ho => htold.named hc sid tid fid oh ho
    have hended := hcl.ended hname
    have hstays : ∀ {p fid}, S.Owns p fid → (∀ sid tid oh, c.open? sid tid fid = some oh → oh.path ≠ p) →
        (S.remove cid s'.sh).Owns p fid := by
      rintro p fid ⟨cid', c', sid, tid, oh, hc', ho, hp⟩ hnot
      refine ⟨cid', c', sid, tid, oh, ?_, ho, hp⟩
      refine (update_of_ne (fun heq => ?_) ..).trans hc'
      subst heq
      cases hc.symm.trans hc'
      exact hnot sid tid oh ho hp
    refine ⟨⟨hnum.shared.quiet ht hends.nextSess hes, fun cid' c' hc' => ?_⟩, fun p r hr => ?_, fun p info hi => ?_⟩
    · have htr : (S.remove cid s'.sh).sh.trace = es ++ S.sh.trace := ht
      rw [htr]
      exact (hnum.conns _ _ (Sys.conns_remove hc').2).quiet hes
    · obtain ⟨hr, hnot⟩ := hended.locks p r hr
      exact hstays (htab.locks p r hr) fun sid tid oh ho hp => hnot sid tid r.fileId oh trivial ho hp rfl
    · rcases hended.oplocks p with ⟨hnone, -⟩ | ⟨heq, hnot⟩
      · exact absurd (hnone.symm.trans hi) (by simp)
      · exact hstays (htab.oplocks p info (heq.symm.trans hi)) fun sid tid oh ho =>
          hnot sid tid info.fileId oh trivial ho

/-- In every run the numbers and the tables are in order. -/
theorem reach_orderly {C : Sys E → Label → Prop} {w : E.World} (hS : (system srv w).Reach C S) :
    Base S ∧ Orderly S := by
  refine (orderly_preserved srv).reach ?_ (hS.mono fun _ _ _ => trivial)
  refine ⟨fun _ _ _ _ _ _ hc => (by cases hc), fun _ => ⟨⟨?_, fun _ _ hc => (by cases hc)⟩, ?_⟩⟩
  · exact ⟨rfl, fun _ _ hm => (by cases hm), fun _ _ _ hm => (by cases hm), fun _ _ _ _ hm => (by cases hm),
      fun _ _ _ _ hm => (by cases hm)⟩
  · exact ⟨fun _ _ hr => (by cases hr), fun _ _ hi => (by cases hi)⟩

/-! ### Handles are held or closed -/

/-- The connection has an open with the handle. -/
def Conn.Has (c : Conn E) (h : E.Handle) : Prop := ∃ sid tid fid oh, c.open? sid tid fid = some oh ∧ oh.h = h

/-- Every handle a connection got is that of one of its opens, or was closed since. -/
def Sys.Settled (S : Sys E) : Prop :=
  ∀ cid h, (∃ c, S.conns cid = some c ∧ c.Has h) ∨ Shut cid h S.sh.trace

theorem Conn.Has.of_open? {c' : Conn E} {h : E.Handle} (hh : c.Has h)
    (ho : ∀ sid tid fid, c'.open? sid tid fid = c.open? sid tid fid) : c'.Has h := by
  obtain ⟨sid, tid, fid, oh, hop, rfl⟩ := hh
  exact ⟨sid, tid, fid, oh, (ho ..).trans hop, rfl⟩

/-- A step of one connection, handle by handle. -/
theorem Sys.Settled.put (h : S.Settled) (hc : S.conns cid = some c)
    (ht : s'.sh.trace = es ++ S.sh.trace) (hother : ∀ cid' hd, cid' ≠ cid → Shut cid' hd es)
    (hhas : ∀ hd, c.Has hd → s'.c.Has hd ∨ Shut cid hd s'.sh.trace)
    (hshut : ∀ hd, s'.c.Has hd ∨ Shut cid hd es) : (S.put cid s').Settled := by
  intro cid' hd
  rw [Sys.put_sh]
  by_cases hcid : cid' = cid
  · subst hcid
    rw [Sys.put_conns_self]
    rcases h cid' hd with ⟨c0, hc0, hhd⟩ | hold
    · cases hc.symm.trans hc0
      exact (hhas hd hhd).imp_left fun hhd => ⟨_, rfl, hhd⟩
    · refine (hshut hd).imp (fun hhd => ⟨_, rfl, hhd⟩) fun hes => ?_
      rw [ht]
      exact hes.append hold
  · rw [S.put_conns_of_ne hcid, ht]
    exact (h cid' hd).imp_right fun hold => (hother cid' hd hcid).append hold

theorem Sys.Settled.quiet (h : S.Settled) (hc : S.conns cid = some c) (es : List (Event E))
    (ht : s'.sh.trace = es ++ S.sh.trace) (hes : ∀ e ∈ es, ∀ cid' hd, ¬Event.Opened cid' hd e)
    (hopen : ∀ sid tid fid, s'.c.open? sid tid fid = c.open? sid tid fid) : (S.put cid s').Settled :=
  h.put hc ht (fun cid' hd _ => .of_not fun e he => hes e he cid' hd) (fun _ hh => .inl (hh.of_open? hopen))
    fun hd => .inr (.of_not fun e he => hes e he cid hd)

theorem Shared.Ends.not_opened {origin : Option Origin} {l : List (OpenHandle E)} {sh sh' : Shared E}
    (h : sh.Ends origin l sh') :
    ∃ es, sh'.trace = es ++ sh.trace ∧ ∀ e ∈ es, ∀ cid hd, ¬Event.Opened cid hd e := by
  obtain ⟨es, ht, hes⟩ := h.trace
  refine ⟨es, ht, ?_⟩
  rintro e he cid hd ⟨o, share, opts, rfl, -⟩
  obtain ⟨oh, -, heq⟩ := hes _ he
  cases heq

theorem Effect.not_opened (he : Effect srv o msg s s') (hcmd : o.cmd ≠ cmdCreate) :
    ∃ es, s'.sh.trace = es ++ s.sh.trace ∧ ∀ e ∈ es, ∀ cid hd, ¬Event.Opened cid hd e := by
  have hcons : ∀ {e : Event E} {t : List (Event E)}, (∀ cid hd, ¬Event.Opened cid hd e) →
      (∃ es, t = es ++ s.sh.trace ∧ ∀ e ∈ es, ∀ cid hd, ¬Event.Opened cid hd e) →
      ∃ es, e :: t = es ++ s.sh.trace ∧ ∀ e ∈ es, ∀ cid hd, ¬Event.Opened cid hd e := by
    rintro e _ h ⟨es, rfl, hes⟩
    exact ⟨e :: es, rfl, forall_mem_cons.2 ⟨h, hes⟩⟩
  have hid : ∃ es, s.sh.trace = es ++ s.sh.trace ∧ ∀ e ∈ es, ∀ cid hd, ¬Event.Opened cid hd e := ⟨[], rfl, by simp⟩
  cases he with
  | call w op h =>
    refine hcons ?_ hid
    rintro cid hd ⟨o', share, opts, heq, -⟩
    obtain ⟨-, rfl⟩ := Event.call.inj heq
    exact hcmd (h.opens rfl)
  | session auth hcmd' => exact hcons (by rintro cid hd ⟨_, _, _, heq, -⟩; cases heq) hid
  | identity sid r hcmd' h => exact hcons (by rintro cid hd ⟨_, _, _, heq, -⟩; cases heq) hid
  | treeConnect share sess hcmd' h ha => exact hcons (by rintro cid hd ⟨_, _, _, heq, -⟩; cases heq) hid
  | create tr req h r _ hcmd' hreq htr hopen hs => exact absurd hcmd' hcmd
  | treeDisconnect s1 hcmd' h hc =>
    obtain ⟨l, -, hends⟩ := hc.ends
    exact hcons (by rintro cid hd ⟨_, _, _, heq, -⟩; cases heq) hends.not_opened
  | logoff s1 hcmd' h hc =>
    obtain ⟨l, -, hends⟩ := hc.ends
    exact hcons (by rintro cid hd ⟨_, _, _, heq, -⟩; cases heq) hends.not_opened
  | _ => exact hid

theorem Sys.Settled.effect (h : S.Settled) (htold : Told S) (hnum : S.Numbered) (hc : S.conns cid = some c)
    (hcid : o.conn = c.id) (he : Effect srv o msg ⟨S.sh, c⟩ s') (hcmd : o.cmd ≠ cmdCreate)
    (hw : Within s'.sh.trace) : (S.put cid s').Settled := by
  obtain ⟨es, ht, hes⟩ := he.not_opened hcmd
  refine h.put hc ht (fun cid' hd _ => .of_not fun e hm => hes e hm cid' hd) (fun hd hhas => ?_)
    fun hd => .inr (.of_not fun e hm => hes e hm cid hd)
  obtain ⟨sid, tid, fid, oh, ho, rfl⟩ := hhas
  rcases he.remains (htold.named hc) hcid hnum.shared (hnum.conns _ _ hc) hw ho with ⟨oh', ho', hh, -⟩ | ⟨-, hshut⟩
  · exact .inl ⟨sid, tid, fid, oh', ho', hh⟩
  · exact .inr (hshut cid)

theorem Change.trace_grows {k : Option (Command E)} (h : Change srv k s s') :
    ∃ es, s'.sh.trace = es ++ s.sh.trace := by
  cases h with
  | aside ha => exact ⟨[], ha.trace_eq⟩
  | exec cmd hk hf hs => exact ⟨[_], rfl⟩
  | effect cmd hk hf he =>
    obtain ⟨es, ht, -⟩ := he.trace
    exact ⟨es, ht⟩

theorem Sys.Settled.run (h : S.Settled) (hb : Base S) (hord : Orderly S) (hc : S.conns cid = some c)
    {k : Option (Command E)} (hk : ∀ cmd, k = some cmd → cmd.origin.conn = cid ∧ cmd.origin.cmd ≠ cmdCreate)
    (hrun : Relation.ReflTransGen (Change srv k) ⟨S.sh, c⟩ s') (hw : Within s'.sh.trace) :
    (S.put cid s').Settled := by
  have hstart : Holding (fun _ _ => True) Orderly S cid k ⟨S.sh, c⟩ := by
    unfold Holding
    rw [Sys.put_self hc]
    exact ⟨hb, hord, fun _ _ => trivial⟩
  induction hrun with
  | refl => rwa [Sys.put_self hc]
  | @tail s1 s2 hrun hst ih =>
    obtain ⟨hb1, ⟨htold1, hord1⟩, -⟩ := (orderly_preserved srv).changes (fun cmd hcmd => (hk cmd hcmd).1) hstart hrun
    obtain ⟨es, ht⟩ := hst.trace_grows
    have hw1 : Within s1.sh.trace := (ht ▸ hw).of_append
    have hset1 := ih hw1
    have hc1 : (S.put cid s1).conns cid = some s1.c := Sys.put_conns_self ..
    rw [← Sys.put_put S cid s1 s2]
    cases hst with
    | aside ha => exact hset1.quiet hc1 [] ha.trace_eq (by simp) ha.open?
    | exec cmd hcmd hf hs =>
      refine hset1.quiet hc1 [_] rfl ?_ fun _ _ _ => rfl
      rintro e he cid' hd ⟨o', share, opts, rfl, -⟩
      cases mem_singleton.1 he
    | effect cmd hcmd hf he =>
      have hcid : cmd.origin.conn = s1.c.id := (hk cmd hcmd).1.trans (hb1 _ _ hc1).1.symm
      exact hset1.effect htold1 (hord1 hw1).1 hc1 hcid he (hk cmd hcmd).2 hw

theorem Sys.Settled.creates (h : S.Settled) (hnum : S.Numbered) (hc : S.conns cid = some c) (hid : c.id = cid)
    (hcid : o.conn = cid) (hrun : CreateRun o ⟨S.sh, c⟩ s') (hw : Within s'.sh.trace) : (S.put cid s').Settled := by
  cases hrun with
  | none ha es ht hshut =>
    exact h.put hc ht (fun cid' hd _ => hshut cid' hd) (fun hd hhas => .inl (hhas.of_open? ha.open?))
      fun hd => .inr (hshut cid hd)
  | made tr req hd r s1 s2 ha es ht hshut htr hreg hb =>
    obtain ⟨es2, ht2, hes2⟩ := registerOpen_trace hreg
    obtain ⟨es3, ht3, hes3⟩ := hb.trace
    have htrace : s'.sh.trace = (es3 ++ .created o r.1 (openOptions req).path r.2 :: es2) ++ es ++ S.sh.trace := by
      rw [ht3, ht2, ht]
      simp
    -- What follows the calls opens nothing.
    have hlast : ∀ cid' hd', Shut cid' hd' (es3 ++ .created o r.1 (openOptions req).path r.2 :: es2) := by
      refine fun cid' hd' => (Shut.of_isExec hes3 cid' hd').append (.of_not ?_)
      rintro e he ⟨o', share, opts, rfl, -⟩
      rcases mem_cons.1 he with heq | he
      · cases heq
      · obtain ⟨_, _, _, heq⟩ := hes2 _ he
        cases heq
    have hopen : ∀ sid tid fid, s'.c.open? sid tid fid =
        if sid = o.sid ∧ tid = o.tid ∧ fid = r.1 then some (newOpen o tr req hd) else c.open? sid tid fid := by
      intro sid tid fid
      rw [hb.open?, registerOpen_open? htr hreg, ha.open?]
    have hnew : s'.c.Has hd := ⟨o.sid, o.tid, r.1, newOpen o tr req hd, by rw [hopen, if_pos ⟨rfl, rfl, rfl⟩], rfl⟩
    have hn1 : s1.c.Numbered s1.sh.trace := by
      obtain ⟨es1, ht1, hes1⟩ := ha.trace
      rw [ht1]
      refine ((hnum.conns _ _ hc).quiet fun e he => ?_).fewer (ha.shrinks.fewer ha.id)
      have hwork := hes1 e he
      cases e <;> first | rfl | cases hwork
    have hid1 : o.conn = s1.c.id := hcid.trans (hid.symm.trans ha.id.symm)
    have hw2 : Within s2.sh.trace := (ht3 ▸ hw).of_append
    refine h.put hc htrace (fun cid' hd' hne => ?_) (fun hd' hhas => .inl ?_) fun hd' => ?_
    · exact (hlast cid' hd').append (hshut cid' hd' fun heq => absurd (heq.trans hcid) hne)
    · obtain ⟨sid, tid, fid, oh, ho, rfl⟩ := hhas
      refine ⟨sid, tid, fid, oh, ?_, rfl⟩
      rw [hopen, if_neg, ho]
      rintro ⟨rfl, rfl, rfl⟩
      exact registerOpen_fresh hid1 hn1 htr hreg hw2 ((ha.open? ..).trans ho)
    · by_cases hne : hd' = hd
      · exact .inl (hne ▸ hnew)
      · exact .inr ((hlast cid hd').append (hshut cid hd' fun _ => hne))

/-- The end of a connection closes what it holds. -/
theorem Sys.Settled.close (h : S.Settled) (hc : S.conns cid = some c)
    (hcl : Closed none (fun _ _ => True) (S.closing c) s') : (S.remove cid s'.sh).Settled := by
  obtain ⟨l, hl, hends⟩ := hcl.ends
  obtain ⟨es, ht, hes⟩ := hends.not_opened
  intro cid' hd
  have htrace : (S.remove cid s'.sh).sh.trace = es ++ S.sh.trace := ht
  have hquiet : Shut cid' hd es := .of_not fun e he => hes e he cid' hd
  rcases h cid' hd with ⟨c', hc', hhas⟩ | hold
  · by_cases hcid : cid' = cid
    · subst hcid
      cases hc.symm.trans hc'
      obtain ⟨sid, tid, fid, oh, ho, rfl⟩ := hhas
      exact .inr (hends.shut ((hl oh).2 ⟨sid, tid, fid, trivial, ho⟩) cid')
    · exact .inl ⟨c', (update_of_ne hcid ..).trans hc', hhas⟩
  · rw [htrace]
    exact .inr (hquiet.append hold)

theorem Sys.Settled.sub (h : S.Settled) (hb : Base S) (hord : Orderly S) (hw0 : Within S.sh.trace)
    (hc : S.conns cid = some c) {lp : Loop} (hw : Within (S.exec cid c (subCommand srv lp)).sh.trace) :
    (S.exec cid c (subCommand srv lp)).Settled := by
  obtain ⟨s', ha, heq⟩ := S.exec_eq cid c (subCommand srv lp)
  rw [heq] at hw ⊢
  have hid : c.id = cid := (hb _ _ hc).1
  have horigin : ∀ cmd, nextCommand c lp = some cmd → cmd.origin.conn = cid := fun cmd hk => by
    rw [Command.origin, originOf, (nextCommand_spec hk).1]
    exact hid
  by_cases hcreate : ∃ k, nextCommand c lp = some k ∧ k.origin.cmd = cmdCreate
  · obtain ⟨k, hk, hcmd⟩ := hcreate
    have hrun := Creates.run_before (subCommand_creates srv hk hcmd S.sh) (ha.mono fun _ h => by cases h)
    exact h.creates (hord.2 hw0).1 hc hid (horigin k hk) hrun hw
  · have hrun := (subCommand_moves srv lp (s := ⟨S.sh, c⟩) (hb _ _ hc).2.2).tail (.aside ha)
    exact h.run hb hord hc (fun cmd hk => ⟨horigin cmd hk, fun hcmd => hcreate ⟨cmd, hk, hcmd⟩⟩) hrun hw

theorem Sys.Settled.step (h : S.Settled) (hb : Base S) (hord : Orderly S) (hw0 : Within S.sh.trace) {l : Label}
    {S' : Sys E} (hstep : S.step srv l = some S') (hw : Within S'.sh.trace) : S'.Settled := by
  by_cases hl : ∃ cid, l = .sub cid
  · obtain ⟨cid, rfl⟩ := hl
    cases Sys.step_fired hstep with
    | sub hc hlp hfin => exact h.sub hb hord hw0 hc hw
  · cases Sys.step_moved hstep with
    | accept =>
      intro cid hd
      refine (h cid hd).imp_left ?_
      rintro ⟨c, hc, hhas⟩
      exact ⟨c, (update_of_ne (hb _ _ hc).2.1.ne ..).trans hc, hhas⟩
    | close hc hcl => exact h.close hc hcl
    | aside hc ha =>
      obtain ⟨es, ht, hes⟩ := ha.trace
      refine h.quiet hc es ht ?_ ha.open?
      rintro e he cid hd ⟨o, share, opts, rfl, -⟩
      have hside := hes _ he
      cases hside
    | sub => exact absurd ⟨_, rfl⟩ hl

theorem Sys.step_grows {l : Label} {S' : Sys E} (hb : Base S) (hstep : S.step srv l = some S') :
    ∃ es, S'.sh.trace = es ++ S.sh.trace := by
  cases Sys.step_moved hstep with
  | accept => exact ⟨[], rfl⟩
  | close hc hcl =>
    obtain ⟨l, -, hends⟩ := hcl.ends
    obtain ⟨es, ht, -⟩ := hends.trace
    exact ⟨es, ht⟩
  | aside hc ha =>
    obtain ⟨es, ht, -⟩ := ha.trace
    exact ⟨es, ht⟩
  | @sub cid c lp s' hc hlp h =>
    have hrun := h (hb _ _ hc).2.2
    rw [Sys.put_sh]
    clear h hstep
    induction hrun with
    | refl => exact ⟨[], rfl⟩
    | tail _ hst ih =>
      obtain ⟨es, ht⟩ := ih
      obtain ⟨es', ht'⟩ := hst.trace_grows
      exact ⟨es' ++ es, by rw [ht', ht, append_assoc]⟩

/-- In every run every handle is held or closed. -/
theorem reach_settled {C : Sys E → Label → Prop} {w : E.World} (hS : (system srv w).Reach C S)
    (hw : Within S.sh.trace) : S.Settled := by
  induction hS with
  | init => exact fun cid h => .inr (.of_not fun e he => by cases he)
  | @step S0 S' l hS0 hC hstep ih =>
    obtain ⟨hb, hord⟩ := reach_orderly hS0
    obtain ⟨es, ht⟩ := Sys.step_grows hb hstep
    have hw0 : Within S0.sh.trace := (ht ▸ hw).of_append
    exact (ih hw0).step hb hord hw0 hstep hw

/-- **Nothing is left behind**, in every run with fewer than `2 ^ 64` sessions on the
server, `2 ^ 32` TREE_CONNECTs on a session and `2 ^ 32` CREATEs on a tree. -/
theorem reach_noLeak (srv : Config E) (w : E.World) (S : Sys E) (hS : (system srv w).Reach (fun _ _ => True) S)
    (hw : Within S.sh.trace) : NoLeak S := by
  obtain ⟨hb, htold, hord⟩ := reach_orderly hS
  obtain ⟨hnum, htab⟩ := hord hw
  -- The FileId of an open of a connection is not that of another's.
  have hfreed : ∀ {p fid o path level}, S.Owns p fid → .created o fid path level ∈ S.sh.trace →
      S.conns o.conn ≠ none := by
    rintro p fid o path level ⟨cid, c, sid, tid, oh, hc, ho, -⟩ hm hnone
    obtain ⟨hsess, -, n, hn⟩ := hnum.shared.opens o fid path level hm
    obtain ⟨m, -, hm'⟩ := (hnum.conns _ _ hc).opens _ _ _ _ ho
    obtain ⟨rfl, -, -⟩ := makeFileID_inj (hn.symm.trans hm')
    obtain ⟨tr, htr, -⟩ := Conn.open?_eq_some.1 ho
    obtain ⟨sess, hs, -⟩ := Option.bind_eq_some_iff.1 htr
    have hconn := hnum.shared.owner _ _ _ hsess ((hnum.conns _ _ hc).session _ _ hs).1
    rw [hconn, (hb _ _ hc).1, hc] at hnone
    cases hnone
  refine ⟨fun p r hr => (htab.locks p r hr).mem_live hb, fun p info hi => (htab.oplocks p info hi).mem_live hb,
    fun cid _ hnone h => ?_, fun cid _ hnone o fid path level hm hcid => ⟨fun p r hr heq => ?_, fun p info hi heq => ?_⟩⟩
  · refine (reach_settled hS hw cid h).resolve_left ?_
    rintro ⟨c, hc, -⟩
    rw [hnone] at hc
    cases hc
  · subst hcid heq
    exact hfreed (htab.locks p r hr) hm hnone
  · subst hcid heq
    exact hfreed (htab.oplocks p info hi) hm hnone

/-- The hypotheses of `reach_noLeak` are met where one connection is gone and another holds
an oplock. -/
theorem reach_noLeak_after_close : ∃ S, (guestSystem false).Reach (fun _ _ => True) S ∧ Within S.sh.trace ∧
    (S.conns 0).isNone = true ∧ S.live.length = 1 ∧ (S.sh.oplocks [0x61]).isSome = true ∧ NoLeak S := by
  obtain ⟨S, hS, htest⟩ := Transition.Reach.of_run (T := guestSystem false) (C := fun _ _ => True)
    (f := fun S => decide (S.sh.trace.length < 2 ^ 32) && (S.conns 0).isNone && decide (S.live.length = 1) &&
      (S.sh.oplocks [0x61]).isSome)
    (.accept :: exchange 0 setupFrame ++ exchange 0 (treeConnectFrame 1) ++
      exchange 0 (createFrame 1 0 9 [0x61, 0x00]) ++ [.close 0] ++ .accept :: exchange 1 setupFrame ++
      exchange 1 (treeConnectFrame 2) ++ exchange 1 (createFrame 2 0 9 [0x61, 0x00]))
    (by decide +kernel) (by decide +kernel)
  simp only [Bool.and_eq_true, decide_eq_true_eq] at htest
  obtain ⟨⟨⟨hlen, hgone⟩, hlive⟩, hoplock⟩ := htest
  have hw : Within S.sh.trace := .of_length hlen
  exact ⟨S, hS, hw, hgone, hlive, hoplock, reach_noLeak (guestServer false) (0 : ℕ) S hS hw⟩

/-! ### When the session numbers wrap -/

/-- What a SESSION_SETUP records. -/
def Event.isSetup : Event E → Bool
  | .exec .. | .session .. | .identity .. => true
  | _ => false

/-- The session of a guest. -/
def guestSession : Session guestEnv :=
  authenticate (guestServer false) { identity := some { username := [0x67, 0x75, 0x65, 0x73, 0x74] } } { auth := () }

theorem guestSession_plain : guestSession.authenticated = true ∧ guestSession.requireSign = false ∧
    guestSession.nextTreeID = 0 ∧ guestSession.trees = ∅ := ⟨rfl, rfl, rfl, rfl⟩

/-- A SESSION_SETUP of a guest puts a session into the table, in place of any of that
number. -/
theorem handleSessionSetup_guest {o : Origin} {sub : Bytes} {req : SessionSetupRequest}
    {s : St guestEnv} (hreq : SessionSetupRequest.parse sub = .ok req) (h0 : s.c.session? hdr.sessionId = none) :
    ∃ r s', handleSessionSetup (guestServer false) o sub hdr s = .ok r s' ∧ r.1 = statusSuccess ∧
      s'.sh.nextSess = s.sh.nextSess + 1 ∧
      s'.sh.trace = .identity o.conn (s.sh.nextSess + 1) :: .session o.conn (s.sh.nextSess + 1) :: s.sh.trace ∧
      s'.c.dead = s.c.dead ∧
      ∀ sid, s'.c.session? sid = if sid = s.sh.nextSess + 1 then some guestSession else s.c.session? sid := by
  let sid := s.sh.nextSess + 1
  let s1 : St guestEnv := ⟨{ s.sh with nextSess := sid, trace := .session o.conn sid :: s.sh.trace },
    { s.c with sessions := s.c.sessions.insert sid { auth := () } }⟩
  have h1 : sessionFor o.conn hdr.sessionId s = .ok sid s1 := by
    unfold sessionFor
    rw [bind_ok (get_apply s), h0]
    rfl
  have hsess : s1.c.session? sid = some { auth := () } := by simp [s1, Conn.session?]
  let s2 : St guestEnv := { s1 with c := s1.c.modifySession sid fun sess => { sess with auth := () } }
  let r : Auth.AcceptResult := { identity := some { username := [0x67, 0x75, 0x65, 0x73, 0x74] } }
  have h2 : acceptToken sid req.securityBuffer s1 = .ok (.ok r) s2 := by
    unfold acceptToken
    rw [bind_ok (get_apply s1), hsess]
    rfl
  let s3 : St guestEnv := ⟨{ s2.sh with trace := .identity o.conn sid :: s2.sh.trace },
    s2.c.modifySession sid (authenticate (guestServer false) r)⟩
  have hsess3 : s3.c.session? sid = some guestSession := by
    simp only [s3, s2, Conn.session?_modifySession, hsess, if_true, map_some]
    rfl
  have h3 : finishSessionSetup (guestServer false) o.conn sid (.ok r) s2 =
      .ok statusSuccess { s3 with c := { s3.c with out := s3.c.out ++ sessionSetupResponse s3.c.out.length 0 [] } } := by
    show sendToken (guestServer false) sid [] s3 = _
    unfold sendToken
    rw [bind_ok (get_apply s3), hsess3]
    rfl
  unfold handleSessionSetup
  rw [hreq]
  dsimp only
  rw [bind_ok h1, bind_ok h2, bind_ok h3]
  refine ⟨_, _, rfl, rfl, rfl, rfl, rfl, fun sid' => ?_⟩
  show s3.c.session? sid' = _
  split_ifs with heq
  · rw [heq]
    exact hsess3
  · have hne : ¬sid' = sid := heq
    simp only [s3, s2, Conn.session?_modifySession, if_neg hne]
    show (s.c.sessions.insert sid { auth := () }).lookup sid' = _
    rw [GoMap.lookup_insert', if_neg hne]
    rfl

theorem dispatch_guest_setup {o : Origin} {sub : Bytes} {req : SessionSetupRequest}
    {s : St guestEnv} (fid : FileId) (hreq : SessionSetupRequest.parse sub = .ok req) (hcmd : o.cmd = cmdSessionSetup)
    (hsid : o.sid = hdr.sessionId) (h0 : s.c.session? hdr.sessionId = none) :
    ∃ r s', dispatch (guestServer false) o sub hdr fid s = .ok r s' ∧ r.status = statusSuccess ∧ r.sub = sub ∧
      s'.sh.nextSess = s.sh.nextSess + 1 ∧
      s'.sh.trace = .identity o.conn (s.sh.nextSess + 1) :: .session o.conn (s.sh.nextSess + 1) :: s.sh.trace ∧
      s'.c.dead = s.c.dead ∧
      ∀ sid, s'.c.session? sid = if sid = s.sh.nextSess + 1 then some guestSession else s.c.session? sid := by
  obtain ⟨r, s', hrun, hst, hnext, htrace, hdead, hsess⟩ := handleSessionSetup_guest (o := o) hreq h0
  have hrefusal : s.c.refusal o = none := by
    rw [Conn.refusal, hsid, h0]
    simp [hcmd]
  refine ⟨⟨r.1, r.2, sub, fid⟩, s', ?_, hst, rfl, hnext, htrace, hdead, hsess⟩
  unfold dispatch
  rw [bind_ok (get_apply s), hrefusal]
  dsimp only [handle]
  rw [if_pos hcmd, bind_ok hrun]
  rfl

/-- A frame whose first command is a SESSION_SETUP for a new session. -/
structure OpensWithSetup (frame : Bytes) (hdr : Header) : Prop where
  len : headerSize ≤ frame.length
  plain : u8At frame 0 ≠ 0xFD
  parse : Header.parse frame = .ok hdr
  request : ∃ req, SessionSetupRequest.parse frame = .ok req
  command : hdr.command = cmdSessionSetup
  session : hdr.sessionId = 0
  flags : hdr.flags = 0

theorem opensWithSetup_setupFrame : ∃ hdr, OpensWithSetup setupFrame hdr ∧ hdr.nextCommand = 0 :=
  ⟨_, ⟨by decide, by decide, rfl, ⟨_, rfl⟩, by decide, by decide, by decide⟩, by decide⟩

/-- A client sends such a frame, and its first command is handled. -/
theorem setup_step {S : Sys guestEnv} {cid : ConnId} {c : Conn guestEnv} {frame : Bytes}
    (hS : (guestSystem false).Reach (fun _ _ => True) S) (hc : S.conns cid = some c) (hidle : c.loop = none)
    (hlive : c.dead = false) (h0 : c.session? 0 = none) (hf : OpensWithSetup frame hdr) :
    ∃ s' lp, (guestSystem false).Reach (fun _ _ => True) (S.put cid s') ∧ s'.sh.nextSess = S.sh.nextSess + 1 ∧
      (∃ es, s'.sh.trace = es ++ S.sh.trace ∧ ∀ e ∈ es, e.isSetup = true) ∧ s'.c.dead = false ∧
      s'.c.loop = some lp ∧ ({ msg := frame, via := .plain } : Loop).Follows hdr lp ∧
      ∀ sid, s'.c.session? sid = if sid = S.sh.nextSess + 1 then some guestSession else c.session? sid := by
  obtain ⟨req, hreq⟩ := hf.request
  have henc : c.requiresEncryption (u64At frame 40) = false := by
    rw [← Header.parse_sessionId hf.parse, hf.session, Conn.requiresEncryption, h0]
    rfl
  obtain ⟨c1, hrecv, hlp, hlive1, hsess1, -⟩ := Sys.step_recv (guestServer false) hc hidle hlive hf.plain henc
  have hS1 : (guestSystem false).Reach (fun _ _ => True) (S.put cid ⟨S.sh, c1⟩) :=
    hS.step (l := .recv cid frame) trivial hrecv
  have h01 : c1.session? hdr.sessionId = none := by rwa [hf.session, Conn.session?, hsess1]
  obtain ⟨s1, hsess2, hdead1, hsh1, hsub⟩ := Sys.step_sub (guestServer false) (Sys.put_conns_self S cid ⟨S.sh, c1⟩) hlp
    hlive1 rfl hf.len hf.parse hf.flags rfl (fun sess hs => by rw [h01] at hs; cases hs)
    (by rw [hf.command]; decide) (by rw [hf.command]; decide)
  have h02 : s1.c.session? hdr.sessionId = none := by rwa [Conn.session?, hsess2]
  obtain ⟨r, s2, hrun, hst, hrsub, hnext, htrace, hdead, hsess⟩ := dispatch_guest_setup
    (o := originOf c1 hdr) (Arr.zero 16) hreq hf.command rfl h02
  obtain ⟨lp, s', hstep, hsh, hses, hdead', hloop, hfollows⟩ := hsub r s2 hrun
  rw [Sys.put_put] at hstep
  rw [hsh1] at htrace
  refine ⟨s', lp, hS1.step (l := .sub cid) trivial hstep, ?_,
    ⟨[_, _, _], (congrArg Shared.trace hsh).trans htrace, by simp [Event.isSetup]⟩, ?_, hloop,
    hfollows hst hrsub, fun sid => ?_⟩
  · rw [hsh, hnext, hsh1]
    rfl
  · rw [hdead', hdead, hdead1, hlive1]
  · rw [Conn.session?, hses]
    refine (hsess sid).trans ?_
    rw [hsh1, Conn.session?, hsess2, hsess1]
    rfl

/-- More clients, each with a session of its own. -/
theorem setup_clients {S : Sys guestEnv} (hS : (guestSystem false).Reach (fun _ _ => True) S) (n : ℕ) :
    ∃ S', (guestSystem false).Reach (fun _ _ => True) S' ∧ S'.sh.nextSess = S.sh.nextSess + UInt64.ofNat n ∧
      S.next ≤ S'.next ∧ (∀ cid < S.next, S'.conns cid = S.conns cid) ∧
      ∃ es, S'.sh.trace = es ++ S.sh.trace ∧ ∀ e ∈ es, e.isSetup = true := by
  induction n with
  | zero => exact ⟨S, hS, by simp, le_refl _, fun _ _ => rfl, [], rfl, by simp⟩
  | succ n ih =>
    obtain ⟨S1, hS1, hnext1, hle, hconns, es, ht, hes⟩ := ih
    have hS2 : (guestSystem false).Reach (fun _ _ => True) S1.accept := hS1.step (l := .accept) trivial rfl
    have hc : S1.accept.conns S1.next = some (newConn S1.next) := update_self ..
    obtain ⟨hdr, hframe, -⟩ := opensWithSetup_setupFrame
    obtain ⟨s', -, hS', hnext, ⟨es', ht', hes'⟩, -⟩ := setup_step hS2 hc rfl rfl rfl hframe
    refine ⟨_, hS', ?_, hle.trans (Nat.le_succ _), fun cid hlt => ?_, es' ++ es, ?_, ?_⟩
    · rw [Sys.put_sh, hnext, show S1.accept.sh = S1.sh from rfl, hnext1, UInt64.ofNat_add, UInt64.add_assoc]
      rfl
    · have hne : cid ≠ S1.next := (hlt.trans_le hle).ne
      rw [Sys.put_conns_of_ne _ hne, ← hconns cid hlt]
      exact update_of_ne hne ..
    · rw [Sys.put_sh, ht', show S1.accept.sh = S1.sh from rfl, ht, append_assoc]
    · intro e he
      exact (mem_append.1 he).elim (hes' e) (hes e)

def Event.isClose : Event E → Bool
  | .call _ (.close _) => true
  | _ => false

/-- Connection 0 got the handle 0. -/
def Event.isOpenOf0 : Event guestEnv → Bool
  | .call (some o) (.openFile _ _ (.ok h)) => decide (o.conn = 0) && Nat.beq h 0
  | _ => false

theorem Event.opened_of_isOpenOf0 {e : Event guestEnv} (h : e.isOpenOf0 = true) : e.Opened 0 (0 : ℕ) := by
  unfold Event.isOpenOf0 at h
  split at h
  next o share opts hd =>
    obtain ⟨ho, hh⟩ := Bool.and_eq_true_iff.1 h
    exact ⟨o, share, opts, by rw [Nat.eq_of_beq_eq_true hh], of_decide_eq_true ho⟩
  next => cases h

/-- The events `TreesWithin` counts. -/
def Event.registers : Event E → Bool
  | .treeConnect .. | .created .. => true
  | _ => false

/-- Connection 0 has one session and has opened a file that is not closed yet. -/
def openedFile (S : Sys guestEnv) : Bool :=
  decide (S.next = 1) && decide (S.sh.nextSess = 1) &&
    (S.conns 0).any (fun c => c.loop.isNone && !c.dead && decide (c.sessions.keys = [1])) &&
    S.sh.trace.any Event.isOpenOf0 && S.sh.trace.all (fun e => !e.isClose) &&
    decide (S.sh.trace.countP Event.registers ≤ 2)

theorem reach_openedFile : ∃ S, (guestSystem false).Reach (fun _ _ => True) S ∧ openedFile S = true :=
  Transition.Reach.of_run (.accept :: exchange 0 setupFrame ++ exchange 0 (treeConnectFrame 1) ++
    exchange 0 (createFrame 1 0 0 [0x61, 0x00])) (by decide +kernel) (by decide +kernel)

theorem TreesWithin.of_countP {t : List (Event E)} (h : t.countP Event.registers < 2 ^ 32) : TreesWithin t := by
  constructor
  · intro cid sid
    refine (countP_mono_left fun e _ he => ?_).trans_lt h
    cases e <;> first | rfl | cases he
  · intro cid sid tid
    refine (countP_mono_left fun e _ he => ?_).trans_lt h
    cases e <;> first | rfl | cases he

/-- A client whose only session is overwritten by a new one, and then leaves. -/
theorem overwrite_and_leave {S : Sys guestEnv} {cid : ConnId} {c : Conn guestEnv}
    (hS : (guestSystem false).Reach (fun _ _ => True) S) (hc : S.conns cid = some c) (hidle : c.loop = none)
    (hlive : c.dead = false) (h0 : c.session? 0 = none)
    (hone : ∀ sid, sid ≠ S.sh.nextSess + 1 → c.session? sid = none) :
    ∃ S', (guestSystem false).Reach (fun _ _ => True) S' ∧ S'.conns cid = none ∧ S'.next = S.next ∧
      ∃ es, S'.sh.trace = es ++ S.sh.trace ∧ ∀ e ∈ es, e.isSetup = true ∨ e.isWrite = true := by
  obtain ⟨hdr, hframe, hlast⟩ := opensWithSetup_setupFrame
  obtain ⟨s1, lp, hS1, -, ⟨es1, ht1, hes1⟩, hlive1, hlp, hfollows, hsess⟩ := setup_step hS hc hidle hlive h0 hframe
  have hfin := hfollows.last hlast
  have hnone : ∀ sid tid, s1.c.tree? sid tid = none := by
    intro sid tid
    rw [Conn.tree?, hsess]
    split_ifs with hsid
    · rfl
    · rw [hone sid hsid]
      rfl
  -- The reply, after which the connection may end.
  have hreply : (S.put cid s1).step (guestServer false) (.reply cid) =
      some ((S.put cid s1).exec cid s1.c (sendReply lp)) := by
    unfold Sys.step
    simp only [Label.conn?, Sys.put_conns_self, bind_some, action, hlp, hlive1, hfin, Label.ends]
    rfl
  have hS2 : (guestSystem false).Reach (fun _ _ => True) ((S.put cid s1).exec cid s1.c (sendReply lp)) :=
    hS1.step (l := .reply cid) trivial hreply
  obtain ⟨s2, ha, hexec⟩ := (S.put cid s1).exec_eq cid s1.c (sendReply lp)
  obtain ⟨c2, hc2, hidle2⟩ := Sys.exec_idle (S.put cid s1) cid s1.c lp
  rw [hexec] at hS2 hc2
  rw [Sys.put_put] at hS2 hc2
  obtain rfl : s2.c = c2 := by simpa using hc2
  have haside : Aside Event.isWrite s1 s2 := (sendReply_quiet lp s1).trans (ha.mono fun _ h => by cases h)
  obtain ⟨es2, ht2, hes2⟩ := haside.trace
  -- The end of the connection.
  obtain ⟨S', hclose⟩ : ∃ S', (S.put cid s2).step (guestServer false) (.close cid) = some S' := by
    unfold Sys.step
    simp [Label.conn?, action, hidle2]
  obtain ⟨c3, s3, hc3, hcl, rfl⟩ := Sys.step_close hclose
  obtain rfl : s2.c = c3 := by simpa using hc3
  obtain ⟨l, hl, hends⟩ := hcl.ends
  obtain ⟨calls, ht3, hcalls⟩ := hends.trace
  have hempty : calls = [] := by
    refine eq_nil_iff_forall_not_mem.2 fun e he => ?_
    obtain ⟨oh, hm, -⟩ := hcalls e he
    obtain ⟨sid, tid, fid, -, ho⟩ := (hl oh).1 hm
    obtain ⟨tr, htr, -⟩ := Conn.open?_eq_some.1 ho
    have htr' : s2.c.tree? sid tid = some tr := htr
    rw [haside.tree?, hnone] at htr'
    cases htr'
  refine ⟨_, hS2.step (l := .close cid) trivial hclose, update_self .., rfl, es2 ++ es1, ?_, fun e he => ?_⟩
  · show s3.sh.trace = _
    rw [ht3, hempty]
    show s2.sh.trace = _
    rw [ht2, ht1, append_assoc]
  · exact (mem_append.1 he).elim (fun he => .inr (hes2 e he)) fun he => .inl (hes1 e he)

/-- **Once the session numbers wrap, a session is overwritten and its handles leak.** -/
theorem session_wrap_leaks :
    ¬∀ (E : Env) (srv : Config E) (w : E.World) (S : Sys E), (system srv w).Reach (fun _ _ => True) S →
      TreesWithin S.sh.trace → NoLeak S := by
  intro hall
  obtain ⟨S₀, hS₀, htest⟩ := reach_openedFile
  simp only [openedFile, Bool.and_eq_true, decide_eq_true_eq] at htest
  obtain ⟨⟨⟨⟨⟨hnext₀, hsess₀⟩, hconn₀⟩, hopened⟩, hnoclose⟩, hcount⟩ := htest
  obtain ⟨c, hc, hconn⟩ := Option.any_eq_true .. |>.1 hconn₀
  simp only [Bool.and_eq_true, decide_eq_true_eq, Option.isNone_iff_eq_none, Bool.not_eq_true'] at hconn
  obtain ⟨⟨hidle, hlive⟩, hkeys⟩ := hconn
  have hone : ∀ sid, sid ≠ 1 → c.session? sid = none := by
    intro sid hne
    refine AList.lookup_eq_none.2 fun hm => hne ?_
    have hk : sid ∈ c.sessions.keys := hm
    rw [hkeys] at hk
    exact List.mem_singleton.1 hk
  obtain ⟨S₁, hS₁, hsess₁, hle, hconns, es₁, ht₁, hes₁⟩ := setup_clients hS₀ (2 ^ 64 - 1)
  have hwrap : S₁.sh.nextSess + 1 = 1 := by
    rw [hsess₁, hsess₀]
    rfl
  have hc₁ : S₁.conns 0 = some c := (hconns 0 (by rw [hnext₀]; exact Nat.one_pos)).trans hc
  obtain ⟨S', hS', hgone, hnext', es₂, ht₂, hes₂⟩ :=
    overwrite_and_leave hS₁ hc₁ hidle hlive (hone 0 (by decide)) (by rw [hwrap]; exact hone)
  have htrace : S'.sh.trace = (es₂ ++ es₁) ++ S₀.sh.trace := by rw [ht₂, ht₁, List.append_assoc]
  have hquiet : ∀ e ∈ es₂ ++ es₁, e.registers = false ∧ e.isClose = false := by
    intro e he
    have hkind : e.isSetup = true ∨ e.isWrite = true := (List.mem_append.1 he).elim (hes₂ e) fun he => .inl (hes₁ e he)
    cases e with
    | call => simp [Event.isSetup, Event.isWrite] at hkind
    | treeConnect => simp [Event.isSetup, Event.isWrite] at hkind
    | created => simp [Event.isSetup, Event.isWrite] at hkind
    | _ => exact ⟨rfl, rfl⟩
  have hwithin : TreesWithin S'.sh.trace := by
    refine .of_countP ?_
    rw [htrace, countP_append_of_not fun e he => (hquiet e he).1]
    exact hcount.trans_lt (by norm_num)
  obtain ⟨e, he, hopen⟩ := List.any_eq_true.1 hopened
  obtain ⟨a, b, hsplit⟩ := List.append_of_mem (show e ∈ S'.sh.trace from htrace ▸ List.mem_append_right _ he)
  have hlt : 0 < S'.next := by
    rw [hnext']
    exact Nat.lt_of_lt_of_le (by rw [hnext₀]; exact Nat.one_pos) hle
  obtain ⟨origin, hm⟩ := (hall guestEnv (guestServer false) (0 : ℕ) S' hS' hwithin).closed 0 hlt hgone (0 : ℕ) a e b
    hsplit (Event.opened_of_isOpenOf0 hopen)
  have hmem : .call origin (.close (0 : ℕ)) ∈ (es₂ ++ es₁) ++ S₀.sh.trace := by
    rw [← htrace, hsplit]
    exact List.mem_append_left _ hm
  rcases List.mem_append.1 hmem with hm | hm
  · exact Bool.false_ne_true ((hquiet _ hm).2.symm.trans rfl)
  · exact Bool.false_ne_true (by simpa [Event.isClose] using List.all_eq_true.1 hnoclose _ hm)

end Server
end SmbServer
