/-
# Who holds an oplock

What clients were told against what the oplock table says.  An open holds an oplock on a
path when its CREATE was answered with a level other than zero and no OPLOCK_BREAK for it
has been queued since (`OpenId.holds`).

The table has one entry for a path, and every end of an open with that path takes it out,
whosever it is.  As long as only ends of the holder itself do so (`OplockOk`), the entry
of a path names its holder, and so there is one holder at most (`reach_oplockSafe`).  A
CREATE breaks the oplock of the holder only if it asks for one itself; where each does, or
there is no entry to break (`BreakOk`), no other open holds one on the path of a CREATE
that was just answered (`create_breaks`).
-/

import SmbServer.Server.Creates

namespace SmbServer
namespace Server

open Wire Function List Option Event Shared

variable {E : Env} {srv : Config E} {o : Origin} {msg : Bytes} {s s' : St E}
variable {tr : Tree E} {req : CreateRequest} {r : FileId × UInt8} {S : Sys E} {cid : ConnId} {c : Conn E}
  {k : Command E} {es : List (Event E)}

/-! ### The two properties and their conditions -/

/-- **Oplock exclusivity.**  On each path one live open at most holds an oplock, and the
table names it. -/
structure OplockSafe (S : Sys E) : Prop where
  exclusive : ∀ x ∈ S.live, ∀ y ∈ S.live, ∀ p, x.holds S.sh.trace = some p → y.holds S.sh.trace = some p →
    x = y
  kept : ∀ x ∈ S.live, ∀ p, x.holds S.sh.trace = some p →
    ∃ info, S.sh.oplocks p = some info ∧ info.conn = x.cid ∧ info.fileId = x.fid

/-- What a longer trace has on top of a shorter one. -/
def newEvents (t t' : List (Event E)) : List (Event E) := t'.take (t'.length - t.length)

/-- **Oplock break on a conflicting open.**  After a transition from `S` to `S'` that
answers a CREATE, no other live open holds an oplock on its path. -/
def Breaks (S S' : Sys E) : Prop :=
  ∀ o fid path level, .created o fid path level ∈ newEvents S.sh.trace S'.sh.trace →
    ∀ x ∈ S'.live, x.holds S'.sh.trace = some path → x.toOpenId = o.made fid

/-- The oplocks of the opens in `K` are held by opens in `K`. -/
def Conn.EndsOwn (c : Conn E) (sh : Shared E) (K : UInt64 → UInt32 → FileId → Prop) : Prop :=
  ∀ x ∈ c.live, K x.sid x.tid x.fid → ∀ info ∈ sh.oplocks x.oh.path,
    info.conn = c.id ∧ ∃ y ∈ c.live, K y.sid y.tid y.fid ∧ y.fid = info.fileId

/-- Every end of opens takes out their own entries of the oplock table only. -/
def OplockOk (S : Sys E) : Label → Prop
  | .sub cid => ∀ c ∈ S.conns cid, ∀ lp ∈ c.loop, ∀ k ∈ nextCommand c lp, k.lp.chainFailed = false →
      c.EndsOwn S.sh (Ends k.origin k.msg)
  | .close cid => ∀ c ∈ S.conns cid, c.EndsOwn S.sh fun _ _ _ => True
  | _ => True

/-- And every CREATE asks for an oplock, or there is none on its path. -/
def BreakOk (S : Sys E) (l : Label) : Prop :=
  OplockOk S l ∧ match l with
    | .sub cid => ∀ c ∈ S.conns cid, ∀ lp ∈ c.loop, ∀ k ∈ nextCommand c lp, ∀ req ∈ k.create?,
        req.requestedOplockLevel ≠ 0 ∨ S.sh.oplocks (openOptions req).path = none
    | _ => True

section Decidable

/-- Whether the CLOSE in a message names an open. -/
def closes (msg : Bytes) (fid : FileId) : Bool :=
  match CloseRequest.parse msg with
  | .ok req => decide (req.fileId = fid)
  | .err _ | .panic => false

theorem closes_iff (msg : Bytes) (fid : FileId) :
    closes msg fid = true ↔ ∃ req, CloseRequest.parse msg = .ok req ∧ req.fileId = fid := by
  unfold closes
  cases CloseRequest.parse msg <;> simp

instance (o : Origin) (msg : Bytes) (sid : UInt64) (tid : UInt32) (fid : FileId) :
    Decidable (Ends o msg sid tid fid) :=
  have : Decidable (∃ req, CloseRequest.parse msg = .ok req ∧ req.fileId = fid) :=
    decidable_of_iff _ (closes_iff msg fid)
  inferInstanceAs (Decidable (sid = o.sid ∧ (o.cmd = cmdClose ∧ tid = o.tid ∧
    (∃ req, CloseRequest.parse msg = .ok req ∧ req.fileId = fid) ∨
    o.cmd = cmdTreeDisconnect ∧ tid = o.tid ∨ o.cmd = cmdLogoff)))

instance (c : Conn E) (sh : Shared E) (K : UInt64 → UInt32 → FileId → Prop)
    [∀ sid tid fid, Decidable (K sid tid fid)] : Decidable (c.EndsOwn sh K) :=
  inferInstanceAs (Decidable (∀ x ∈ c.live, K x.sid x.tid x.fid → ∀ info ∈ sh.oplocks x.oh.path,
    info.conn = c.id ∧ ∃ y ∈ c.live, K y.sid y.tid y.fid ∧ y.fid = info.fileId))

instance (S : Sys E) : ∀ l, Decidable (OplockOk S l)
  | .sub cid => inferInstanceAs (Decidable (∀ c ∈ S.conns cid, ∀ lp ∈ c.loop, ∀ k ∈ nextCommand c lp,
      k.lp.chainFailed = false → c.EndsOwn S.sh (Ends k.origin k.msg)))
  | .close cid => inferInstanceAs (Decidable (∀ c ∈ S.conns cid, c.EndsOwn S.sh fun _ _ _ => True))
  | .accept | .recv _ _ | .reply _ | .drain _ | .tick _ _ | .done _ _ => isTrue trivial

instance (S : Sys E) : ∀ l, Decidable (BreakOk S l)
  | .sub cid => inferInstanceAs (Decidable (OplockOk S (.sub cid) ∧ ∀ c ∈ S.conns cid, ∀ lp ∈ c.loop,
      ∀ k ∈ nextCommand c lp, ∀ req ∈ k.create?,
        req.requestedOplockLevel ≠ 0 ∨ S.sh.oplocks (openOptions req).path = none))
  | .close cid => inferInstanceAs (Decidable (OplockOk S (.close cid) ∧ True))
  | .accept | .recv _ _ | .reply _ | .drain _ | .tick _ _ | .done _ _ => isTrue ⟨trivial, trivial⟩

end Decidable

/-! ### What a CREATE does to the table -/

/-- The entry of the table a CREATE asks for. -/
def oplockInfo (o : Origin) (req : CreateRequest) (fid : FileId) (s : St E) : OplockInfo where
  fileId := fid
  sessID := o.sid
  treeID := o.tid
  path := (openOptions req).path
  conn := o.conn
  enc := s.c.requiresEncryption o.sid

/-- **The oplock of a CREATE.**  None is asked for, the one asked for is granted, or the
holder's is broken. -/
theorem Registers.oplock_cases {h : E.Handle}
    (hr : Registers o msg tr req h r s s') :
    (req.requestedOplockLevel = 0 ∧ r.2 = 0 ∧ s'.sh.oplocks = s.sh.oplocks ∧
      s'.sh.trace = .created o r.1 (openOptions req).path 0 :: s.sh.trace) ∨
    (req.requestedOplockLevel ≠ 0 ∧ s.sh.oplocks (openOptions req).path = none ∧
      r.2 = req.requestedOplockLevel ∧
      s'.sh.oplocks = Function.update s.sh.oplocks (openOptions req).path (some (oplockInfo o req r.1 s)) ∧
      s'.sh.trace = .created o r.1 (openOptions req).path r.2 :: s.sh.trace) ∨
    ∃ b, s.sh.oplocks (openOptions req).path = some b ∧ r.2 = 0 ∧
      s'.sh.oplocks = Function.update s.sh.oplocks (openOptions req).path none ∧
      s'.sh.trace = .created o r.1 (openOptions req).path 0 ::
        (if s.sh.connDone b.conn then [] else [.oplockBreak b.conn b.fileId b.path]) ++ s.sh.trace := by
  have hrun := hr.run
  simp only [registerOpen, Outcome.ok.injEq] at hrun
  obtain ⟨rfl, rfl⟩ := hrun
  unfold requestOplock Shared.grant breakOplock sendOplockBreak sendFinal
  by_cases hl : req.requestedOplockLevel = 0
  · simp [hl]
  · cases hp : s.sh.oplocks (openOptions req).path with
    | none => simp [hl, hp, oplockInfo]
    | some b => cases hd : s.sh.connDone b.conn <;> simp [hl, hp, hd]

/-! ### Connections that are served -/

theorem Effect.connDone (he : Effect srv o msg s s') : s'.sh.connDone = s.sh.connDone := by
  cases he with
  | create tr req hd r _ hcmd hreq htr hopen hs =>
    simp only [registerOpen, Outcome.ok.injEq] at hs
    obtain ⟨-, rfl⟩ := hs
    unfold requestOplock Shared.grant breakOplock sendOplockBreak sendFinal
    split_ifs
    · rfl
    · cases s.sh.oplocks (openOptions req).path with
      | none => rfl
      | some b =>
        dsimp only
        split_ifs <;> rfl
    · rfl
  | treeDisconnect s1 hcmd h hc =>
    obtain ⟨l, -, hends⟩ := hc.ends
    exact hends.connDone
  | logoff s1 hcmd h hc =>
    obtain ⟨l, -, hends⟩ := hc.ends
    exact hends.connDone
  | _ => rfl

/-- A connection is marked done only once it is gone. -/
def Serving (S : Sys E) : Prop := ∀ cid, (S.conns cid).isSome ∨ S.next ≤ cid → S.sh.connDone cid = false

theorem Serving.put (h : Serving S) (hc : S.conns cid = some c)
    (hd : s'.sh.connDone = S.sh.connDone) : Serving (S.put cid s') := by
  intro cid' hcid'
  rw [Sys.put_sh, hd]
  refine h cid' (hcid'.imp_left fun hsome => ?_)
  obtain ⟨c', hc'⟩ := isSome_iff_exists.1 hsome
  rcases Sys.conns_put hc' with ⟨rfl, -⟩ | ⟨-, hc'⟩
  · rw [hc]
    rfl
  · rw [hc']
    rfl

/-! ### The table names the holders -/

/-- The holder of an oplock is in the table. -/
def InTable (S : Sys E) : Prop :=
  ∀ cid c sid tid fid oh, S.conns cid = some c → c.open? sid tid fid = some oh → ∀ p,
    OpenId.holds ⟨cid, sid, tid, fid⟩ S.sh.trace = some p →
      ∃ info, S.sh.oplocks p = some info ∧ info.conn = cid ∧ info.fileId = fid

/-- The entries at the paths of the opens in `K` are of ids in `K`. -/
def OwnIds (K : UInt64 → UInt32 → FileId → Prop) (s : St E) : Prop :=
  ∀ sid tid fid oh, K sid tid fid → s.c.open? sid tid fid = some oh → ∀ info,
    s.sh.oplocks oh.path = some info → info.conn = s.c.id ∧
      ∃ sid' tid' n, K sid' tid' info.fileId ∧ info.fileId = makeFileID sid' tid' n

/-- What a command has to keep to, for the table to stay in order. -/
def Command.Orderly (k : Command E) (s : St E) : Prop :=
  k.lp.chainFailed = false → OwnIds (Ends k.origin k.msg) s

theorem Conn.EndsOwn.ownIds (htold : Told S)
    (hc : S.conns cid = some c) {K : UInt64 → UInt32 → FileId → Prop} (h : c.EndsOwn S.sh K) :
    OwnIds K ⟨S.sh, c⟩ := by
  intro sid tid fid oh hK ho info hinfo
  obtain ⟨t, ht, hl⟩ := Conn.open?_eq_some.1 ho
  obtain ⟨hconn, y, hy, hKy, hfid⟩ :=
    h ⟨⟨c.id, sid, tid, fid⟩, t.share, oh⟩ (Conn.mem_live.2 ⟨rfl, t, ht, rfl, hl⟩) hK info hinfo
  obtain ⟨-, ty, hty, -, hly⟩ := Conn.mem_live.1 hy
  obtain ⟨-, ⟨n, hn⟩, -⟩ := htold cid c y.sid y.tid y.fid y.oh hc (Conn.open?_eq_some.2 ⟨ty, hty, hly⟩)
  rw [← hfid]
  exact ⟨hconn, y.sid, y.tid, n, hKy, hn⟩

theorem InTable.put (h : InTable S) (hc : S.conns cid = some c)
    (hopens : ∀ sid tid fid oh, s'.c.open? sid tid fid = some oh → ∃ oh0, c.open? sid tid fid = some oh0)
    (ho : s'.sh.oplocks = S.sh.oplocks)
    (htrace : ∀ id : OpenId, id.holds s'.sh.trace = id.holds S.sh.trace) : InTable (S.put cid s') := by
  intro cid' c' sid tid fid oh hc' hop p
  rw [Sys.put_sh, htrace, ho]
  rcases Sys.conns_put hc' with ⟨rfl, rfl⟩ | ⟨-, hc'⟩
  · obtain ⟨oh0, hop0⟩ := hopens sid tid fid oh hop
    exact h cid' c sid tid fid oh0 hc hop0 p
  · exact h cid' c' sid tid fid oh hc' hop p

theorem InTable.registers (h : InTable S) (hserv : Serving S)
    (hc : S.conns cid = some c) (hcid : o.conn = cid) {hd : E.Handle}
    (hr : Registers o msg tr req hd r ⟨S.sh, c⟩ s') : InTable (S.put cid s') := by
  intro cid' c' sid tid fid oh hc' ho p hholds
  rw [Sys.put_sh] at hholds ⊢
  by_cases hid : o.made r.1 = ⟨cid', sid, tid, fid⟩
  · -- The new open holds what it was granted.
    obtain ⟨rfl, rfl, rfl, rfl⟩ := OpenId.mk.inj hid
    rcases hr.oplock_cases with ⟨-, -, -, ht⟩ | ⟨hl, -, hlevel, htab, ht⟩ | ⟨b, -, -, -, ht⟩
    · rw [ht, OpenId.holds, if_pos hid, if_pos rfl] at hholds
      cases hholds
    · rw [ht, OpenId.holds, if_pos hid, if_neg (by rwa [hlevel])] at hholds
      cases hholds
      rw [htab, update_self]
      exact ⟨_, rfl, rfl, rfl⟩
    · rw [ht, cons_append, OpenId.holds, if_pos hid, if_pos rfl] at hholds
      cases hholds
  · -- Any other open was there before.
    have hold : ∀ p, OpenId.holds ⟨cid', sid, tid, fid⟩ S.sh.trace = some p →
        (S.conns cid').isSome ∧ ∃ info, S.sh.oplocks p = some info ∧ info.conn = cid' ∧ info.fileId = fid := by
      intro p hp
      rcases Sys.conns_put hc' with ⟨rfl, rfl⟩ | ⟨-, hc'⟩
      · rw [registerOpen_open? hr.tree hr.run, if_neg fun hids => hid ?_] at ho
        · exact ⟨by rw [hc]; rfl, h cid' c sid tid fid oh hc ho p hp⟩
        · obtain ⟨rfl, rfl, rfl⟩ := hids
          rw [Origin.made, hcid]
      · exact ⟨by rw [hc']; rfl, h cid' c' sid tid fid oh hc' ho p hp⟩
    rcases hr.oplock_cases with ⟨-, -, htab, ht⟩ | ⟨-, hnone, -, htab, ht⟩ | ⟨b, hb, -, htab, ht⟩
    · rw [ht, OpenId.holds, if_neg hid] at hholds
      rw [htab]
      exact (hold p hholds).2
    · rw [ht, OpenId.holds, if_neg hid] at hholds
      obtain ⟨-, info, hinfo, hown⟩ := hold p hholds
      have hne : p ≠ (openOptions req).path := by
        rintro rfl
        rw [hnone] at hinfo
        cases hinfo
      rw [htab, update_of_ne hne]
      exact ⟨info, hinfo, hown⟩
    · rw [ht, cons_append, OpenId.holds, if_neg hid] at hholds
      -- A break that was queued is not for this open, or it would hold nothing.
      have hbreak : OpenId.holds ⟨cid', sid, tid, fid⟩ S.sh.trace = some p ∧
          (S.sh.connDone b.conn = true ∨ ¬(b.conn = cid' ∧ b.fileId = fid)) := by
        by_cases hdone : S.sh.connDone b.conn = true
        · simp only [hdone, if_true, nil_append] at hholds
          exact ⟨hholds, .inl hdone⟩
        · simp only [hdone, Bool.false_eq_true, if_false, cons_append, nil_append, OpenId.holds] at hholds
          split_ifs at hholds with hmine
          exact ⟨hholds, .inr hmine⟩
      obtain ⟨hsome, info, hinfo, hconn, hfid⟩ := hold p hbreak.1
      have hne : p ≠ (openOptions req).path := by
        rintro rfl
        cases hinfo.symm.trans hb
        rcases hbreak.2 with hdone | hother
        · rw [hconn, hserv cid' (.inl hsome)] at hdone
          cases hdone
        · exact hother ⟨hconn, hfid⟩
      rw [htab, update_of_ne hne]
      exact ⟨info, hinfo, hconn, hfid⟩

/-- Ends of opens leave the other holders in the table. -/
theorem InTable.ended (h : InTable S) (htold : Told S)
    (hc : S.conns cid = some c) (hid : c.id = cid) {K : UInt64 → UInt32 → FileId → Prop}
    (hown : OwnIds K ⟨S.sh, c⟩) (he : Ended K ⟨S.sh, c⟩ s') : InTable (S.put cid s') := by
  intro cid' c' sid tid fid oh hc' ho p hholds
  rw [Sys.put_sh] at hholds ⊢
  obtain ⟨es, ht, hes⟩ := he.trace
  rw [ht, OpenId.holds_append hes] at hholds
  obtain ⟨hsurvives, hnum, info, hinfo, hconn, hfid⟩ : (cid' = cid → ¬K sid tid fid) ∧
      (∃ n, fid = makeFileID sid tid n) ∧
      ∃ info, S.sh.oplocks p = some info ∧ info.conn = cid' ∧ info.fileId = fid := by
    rcases Sys.conns_put hc' with ⟨rfl, rfl⟩ | ⟨hne, hc'⟩
    · obtain ⟨hK, ho⟩ := (he.opens ..).1 ho
      exact ⟨fun _ => hK, (htold cid' c sid tid fid oh hc ho).2.1, h cid' c sid tid fid oh hc ho p hholds⟩
    · exact ⟨fun heq => absurd heq hne, (htold cid' c' sid tid fid oh hc' ho).2.1,
        h cid' c' sid tid fid oh hc' ho p hholds⟩
  rcases he.oplocks p with ⟨-, sid0, tid0, fid0, oh0, hK0, ho0, rfl⟩ | ⟨heq, -⟩
  · -- An entry that goes names an open that goes.
    obtain ⟨hconn', sid', tid', n', hK', hn'⟩ := hown sid0 tid0 fid0 oh0 hK0 ho0 info hinfo
    obtain ⟨n, hn⟩ := hnum
    obtain ⟨rfl, rfl, -⟩ := makeFileID_inj (hn'.symm.trans (hfid.trans hn))
    rw [hfid] at hK'
    exact absurd hK' (hsurvives (by rw [← hconn, hconn']; exact hid))
  · rw [heq]
    exact ⟨info, hinfo, hconn, hfid⟩

/-- What `OplockOk` asks of a command stays true while it is handled. -/
theorem Command.Orderly.effect (h : k.Orderly s) (hid : s'.c.id = s.c.id)
    (hcases : (∃ tr req h r, Registers k.origin k.msg tr req h r s s') ∨ Ended (Ends k.origin k.msg) s s' ∨
      Kept k.origin s s') : k.Orderly s' := by
  intro hf sid tid fid oh hK ho info hinfo
  rcases hcases with ⟨tr, req, hd, r, hr⟩ | hends | hkept
  · have hno : ¬Ends k.origin k.msg sid tid fid := by
      unfold Ends
      rw [hr.cmd]
      simp [cmdCreate, cmdClose, cmdTreeDisconnect, cmdLogoff]
    exact absurd hK hno
  · exact absurd hK ((hends.opens ..).1 ho).1
  · obtain ⟨oh0, ho0, -, -, hp, -⟩ := hkept.opens sid tid fid oh ho
    rw [hkept.oplocks, hp] at hinfo
    rw [hid]
    exact h hf sid tid fid oh0 hK ho0 info hinfo

/-- The table is in order. -/
def TableSafe (S : Sys E) : Prop := Told S ∧ Serving S ∧ InTable S

theorem table_preserved : Preserved srv OplockOk Command.Orderly (TableSafe (E := E)) where
  accept := by
    rintro S hb ⟨htold, hserv, htab⟩
    refine ⟨(told_preserved srv).accept S hb htold, fun cid hcid => ?_, fun cid c sid tid fid oh hc ho => ?_⟩
    · refine hserv cid ?_
      rcases hcid with hsome | hle
      · obtain ⟨c, hc⟩ := isSome_iff_exists.1 hsome
        rcases Sys.conns_accept hc with ⟨rfl, -⟩ | ⟨-, hc⟩
        · exact .inr le_rfl
        · exact .inl (by rw [hc]; rfl)
      · exact .inr ((Nat.le_succ _).trans hle)
    · rcases Sys.conns_accept hc with ⟨-, rfl⟩ | ⟨-, hc⟩
      · cases ho
      · exact htab cid c sid tid fid oh hc ho
  aside := by
    rintro S cid c s' hb hc ⟨htold, hserv, htab⟩ ha
    refine ⟨(told_preserved srv).aside S cid c s' hb hc htold ha, hserv.put hc ha.connDone,
      htab.put hc (fun sid tid fid oh ho => ⟨oh, by rwa [ha.open?] at ho⟩) ha.oplocks fun id => ?_⟩
    obtain ⟨es, he, hes⟩ := ha.trace
    rw [he]
    refine OpenId.holds_append fun e hm => ?_
    have hside := hes e hm
    cases e <;> first | rfl | cases hside
  start := by
    rintro S cid c lp k _ hc hlp hk ⟨htold, -, -⟩ hok hf
    exact (hok c hc lp hlp k hk hf).ownIds htold hc
  carry := by
    intro k s s' h ha hf sid tid fid oh hK ho info hinfo
    rw [ha.open?] at ho
    rw [ha.oplocks] at hinfo
    rw [ha.id]
    exact h hf sid tid fid oh hK ho info hinfo
  exec := by
    rintro S cid c k hb hc hcid hf hs ⟨htold, hserv, htab⟩ hk
    exact ⟨⟨((told_preserved srv).exec S cid c k hb hc hcid hf hs htold trivial).1, hserv.put hc rfl,
      htab.put hc (fun sid tid fid oh ho => ⟨oh, ho⟩) rfl fun id => rfl⟩, hk⟩
  effect := by
    rintro S cid c k s' hb hc hcid hf ⟨htold, hserv, htab⟩ hk he
    have hn : c.Named := htold.named hc
    have hcases := he.opens_cases hn
    have hid : s'.c.id = c.id := (Change.base (.effect k rfl hf he) (hb _ _ hc).2.2).1
    refine ⟨⟨((told_preserved srv).effect S cid c k s' hb hc hcid hf htold trivial he).1,
      hserv.put hc he.connDone, ?_⟩, hk.effect hid hcases⟩
    rcases hcases with ⟨tr, req, hd, r, hr⟩ | hends | hkept
    · exact htab.registers hserv hc hcid hr
    · exact htab.ended htold hc (hb _ _ hc).1 (hk hf) hends
    · refine htab.put hc (fun sid tid fid oh ho => ?_) hkept.oplocks fun id => ?_
      · obtain ⟨oh0, ho0, -⟩ := hkept.opens sid tid fid oh ho
        exact ⟨oh0, ho0⟩
      · obtain ⟨es, he, hes⟩ := hkept.trace
        rw [he]
        exact OpenId.holds_append hes
  close := by
    rintro S cid c s' hb hc ⟨htold, hserv, htab⟩ hok hcl
    refine ⟨(told_preserved srv).close S cid c s' hb hc htold trivial hcl, ?_, ?_⟩
    · intro cid' hcid'
      obtain ⟨l, -, hends⟩ := hcl.ends
      obtain ⟨hid, hlt, -⟩ := hb _ _ hc
      have hne : cid' ≠ c.id ∧ ((S.conns cid').isSome ∨ S.next ≤ cid') := by
        rcases hcid' with hsome | hle
        · obtain ⟨c', hc'⟩ := isSome_iff_exists.1 hsome
          obtain ⟨hne, hc'⟩ := Sys.conns_remove hc'
          exact ⟨by rwa [hid], .inl (by rw [hc']; rfl)⟩
        · have hle : S.next ≤ cid' := hle
          exact ⟨by rw [hid]; exact (hlt.trans_le hle).ne', .inr hle⟩
      have hdone : (S.remove cid s'.sh).sh.connDone = Function.update S.sh.connDone c.id true := hends.connDone
      rw [hdone, update_of_ne hne.1]
      exact hserv cid' hne.2
    · have hn : (S.closing c).c.Named := fun sid tid fid oh ho => htold.named hc sid tid fid oh ho
      have hclosed := hcl.ended hn
      have hends : Ended (fun _ _ _ => True) ⟨S.sh, c⟩ s' :=
        ⟨hclosed.opens, hclosed.oplocks, hclosed.locks, hclosed.trace⟩
      have htab' := htab.ended htold hc (hb _ _ hc).1 ((hok c hc).ownIds htold hc) hends
      intro cid' c' sid tid fid oh hc' ho p hholds
      obtain ⟨hne, hc'⟩ := Sys.conns_remove hc'
      refine htab' cid' c' sid tid fid oh ?_ ho p hholds
      exact (update_of_ne hne _ _).trans hc'

/-- **One holder of an oplock at most, and the table names it**, in every run of the server
in which opens take out their own entries only when they end. -/
theorem reach_oplockSafe (srv : Config E) (w : E.World) (S : Sys E) (hS : (system srv w).Reach OplockOk S) :
    OplockSafe S := by
  have hinit : TableSafe (system srv w).init :=
    ⟨fun _ _ _ _ _ _ hc => (nomatch hc), fun _ _ => rfl, fun _ _ _ _ _ _ hc => (nomatch hc)⟩
  obtain ⟨hb, htold, -, htab⟩ := table_preserved.reach hinit hS
  have hkept : ∀ x ∈ S.live, ∀ p, x.holds S.sh.trace = some p →
      ∃ info, S.sh.oplocks p = some info ∧ info.conn = x.cid ∧ info.fileId = x.fid := by
    intro x hx p hp
    obtain ⟨c, hc, ho⟩ := Sys.open?_of_mem_live hb hx
    exact htab x.cid c x.sid x.tid x.fid x.oh hc ho p hp
  refine ⟨fun x hx y hy p hxp hyp => ?_, hkept⟩
  obtain ⟨info, hinfo, hxc, hxf⟩ := hkept x hx p hxp
  obtain ⟨info', hinfo', hyc, hyf⟩ := hkept y hy p hyp
  obtain rfl := Option.some.inj (hinfo.symm.trans hinfo')
  exact htold.live_ext hb hx hy (hxc.symm.trans hyc) (hxf.symm.trans hyf)

/-- CREATEs of a file `a` with the oplock levels they ask for, by one client. -/
def createLevels (levels : List UInt8) : List Label :=
  .accept :: exchange 0 setupFrame ++ exchange 0 (treeConnectFrame 1) ++
    levels.flatMap fun level => exchange 0 (createFrame 1 0 level [0x61, 0x00])

/-- The live opens that hold an oplock on the file `a`. -/
def Sys.holders (S : Sys E) : List (Live E) := S.live.filter fun x => x.holds S.sh.trace = some [0x61]

/-- **An oplock is lost by the end of an open that never had it.**  The first open of the
file is granted one, the second asks for none and is closed, and the third is granted
another. -/
theorem close_frees_oplock_of_other :
    ¬∀ (E : Env) (srv : Config E) (w : E.World) (S : Sys E),
      (system srv w).Reach (fun _ _ => True) S → OplockSafe S := by
  intro h
  obtain ⟨S, hS, htest⟩ := Transition.Reach.of_run (T := guestSystem false) (C := fun _ _ => True)
    (f := fun S => S.holders.any fun x => S.holders.any fun y => decide (x.fid ≠ y.fid))
    (createLevels [9, 0] ++ exchange 0 (closeFrame 1 0 (makeFileID 1 0 2)) ++
      exchange 0 (createFrame 1 0 9 [0x61, 0x00])) (by decide +kernel) (by decide +kernel)
  simp only [List.any_eq_true, decide_eq_true_eq, Sys.holders, List.mem_filter] at htest
  obtain ⟨x, ⟨hx, hxp⟩, y, ⟨hy, hyp⟩, hne⟩ := htest
  have hsafe := h guestEnv (guestServer false) (0 : ℕ) S hS
  exact hne (congrArg (fun x : Live guestEnv => x.fid) (hsafe.exclusive x hx y hy _ hxp hyp))

/-- The hypothesis of `reach_oplockSafe` is met by a run with a grant, a break, a second
grant and the end of its holder. -/
theorem reach_oplockSafe_levels : ∃ S, (guestSystem false).Reach OplockOk S ∧
    decide (S.live.length = 3 ∧ S.holders.length = 1) = true ∧ OplockSafe S := by
  obtain ⟨S, hS, htest⟩ := Transition.Reach.of_run (T := guestSystem false) (C := OplockOk)
    (f := fun S => decide (S.live.length = 3 ∧ S.holders.length = 1))
    (createLevels [9, 1, 9] ++ exchange 0 (closeFrame 1 0 (makeFileID 1 0 3)) ++
      exchange 0 (createFrame 1 0 1 [0x61, 0x00])) (by decide +kernel) (by decide +kernel)
  exact ⟨S, hS, htest, reach_oplockSafe (guestServer false) (0 : ℕ) S hS⟩

/-! ### The oplocks after a CREATE -/

def Event.isCreated : Event E → Bool
  | .created .. => true
  | _ => false

theorem CreateRun.createds_le (h : CreateRun o s s') :
    s'.sh.trace.countP isCreated ≤ s.sh.trace.countP isCreated + 1 := by
  have hwork : ∀ {es : List (Event E)}, (∀ e ∈ es, e.isWork = true) → es.countP isCreated = 0 := by
    intro es hes
    refine countP_eq_zero.2 fun e he hc => ?_
    have hw := hes e he
    cases e with
    | created => cases hw
    | _ => cases hc
  cases h with
  | none ha es ht hshut =>
    obtain ⟨es, ht, hes⟩ := ha.trace
    rw [ht, countP_append, hwork hes]
    omega
  | made tr req h r s1 s2 ha es ht hshut htr hrun hb =>
    obtain ⟨es1, ht1, hes1⟩ := ha.trace
    obtain ⟨es2, ht2, hes2⟩ := registerOpen_trace hrun
    obtain ⟨es3, ht3, hes3⟩ := hb.trace
    have hbreaks : es2.countP isCreated = 0 := by
      refine countP_eq_zero.2 fun e he => ?_
      obtain ⟨cid, fid, path, rfl⟩ := hes2 e he
      simp [isCreated]
    rw [ht3, ht2, ht1, countP_append, hwork fun e he => isWork_of_isExec e (hes3 e he), cons_append,
      countP_cons_of_pos rfl, countP_append, hbreaks, countP_append, hwork hes1]
    omega

/-- Asked for an oplock, or without one on its path. -/
def Command.Asks (k : Command E) (sh : Shared E) : Prop :=
  ∀ req ∈ k.create?, req.requestedOplockLevel ≠ 0 ∨ sh.oplocks (openOptions req).path = none

/-- The table says of a path what the answer to a CREATE said. -/
def Shared.Says (sh : Shared E) (o : Origin) (fid : FileId) (path : GoString) (level : UInt8) : Prop :=
  if level = 0 then sh.oplocks path = none
  else ∃ info, sh.oplocks path = some info ∧ info.conn = o.conn ∧ info.fileId = fid

/-- What the events `es` of a command have to do with the table: no CREATE is answered yet,
one is and the table says the same, or, as no command does, more than one. -/
inductive Issued (k : Command E) (sh : Shared E) (es : List (Event E)) : Prop where
  | none (h : es.countP Event.isCreated = 0) (hask : k.Asks sh)
  | one (req : CreateRequest) (n : UInt64) (level : UInt8) (hreq : k.create? = some req)
      (h : ∀ e ∈ es, e.isCreated = true → e = .created k.origin
        (makeFileID k.origin.sid k.origin.tid n) (openOptions req).path level)
      (hsaid : sh.Says k.origin (makeFileID k.origin.sid k.origin.tid n) (openOptions req).path level)
      (hcount : es.countP Event.isCreated = 1)
  | more (hcmd : k.origin.cmd = cmdCreate) (h : 2 ≤ es.countP Event.isCreated)

/-- Steps that answer no CREATE and leave the table alone. -/
theorem Issued.append {sh sh' : Shared E} {es' : List (Event E)} (h : Issued k sh es)
    (ho : sh'.oplocks = sh.oplocks) (hes : ∀ e ∈ es', e.isCreated = false) : Issued k sh' (es' ++ es) := by
  have hcount : (es' ++ es).countP isCreated = es.countP isCreated := by
    rw [countP_append, countP_eq_zero.2 fun e he => by simp [hes e he], Nat.zero_add]
  cases h with
  | none h hask => exact .none (hcount.trans h) (by unfold Command.Asks; rwa [ho])
  | one req n level hreq h hsaid hone =>
    refine .one req n level hreq (fun e he hc => ?_) (by unfold Says; rwa [ho]) (hcount.trans hone)
    rcases mem_append.1 he with he | he
    · rw [hes e he] at hc
      cases hc
    · exact h e he hc
  | more hcmd h => exact .more hcmd (by rwa [hcount])

theorem Event.isCreated_of_tells {e : Event E} (h : e.tells = false) : e.isCreated = false := by
  cases e <;> first | rfl | cases h

/-- The ends of a command that is no CREATE leave no CREATE behind. -/
theorem Issued.ended (h : Issued k s.sh es)
    (hends : Ended (Ends k.origin k.msg) s s') :
    ∃ es', s'.sh.trace = es' ++ s.sh.trace ∧ Issued k s'.sh (es' ++ es) := by
  obtain ⟨es', ht, hes'⟩ := hends.trace
  have hnot : ∀ e ∈ es', e.isCreated = false := fun e he => isCreated_of_tells (hes' e he)
  refine ⟨es', ht, ?_⟩
  by_cases hcmd : k.origin.cmd = cmdCreate
  · -- A CREATE ends no open.
    refine h.append (funext fun p => ?_) hnot
    rcases hends.oplocks p with ⟨-, sid, tid, fid, oh, hK, -⟩ | ⟨heq, -⟩
    · unfold Ends at hK
      rw [hcmd] at hK
      simp [cmdCreate, cmdClose, cmdTreeDisconnect, cmdLogoff] at hK
    · exact heq
  · cases h with
    | none h hask =>
      refine .none ?_ fun req hreq => absurd (Command.cmd_of_create? hreq) hcmd
      rw [countP_append, h, countP_eq_zero.2 fun e he => by simp [hnot e he]]
    | one req n level hreq h hsaid hone => exact absurd (Command.cmd_of_create? hreq) hcmd
    | more hcmd' h => exact absurd hcmd' hcmd

/-- A CREATE that is answered, and what the table says of it. -/
theorem Issued.registers (h : Issued k s.sh es)
    (hf : k.lp.chainFailed = false) {hd : E.Handle}
    (hr : Registers k.origin k.msg tr req hd r s s') :
    ∃ es', s'.sh.trace = es' ++ s.sh.trace ∧ Issued k s'.sh (es' ++ es) := by
  obtain ⟨es', ht, hes'⟩ := registerOpen_trace hr.run
  have hnone : es'.countP isCreated = 0 := by
    refine countP_eq_zero.2 fun e he => ?_
    obtain ⟨cid, fid, path, rfl⟩ := hes' e he
    simp [isCreated]
  have hcount : (.created k.origin r.1 (openOptions req).path r.2 :: es' ++ es).countP isCreated =
      es.countP isCreated + 1 := by
    rw [cons_append, countP_cons_of_pos rfl, countP_append, hnone, Nat.zero_add]
  have hreq : k.create? = some req := Command.create?_eq_some hf hr.cmd hr.parse
  have hfid : r.1 = makeFileID k.origin.sid k.origin.tid (tr.nextID + 1) := by
    have hrun := hr.run
    simp only [registerOpen, Outcome.ok.injEq] at hrun
    rw [← hrun.1]
  refine ⟨_, ht, ?_⟩
  cases h with
  | none h hask =>
    refine .one req (tr.nextID + 1) r.2 hreq (fun e he hc => ?_) ?_ (by rw [hcount, h])
    · rw [cons_append, mem_cons, mem_append] at he
      rcases he with rfl | he | he
      · rw [hfid]
      · exact absurd hc (countP_eq_zero.1 hnone e he)
      · exact absurd hc (countP_eq_zero.1 h e he)
    · unfold Says
      rw [← hfid]
      rcases hr.oplock_cases with ⟨hzero, hlevel, htab, -⟩ | ⟨hl, -, hlevel, htab, -⟩ | ⟨b, -, hlevel, htab, -⟩
      · rw [if_pos hlevel, htab]
        exact (hask req hreq).resolve_left fun hne => hne hzero
      · rw [if_neg (by rwa [hlevel]), htab, update_self]
        exact ⟨_, rfl, rfl, rfl⟩
      · rw [if_pos hlevel, htab, update_self]
  | one req' n level hreq' h hsaid hone => exact .more hr.cmd (by rw [hcount, hone])
  | more hcmd h => exact .more hcmd (by rw [hcount]; omega)

/-- **The table says what the CREATE of a command was told.** -/
theorem Change.issued_run (hrun : Relation.ReflTransGen (Change srv (some k)) s s')
    (hn : s.c.Named) (hask : k.Asks s.sh) : ∃ es, s'.sh.trace = es ++ s.sh.trace ∧ Issued k s'.sh es := by
  induction hrun with
  | refl => exact ⟨[], rfl, .none rfl hask⟩
  | @tail s1 s' hrun hst ih =>
    obtain ⟨es, ht, his⟩ := ih
    have hstep : ∃ es', s'.sh.trace = es' ++ s1.sh.trace ∧ Issued k s'.sh (es' ++ es) := by
      cases hst with
      | aside ha => exact ⟨[], by rw [ha.trace_eq]; rfl, his.append ha.oplocks (by simp)⟩
      | exec cmd hk hf hs => exact ⟨[_], rfl, his.append rfl (by simp [isCreated])⟩
      | effect cmd hk hf he =>
        cases hk
        rcases he.opens_cases (Change.named_run hrun hn) with ⟨tr, req, hd, r, hr⟩ | hends | hkept
        · exact his.registers hf hr
        · exact his.ended hends
        · obtain ⟨es', ht', hes'⟩ := hkept.trace
          exact ⟨es', ht', his.append hkept.oplocks fun e he => isCreated_of_tells (hes' e he)⟩
    obtain ⟨es', ht', his'⟩ := hstep
    exact ⟨es' ++ es, by rw [ht', ht, append_assoc], his'⟩

theorem newEvents_append (es t : List (Event E)) : newEvents t (es ++ t) = es := by
  simp [newEvents]

theorem Breaks.of_trace {S' : Sys E} (es : List (Event E)) (ht : S'.sh.trace = es ++ S.sh.trace)
    (hes : ∀ e ∈ es, e.isCreated = false) : Breaks S S' := by
  intro o fid path level hm
  rw [ht, newEvents_append] at hm
  exact nomatch hes _ hm

/-- Transitions that handle no command answer no CREATE. -/
theorem Breaks.of_ne_sub {S' : Sys E} {l : Label} (hl : ∀ cid, l ≠ .sub cid)
    (h : S.step srv l = some S') : Breaks S S' := by
  cases Sys.step_moved h with
  | accept => exact .of_trace [] rfl (by simp)
  | aside hc ha =>
    obtain ⟨es, ht, hes⟩ := ha.trace
    refine .of_trace es ht fun e he => ?_
    have hside := hes e he
    cases e <;> first | rfl | cases hside
  | close hc hcl =>
    obtain ⟨l, -, hends⟩ := hcl.ends
    obtain ⟨es, ht, hes⟩ := hends.trace
    refine .of_trace es ht fun e he => ?_
    obtain ⟨oh, -, rfl⟩ := hes e he
    rfl
  | @sub cid => exact absurd rfl (hl cid)

theorem Change.trace_run_none (hrun : Relation.ReflTransGen (Change srv none) s s') : s'.sh.trace = s.sh.trace := by
  induction hrun with
  | refl => rfl
  | tail _ hst ih =>
    cases hst with
    | aside ha => exact ha.trace_eq.trans ih
    | exec cmd hk => cases hk
    | effect cmd hk => cases hk

/-- The transition that handles a command answers its CREATE once at most, and then the
table says the same. -/
theorem Breaks.sub {lp : Loop} (hl : c.Listed)
    (hn : c.Named) (hask : ∀ k ∈ nextCommand c lp, k.Asks S.sh)
    (hsafe : OplockSafe (S.exec cid c (subCommand srv lp)))
    (htold : ∀ x ∈ (S.exec cid c (subCommand srv lp)).live, ∃ n, x.fid = makeFileID x.sid x.tid n) :
    Breaks S (S.exec cid c (subCommand srv lp)) := by
  have hrun : Relation.ReflTransGen (Change srv (nextCommand c lp)) ⟨S.sh, c⟩
      (subCommand srv lp ⟨S.sh, c⟩).state := subCommand_moves srv lp (s := ⟨S.sh, c⟩) hl
  have hsh := S.exec_sh cid c (subCommand srv lp)
  cases hk : nextCommand c lp with
  | none =>
    have hrun : Relation.ReflTransGen (Change srv none) ⟨S.sh, c⟩ _ := hk ▸ hrun
    exact .of_trace [] (by rw [hsh, Change.trace_run_none hrun]; rfl) (by simp)
  | some k =>
    have hrun : Relation.ReflTransGen (Change srv (some k)) ⟨S.sh, c⟩ _ := hk ▸ hrun
    obtain ⟨es, ht, his⟩ := Change.issued_run hrun hn (hask k hk)
    rw [← hsh] at ht his
    cases his with
    | none h _ => exact .of_trace es ht fun e he => by simpa using countP_eq_zero.1 h e he
    | more hcmd h =>
      have hone := (subCommand_creates srv hk hcmd S.sh).createds_le
      rw [← hsh, ht, countP_append] at hone
      omega
    | one req n level hreq h hsaid _ =>
      intro o fid path level' hm x hx hholds
      rw [ht, newEvents_append] at hm
      obtain ⟨rfl, rfl, rfl, rfl⟩ := created.inj (h _ hm rfl)
      obtain ⟨info, hinfo, hconn, hfid⟩ := hsafe.kept x hx _ hholds
      unfold Says at hsaid
      rw [hinfo] at hsaid
      split_ifs at hsaid
      obtain ⟨_, heq, hconn', hfid'⟩ := hsaid
      cases heq
      obtain ⟨n', hn'⟩ := htold x hx
      have hx' : x.fid = makeFileID k.origin.sid k.origin.tid n := hfid.symm.trans hfid'
      obtain ⟨hs, ht, -⟩ := makeFileID_inj (hn'.symm.trans hx')
      have hxc : x.cid = k.origin.conn := hconn.symm.trans hconn'
      have hmade : (⟨x.cid, x.sid, x.tid, x.fid⟩ : OpenId) = k.origin.made (makeFileID k.origin.sid k.origin.tid n) := by
        rw [hxc, hs, ht, hx', Origin.made]
      exact hmade

/-- **Once a CREATE is answered, no other open holds an oplock on its path**, in every run of
the server in which the table is in order and each CREATE asks for an oplock where there
is one. -/
theorem create_breaks (srv : Config E) (w : E.World) (S S' : Sys E) (l : Label)
    (hS : (system srv w).Reach BreakOk S) (hok : BreakOk S l) (hstep : S.step srv l = some S') : Breaks S S' := by
  obtain ⟨hb, htold⟩ := reach_told hS
  have hS' : (system srv w).Reach OplockOk S' := (hS.step hok hstep).mono fun _ _ h => h.1
  obtain ⟨hb', htold'⟩ := reach_told hS'
  cases l with
  | sub cid =>
    cases Sys.step_fired hstep with
    | @sub _ c lp hc hlp hfin =>
      refine .sub (hb _ _ hc).2.2 (htold.named hc) (hok.2 c hc lp hlp) (reach_oplockSafe srv w _ hS') fun x hx => ?_
      obtain ⟨c', hc', ho⟩ := Sys.open?_of_mem_live hb' hx
      exact (htold' x.cid c' x.sid x.tid x.fid x.oh hc' ho).2.1
  | _ => exact .of_ne_sub (fun cid => by simp) hstep

/-- The transition handles a CREATE of the file `a` and leaves so many opens with an oplock
on it. -/
def Sys.answersCreate (srv : Config E) (S : Sys E) (level : UInt8) (n : ℕ) : Bool :=
  (S.step srv (.sub 0)).any fun S' =>
    (newEvents S.sh.trace S'.sh.trace).any (fun
      | .created o fid path level' => decide (path = [0x61] ∧ level' = level ∧
          (S'.holders.filter fun x => x.toOpenId ≠ o.made fid).length = n)
      | _ => false)

theorem Sys.answersCreate_spec {level : UInt8} {n : ℕ} (h : S.answersCreate srv level n = true) :
    ∃ S' o fid, S.step srv (.sub 0) = some S' ∧
      .created o fid [0x61] level ∈ newEvents S.sh.trace S'.sh.trace ∧
      (S'.holders.filter fun x => x.toOpenId ≠ o.made fid).length = n := by
  simp only [Sys.answersCreate, Option.any_eq_true, List.any_eq_true] at h
  obtain ⟨S', hstep, e, he, h⟩ := h
  cases e with
  | created o fid path level' =>
    obtain ⟨rfl, rfl, hn⟩ := of_decide_eq_true h
    exact ⟨S', o, fid, hstep, he, hn⟩
  | _ => cases h

/-- **A CREATE that asks for no oplock breaks none.** -/
theorem create_without_oplock_breaks_none :
    ¬∀ (E : Env) (srv : Config E) (w : E.World) (S S' : Sys E) (l : Label),
      (system srv w).Reach (fun _ _ => True) S → S.step srv l = some S' → Breaks S S' := by
  intro h
  obtain ⟨S, hS, htest⟩ := Transition.Reach.of_run (T := guestSystem false) (C := fun _ _ => True)
    (f := fun S => S.answersCreate (guestServer false) 0 1)
    (createLevels [9] ++ [.recv 0 (createFrame 1 0 0 [0x61, 0x00])]) (by decide +kernel) (by decide +kernel)
  obtain ⟨S', o, fid, hstep, hm, hone⟩ := Sys.answersCreate_spec htest
  have hbreaks := h guestEnv (guestServer false) (0 : ℕ) S S' (.sub 0) hS hstep o fid _ _ hm
  obtain ⟨x, hx⟩ := List.exists_mem_of_length_pos (by rw [hone]; exact Nat.one_pos)
  simp only [Sys.holders, List.mem_filter, decide_eq_true_eq] at hx
  exact hx.2 (hbreaks x hx.1.1 hx.1.2)

/-- The hypotheses of `create_breaks` are met where a CREATE breaks the oplock of
another open. -/
theorem create_breaks_holder : ∃ S S', (guestSystem false).Reach BreakOk S ∧ BreakOk S (.sub 0) ∧
    S.step (guestServer false) (.sub 0) = some S' ∧ S.holders.length = 1 ∧
    S.answersCreate (guestServer false) 0 0 = true ∧ Breaks S S' := by
  obtain ⟨S, hS, htest⟩ := Transition.Reach.of_run (T := guestSystem false) (C := BreakOk)
    (f := fun S => decide (BreakOk S (.sub 0)) && decide (S.holders.length = 1) &&
      S.answersCreate (guestServer false) 0 0)
    (createLevels [9] ++ [.recv 0 (createFrame 1 0 1 [0x61, 0x00])]) (by decide +kernel) (by decide +kernel)
  simp only [Bool.and_eq_true, decide_eq_true_eq] at htest
  obtain ⟨⟨hok, hone⟩, hcreate⟩ := htest
  obtain ⟨S', o, fid, hstep, -, -⟩ := Sys.answersCreate_spec hcreate
  exact ⟨S, S', hS, hok, hstep, hone, hcreate, create_breaks (guestServer false) (0 : ℕ) S S' (.sub 0) hS hok hstep⟩

end Server
end SmbServer
