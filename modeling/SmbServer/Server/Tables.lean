/-
# The tables after a step

Where a session, a tree or an open of the state after a step of `Effect` comes
from: it was there before, or the step made it.  Every invariant about what the
tables hold is proved from these three lemmas.
-/

import SmbServer.Server.Rounds

namespace SmbServer
open GoMap
namespace Server

open Wire List Option Conn

variable {E : Env} {srv : Config E} {o : Origin} {msg : Bytes} {s s' : St E}
variable {sid sid₀ : UInt64} {tid : UInt32} {fid : FileId} {oh : OpenHandle E} {f : Session E → Session E}
  {tr' : Tree E} {origin : Option Origin} {K : UInt64 → UInt32 → Prop} {p : Event E → Bool} {cid : ConnId}

theorem Conn.tree?_modifySession (c : Conn E) (sid sid' : UInt64) (tid : UInt32)
    (f : Session E → Session E) :
    (c.modifySession sid f).tree? sid' tid =
      if sid' = sid then (c.session? sid').bind fun s => (f s).trees.lookup tid
      else c.tree? sid' tid := by
  unfold Conn.tree?
  rw [session?_modifySession]
  split_ifs
  · rw [bind_map]; rfl
  · rfl

/-- An open made by a CREATE. -/
structure Created (o : Origin) (msg : Bytes) (s s' : St E) (fid : FileId) (oh : OpenHandle E) :
    Prop where
  intro ::
  cmd : o.cmd = cmdCreate
  made : ∃ tr req h r, CreateRequest.parse msg = .ok req ∧ s.c.tree? o.sid o.tid = some tr ∧
    JustOpened o tr.share (openOptions req) (.ok h) s.sh.trace ∧
    registerOpen o tr req h s = .ok r s' ∧ fid = makeFileID o.sid o.tid (tr.nextID + 1) ∧
    oh = { h, fileId := fid, path := (openOptions req).path, deletePending := deleteOnClose req }

/-- An open that was there before, up to what it remembers. -/
structure Persists (s : St E) (sid : UInt64) (tid : UInt32) (fid : FileId) (oh : OpenHandle E) :
    Prop where
  intro ::
  before : ∃ oh₀, s.c.open? sid tid fid = some oh₀ ∧ oh.h = oh₀.h ∧ oh.fileId = oh₀.fileId ∧
    oh.path = oh₀.path ∧ (oh₀.Listed → oh.Listed)

theorem Persists.ofOpen
    (h : s.c.open? sid tid fid = some oh) : Persists s sid tid fid oh :=
  ⟨oh, h, rfl, rfl, rfl, id⟩

/-- An update of a session adds no open when its trees were there before or are empty. -/
theorem Conn.open?_of_modifySession {c : Conn E}

    (h : (c.modifySession sid₀ f).open? sid tid fid = some oh)
    (hf : ∀ sess tid t, (f sess).trees.lookup tid = some t →
      sess.trees.lookup tid = some t ∨ t.opens = ∅) :
    c.open? sid tid fid = some oh := by
  obtain ⟨t, ht, ho⟩ := open?_eq_some.1 h
  rw [tree?_modifySession] at ht
  split_ifs at ht
  · obtain ⟨sess, hsess, hl⟩ := bind_eq_some_iff.1 ht
    rcases hf sess tid t hl with hl | hl
    · exact open?_eq_some.2 ⟨t, by rw [Conn.tree?, hsess]; exact hl, ho⟩
    · rw [hl] at ho
      cases ho
  · exact open?_eq_some.2 ⟨t, ht, ho⟩

/-- **Where an open comes from.** -/
theorem Effect.open_cases (he : Effect srv o msg s s')
    (h : s'.c.open? sid tid fid = some oh) :
    Persists s sid tid fid oh ∨ sid = o.sid ∧ tid = o.tid ∧ Created o msg s s' fid oh := by
  cases he with
  | out b => exact .inl (.ofOpen h)
  | world w => exact .inl (.ofOpen h)
  | call w op ha => exact .inl (.ofOpen h)
  | lock req oh0 hcmd hreq h0 => exact .inl (.ofOpen h)
  | cancel cs hcmd => exact .inl (.ofOpen h)
  | pending messageID hcmd => exact .inl (.ofOpen h)
  | watch w oh hcmd hreq hhdr h' hh => exact .inl (.ofOpen h)
  | setOpen fid0 oh0 oh' h0 hh hf hp hl =>
    rw [open?_modifyOpen] at h
    split_ifs at h with heq
    · obtain ⟨rfl, rfl, rfl⟩ := heq
      rw [h0] at h
      cases h
      exact .inl ⟨oh0, h0, hh, hf, hp, hl⟩
    · exact .inl (.ofOpen h)
  | create tr req hd r _ hcmd hreq htr hopen hs =>
    have hs' := hs
    simp only [registerOpen, Outcome.ok.injEq] at hs
    obtain ⟨-, rfl⟩ := hs
    obtain ⟨t, ht, ho⟩ := open?_eq_some.1 h
    rw [tree?_modifyTree] at ht
    split_ifs at ht with heq
    · obtain ⟨rfl, rfl⟩ := heq
      rw [htr] at ht
      cases ht
      rw [lookup_insert'] at ho
      split_ifs at ho with hfid
      · cases ho
        exact .inr ⟨rfl, rfl, hcmd, tr, req, hd, r, hreq, htr, hopen, hs', hfid, by rw [hfid]⟩
      · exact .inl (.ofOpen (open?_eq_some.2 ⟨tr, htr, ho⟩))
    · exact .inl (.ofOpen (open?_eq_some.2 ⟨t, ht, ho⟩))
  | endOpen req oh0 hcmd hreq h0 =>
    obtain ⟨t, ht, ho⟩ := open?_eq_some.1 h
    simp only [Server.endOpen, Go.modify_apply, Outcome.state, tree?_modifyTree] at ht
    split_ifs at ht with heq
    · obtain ⟨t0, ht0, rfl⟩ := map_eq_some_iff.1 ht
      rw [lookup_erase'] at ho
      split_ifs at ho
      exact .inl (.ofOpen (open?_eq_some.2 ⟨t0, ht0, ho⟩))
    · exact .inl (.ofOpen (open?_eq_some.2 ⟨t, ht, ho⟩))
  | session auth hcmd =>
    obtain ⟨t, ht, ho⟩ := open?_eq_some.1 h
    obtain ⟨sess, hsess, hl⟩ := bind_eq_some_iff.1 ht
    rw [Conn.session?, lookup_insert'] at hsess
    split_ifs at hsess
    · cases hsess
      cases hl
    · refine .inl (.ofOpen (open?_eq_some.2 ⟨t, ?_, ho⟩))
      rw [Conn.tree?, Conn.session?, hsess]
      exact hl
  | auth sid₀ w a hcmd =>
    exact .inl (.ofOpen (open?_of_modifySession h fun _ _ _ ht => .inl ht))
  | identity sid₀ r hcmd h0 =>
    exact .inl (.ofOpen (open?_of_modifySession h fun _ _ _ ht => .inl ht))
  | treeConnect share sess hcmd h0 ha =>
    refine .inl (.ofOpen (open?_of_modifySession h fun sess tid t ht => ?_))
    rw [lookup_insert'] at ht
    split_ifs at ht
    · cases ht
      exact .inr rfl
    · exact .inl ht
  | treeDisconnect s1 hcmd h0 hc =>
    have h1 := open?_of_modifySession h fun sess tid t ht => by
      rw [lookup_erase'] at ht
      split_ifs at ht
      exact .inl ht
    exact .inl (.ofOpen ((hc.open_iff _ _ _ _).1 h1).2)
  | logoff s1 hcmd h0 hc =>
    have h1 : s1.c.open? sid tid fid = some oh := by
      obtain ⟨t, ht, ho⟩ := open?_eq_some.1 h
      obtain ⟨sess, hsess, hl⟩ := bind_eq_some_iff.1 ht
      rw [Conn.session?, lookup_erase'] at hsess
      split_ifs at hsess
      refine open?_eq_some.2 ⟨t, ?_, ho⟩
      rw [Conn.tree?, Conn.session?, hsess]
      exact hl
    exact .inl (.ofOpen ((hc.open_iff _ _ _ _).1 h1).2)

/-! ### Trees -/

theorem Conn.tree?_of_modifyTree {c : Conn E} {tid0 : UInt32}
    {f : Tree E → Tree E} (h : (c.modifyTree sid₀ tid0 f).tree? sid tid = some tr')
    (hf : ∀ tr, (f tr).share = tr.share) : ∃ tr, c.tree? sid tid = some tr ∧ tr'.share = tr.share := by
  rw [tree?_modifyTree] at h
  split_ifs at h
  · obtain ⟨tr, htr, rfl⟩ := map_eq_some_iff.1 h
    exact ⟨tr, htr, hf tr⟩
  · exact ⟨tr', h, rfl⟩

theorem Conn.tree?_of_modifySession {c : Conn E} {tr : Tree E}
    (h : (c.modifySession sid₀ f).tree? sid tid = some tr)
    (hf : ∀ sess tid tr, (f sess).trees.lookup tid = some tr → sess.trees.lookup tid = some tr) :
    c.tree? sid tid = some tr := by
  rw [tree?_modifySession] at h
  split_ifs at h
  · obtain ⟨sess, hs, hl⟩ := bind_eq_some_iff.1 h
    rw [Conn.tree?, hs]
    exact hf sess tid tr hl
  · exact h

theorem Closed.tree_of_tree (hc : Closed origin K s s')
    (h : s'.c.tree? sid tid = some tr') :
    ∃ tr, s.c.tree? sid tid = some tr ∧ tr'.share = tr.share := by
  by_cases hK : K sid tid
  · rw [hc.tree_of _ _ hK] at h
    obtain ⟨tr, htr, rfl⟩ := map_eq_some_iff.1 h
    exact ⟨tr, htr, rfl⟩
  · rw [hc.tree_of_not _ _ hK] at h
    exact ⟨tr', h, rfl⟩

/-- **Where a tree comes from.**  It was there before, on the same share, or a TREE_CONNECT
made it. -/
theorem Effect.tree_cases (he : Effect srv o msg s s')
    (h : s'.c.tree? sid tid = some tr') :
    (∃ tr, s.c.tree? sid tid = some tr ∧ tr'.share = tr.share) ∨
      o.cmd = cmdTreeConnect ∧ tr'.opens = ∅ ∧
        (∃ sess, s.c.session? sid = some sess ∧ sess.authenticated = true) ∧
          ∃ sid tid, .treeConnect o.conn sid tid tr'.share ∈ s'.sh.trace := by
  cases he with
  | setOpen fid oh oh' h0 hh hf hp hl => exact .inl (tree?_of_modifyTree h fun _ => rfl)
  | create tr req hd r _ hcmd hreq htr hopen hs =>
    simp only [registerOpen, Outcome.ok.injEq] at hs
    obtain ⟨-, rfl⟩ := hs
    exact .inl (tree?_of_modifyTree h fun _ => rfl)
  | endOpen req oh hcmd hreq h0 => exact .inl (tree?_of_modifyTree h fun _ => rfl)
  | session auth hcmd =>
    obtain ⟨sess, hs, hl⟩ := bind_eq_some_iff.1 h
    rw [Conn.session?, lookup_insert'] at hs
    split_ifs at hs
    · cases hs
      cases hl
    · refine .inl ⟨tr', ?_, rfl⟩
      rw [Conn.tree?, Conn.session?, hs]
      exact hl
  | auth sid₀ w a hcmd => exact .inl ⟨tr', tree?_of_modifySession h fun _ _ _ hl => hl, rfl⟩
  | identity sid₀ r hcmd h0 => exact .inl ⟨tr', tree?_of_modifySession h fun _ _ _ hl => hl, rfl⟩
  | treeConnect share sess hcmd h0 ha =>
    rw [tree?_modifySession] at h
    split_ifs at h with hsid
    · obtain ⟨sess', hs, hl⟩ := bind_eq_some_iff.1 h
      rw [lookup_insert'] at hl
      split_ifs at hl
      · cases hl
        exact .inr ⟨hcmd, rfl, ⟨sess, hsid ▸ h0, ha⟩, _, _, mem_cons_self ..⟩
      · refine .inl ⟨tr', ?_, rfl⟩
        rw [Conn.tree?, hs]
        exact hl
    · exact .inl ⟨tr', h, rfl⟩
  | treeDisconnect s1 hcmd h0 hc =>
    refine .inl (hc.tree_of_tree (tree?_of_modifySession h fun sess tid tr hl => ?_))
    rw [lookup_erase'] at hl
    split_ifs at hl
    exact hl
  | logoff s1 hcmd h0 hc =>
    refine .inl (hc.tree_of_tree ?_)
    obtain ⟨sess, hs, hl⟩ := bind_eq_some_iff.1 h
    rw [Conn.session?, lookup_erase'] at hs
    split_ifs at hs
    rw [Conn.tree?, Conn.session?, hs]
    exact hl
  | _ => exact .inl ⟨tr', h, rfl⟩

/-! ### Sessions -/

/-- Two states of a session that differ at most in its trees, its authenticator and its
ciphers. -/
structure Session.Same (sess sess' : Session E) : Prop where
  authenticated : sess'.authenticated = sess.authenticated
  signer : sess'.signer = sess.signer
  requireSign : sess'.requireSign = sess.requireSign
  encryptionKey : sess'.encryptionKey = sess.encryptionKey
  decryptionKey : sess'.decryptionKey = sess.decryptionKey
  requireEncrypt : sess'.requireEncrypt = sess.requireEncrypt

namespace Session.Same

variable {sess sess' sess'' : Session E}

theorem refl (sess : Session E) : sess.Same sess := ⟨rfl, rfl, rfl, rfl, rfl, rfl⟩

theorem trans (h : sess.Same sess') (h' : sess'.Same sess'') : sess.Same sess'' :=
  ⟨h'.1.trans h.1, h'.2.trans h.2, h'.3.trans h.3, h'.4.trans h.4, h'.5.trans h.5, h'.6.trans h.6⟩

theorem ofCore (h : sess'.core = sess.core) : sess.Same sess' := by
  cases sess
  cases sess'
  simp only [Session.core, Session.mk.injEq] at h
  obtain ⟨-, -, h1, -, -, h2, h3, h4, h5, h6, -⟩ := h
  exact ⟨h1, h2, h3, h4, h5, h6⟩

theorem ofUntreed (h : sess'.untreed = sess.untreed) : sess.Same sess' := by
  cases sess
  cases sess'
  simp only [Session.untreed, Session.mk.injEq] at h
  obtain ⟨-, -, h1, -, -, h2, h3, h4, h5, h6, -⟩ := h
  exact ⟨h1, h2, h3, h4, h5, h6⟩

end Session.Same

theorem Aside.session_of (h : Aside p s s') {sess' : Session E}
    (hs : s'.c.session? sid = some sess') :
    ∃ sess, s.c.session? sid = some sess ∧ sess.Same sess' := by
  have hcore := h.session sid
  rw [hs] at hcore
  obtain ⟨sess, hsess, hc⟩ := map_eq_some_iff.1 hcore.symm
  exact ⟨sess, hsess, .ofCore hc.symm⟩

/-- A session after a closing of opens was there before. -/
theorem Closed.session_of
    (h : Closed origin K s s') {sess' : Session E}
    (hs : s'.c.session? sid = some sess') :
    ∃ sess, s.c.session? sid = some sess ∧ sess.Same sess' := by
  have hu := h.session sid
  rw [hs] at hu
  obtain ⟨sess, hsess, hc⟩ := map_eq_some_iff.1 hu.symm
  exact ⟨sess, hsess, .ofUntreed hc.symm⟩

theorem Conn.session?_of_modifySession {c : Conn E} {sess' : Session E}
    (h : (c.modifySession sid₀ f).session? sid = some sess')
    (hf : ∀ sess : Session E, sess.Same (f sess)) :
    ∃ sess, c.session? sid = some sess ∧ sess.Same sess' := by
  rw [session?_modifySession] at h
  split_ifs at h
  · obtain ⟨sess, hs, rfl⟩ := map_eq_some_iff.1 h
    exact ⟨sess, hs, hf sess⟩
  · exact ⟨sess', h, .refl sess'⟩

/-- **Where a session comes from.**  It was there before, with the same keys, or a
SESSION_SETUP gave it an identity or made it. -/
theorem Effect.session_cases (he : Effect srv o msg s s') {sess' : Session E}
    (h : s'.c.session? sid = some sess') :
    (∃ sess, s.c.session? sid = some sess ∧ sess.Same sess') ∨
      o.cmd = cmdSessionSetup ∧
        ((∃ r sess, s.c.session? sid = some sess ∧ sess' = authenticate srv r sess ∧
            s'.sh.trace = .identity o.conn sid :: s.sh.trace) ∨
          ∃ auth, sid = s.sh.nextSess + 1 ∧ sess' = { auth } ∧
            s'.sh.trace = .session o.conn sid :: s.sh.trace) := by
  have hold : s.c.session? sid = some sess' →
      ∃ sess, s.c.session? sid = some sess ∧ sess.Same sess' := fun h => ⟨sess', h, .refl sess'⟩
  cases he with
  | setOpen fid oh oh' h0 hh hf hp hl =>
    exact .inl (session?_of_modifySession h fun _ => ⟨rfl, rfl, rfl, rfl, rfl, rfl⟩)
  | create tr req hd r _ hcmd hreq htr hopen hs =>
    simp only [registerOpen, Outcome.ok.injEq] at hs
    obtain ⟨-, rfl⟩ := hs
    exact .inl (session?_of_modifySession h fun _ => ⟨rfl, rfl, rfl, rfl, rfl, rfl⟩)
  | endOpen req oh hcmd hreq h0 =>
    exact .inl (session?_of_modifySession h fun _ => ⟨rfl, rfl, rfl, rfl, rfl, rfl⟩)
  | session auth hcmd =>
    rw [Conn.session?, lookup_insert'] at h
    split_ifs at h with hsid
    · subst hsid
      exact .inr ⟨hcmd, .inr ⟨auth, rfl, (some.inj h).symm, rfl⟩⟩
    · exact .inl (hold h)
  | auth sid₀ w a hcmd =>
    exact .inl (session?_of_modifySession h fun _ => ⟨rfl, rfl, rfl, rfl, rfl, rfl⟩)
  | identity sid₀ r hcmd h0 =>
    rw [session?_modifySession] at h
    split_ifs at h with hsid
    · subst hsid
      obtain ⟨sess, hs, rfl⟩ := map_eq_some_iff.1 h
      exact .inr ⟨hcmd, .inl ⟨r, sess, hs, rfl, rfl⟩⟩
    · exact .inl (hold h)
  | treeConnect share sess hcmd h0 ha =>
    exact .inl (session?_of_modifySession h fun _ => ⟨rfl, rfl, rfl, rfl, rfl, rfl⟩)
  | treeDisconnect s1 hcmd h0 hc =>
    obtain ⟨sess1, h1, hsame⟩ :=
      session?_of_modifySession h fun _ => ⟨rfl, rfl, rfl, rfl, rfl, rfl⟩
    obtain ⟨sess, hs, hsame'⟩ := hc.session_of h1
    exact .inl ⟨sess, hs, hsame'.trans hsame⟩
  | logoff s1 hcmd h0 hc =>
    rw [Conn.session?, lookup_erase'] at h
    split_ifs at h
    exact .inl (hc.session_of h)
  | _ => exact .inl (hold h)

/-- Two states of a connection with the same sessions, up to what `Session.Same` leaves
open. -/
structure Conn.SameSessions (c c' : Conn E) : Prop where
  kept : ∀ sid sess, c.session? sid = some sess → ∃ sess', c'.session? sid = some sess' ∧ sess.Same sess'
  absent : ∀ sid, c.session? sid = none → c'.session? sid = none

namespace Conn.SameSessions

variable {c c' c'' : Conn E}

theorem ofSessions (h : c'.sessions = c.sessions) : c.SameSessions c' := by
  exact ⟨fun sid sess hs => ⟨sess, by rw [Conn.session?, h]; exact hs, .refl sess⟩,
    fun sid hs => by rw [Conn.session?, h]; exact hs⟩

theorem trans (h : c.SameSessions c') (h' : c'.SameSessions c'') : c.SameSessions c'' := by
  refine ⟨fun sid sess hs => ?_, fun sid => h'.absent sid ∘ h.absent sid⟩
  obtain ⟨sess1, h1, hsame1⟩ := h.kept sid sess hs
  obtain ⟨sess2, h2, hsame2⟩ := h'.kept sid sess1 h1
  exact ⟨sess2, h2, hsame1.trans hsame2⟩

/-- The sessions agree on everything that `f` shows of them. -/
theorem ofMap {β : Type} {f : Session E → β} (hf : ∀ sess sess', f sess' = f sess → sess.Same sess')
    (h : ∀ sid, (c'.session? sid).map f = (c.session? sid).map f) : c.SameSessions c' := by
  refine ⟨fun sid sess hs => ?_, fun sid hs => ?_⟩
  · have hm := h sid
    rw [hs] at hm
    obtain ⟨sess', hs', hf'⟩ := map_eq_some_iff.1 hm
    exact ⟨sess', hs', hf _ _ hf'⟩
  · have hm := h sid
    rw [hs] at hm
    exact map_eq_none_iff.1 hm

theorem modifySession (sid : UInt64)
    (hf : ∀ sess : Session E, sess.Same (f sess)) : c.SameSessions (c.modifySession sid f) := by
  refine ⟨fun sid' sess hs => ?_, fun sid' hs => ?_⟩
  · rw [session?_modifySession, hs]
    split_ifs
    · exact ⟨f sess, rfl, hf sess⟩
    · exact ⟨sess, rfl, .refl sess⟩
  · rw [session?_modifySession, hs]
    split_ifs <;> rfl

end Conn.SameSessions

theorem Aside.sameSessions (h : Aside p s s') : s.c.SameSessions s'.c :=
  .ofMap (fun _ _ => .ofCore) h.session

theorem Closed.sameSessions
    (h : Closed origin K s s') : s.c.SameSessions s'.c :=
  .ofMap (fun _ _ => .ofUntreed) h.session

/-- Only SESSION_SETUP and LOGOFF change what a session is. -/
theorem Effect.sameSessions (he : Effect srv o msg s s') (hss : o.cmd ≠ cmdSessionSetup)
    (hlo : o.cmd ≠ cmdLogoff) : s.c.SameSessions s'.c := by
  cases he with
  | setOpen fid oh oh' h0 hh hf hp hl => exact .modifySession _ fun _ => ⟨rfl, rfl, rfl, rfl, rfl, rfl⟩
  | create tr req hd r _ hcmd hreq htr hopen hs =>
    simp only [registerOpen, Outcome.ok.injEq] at hs
    obtain ⟨-, rfl⟩ := hs
    exact .modifySession _ fun _ => ⟨rfl, rfl, rfl, rfl, rfl, rfl⟩
  | endOpen req oh hcmd hreq h0 => exact .modifySession _ fun _ => ⟨rfl, rfl, rfl, rfl, rfl, rfl⟩
  | session auth hcmd => exact absurd hcmd hss
  | auth sid₀ w a hcmd => exact absurd hcmd hss
  | identity sid₀ r hcmd h0 => exact absurd hcmd hss
  | treeConnect share sess hcmd h0 ha => exact .modifySession _ fun _ => ⟨rfl, rfl, rfl, rfl, rfl, rfl⟩
  | treeDisconnect s1 hcmd h0 hc =>
    exact hc.sameSessions.trans (.modifySession _ fun _ => ⟨rfl, rfl, rfl, rfl, rfl, rfl⟩)
  | logoff s1 hcmd h0 hc => exact absurd hcmd hlo
  | _ => exact .ofSessions rfl

/-! ### Watchers and queues -/

/-- **Where a watcher comes from.**  It was there before, or a CHANGE_NOTIFY on an open
started it. -/
theorem Effect.watcher_cases (he : Effect srv o msg s s') {w : Watcher E}
    (h : w ∈ s'.c.watchers) :
    w ∈ s.c.watchers ∨ o.cmd = cmdChangeNotify ∧ ChangeNotifyRequest.parse msg = .ok w.req ∧
      w.hdr.In msg ∧ (s.c.open? o.sid o.tid w.req.fileId).isSome := by
  cases he with
  | watch w' oh hcmd hreq hhdr ho hh =>
    rcases mem_append.1 h with h | h
    · exact .inl h
    · obtain rfl := mem_singleton.1 h
      exact .inr ⟨hcmd, hreq, hhdr, by rw [ho]; rfl⟩
  | create tr req hd r _ hcmd hreq htr hopen hs =>
    simp only [registerOpen, Outcome.ok.injEq] at hs
    obtain ⟨-, rfl⟩ := hs
    exact .inl h
  | treeDisconnect s1 hcmd h0 hc =>
    have hw : s1.c.watchers = s.c.watchers := by rw [hc.conn]
    exact .inl (hw ▸ h)
  | logoff s1 hcmd h0 hc =>
    have hw : s1.c.watchers = s.c.watchers := by rw [hc.conn]
    exact .inl (hw ▸ h)
  | _ => exact .inl h

theorem Shared.requestOplock_asyncResp (sh : Shared E) (info : OplockInfo) (level : UInt8)
    {q : Queued} (h : q ∈ (sh.requestOplock info level).2.asyncResp cid) :
    q ∈ sh.asyncResp cid ∨ ∃ info', q.frame = oplockBreakMessage info' := by
  unfold Shared.requestOplock Shared.grant Shared.breakOplock Shared.sendOplockBreak at h
  split_ifs at h with hl hp
  · exact .inl h
  · cases hi : sh.oplocks info.path with
    | none =>
      simp only [hi] at h
      exact .inl h
    | some b =>
      simp only [hi] at h
      split_ifs at h
      · exact .inl h
      · rcases Shared.sendFinal_asyncResp _ _ _ _ _ h with h | rfl
        · exact .inl h
        · exact .inr ⟨b, rfl⟩
  · exact .inl h

/-- The messages a handler queues are oplock breaks. -/
theorem Effect.queue_cases (he : Effect srv o msg s s') {q : Queued}
    (h : q ∈ s'.sh.asyncResp cid) :
    q ∈ s.sh.asyncResp cid ∨ ∃ info, q.frame = oplockBreakMessage info := by
  cases he with
  | create tr req hd r _ hcmd hreq htr hopen hs =>
    simp only [registerOpen, Outcome.ok.injEq] at hs
    obtain ⟨-, rfl⟩ := hs
    exact Shared.requestOplock_asyncResp _ _ _ h
  | treeDisconnect s1 hcmd h0 hc =>
    obtain ⟨l, -, hends⟩ := hc.ends
    have hq : s1.sh.asyncResp = s.sh.asyncResp := hends.asyncResp
    exact .inl (hq ▸ h)
  | logoff s1 hcmd h0 hc =>
    obtain ⟨l, -, hends⟩ := hc.ends
    have hq : s1.sh.asyncResp = s.sh.asyncResp := hends.asyncResp
    exact .inl (hq ▸ h)
  | _ => exact .inl h

/-- A request for an oplock touches the oplocks, the channels and the trace only. -/
theorem Shared.requestOplock_keeps {f : Shared E → γ}
    (hf : ∀ (sh : Shared E) oplocks asyncResp trace, f { sh with oplocks, asyncResp, trace } = f sh)
    (sh : Shared E) (info : OplockInfo) (level : UInt8) : f (sh.requestOplock info level).2 = f sh := by
  unfold Shared.requestOplock Shared.grant Shared.breakOplock Shared.sendOplockBreak Shared.sendFinal
  split_ifs with hl hp
  · rfl
  · cases hi : sh.oplocks info.path with
    | none => exact hf sh _ _ _
    | some b =>
      dsimp only
      split_ifs
      · exact hf sh _ _ _
      · exact hf sh _ _ _
  · exact hf sh _ _ _

theorem Shared.requestOplock_locks (sh : Shared E) (info : OplockInfo) (level : UInt8) :
    (sh.requestOplock info level).2.locks = sh.locks :=
  Shared.requestOplock_keeps (f := Shared.locks) (fun _ _ _ _ => rfl) sh info level

theorem Shared.requestOplock_nextSess (sh : Shared E) (info : OplockInfo) (level : UInt8) :
    (sh.requestOplock info level).2.nextSess = sh.nextSess :=
  Shared.requestOplock_keeps (f := Shared.nextSess) (fun _ _ _ _ => rfl) sh info level

theorem Shared.requestOplock_world (sh : Shared E) (info : OplockInfo) (level : UInt8) :
    (sh.requestOplock info level).2.world = sh.world :=
  Shared.requestOplock_keeps (f := Shared.world) (fun _ _ _ _ => rfl) sh info level

/-! ### Nothing new -/

/-- Every session, tree and open after a step was there before, and so were the counters. -/
structure Conn.Shrinks (c c' : Conn E) : Prop where
  session : ∀ sid sess', c'.session? sid = some sess' →
    ∃ sess, c.session? sid = some sess ∧ sess'.authenticated = sess.authenticated ∧
      sess'.nextTreeID = sess.nextTreeID
  tree : ∀ sid tid tr', c'.tree? sid tid = some tr' →
    ∃ tr, c.tree? sid tid = some tr ∧ tr'.share = tr.share ∧ tr'.nextID = tr.nextID ∧
      ∀ fid oh, tr'.opens.lookup fid = some oh → ∃ oh₀, tr.opens.lookup fid = some oh₀ ∧ oh.h = oh₀.h

theorem Conn.Shrinks.of_sessions {c c' : Conn E} (h : c'.sessions = c.sessions) : c.Shrinks c' := by
  refine ⟨fun sid sess hs => ⟨sess, ?_, rfl, rfl⟩, fun sid tid tr ht =>
    ⟨tr, ?_, rfl, rfl, fun fid oh hl => ⟨oh, hl, rfl⟩⟩⟩
  · rwa [Conn.session?, h] at hs
  · rwa [Conn.tree?, Conn.session?, h] at ht

theorem Conn.Shrinks.trans {c c1 c2 : Conn E} (h : c.Shrinks c1) (h' : c1.Shrinks c2) :
    c.Shrinks c2 := by
  refine ⟨fun sid sess2 hs2 => ?_, fun sid tid tr2 ht2 => ?_⟩
  · obtain ⟨sess1, hs1, e1, n1⟩ := h'.session sid sess2 hs2
    obtain ⟨sess, hs, e, n⟩ := h.session sid sess1 hs1
    exact ⟨sess, hs, e1.trans e, n1.trans n⟩
  · obtain ⟨tr1, ht1, e1, n1, ho1⟩ := h'.tree sid tid tr2 ht2
    obtain ⟨tr, ht, e, n, ho⟩ := h.tree sid tid tr1 ht1
    refine ⟨tr, ht, e1.trans e, n1.trans n, fun fid oh hl => ?_⟩
    obtain ⟨oh1, hl1, eh1⟩ := ho1 fid oh hl
    obtain ⟨oh0, hl0, eh0⟩ := ho fid oh1 hl1
    exact ⟨oh0, hl0, eh1.trans eh0⟩

theorem Aside.shrinks (h : Aside p s s') : s.c.Shrinks s'.c := by
  refine ⟨fun sid sess' hs => ?_, fun sid tid tr ht => ⟨tr, by rwa [h.tree?] at ht, rfl, rfl, ?_⟩⟩
  · have hcore := h.session sid
    rw [hs] at hcore
    obtain ⟨sess, hs0, hc⟩ := map_eq_some_iff.1 hcore.symm
    have hauth := congrArg Session.authenticated hc
    have hnext := congrArg Session.nextTreeID hc
    exact ⟨sess, hs0, hauth.symm, hnext.symm⟩
  · exact fun fid oh hl => ⟨oh, hl, rfl⟩

theorem Closed.shrinks
    (h : Closed origin K s s') : s.c.Shrinks s'.c := by
  refine ⟨fun sid sess' hs => ?_, fun sid tid tr ht => ?_⟩
  · have hu := h.session sid
    rw [hs] at hu
    obtain ⟨sess, hs0, hc⟩ := map_eq_some_iff.1 hu.symm
    have hauth := congrArg Session.authenticated hc
    have hnext := congrArg Session.nextTreeID hc
    exact ⟨sess, hs0, hauth.symm, hnext.symm⟩
  · by_cases hK : K sid tid
    · rw [h.tree_of _ _ hK] at ht
      obtain ⟨tr0, ht0, rfl⟩ := map_eq_some_iff.1 ht
      exact ⟨tr0, ht0, rfl, rfl, nofun⟩
    · rw [h.tree_of_not _ _ hK] at ht
      exact ⟨tr, ht, rfl, rfl, fun fid oh hl => ⟨oh, hl, rfl⟩⟩

/-- A write through a session pointer that adds no tree. -/
theorem Conn.shrinks_modifySession (c : Conn E) (sid : UInt64)
    (hf : ∀ sess, (f sess).authenticated = sess.authenticated ∧ (f sess).nextTreeID = sess.nextTreeID)
    (ht : ∀ sess tid tr, (f sess).trees.lookup tid = some tr → sess.trees.lookup tid = some tr) :
    c.Shrinks (c.modifySession sid f) := by
  refine ⟨fun sid' sess' hs => ?_, fun sid' tid tr htr =>
    ⟨tr, ?_, rfl, rfl, fun fid oh hl => ⟨oh, hl, rfl⟩⟩⟩
  · rw [session?_modifySession] at hs
    split_ifs at hs
    · obtain ⟨sess, hs0, rfl⟩ := map_eq_some_iff.1 hs
      exact ⟨sess, hs0, hf sess⟩
    · exact ⟨sess', hs, rfl, rfl⟩
  · rw [tree?_modifySession] at htr
    split_ifs at htr
    · obtain ⟨sess, hs, hl⟩ := bind_eq_some_iff.1 htr
      rw [Conn.tree?, hs]
      exact ht sess tid tr hl
    · exact htr

/-- A write through a tree pointer that adds no open. -/
theorem Conn.shrinks_modifyTree (c : Conn E) (sid : UInt64) (tid : UInt32) {f : Tree E → Tree E}
    (hf : ∀ tr, (f tr).share = tr.share ∧ (f tr).nextID = tr.nextID)
    (ho : ∀ tr fid oh, c.tree? sid tid = some tr → (f tr).opens.lookup fid = some oh →
      ∃ oh0, tr.opens.lookup fid = some oh0 ∧ oh.h = oh0.h) :
    c.Shrinks (c.modifyTree sid tid f) := by
  refine ⟨fun sid' sess' hs => ?_, fun sid' tid' tr' htr => ?_⟩
  · rw [Conn.modifyTree, session?_modifySession] at hs
    split_ifs at hs
    · obtain ⟨sess, hs0, rfl⟩ := map_eq_some_iff.1 hs
      exact ⟨sess, hs0, rfl, rfl⟩
    · exact ⟨sess', hs, rfl, rfl⟩
  · rw [tree?_modifyTree] at htr
    split_ifs at htr with heq
    · obtain ⟨rfl, rfl⟩ := heq
      obtain ⟨tr, ht, rfl⟩ := map_eq_some_iff.1 htr
      exact ⟨tr, ht, (hf tr).1, (hf tr).2, fun fid oh hl => ho tr fid oh ht hl⟩
    · exact ⟨tr', htr, rfl, rfl, fun fid oh hl => ⟨oh, hl, rfl⟩⟩

/-! ### The trace -/

/-- What a handler of a connection records: neither that a command was reached nor a
frame written. -/
def Event.isHandler (cid : ConnId) : Event E → Bool
  | .exec .. | .wrote .. => false
  | .call origin _ => origin.all fun o => o.conn = cid
  | .session c _ | .identity c _ | .logoff c _ | .treeConnect c _ _ _ | .treeDisconnect c _ _ => c = cid
  | .created o _ _ _ => o.conn = cid
  | .oplockBreak .. => true

theorem Shared.Ends.isHandler {l : List (OpenHandle E)} {sh sh' : Shared E}
    (h : sh.Ends origin l sh') (ho : ∀ o, origin = some o → o.conn = cid) :
    ∃ es, sh'.trace = es ++ sh.trace ∧ ∀ e ∈ es, e.isHandler cid = true := by
  obtain ⟨es, he, hes⟩ := h.trace
  refine ⟨es, he, fun e hm => ?_⟩
  obtain ⟨oh, -, rfl⟩ := hes e hm
  cases origin with
  | none => rfl
  | some o => exact decide_eq_true (ho o rfl)

theorem Shared.requestOplock_trace (sh : Shared E) (info : OplockInfo) (level : UInt8) :
    ∃ es, (sh.requestOplock info level).2.trace = es ++ sh.trace ∧
      ∀ e ∈ es, ∃ cid fid path, e = .oplockBreak cid fid path := by
  unfold Shared.requestOplock Shared.grant Shared.breakOplock Shared.sendOplockBreak Shared.sendFinal
  split_ifs with hl hp
  · exact ⟨[], rfl, by simp⟩
  · cases hi : sh.oplocks info.path with
    | none => exact ⟨[], rfl, by simp⟩
    | some b =>
      dsimp only
      split_ifs with hd
      · exact ⟨[], rfl, by simp⟩
      · exact ⟨[.oplockBreak b.conn b.fileId b.path], rfl, fun e he =>
          ⟨b.conn, b.fileId, b.path, mem_singleton.1 he⟩⟩
  · exact ⟨[], rfl, by simp⟩

theorem registerOpen_trace {tr : Tree E} {req : CreateRequest} {h : E.Handle} {r : FileId × UInt8}
    (hs : registerOpen o tr req h s = .ok r s') :
    ∃ es, s'.sh.trace = .created o r.1 (openOptions req).path r.2 :: es ++ s.sh.trace ∧
      ∀ e ∈ es, ∃ cid fid path, e = .oplockBreak cid fid path := by
  simp only [registerOpen, Outcome.ok.injEq] at hs
  obtain ⟨rfl, rfl⟩ := hs
  obtain ⟨es, he, hes⟩ := s.sh.requestOplock_trace
    { fileId := makeFileID o.sid o.tid (tr.nextID + 1), sessID := o.sid, treeID := o.tid,
      path := (openOptions req).path, conn := o.conn,
      enc := s.c.requiresEncryption o.sid } req.requestedOplockLevel
  exact ⟨es, congrArg (List.cons _) he, hes⟩

theorem Effect.trace (he : Effect srv o msg s s') :
    ∃ es, s'.sh.trace = es ++ s.sh.trace ∧ ∀ e ∈ es, e.isHandler o.conn = true := by
  have hone : ∀ (e : Event E) (t : List (Event E)), e.isHandler o.conn = true →
      (∃ es, t = es ++ s.sh.trace ∧ ∀ e ∈ es, e.isHandler o.conn = true) →
      ∃ es, e :: t = es ++ s.sh.trace ∧ ∀ e ∈ es, e.isHandler o.conn = true := by
    rintro e _ h ⟨es, rfl, hes⟩
    exact ⟨e :: es, rfl, forall_mem_cons.2 ⟨h, hes⟩⟩
  have hid : ∃ es, s.sh.trace = es ++ s.sh.trace ∧ ∀ e ∈ es, e.isHandler o.conn = true :=
    ⟨[], rfl, by simp⟩
  have hself : ∀ o' : Origin, some o = some o' → o'.conn = o.conn := fun o' h =>
    congrArg Origin.conn (some.inj h).symm
  cases he with
  | call w op h => exact hone _ _ (decide_eq_true rfl) hid
  | session auth hcmd => exact hone _ _ (decide_eq_true rfl) hid
  | identity sid r hcmd h => exact hone _ _ (decide_eq_true rfl) hid
  | treeConnect share sess hcmd h ha => exact hone _ _ (decide_eq_true rfl) hid
  | create tr req h r _ hcmd hreq htr hopen hs =>
    obtain ⟨es, he, hes⟩ := registerOpen_trace hs
    rw [he]
    refine hone _ _ (decide_eq_true rfl) ⟨es, rfl, fun e hm => ?_⟩
    obtain ⟨cid, fid, path, rfl⟩ := hes e hm
    rfl
  | treeDisconnect s1 hcmd h hc =>
    obtain ⟨l, -, hends⟩ := hc.ends
    exact hone _ _ (decide_eq_true rfl) (hends.isHandler hself)
  | logoff s1 hcmd h hc =>
    obtain ⟨l, -, hends⟩ := hc.ends
    exact hone _ _ (decide_eq_true rfl) (hends.isHandler hself)
  | _ => exact hid

end Server
end SmbServer
