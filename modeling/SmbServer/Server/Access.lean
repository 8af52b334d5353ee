/-
# Who may touch what

The authentication gate of `dispatch` and the tables behind it, seen from outside.
`ledger` reads off the trace of a connection which sessions have logged on, which
trees they have connected to and which handles were opened through each of these
trees; it knows nothing of the tables of the server.  `Permits` is the policy: a
call for a command of session `S` and tree `T` is made while `S` is logged on, on
the share of `T`, and on a handle opened through `T`, or through any tree of `S`
for LOGOFF.  Every call of every run keeps to it (`reach_authorised`).

The tables are tied to the ledger by `Grounded`: trees exist only in sessions that
have logged on, and opens only in the tree they were opened through.
-/

import SmbServer.Server.Reach

namespace SmbServer
open GoMap
namespace Server

open Wire Vfs Function List Option Conn

variable {E : Env} {srv : Config E} {o : Origin} {msg : Bytes} {s s' : St E} {cid : ConnId}
  {t : List (Event E)}

/-- A tree as the trace shows it: its share and the handles opened through it. -/
structure Grant (E : Env) where
  share : Share E
  handles : List E.Handle := []

/-- What the trace of a connection shows. -/
structure Ledger (E : Env) where
  loggedOn : UInt64 → Bool := fun _ => false
  trees : UInt64 → UInt32 → Option (Grant E) := fun _ _ => none

namespace Ledger

variable {L L' L'' : Ledger E}

def logOn (L : Ledger E) (sid : UInt64) : Ledger E :=
  { L with loggedOn := Function.update L.loggedOn sid true }

/-- A session is new or gone. -/
def forget (L : Ledger E) (sid : UInt64) : Ledger E where
  loggedOn := Function.update L.loggedOn sid false
  trees := Function.update L.trees sid fun _ => none

def setTree (L : Ledger E) (sid : UInt64) (tid : UInt32) (g : Option (Grant E)) : Ledger E :=
  { L with trees := Function.update L.trees sid (Function.update (L.trees sid) tid g) }

/-- A handle is opened through a tree. -/
def hold (L : Ledger E) (sid : UInt64) (tid : UInt32) (h : E.Handle) : Ledger E :=
  L.setTree sid tid ((L.trees sid tid).map fun g => { g with handles := h :: g.handles })

/-- What an event adds for the connection `cid`. -/
def record (cid : ConnId) (L : Ledger E) : Event E → Ledger E
  | .session c sid | .logoff c sid => if c = cid then L.forget sid else L
  | .identity c sid => if c = cid then L.logOn sid else L
  | .treeConnect c sid tid share => if c = cid then L.setTree sid tid (some { share }) else L
  | .treeDisconnect c sid tid => if c = cid then L.setTree sid tid none else L
  | .call (some o) (.openFile _ _ (.ok h)) =>
    if o.conn = cid ∧ o.cmd = cmdCreate then L.hold o.sid o.tid h else L
  | _ => L

end Ledger

/-- The ledger of a connection after a trace. -/
def ledger (cid : ConnId) (t : List (Event E)) : Ledger E := t.foldr (fun e L => L.record cid e) {}

/-- **The policy.**  What the ledger allows a command to call. -/
structure Ledger.Permits (L : Ledger E) (o : Origin) (op : Call E) : Prop where
  loggedOn : L.loggedOn o.sid = true
  share : ∀ share, op.share? = some share → ∃ g, L.trees o.sid o.tid = some g ∧ g.share = share
  handle : ∀ h, op.handle? = some h → ∃ tid g, (tid = o.tid ∨ o.cmd = cmdLogoff) ∧
    L.trees o.sid tid = some g ∧ h ∈ g.handles

/-- Every call for a command was allowed by the ledger before it. -/
def Authorised (t : List (Event E)) : Prop :=
  ∀ o op pre, .call (some o) op :: pre <:+ t → (ledger o.conn pre).Permits o op

/-! ### The ledger along a trace -/

theorem ledger_cons (cid : ConnId) (e : Event E) (t : List (Event E)) :
    ledger cid (e :: t) = (ledger cid t).record cid e := rfl

theorem ledger_append {es : List (Event E)} (h : ∀ e ∈ es, ∀ L : Ledger E, L.record cid e = L) :
    ledger cid (es ++ t) = ledger cid t := by
  induction es with
  | nil => rfl
  | cons e es ih =>
    rw [cons_append, ledger_cons, h e (mem_cons_self ..),
      ih fun e' he' => h e' (mem_cons_of_mem _ he')]

namespace Ledger

variable {L L' L'' : Ledger E}

theorem record_of_isAside {e : Event E} (h : e.isAside = true) (L : Ledger E) :
    L.record cid e = L := by
  cases e with
  | wrote cid' frame sealing content => rfl
  | call origin op =>
    cases origin with
    | none => rfl
    | some o => cases h
  | _ => cases h

/-- A call leaves the ledger alone or opens a handle. -/
theorem record_call (L : Ledger E) (cid : ConnId) (origin : Option Origin) (op : Call E) :
    L.record cid (.call origin op) = L ∨ ∃ o h, origin = some o ∧ o.conn = cid ∧
      L.record cid (.call origin op) = L.hold o.sid o.tid h := by
  cases origin with
  | none => exact .inl rfl
  | some o =>
    cases op with
    | openFile share opts res =>
      cases res with
      | error e => exact .inl rfl
      | ok h =>
        by_cases hc : o.conn = cid ∧ o.cmd = cmdCreate
        · exact .inr ⟨o, h, rfl, hc.1, if_pos hc⟩
        · exact .inl (if_neg hc)
    | _ => exact .inl rfl

/-- A handler of another connection leaves the ledger of this one alone. -/
theorem record_of_isHandler {e : Event E} {cid' : ConnId} (h : e.isHandler cid' = true)
    (hne : cid' ≠ cid) (L : Ledger E) : L.record cid e = L := by
  cases e with
  | session c sid | identity c sid | logoff c sid | treeConnect c sid tid share
  | treeDisconnect c sid tid =>
    obtain rfl : c = cid' := of_decide_eq_true h
    exact if_neg hne
  | call origin op =>
    rcases L.record_call cid origin op with heq | ⟨o, -, rfl, rfl, -⟩
    · exact heq
    · exact absurd (of_decide_eq_true h).symm hne
  | _ => rfl

/-- The same sessions and trees, with more handles at most. -/
structure Grows (L L' : Ledger E) : Prop where
  loggedOn : L'.loggedOn = L.loggedOn
  trees : ∀ sid tid, ∃ hs, L'.trees sid tid =
    (L.trees sid tid).map fun g => { g with handles := hs ++ g.handles }

theorem Grows.refl (L : Ledger E) : L.Grows L := ⟨rfl, fun sid tid => ⟨[], by simp⟩⟩

theorem Grows.trans (h : L.Grows L') (h' : L'.Grows L'') : L.Grows L'' := by
  refine ⟨h'.loggedOn.trans h.loggedOn, fun sid tid => ?_⟩
  obtain ⟨hs, e⟩ := h.trees sid tid
  obtain ⟨hs', e'⟩ := h'.trees sid tid
  exact ⟨hs' ++ hs, by rw [e', e, Option.map_map]; simp [comp_def]⟩

theorem hold_trees (L : Ledger E) (sid sid' : UInt64) (tid tid' : UInt32) (h : E.Handle) :
    (L.hold sid tid h).trees sid' tid' =
      if sid' = sid ∧ tid' = tid then
        (L.trees sid tid).map fun g => { g with handles := h :: g.handles }
      else L.trees sid' tid' := by
  by_cases hs : sid' = sid
  · subst hs
    by_cases ht : tid' = tid
    · subst ht
      simp [hold, setTree]
    · simp [hold, setTree, ht]
  · simp [hold, setTree, hs]

theorem grows_hold (L : Ledger E) (sid : UInt64) (tid : UInt32) (h : E.Handle) :
    L.Grows (L.hold sid tid h) := by
  refine ⟨rfl, fun sid' tid' => ?_⟩
  rw [hold_trees]
  split_ifs with heq
  · obtain ⟨rfl, rfl⟩ := heq
    exact ⟨[h], rfl⟩
  · exact ⟨[], by simp⟩

theorem grows_call (L : Ledger E) (origin : Option Origin) (op : Call E) :
    L.Grows (L.record cid (.call origin op)) := by
  rcases L.record_call cid origin op with heq | ⟨o, h, -, -, heq⟩
  · rw [heq]
    exact .refl L
  · rw [heq]
    exact L.grows_hold o.sid o.tid h

theorem grows_calls {es : List (Event E)} (h : ∀ e ∈ es, ∃ op, e = .call (some o) op) :
    (ledger cid t).Grows (ledger cid (es ++ t)) := by
  induction es with
  | nil => exact .refl _
  | cons e es ih =>
    obtain ⟨op, rfl⟩ := h e (mem_cons_self ..)
    exact (ih fun e he => h e (mem_cons_of_mem _ he)).trans (grows_call _ _ _)

end Ledger

theorem JustOpened.mem_handles {share : Share E} {opts : OpenOptions} {h : E.Handle}
    (ho : JustOpened o share opts (.ok h) t) (hcmd : o.cmd = cmdCreate) {g : Grant E}
    (hg : (ledger o.conn t).trees o.sid o.tid = some g) : h ∈ g.handles := by
  obtain ⟨es, t0, rfl, hes⟩ := ho
  have hgrows : (ledger o.conn (.call (some o) (.openFile share opts (.ok h)) :: t0)).Grows
      (ledger o.conn (es ++ .call (some o) (.openFile share opts (.ok h)) :: t0)) :=
    Ledger.grows_calls hes
  obtain ⟨hs, e⟩ := hgrows.trees o.sid o.tid
  have hrec : ledger o.conn (.call (some o) (.openFile share opts (.ok h)) :: t0) =
      (ledger o.conn t0).hold o.sid o.tid h := if_pos ⟨rfl, hcmd⟩
  rw [hg, hrec, Ledger.hold_trees, if_pos ⟨rfl, rfl⟩, Option.map_map] at e
  obtain ⟨g0, -, rfl⟩ := map_eq_some_iff.1 e.symm
  exact mem_append_right _ (mem_cons_self ..)

namespace Authorised

theorem cons {e : Event E} (h : Authorised t)
    (he : ∀ o op, e = .call (some o) op → (ledger o.conn t).Permits o op) : Authorised (e :: t) := by
  intro o op pre hs
  rcases suffix_cons_iff.1 hs with heq | hs
  · obtain ⟨rfl, rfl⟩ := List.cons.inj heq
    exact he o op rfl
  · exact h o op pre hs

/-- Events that leave the ledgers alone, with calls that these allow. -/
theorem append (h : Authorised t) {es : List (Event E)}
    (hrec : ∀ e ∈ es, ∀ cid, ∀ L : Ledger E, L.record cid e = L)
    (hcall : ∀ o op, .call (some o) op ∈ es → (ledger o.conn t).Permits o op) :
    Authorised (es ++ t) := by
  induction es with
  | nil => exact h
  | cons e es ih =>
    have hes := fun e he => hrec e (mem_cons_of_mem _ he)
    refine (ih hes fun o op hm => hcall o op (mem_cons_of_mem _ hm)).cons fun o op heq => ?_
    rw [ledger_append fun e he => hes e he _]
    exact hcall o op (heq ▸ mem_cons_self ..)

end Authorised

/-! ### The tables and the ledger -/

/-- The tables of a connection hold nothing that its ledger does not show. -/
structure Grounded (L : Ledger E) (c : Conn E) : Prop where
  session : ∀ sid sess, c.session? sid = some sess → sess.authenticated = true →
    L.loggedOn sid = true
  tree : ∀ sid tid tr, c.tree? sid tid = some tr → L.loggedOn sid = true ∧
    ∃ g, L.trees sid tid = some g ∧ g.share = tr.share ∧
      ∀ fid oh, tr.opens.lookup fid = some oh → oh.h ∈ g.handles

namespace Grounded

variable {L L' : Ledger E} {c c' : Conn E}

theorem shrinks (h : Grounded L c) (hc : c.Shrinks c') : Grounded L c' := by
  refine ⟨fun sid sess' hs' ha => ?_, fun sid tid tr' ht' => ?_⟩
  · obtain ⟨sess, hs, e, -⟩ := hc.session sid sess' hs'
    exact h.session sid sess hs (e ▸ ha)
  · obtain ⟨tr, ht, e, -, ho⟩ := hc.tree sid tid tr' ht'
    obtain ⟨hon, g, hg, hsh, hh⟩ := h.tree sid tid tr ht
    refine ⟨hon, g, hg, hsh.trans e.symm, fun fid oh hl => ?_⟩
    obtain ⟨oh0, hl0, eh⟩ := ho fid oh hl
    exact eh ▸ hh fid oh0 hl0

theorem grows (h : Grounded L c) (hL : L.Grows L') : Grounded L' c := by
  refine ⟨fun sid sess hs ha => ?_, fun sid tid tr ht => ?_⟩
  · rw [hL.loggedOn]
    exact h.session sid sess hs ha
  · obtain ⟨hon, g, hg, hsh, hh⟩ := h.tree sid tid tr ht
    obtain ⟨hs, e⟩ := hL.trees sid tid
    rw [hg] at e
    rw [hL.loggedOn]
    exact ⟨hon, _, e, hsh, fun fid oh hl => mem_append_right _ (hh fid oh hl)⟩

/-- **What a handler may call is permitted.** -/
theorem permits (h : Grounded (ledger o.conn s.sh.trace) s.c) {op : Call E}
    (ha : Allowed o s op) : (ledger o.conn s.sh.trace).Permits o op := by
  have hshare : ∀ share, op.share? = some share → ∃ g,
      (ledger o.conn s.sh.trace).loggedOn o.sid = true ∧
      (ledger o.conn s.sh.trace).trees o.sid o.tid = some g ∧ g.share = share := by
    intro share hs
    obtain ⟨tr, ht, rfl⟩ := ha.share share hs
    obtain ⟨hon, g, hg, hsh, -⟩ := h.tree _ _ _ ht
    exact ⟨g, hon, hg, hsh⟩
  have hhandle : ∀ hd, op.handle? = some hd → ∃ tid g,
      (ledger o.conn s.sh.trace).loggedOn o.sid = true ∧ (tid = o.tid ∨ o.cmd = cmdLogoff) ∧
      (ledger o.conn s.sh.trace).trees o.sid tid = some g ∧ hd ∈ g.handles := by
    intro hd hh
    rcases ha.handle hd hh with ⟨tid, fid, oh, ho, rfl, htid⟩ | ⟨hcmd, tr, opts, ht, hj⟩
    · obtain ⟨tr, ht, hl⟩ := open?_eq_some.1 ho
      obtain ⟨hon, g, hg, -, hmem⟩ := h.tree _ _ _ ht
      exact ⟨tid, g, hon, htid, hg, hmem fid oh hl⟩
    · obtain ⟨hon, g, hg, -, -⟩ := h.tree _ _ _ ht
      exact ⟨o.tid, g, hon, .inl rfl, hg, hj.mem_handles hcmd hg⟩
  have hone : (∃ share, op.share? = some share) ∨ ∃ hd, op.handle? = some hd := by
    cases op with
    | openFile share _ _ | remove share _ => exact .inl ⟨share, rfl⟩
    | read hd _ _ | write hd _ _ | close hd | stat hd | enumerate hd _ | setInfo hd _
    | rename hd _ _ | processPipe hd _ => exact .inr ⟨hd, rfl⟩
  refine ⟨?_, fun share hs => ?_, fun hd hh => ?_⟩
  · rcases hone with ⟨share, hs⟩ | ⟨hd, hh⟩
    · exact (hshare share hs).choose_spec.1
    · exact (hhandle hd hh).choose_spec.choose_spec.1
  · obtain ⟨g, -, hg⟩ := hshare share hs
    exact ⟨g, hg⟩
  · obtain ⟨tid, g, -, hg⟩ := hhandle hd hh
    exact ⟨tid, g, hg⟩

end Grounded

/-- The closing of opens leaves every ledger alone. -/
theorem Closed.ledger {origin : Option Origin} {K : UInt64 → UInt32 → Prop}
    (h : Closed origin K s s') (cid : ConnId) :
    Server.ledger cid s'.sh.trace = Server.ledger cid s.sh.trace := by
  obtain ⟨l, -, hends⟩ := h.ends
  obtain ⟨es, he, hes⟩ := hends.trace
  rw [he]
  refine ledger_append fun e hm L => ?_
  obtain ⟨oh, -, rfl⟩ := hes e hm
  cases origin <;> rfl

/-- The calls that close the opens of a command's tree, or of its session, are
permitted. -/
theorem Closed.authorised {origin : Option Origin} {K : UInt64 → UInt32 → Prop}
    (h : Closed origin K s s')
    (hK : ∀ o, origin = some o → Grounded (Server.ledger o.conn s.sh.trace) s.c ∧
      ∀ sid tid, K sid tid → sid = o.sid ∧ (tid = o.tid ∨ o.cmd = cmdLogoff))
    (ha : Authorised s.sh.trace) : Authorised s'.sh.trace := by
  obtain ⟨l, hl, hends⟩ := h.ends
  obtain ⟨es, he, hes⟩ := hends.trace
  rw [he]
  refine ha.append (fun e hm cid L => ?_) fun o op hm => ?_
  · obtain ⟨oh, -, rfl⟩ := hes e hm
    cases origin <;> rfl
  · obtain ⟨oh, hoh, heq⟩ := hes _ hm
    obtain ⟨rfl, rfl⟩ := Event.call.inj heq
    obtain ⟨sid, tid, fid, hk, ho⟩ := (hl oh).1 hoh
    obtain ⟨hg, hk'⟩ := hK o rfl
    obtain ⟨rfl, htid⟩ := hk' sid tid hk
    exact hg.permits ⟨fun h' e => .inl ⟨tid, fid, oh, ho, some.inj e, htid⟩,
      nofun, nofun, nofun,
      nofun⟩

/-! ### Every command keeps the ledger -/

theorem ledger_registerOpen {tr : Tree E} {req : CreateRequest} {h : E.Handle} {r : FileId × UInt8}
    (hs : registerOpen o tr req h s = .ok r s') :
    ledger cid s'.sh.trace = ledger cid s.sh.trace := by
  obtain ⟨es, he, hes⟩ := registerOpen_trace hs
  rw [he]
  refine ledger_append fun e hm L => ?_
  rcases mem_cons.1 hm with rfl | hm
  · rfl
  · obtain ⟨cid', fid, path, rfl⟩ := hes e hm
    rfl

/-- **A step of a handler keeps its connection's tables grounded.** -/
theorem Effect.grounded (he : Effect srv o msg s s')
    (hg : Grounded (ledger o.conn s.sh.trace) s.c) : Grounded (ledger o.conn s'.sh.trace) s'.c := by
  cases he with
  | out b => exact ⟨hg.session, hg.tree⟩
  | world w => exact hg
  | lock req oh hcmd hreq h => exact hg
  | cancel cs hcmd => exact ⟨hg.session, hg.tree⟩
  | pending messageID hcmd => exact ⟨hg.session, hg.tree⟩
  | watch w oh hcmd hreq hhdr h hh => exact ⟨hg.session, hg.tree⟩
  | call w op h => exact hg.grows (Ledger.grows_call _ _ _)
  | setOpen fid oh oh' h hh hf hp hl =>
    refine hg.shrinks (shrinks_modifyTree _ _ _ (fun _ => ⟨rfl, rfl⟩) fun tr fid' oh1 ht hl1 => ?_)
    rw [lookup_mapAt] at hl1
    split_ifs at hl1 with heq
    · subst heq
      obtain ⟨oh0, hl0, rfl⟩ := map_eq_some_iff.1 hl1
      have hoh : s.c.open? o.sid o.tid fid' = some oh0 := open?_eq_some.2 ⟨tr, ht, hl0⟩
      rw [h] at hoh
      exact ⟨oh0, hl0, hh.trans (congrArg OpenHandle.h (some.inj hoh))⟩
    · exact ⟨oh1, hl1, rfl⟩
  | endOpen req oh hcmd hreq h =>
    refine hg.shrinks (shrinks_modifyTree _ _ _ (fun _ => ⟨rfl, rfl⟩) fun tr fid' oh1 ht hl1 => ?_)
    rw [lookup_erase'] at hl1
    split_ifs at hl1
    exact ⟨oh1, hl1, rfl⟩
  | create tr req h r _ hcmd hreq htr hopen hs =>
    rw [ledger_registerOpen hs]
    simp only [registerOpen, Outcome.ok.injEq] at hs
    obtain ⟨-, rfl⟩ := hs
    refine ⟨fun sid sess' hs' ha => ?_, fun sid tid tr' ht' => ?_⟩
    · obtain ⟨sess, hs0, hsame⟩ :=
        session?_of_modifySession hs' fun _ => ⟨rfl, rfl, rfl, rfl, rfl, rfl⟩
      exact hg.session sid sess hs0 (hsame.authenticated ▸ ha)
    · rw [tree?_modifyTree] at ht'
      split_ifs at ht' with heq
      · obtain ⟨rfl, rfl⟩ := heq
        rw [htr] at ht'
        cases ht'
        obtain ⟨hon, g, hg', hsh, hh⟩ := hg.tree _ _ _ htr
        refine ⟨hon, g, hg', hsh, fun fid oh hl => ?_⟩
        rw [lookup_insert'] at hl
        split_ifs at hl
        · cases hl
          exact hopen.mem_handles hcmd hg'
        · exact hh fid oh hl
      · exact hg.tree sid tid tr' ht'
  | session auth hcmd =>
    rw [ledger_cons, Ledger.record, if_pos rfl]
    refine ⟨fun sid sess hs ha => ?_, fun sid tid tr ht => ?_⟩
    · rw [Conn.session?, lookup_insert'] at hs
      split_ifs at hs with hsid
      · cases hs
        cases ha
      · simpa [Ledger.forget, hsid] using hg.session sid sess hs ha
    · obtain ⟨sess, hs, hl⟩ := bind_eq_some_iff.1 ht
      rw [Conn.session?, lookup_insert'] at hs
      split_ifs at hs with hsid
      · cases hs
        cases hl
      · have ht0 : s.c.tree? sid tid = some tr := by
          rw [Conn.tree?, Conn.session?, hs]
          exact hl
        simpa [Ledger.forget, hsid] using hg.tree sid tid tr ht0
  | auth sid w a hcmd =>
    exact hg.shrinks (shrinks_modifySession _ _ (fun _ => ⟨rfl, rfl⟩) fun _ _ _ h => h)
  | identity sid r hcmd h =>
    rw [ledger_cons, Ledger.record, if_pos rfl]
    have hon : ∀ sid', (ledger o.conn s.sh.trace).loggedOn sid' = true →
        ((ledger o.conn s.sh.trace).logOn sid).loggedOn sid' = true := fun sid' h' => by
      by_cases he : sid' = sid
      · simp [Ledger.logOn, he]
      · simpa [Ledger.logOn, he] using h'
    refine ⟨fun sid' sess' hs ha => ?_, fun sid' tid tr ht => ?_⟩
    · by_cases he : sid' = sid
      · simp [Ledger.logOn, he]
      · rw [session?_modifySession, if_neg he] at hs
        exact hon sid' (hg.session sid' sess' hs ha)
    · rw [tree?_modifySession] at ht
      have ht0 : s.c.tree? sid' tid = some tr := by
        split_ifs at ht
        · exact ht
        · exact ht
      obtain ⟨h1, h2⟩ := hg.tree sid' tid tr ht0
      exact ⟨hon sid' h1, h2⟩
  | treeConnect share sess hcmd h ha =>
    rw [ledger_cons, Ledger.record, if_pos rfl]
    refine ⟨fun sid sess' hs' ha' => ?_, fun sid tid tr ht => ?_⟩
    · obtain ⟨sess0, hs0, hsame⟩ :=
        session?_of_modifySession hs' fun _ => ⟨rfl, rfl, rfl, rfl, rfl, rfl⟩
      exact hg.session sid sess0 hs0 (hsame.authenticated ▸ ha')
    · rw [tree?_modifySession] at ht
      split_ifs at ht with hsid
      · subst hsid
        rw [h, bind_some, lookup_insert'] at ht
        split_ifs at ht with htid
        · cases ht
          exact ⟨hg.session _ sess h ha, { share }, by simp [Ledger.setTree, htid], rfl,
            fun fid oh hl => by cases hl⟩
        · have ht0 : s.c.tree? o.sid tid = some tr := by rw [Conn.tree?, h]; exact ht
          simpa [Ledger.setTree, htid] using hg.tree _ _ _ ht0
      · simpa [Ledger.setTree, hsid] using hg.tree _ _ _ ht
  | treeDisconnect s1 hcmd h hc =>
    have hg1 := hg.shrinks hc.shrinks
    rw [ledger_cons, Ledger.record, if_pos rfl, hc.ledger]
    refine ⟨fun sid sess' hs' ha' => ?_, fun sid tid tr ht => ?_⟩
    · obtain ⟨sess, hs, hsame⟩ :=
        session?_of_modifySession hs' fun _ => ⟨rfl, rfl, rfl, rfl, rfl, rfl⟩
      exact hg1.session sid sess hs (hsame.authenticated ▸ ha')
    · rw [tree?_modifySession] at ht
      split_ifs at ht with hsid
      · subst hsid
        obtain ⟨sess, hs, hl⟩ := bind_eq_some_iff.1 ht
        rw [lookup_erase'] at hl
        split_ifs at hl with htid
        have ht1 : s1.c.tree? o.sid tid = some tr := by rw [Conn.tree?, hs]; exact hl
        simpa [Ledger.setTree, htid] using hg1.tree _ _ _ ht1
      · simpa [Ledger.setTree, hsid] using hg1.tree _ _ _ ht
  | logoff s1 hcmd h hc =>
    have hg1 := hg.shrinks hc.shrinks
    rw [ledger_cons, Ledger.record, if_pos rfl, hc.ledger]
    refine ⟨fun sid sess hs ha => ?_, fun sid tid tr ht => ?_⟩
    · rw [Conn.session?, lookup_erase'] at hs
      split_ifs at hs with hsid
      simpa [Ledger.forget, hsid] using hg1.session sid sess hs ha
    · obtain ⟨sess, hs, hl⟩ := bind_eq_some_iff.1 ht
      rw [Conn.session?, lookup_erase'] at hs
      split_ifs at hs with hsid
      have ht1 : s1.c.tree? sid tid = some tr := by
        rw [Conn.tree?, Conn.session?, hs]
        exact hl
      simpa [Ledger.forget, hsid] using hg1.tree sid tid tr ht1

/-- **A step of a handler makes no call that is not permitted.** -/
theorem Effect.authorised (he : Effect srv o msg s s')
    (hg : Grounded (ledger o.conn s.sh.trace) s.c) (ha : Authorised s.sh.trace) :
    Authorised s'.sh.trace := by
  cases he with
  | call w op h =>
    refine ha.cons fun o' op' e => ?_
    obtain ⟨e1, rfl⟩ := Event.call.inj e
    cases e1
    exact hg.permits h
  | create tr req h r _ hcmd hreq htr hopen hs =>
    obtain ⟨es, he, hes⟩ := registerOpen_trace hs
    rw [he, cons_append]
    refine Authorised.cons (ha.append (fun e hm cid L => ?_) fun o' op hm => ?_) fun _ _ e => nomatch e
    · obtain ⟨cid', fid, path, rfl⟩ := hes e hm
      rfl
    · obtain ⟨cid', fid, path, e⟩ := hes _ hm
      cases e
  | session auth hcmd => exact ha.cons fun _ _ e => nomatch e
  | identity sid r hcmd h => exact ha.cons fun _ _ e => nomatch e
  | treeConnect share sess hcmd h ha' => exact ha.cons fun _ _ e => nomatch e
  | treeDisconnect s1 hcmd h hc =>
    refine Authorised.cons (hc.authorised (fun o' ho => ?_) ha) fun _ _ e => nomatch e
    cases ho
    exact ⟨hg, fun sid tid hk => ⟨hk.1, .inl hk.2⟩⟩
  | logoff s1 hcmd h hc =>
    refine Authorised.cons (hc.authorised (fun o' ho => ?_) ha) fun _ _ e => nomatch e
    cases ho
    exact ⟨hg, fun sid tid hk => ⟨hk, .inr hcmd⟩⟩
  | _ => exact ha

/-! ### All runs -/

/-- Every call was permitted, and the tables of every connection are grounded. -/
def AccessSafe (S : Sys E) : Prop :=
  Authorised S.sh.trace ∧ ∀ cid c, S.conns cid = some c → Grounded (ledger cid S.sh.trace) c

/-- A step that leaves the ledgers of the other connections alone. -/
theorem AccessSafe.put {S : Sys E} (h : AccessSafe S) (ha : Authorised s'.sh.trace)
    (hl : ∀ cid', cid' ≠ cid → ledger cid' s'.sh.trace = ledger cid' S.sh.trace)
    (hg : Grounded (ledger cid s'.sh.trace) s'.c) : AccessSafe (S.put cid s') := by
  refine ⟨ha, fun cid' c' hc' => ?_⟩
  rcases Sys.conns_put hc' with ⟨rfl, rfl⟩ | ⟨hne, hc'⟩
  · exact hg
  · rw [Sys.put_sh, hl cid' hne]
    exact h.2 cid' c' hc'

theorem access_preserved : Preserved srv (fun _ _ => True) (fun _ _ => True) AccessSafe where
  accept S _ h := by
    refine ⟨h.1, fun cid c hc => ?_⟩
    rcases Sys.conns_accept hc with ⟨-, rfl⟩ | ⟨-, hc⟩
    · exact ⟨fun _ _ hs => (nomatch hs), fun _ _ _ ht => (nomatch ht)⟩
    · exact h.2 cid c hc
  aside S cid c s' _ hc h ha := by
    obtain ⟨es, he, hes⟩ := ha.trace
    have hrec : ∀ e ∈ es, ∀ cid, ∀ L : Ledger E, L.record cid e = L :=
      fun e hm cid L => L.record_of_isAside (hes e hm)
    have hl : ∀ cid, ledger cid s'.sh.trace = ledger cid S.sh.trace := fun cid => by
      rw [he]
      exact ledger_append fun e hm L => hrec e hm cid L
    refine h.put ?_ (fun cid' _ => hl cid') ?_
    · rw [he]
      exact h.1.append hrec fun o op hm => nomatch hes _ hm
    · rw [hl]
      exact (h.2 cid c hc).shrinks ha.shrinks
  start _ _ _ _ _ _ _ _ _ _ _ := trivial
  carry _ _ _ _ _ := trivial
  exec S cid c k _ hc _ _ _ h _ :=
    ⟨h.put (h.1.cons fun _ _ e => nomatch e) (fun _ _ => rfl) (h.2 cid c hc), trivial⟩
  effect S cid c k s' _ hc hcid _ h _ he := by
    subst hcid
    have hg := h.2 _ c hc
    obtain ⟨es, ht, hes⟩ := he.trace
    refine ⟨h.put (he.authorised hg h.1) (fun cid' hne => ?_) (he.grounded hg), trivial⟩
    rw [ht]
    exact ledger_append fun e hm L => L.record_of_isHandler (hes e hm) (Ne.symm hne)
  close S cid c s' _ hc h _ hcl := by
    refine ⟨hcl.authorised (fun o ho => nomatch ho) h.1, fun cid' c' hc' => ?_⟩
    have hl := hcl.ledger cid'
    have hg := h.2 cid' c' (Sys.conns_remove hc').2
    exact hl ▸ hg

/-- **Authentication gate and isolation.**  In every run of the server, every call made
for a command of session `S` and tree `T` is made while `S` is logged on to the
connection, through the tree registered under `S` and `T`, and on a handle opened by a
CREATE through that tree, or through a tree of `S` for LOGOFF. -/
theorem reach_authorised (srv : Config E) (w : E.World) (S : Sys E)
    (hS : (system srv w).Reach (fun _ _ => True) S) :
    ∀ o op pre, .call (some o) op :: pre <:+ S.sh.trace → (ledger o.conn pre).Permits o op := by
  have h₀ : AccessSafe (system srv w).init := by
    refine ⟨fun o op pre hs => ?_, fun cid c hc => nomatch hc⟩
    cases List.suffix_nil.1 hs
  exact (access_preserved.reach h₀ hS).2.1

/-- A guest logs on, connects to the share, opens a file and closes it again; the
calls on its handle are permitted. -/
theorem reach_authorised_close : ∃ S, (guestSystem false).Reach (fun _ _ => True) S ∧
    (S.sh.trace.any fun e =>
      match e with
      | .call (some _) (.close _) => true
      | _ => false) = true ∧
    ∀ o op pre, .call (some o) op :: pre <:+ S.sh.trace → (ledger o.conn pre).Permits o op := by
  obtain ⟨S, hS, hclose⟩ := Transition.Reach.of_run (T := guestSystem false) (C := fun _ _ => True)
    (f := fun S => S.sh.trace.any fun e =>
      match e with
      | .call (some _) (.close _) => true
      | _ => false)
    ([.accept] ++ exchange 0 setupFrame ++ exchange 0 (treeConnectFrame 1) ++
      exchange 0 (createFrame 1 0 0 [0x61, 0x00]) ++
      exchange 0 (closeFrame 1 0 (makeFileID 1 0 1)))
    (by decide +kernel) (by decide +kernel)
  exact ⟨S, hS, hclose, reach_authorised (guestServer false) (0 : ℕ) S hS⟩

end Server
end SmbServer
