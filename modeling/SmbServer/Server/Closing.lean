/-
# What closing many opens does

TREE_DISCONNECT, LOGOFF and the cleanup of a connection all run `closeAllOpens`
over some trees.  `Closed K` says what that amounts to for the set `K` of trees:
their opens are gone, each of these opens was closed, its path released in the
oplock table and its locks dropped, and nothing else has changed.  Closing one set
of trees and then another is closing their union (`Closed.trans`), so the loops
are followed by induction (`Closed.forEach`).
-/

import SmbServer.Server.System

namespace SmbServer
open Function List
namespace Server

variable {E : Env} {origin : Option Origin}

/-- `sh'` is `sh` after the opens `l` were closed. -/
structure Shared.Ends (origin : Option Origin) (l : List (OpenHandle E)) (sh sh' : Shared E) :
    Prop where
  oplocks : ∀ p, sh'.oplocks p = if ∃ oh ∈ l, oh.path = p then none else sh.oplocks p
  locks : ∀ p, (sh'.locks p).ranges = (sh.locks p).ranges.filter fun r =>
    decide (∀ oh ∈ l, oh.path = p → r.fileId ≠ oh.fileId)
  trace : ∃ calls, sh'.trace = calls ++ sh.trace ∧
    ∀ e ∈ calls, ∃ oh ∈ l, e = .call origin (.close oh.h)
  closed : ∀ oh ∈ l, ∀ calls, sh'.trace = calls ++ sh.trace → .call origin (.close oh.h) ∈ calls
  nextSess : sh'.nextSess = sh.nextSess
  asyncResp : sh'.asyncResp = sh.asyncResp
  connDone : sh'.connDone = sh.connDone
  world : Runs (fun op => ∃ oh ∈ l, op = .close oh.h) sh.world sh'.world

namespace Shared.Ends

theorem ofWorld (sh : Shared E) {w : E.World} (h : Runs (fun _ => False) sh.world w) :
    sh.Ends origin [] { sh with world := w } where
  oplocks := by simp
  locks := by simp
  trace := ⟨[], rfl, by simp⟩
  closed := by simp
  nextSess := rfl
  asyncResp := rfl
  connDone := rfl
  world := h.mono fun _ hf => hf.elim

theorem append {l1 l2 : List (OpenHandle E)} {sh1 sh2 sh3 : Shared E}
    (h1 : sh1.Ends origin l1 sh2) (h2 : sh2.Ends origin l2 sh3) :
    sh1.Ends origin (l1 ++ l2) sh3 where
  oplocks p := by
    rw [h2.oplocks, h1.oplocks]
    by_cases hp1 : ∃ oh ∈ l1, oh.path = p <;> by_cases hp2 : ∃ oh ∈ l2, oh.path = p <;>
      simp only [hp1, hp2, mem_append, or_and_right, exists_or, or_true, true_or, or_self,
        if_true, if_false]
  locks p := by
    rw [h2.locks, h1.locks, List.filter_filter]
    refine filter_congr fun r _ => ?_
    rw [← Bool.decide_and, decide_eq_decide]
    simp only [mem_append, or_imp, forall_and]
    exact and_comm
  trace := by
    obtain ⟨c1, e1, hc1⟩ := h1.trace
    obtain ⟨c2, e2, hc2⟩ := h2.trace
    refine ⟨c2 ++ c1, by rw [e2, e1, append_assoc], fun e he => ?_⟩
    rcases mem_append.1 he with he | he
    · obtain ⟨oh, hm, h⟩ := hc2 e he
      exact ⟨oh, mem_append_right _ hm, h⟩
    · obtain ⟨oh, hm, h⟩ := hc1 e he
      exact ⟨oh, mem_append_left _ hm, h⟩
  closed oh hm calls ht := by
    obtain ⟨c1, e1, -⟩ := h1.trace
    obtain ⟨c2, e2, -⟩ := h2.trace
    obtain rfl : c2 ++ c1 = calls := append_cancel_right (by rw [← ht, e2, e1, append_assoc])
    rcases mem_append.1 hm with hm | hm
    · exact mem_append_right _ (h1.closed oh hm c1 e1)
    · exact mem_append_left _ (h2.closed oh hm c2 e2)
  nextSess := h2.nextSess.trans h1.nextSess
  asyncResp := h2.asyncResp.trans h1.asyncResp
  connDone := h2.connDone.trans h1.connDone
  world := (h1.world.mono fun _ ⟨oh, hm, h⟩ => ⟨oh, mem_append_left _ hm, h⟩).trans
    (h2.world.mono fun _ ⟨oh, hm, h⟩ => ⟨oh, mem_append_right _ hm, h⟩)

end Shared.Ends

/-- The loop body of `closeAllOpens` ends its one open. -/
theorem closeOpen_run (origin : Option Origin) (oh : OpenHandle E) (s : St E) :
    ∃ sh', closeOpen origin oh s = .ok () ⟨sh', s.c⟩ ∧ s.sh.Ends origin [oh] sh' := by
  refine ⟨_, rfl, ?_⟩
  constructor
  · intro p
    by_cases hp : oh.path = p
    · subst hp; simp [Shared.unlockAll, Shared.release]
    · simp [Shared.unlockAll, Shared.release, hp, update_of_ne (Ne.symm hp)]
  · intro p
    by_cases hp : oh.path = p
    · subst hp; simp [Shared.unlockAll, Shared.release, LockManager.unlockAll]
    · simp [Shared.unlockAll, Shared.release, hp, update_of_ne (Ne.symm hp)]
  · exact ⟨[.call origin (.close oh.h)], rfl, by simp⟩
  · intro oh' hm calls ht
    obtain rfl := mem_singleton.1 hm
    have hcalls : [.call origin (.close oh'.h)] = calls := append_cancel_right ht
    rw [← hcalls]
    exact mem_singleton_self _
  · rfl
  · rfl
  · rfl
  · exact .single (.inr ⟨.close oh.h, ⟨oh, mem_singleton_self _, rfl⟩, rfl⟩)

theorem forEach_closeOpen_run (origin : Option Origin) (l : List (OpenHandle E)) (s : St E) :
    ∃ sh', Go.forEach (closeOpen origin) l s = .ok () ⟨sh', s.c⟩ ∧ s.sh.Ends origin l sh' := by
  induction l generalizing s with
  | nil => exact ⟨s.sh, rfl, .ofWorld s.sh .refl⟩
  | cons oh l ih =>
    obtain ⟨sh1, h1, e1⟩ := closeOpen_run origin oh s
    obtain ⟨sh2, h2, e2⟩ := ih ⟨sh1, s.c⟩
    exact ⟨sh2, (Go.bind_ok h1).trans h2, e1.append e2⟩

/-! ### Sets of trees -/

/-- A session without its trees. -/
def Session.untreed (sess : Session E) : Session E := { sess with trees := ∅ }

/-- `s'` is `s` after the opens of the trees in `K` were closed. -/
structure Closed (origin : Option Origin) (K : UInt64 → UInt32 → Prop) (s s' : St E) : Prop where
  conn : s'.c = { s.c with sessions := s'.c.sessions }
  session : ∀ sid, (s'.c.session? sid).map Session.untreed = (s.c.session? sid).map Session.untreed
  tree_of : ∀ sid tid, K sid tid →
    s'.c.tree? sid tid = (s.c.tree? sid tid).map fun t => { t with opens := ∅ }
  tree_of_not : ∀ sid tid, ¬K sid tid → s'.c.tree? sid tid = s.c.tree? sid tid
  ends : ∃ l, (∀ oh, oh ∈ l ↔ ∃ sid tid fid, K sid tid ∧ s.c.open? sid tid fid = some oh) ∧
    s.sh.Ends origin l s'.sh

namespace Closed

variable {K K₁ K₂ : UInt64 → UInt32 → Prop} {s s₁ s₂ : St E}

theorem ofWorld (origin : Option Origin) (s : St E) {w : E.World}
    (h : Runs (fun _ => False) s.sh.world w) :
    Closed origin (fun _ _ => False) s { s with sh := { s.sh with world := w } } where
  conn := rfl
  session _ := rfl
  tree_of _ _ h := h.elim
  tree_of_not _ _ _ := rfl
  ends := ⟨[], by simp, .ofWorld _ h⟩

theorem tree_isSome (h : Closed origin K s s₁) (sid : UInt64) (tid : UInt32) :
    (s₁.c.tree? sid tid).isSome = (s.c.tree? sid tid).isSome := by
  by_cases hK : K sid tid
  · rw [h.tree_of _ _ hK, Option.isSome_map]
  · rw [h.tree_of_not _ _ hK]

theorem session_isSome (h : Closed origin K s s₁) (sid : UInt64) :
    (s₁.c.session? sid).isSome = (s.c.session? sid).isSome := by
  simpa using congrArg Option.isSome (h.session sid)

/-- An open that is still there is one of a tree that was not closed. -/
theorem open_iff (h : Closed origin K s s₁) (sid : UInt64) (tid : UInt32) (fid : FileId)
    (oh : OpenHandle E) :
    s₁.c.open? sid tid fid = some oh ↔ ¬K sid tid ∧ s.c.open? sid tid fid = some oh := by
  unfold Conn.open?
  by_cases hK : K sid tid
  · rw [h.tree_of _ _ hK]
    cases s.c.tree? sid tid <;> simp [hK]
  · rw [h.tree_of_not _ _ hK]
    simp [hK]

theorem congr (h : Closed origin K₁ s s₁)
    (hK : ∀ sid tid, (s.c.tree? sid tid).isSome → (K₁ sid tid ↔ K₂ sid tid)) :
    Closed origin K₂ s s₁ := by
  have hnone : ∀ sid tid, ¬(s.c.tree? sid tid).isSome →
      s.c.tree? sid tid = none ∧ s₁.c.tree? sid tid = none := by
    intro sid tid ht
    have h1 : ¬(s₁.c.tree? sid tid).isSome := by rwa [h.tree_isSome]
    simpa using And.intro ht h1
  refine ⟨h.conn, h.session, fun sid tid hk => ?_, fun sid tid hk => ?_, ?_⟩
  · by_cases ht : (s.c.tree? sid tid).isSome
    · exact h.tree_of _ _ ((hK _ _ ht).2 hk)
    · rw [(hnone _ _ ht).1, (hnone _ _ ht).2]; rfl
  · by_cases ht : (s.c.tree? sid tid).isSome
    · exact h.tree_of_not _ _ fun hk1 => hk ((hK _ _ ht).1 hk1)
    · rw [(hnone _ _ ht).1, (hnone _ _ ht).2]
  · obtain ⟨l, hl, he⟩ := h.ends
    refine ⟨l, fun oh => (hl oh).trans ?_, he⟩
    refine exists_congr fun sid => exists_congr fun tid => exists_congr fun fid => ?_
    refine and_congr_left fun ho => hK _ _ ?_
    cases ht : s.c.tree? sid tid with
    | none => simp [Conn.open?, ht] at ho
    | some t => rfl

/-- **Closing two sets of trees closes their union.** -/
theorem trans (h1 : Closed origin K₁ s s₁) (h2 : Closed origin K₂ s₁ s₂) :
    Closed origin (fun sid tid => K₁ sid tid ∨ K₂ sid tid) s s₂ where
  conn := by rw [h2.conn, h1.conn]
  session sid := (h2.session sid).trans (h1.session sid)
  tree_of sid tid hK := by
    by_cases hk2 : K₂ sid tid <;> by_cases hk1 : K₁ sid tid
    · rw [h2.tree_of _ _ hk2, h1.tree_of _ _ hk1, Option.map_map]; rfl
    · rw [h2.tree_of _ _ hk2, h1.tree_of_not _ _ hk1]
    · rw [h2.tree_of_not _ _ hk2, h1.tree_of _ _ hk1]
    · exact absurd hK (by tauto)
  tree_of_not sid tid hK := by
    rw [h2.tree_of_not _ _ fun h => hK (.inr h), h1.tree_of_not _ _ fun h => hK (.inl h)]
  ends := by
    obtain ⟨l1, hl1, e1⟩ := h1.ends
    obtain ⟨l2, hl2, e2⟩ := h2.ends
    refine ⟨l1 ++ l2, fun oh => ?_, e1.append e2⟩
    rw [mem_append, hl1, hl2]
    simp only [h1.open_iff]
    constructor
    · rintro (⟨sid, tid, fid, hk, ho⟩ | ⟨sid, tid, fid, hk, -, ho⟩)
      · exact ⟨sid, tid, fid, .inl hk, ho⟩
      · exact ⟨sid, tid, fid, .inr hk, ho⟩
    · rintro ⟨sid, tid, fid, hk, ho⟩
      by_cases hk1 : K₁ sid tid
      · exact .inl ⟨sid, tid, fid, hk1, ho⟩
      · exact .inr ⟨sid, tid, fid, hk.resolve_left hk1, hk1, ho⟩

/-- A loop whose rounds each close a set of trees closes all of them. -/
theorem forEach {β : Type} (body : β → M E Unit) (L : β → UInt64 → UInt32 → Prop) {xs : List β}
    (hs : Closed origin K s s₁)
    (h : ∀ x ∈ xs, ∀ K' s', Closed origin K' s s' →
      ∃ s'', body x s' = .ok () s'' ∧ Closed origin (L x) s' s'') :
    ∃ s', Go.forEach body xs s₁ = .ok () s' ∧
      Closed origin (fun sid tid => K sid tid ∨ ∃ x ∈ xs, L x sid tid) s s' := by
  induction xs generalizing K s₁ with
  | nil => exact ⟨s₁, rfl, hs.congr (by simp)⟩
  | cons x xs ih =>
    obtain ⟨s₂, hb, hc⟩ := h x (mem_cons_self ..) K s₁ hs
    obtain ⟨s3, hf, hc'⟩ := ih (hs.trans hc) fun y hy => h y (mem_cons_of_mem _ hy)
    refine ⟨s3, (Go.bind_ok hb).trans hf, hc'.congr fun sid tid _ => ?_⟩
    simp only [exists_mem_cons_iff, or_assoc]

end Closed

/-! ### The three loops -/

/-- **`closeAllOpens` closes the opens of its tree.** -/
theorem closeAllOpens_run (origin : Option Origin) {s : St E} {sid : UInt64} {tid : UInt32} {tr : Tree E}
    (h : s.c.tree? sid tid = some tr) :
    ∃ s', closeAllOpens origin sid tid s = .ok () s' ∧
      Closed origin (fun sid' tid' => sid' = sid ∧ tid' = tid) s s' := by
  let order := E.rangeOrder _ (GoMap.values tr.opens) s.sh.world
  let s₁ : St E := ⟨{ s.sh with world := order.2 }, s.c⟩
  have h1 : ask (E.rangeOrder _ (GoMap.values tr.opens)) s = .ok order.1 s₁ := rfl
  have hw : Runs (E := E) (fun _ => False) s.sh.world order.2 := .single (.inl (.rangeOrder _ _))
  obtain ⟨sh', hf, he⟩ := forEach_closeOpen_run origin order.1 s₁
  refine ⟨⟨sh', s.c.modifyTree sid tid fun t => { t with opens := ∅ }⟩, ?_, ?_⟩
  · unfold closeAllOpens
    rw [Go.bind_ok (Go.get_apply s), h]
    exact (Go.bind_ok h1).trans ((Go.bind_ok hf).trans rfl)
  · refine ⟨rfl, fun sid' => ?_, fun sid' tid' hk => ?_, fun sid' tid' hk => ?_, ?_⟩
    · unfold Conn.modifyTree
      rw [Conn.session?_modifySession]
      split_ifs
      · rw [Option.map_map]; rfl
      · rfl
    · rw [Conn.tree?_modifyTree, if_pos hk]
    · rw [Conn.tree?_modifyTree, if_neg hk]
    · refine ⟨order.1, fun oh => ?_, (Shared.Ends.ofWorld s.sh hw).append he⟩
      rw [(E.rangeOrder_perm _ _ _).mem_iff, GoMap.mem_values]
      constructor
      · rintro ⟨fid, ho⟩
        exact ⟨sid, tid, fid, ⟨rfl, rfl⟩, by rw [Conn.open?, h]; exact ho⟩
      · rintro ⟨_, _, fid, ⟨rfl, rfl⟩, ho⟩
        rw [Conn.open?, h] at ho
        exact ⟨fid, ho⟩

/-- **`closeAllTrees` closes the opens of its session.** -/
theorem closeAllTrees_run (origin : Option Origin) {s : St E} {sid : UInt64} (h : (s.c.session? sid).isSome) :
    ∃ s', closeAllTrees origin sid s = .ok () s' ∧
      Closed origin (fun sid' _ => sid' = sid) s s' := by
  obtain ⟨sess, hsess⟩ := Option.isSome_iff_exists.1 h
  let order := E.rangeOrder _ sess.trees.keys s.sh.world
  have hmem : ∀ tid, tid ∈ order.1 ↔ (s.c.tree? sid tid).isSome := by
    intro tid
    rw [(E.rangeOrder_perm _ _ _).mem_iff, Conn.tree?, hsess]
    exact (AList.lookup_isSome (s := sess.trees)).symm
  let s₁ : St E := { s with sh := { s.sh with world := order.2 } }
  have h1 : ask (E.rangeOrder _ sess.trees.keys) s = .ok order.1 s₁ := rfl
  have hw : Runs (E := E) (fun _ => False) s.sh.world order.2 := .single (.inl (.rangeOrder _ _))
  obtain ⟨s', hf, hc⟩ := (Closed.ofWorld origin s hw).forEach (closeAllOpens origin sid)
    (fun tid sid' tid' => sid' = sid ∧ tid' = tid) fun tid (ht : tid ∈ order.1) K' s' hs' => by
      have hsome : (s'.c.tree? sid tid).isSome := by rw [hs'.tree_isSome]; exact (hmem tid).1 ht
      obtain ⟨tr, htr⟩ := Option.isSome_iff_exists.1 hsome
      exact closeAllOpens_run origin htr
  refine ⟨s', ?_, hc.congr fun sid' tid' ht => ?_⟩
  · unfold closeAllTrees
    rw [Go.bind_ok (Go.get_apply s), hsess]
    exact (Go.bind_ok h1).trans hf
  · constructor
    · rintro (hf | ⟨_, _, rfl, -⟩)
      · exact hf.elim
      · rfl
    · rintro rfl
      exact .inr ⟨tid', (hmem tid').2 ht, rfl, rfl⟩

/-- **`cleanup` closes every open of its connection**, once the connection is marked
done and its pending operations are forgotten. -/
theorem cleanup_run (s : St E) :
    ∃ s', cleanup s = .ok () s' ∧ Closed none (fun _ _ => True)
      ⟨{ s.sh with connDone := Function.update s.sh.connDone s.c.id true },
        { s.c with pending := ∅, pendingByMsg := ∅ }⟩ s' := by
  let s0 : St E := ⟨{ s.sh with connDone := Function.update s.sh.connDone s.c.id true },
    { s.c with pending := ∅, pendingByMsg := ∅ }⟩
  let order := E.rangeOrder _ s.c.sessions.keys s.sh.world
  have hmem : ∀ sid, sid ∈ order.1 ↔ (s0.c.session? sid).isSome := by
    intro sid
    rw [(E.rangeOrder_perm _ _ _).mem_iff]
    exact (AList.lookup_isSome (s := s.c.sessions)).symm
  have hw : Runs (E := E) (fun _ => False) s.sh.world order.2 := .single (.inl (.rangeOrder _ _))
  obtain ⟨s', hf, hc⟩ := (Closed.ofWorld none s0 hw).forEach (closeAllTrees none)
    (fun sid sid' _ => sid' = sid) fun sid (hs : sid ∈ order.1) K' s' hs' =>
      closeAllTrees_run none (by rw [hs'.session_isSome]; exact (hmem sid).1 hs)
  refine ⟨s', hf, hc.congr fun sid tid ht => ?_⟩
  have hsome : (s0.c.session? sid).isSome := by
    cases hx : s0.c.session? sid with
    | none => simp [Conn.tree?, hx] at ht
    | some _ => rfl
  simpa using (hmem sid).2 hsome

end Server
end SmbServer
