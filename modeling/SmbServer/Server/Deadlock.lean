/-
# Oplock breaks that wait for each other

A connection that breaks an oplock waits in `sendOplockBreak` for a free slot in the
channel of the holder, and only the holder empties that channel, between its own frames.
So connections can wait for each other, and a connection for itself: a compound of
CREATEs that break 65 oplocks of the same connection never ends
(`compound_waits_for_itself`).

What a connection may still be sent is bounded by the oplocks it holds, its watchers, and
the messages for it that are on their way.  As long as no connection asks for an oplock
or starts a watcher when these are 64 already (`SlotOk 64`), every send finds a free slot
and no connection ever waits (`reach_not_deadlocked`).
-/

import Mathlib.Data.List.Perm.Basic
import SmbServer.Server.Channels

namespace SmbServer
open Res
namespace Server

open Wire Function List Option Sys

variable {E : Env} {srv : Config E}
variable {a : Act} {c : Conn E}

/-! ### Waiting -/

/-- The connection `cid` waits in `sendOplockBreak` for a slot in the channel of `holder`. -/
def Net.Waits (N : Net E) (cid holder : ConnId) : Prop :=
  (∃ q, (⟨some cid, holder, q⟩ : Send) ∈ N.sends) ∧ N.sys.sh.connDone holder = false ∧
    asyncRespCap ≤ (N.sys.sh.asyncResp holder).length

/-- Some connections wait only for each other. -/
def Net.Deadlocked (N : Net E) : Prop :=
  ∃ A : Set ConnId, A.Nonempty ∧ ∀ cid ∈ A, ∃ holder ∈ A, N.Waits cid holder

/-! ### The condition -/

/-- The watchers of a connection. -/
def Sys.watching (S : Sys E) (cid : ConnId) : ℕ := ((S.conns cid).map fun c => c.watchers.length).getD 0

/-- The messages for a connection that are on their way, and its watchers. -/
def Net.load (N : Net E) (cid : ConnId) : ℕ :=
  (N.sys.sh.asyncResp cid).length + N.sends.countP (fun s => decide (s.target = cid)) + N.sys.watching cid

/-- The oplocks of a connection, its watchers and the messages for it are `n` at most. -/
def Net.AtMost (N : Net E) (cid : ConnId) (n : ℕ) : Prop :=
  ∃ paths : List GoString,
    (∀ path info, N.sys.sh.oplocks path = some info → info.conn = cid → path ∈ paths) ∧
      paths.length + N.load cid ≤ n

/-- The command may take an oplock or start a watcher. -/
def Command.takes (k : Command E) : Bool :=
  asksOplock k.hdr.command k.lp.sub || decide (k.hdr.command = cmdChangeNotify)

/-- A connection takes an oplock or starts a watcher only while its oplocks, its watchers
and the messages for it are fewer than `n`. -/
def SlotOk (n : ℕ) (N : Net E) : Act → Prop
  | .server (.sub cid) => N.sys.faces cid Command.takes = true → ∃ m < n, N.AtMost cid m
  | _ => True

theorem net_step {C : Net E → Act → Prop} {w : E.World} {N N' : Net E} (hN : (net srv w).Reach C N) (ha : C N a)
    (h : N.step srv a = some N') : (net srv w).Reach C N' :=
  Transition.Reach.step (T := net srv w) (l := a) hN ha h

/-! ### One transition -/

namespace Net

variable {N N' : Net E} {cid : ConnId} {n : ℕ}

theorem AtMost.mono (h : N.AtMost cid n)
    (ho : ∀ path info, N'.sys.sh.oplocks path = some info → info.conn = cid → N.sys.sh.oplocks path = some info)
    (hload : N'.load cid ≤ N.load cid) : N'.AtMost cid n := by
  obtain ⟨paths, hpaths, hlen⟩ := h
  exact ⟨paths, fun path info hp hc => hpaths path info (ho path info hp hc) hc, by omega⟩

end Net

theorem Sys.watching_put (S : Sys E) (cid cid' : ConnId) (s : St E) :
    (S.put cid s).watching cid' = if cid' = cid then s.c.watchers.length else S.watching cid' := by
  unfold watching
  split_ifs with h
  · rw [h, put_conns_self]
    rfl
  · rw [put_conns_of_ne S h]

theorem Sys.watching_of_conns {S : Sys E} {cid : ConnId} (h : S.conns cid = some c) :
    S.watching cid = c.watchers.length := by
  unfold watching
  rw [h]
  rfl

theorem Net.load_launch (N : Net E) (sender : Option ConnId) (S : Sys E) (cid : ConnId) :
    (N.launch sender S).load cid = (N.sys.sh.asyncResp cid).length +
      (N.sends.countP (fun s => decide (s.target = cid)) + S.sent.countP fun m => decide (m.1 = cid)) + S.watching cid := by
  have hcount : (S.sent.map fun m => (⟨sender, m.1, m.2⟩ : Send)).countP (fun s => decide (s.target = cid)) =
      S.sent.countP fun m => decide (m.1 = cid) := countP_map ..
  unfold Net.load Net.launch
  dsimp only
  rw [countP_append, hcount]
  rfl

/-- A computation that leaves operations and channels alone. -/
theorem Net.AtMost.exec {N : Net E} {cid cid' : ConnId} {m : M E Unit} {reading : ConnId → Bool} {n : ℕ}
    (h : N.AtMost cid' n) (hc : N.sys.conns cid = some c) (hm : Go.Keeps St.flow m) :
    ({ N with sys := N.sys.exec cid c m, reading } : Net E).AtMost cid' n := by
  obtain ⟨c', hexec, hasync, -⟩ := N.sys.exec_conn cid c m
  have hflow := hm ⟨N.sys.sh, c⟩
  simp only [St.flow, Shared.channels, Conn.async, Prod.mk.injEq] at hflow hasync
  refine h.mono (fun path info hp _ => ?_) ?_
  · rw [← hflow.2.1]
    rwa [hexec] at hp
  · unfold Net.load
    dsimp only
    rw [hexec, watching_put, put_sh, hasync.2.2.2.2, hflow.1.2.2.2.2, hflow.2.2.1]
    split_ifs with h
    · rw [h, watching_of_conns hc]
    · exact le_rfl

theorem countP_eraseIdx {α : Type} (p : α → Bool) {l : List α} {j : ℕ} {x : α} (h : l[j]? = some x) :
    l.countP p = (l.eraseIdx j).countP p + if p x then 1 else 0 := by
  obtain ⟨hj, rfl⟩ := List.getElem?_eq_some_iff.1 h
  rw [← (getElem_cons_eraseIdx_perm hj).countP_eq p, countP_cons]

theorem countP_single (cid : ConnId) {target : ConnId} {q : Queued} {l : List (ConnId × Queued)} (h : l = [] ∨ l = [(target, q)]) :
    l.countP (fun m => decide (m.1 = cid)) ≤ if target = cid then 1 else 0 := by
  rcases h with rfl | rfl
  · exact Nat.zero_le _
  · rw [countP_singleton]
    split_ifs with h1 h2 <;> simp_all

/-- The load after the messages of a command, not counting a watcher it starts. -/
theorem Shared.Traffic.atMost {N : Net E} {S : Sys E} {asks : Prop} {cid : ConnId} {n : ℕ}
    (h : N.sys.silent.sh.Traffic asks cid S.sh) (cid' : ConnId)
    (hn : N.AtMost cid' n) (hasks : asks → cid' = cid → ∃ m < n, N.AtMost cid' m) : ∃ paths : List GoString,
      (∀ path info, S.sh.oplocks path = some info → info.conn = cid' → path ∈ paths) ∧
        paths.length + ((N.sys.sh.asyncResp cid').length + (N.sends.countP (fun s => decide (s.target = cid')) +
          S.sent.countP fun m => decide (m.1 = cid')) + N.sys.watching cid') ≤ n := by
  obtain ⟨paths, hpaths, hlen⟩ := hn
  unfold Net.load at hlen
  cases h with
  | calm h =>
    rw [sent_nil h.queues]
    exact ⟨paths, fun path info hp hc => hpaths path info (h.oplocks path info hp) hc, by simpa using hlen⟩
  | grant path info hask hconn ho hq hd =>
    rw [sent_nil hq]
    have hold : ∀ path' info', S.sh.oplocks path' = some info' → path' ≠ path →
        N.sys.sh.oplocks path' = some info' := fun path' info' hp hne => by
      rwa [ho, update_of_ne hne] at hp
    by_cases hcid : cid' = cid
    · obtain ⟨m, hm, paths', hpaths', hlen'⟩ := hasks hask hcid
      unfold Net.load at hlen'
      refine ⟨path :: paths', fun path' info' hp hc => ?_, by simp only [length_cons, countP_nil]; omega⟩
      by_cases hne : path' = path
      · exact hne ▸ mem_cons_self
      · exact mem_cons_of_mem _ (hpaths' path' info' (hold path' info' hp hne) hc)
    · refine ⟨paths, fun path' info' hp hc => ?_, by simpa using hlen⟩
      by_cases hne : path' = path
      · rw [hne, ho, update_self, some.injEq] at hp
        exact absurd (hc.symm.trans (hp ▸ hconn)) hcid
      · exact hpaths path' info' (hold path' info' hp hne) hc
  | broken path info dest hinfo ho hq hd =>
    have hcount := countP_single cid' (sent_sendFinal hq rfl)
    have hold : ∀ path' info', S.sh.oplocks path' = some info' →
        path' ≠ path ∧ N.sys.sh.oplocks path' = some info' := fun path' info' hp => by
      rw [ho] at hp
      by_cases hne : path' = path
      · rw [hne, update_self] at hp
        cases hp
      · rw [update_of_ne hne] at hp
        exact ⟨hne, hp⟩
    by_cases hcid : info.conn = cid'
    · have hmem := hpaths path info hinfo hcid
      rw [if_pos hcid] at hcount
      refine ⟨paths.erase path, fun path' info' hp hc => ?_, ?_⟩
      · exact (mem_erase_of_ne (hold path' info' hp).1).2 (hpaths path' info' (hold path' info' hp).2 hc)
      · have hpos := length_pos_of_mem hmem
        rw [length_erase_of_mem hmem]
        omega
    · rw [if_neg hcid] at hcount
      exact ⟨paths, fun path' info' hp hc => hpaths path' info' (hold path' info' hp).2 hc, by omega⟩

/-- The watchers after a transition that handles a command. -/
theorem Conn.Operated.watchers {c' : Conn E} {lp : Loop} (h : c.Operated lp c') :
    c'.watchers = c.watchers ∨ (∃ w, c'.watchers = c.watchers ++ [w]) ∧
      ∃ k, nextCommand c lp = some k ∧ k.hdr.command = cmdChangeNotify := by
  cases h with
  | same h => exact .inl (congrArg (fun a => a.2.2.2.2) h)
  | cancelled k hk hcmd h =>
    refine .inl ((congrArg (fun a => a.2.2.2.2) h).trans ?_)
    unfold Conn.cancelPending
    cases c.pending.lookup k.hdr.asyncId <;> rfl
  | started k w hk hn hw hop hhdr h => exact .inr ⟨⟨w, congrArg (fun a => a.2.2.2.2) h⟩, k, hk, hn.1⟩

/-- **A transition that handles a command keeps the bound.** -/
theorem Net.AtMost.sub {N : Net E} {n : ℕ} (hb : Base N.sys) (hN : ∀ cid, N.AtMost cid n) {cid : ConnId}
    {lp : Loop} (hc : N.sys.conns cid = some c) (hlp : c.loop = some lp) (hok : SlotOk n N (.server (.sub cid)))
    (cid' : ConnId) :
    (N.launch (some cid) (N.sys.silent.exec cid c (subCommand srv lp))).AtMost cid' n := by
  have hl := (hb _ _ hc).2.2
  have hid := (hb _ _ hc).1
  obtain ⟨c', hexec, hasync, -⟩ := N.sys.silent.exec_conn cid c (subCommand srv lp)
  have htraffic := subCommand_traffic srv lp hl N.sys.silent.sh
  have hwatch := (subCommand_operated srv lp hl N.sys.silent.sh).watchers
  have hw' : c'.watchers = (subCommand srv lp ⟨N.sys.silent.sh, c⟩).state.c.watchers :=
    congrArg (fun a => a.2.2.2.2) hasync
  rw [← hw'] at hwatch
  have hfaces : ∀ k, nextCommand c lp = some k → k.takes = true → ∃ m < n, N.AtMost cid m := fun k hk htakes => by
    refine hok ?_
    unfold faces
    rw [hc, any_some, hlp, any_some, hk, any_some]
    exact htakes
  have hasks : c.asksOplock lp = true → ∃ k, nextCommand c lp = some k ∧ asksOplock k.hdr.command k.lp.sub = true := by
    unfold Conn.asksOplock
    cases hk : nextCommand c lp with
    | none => exact nofun
    | some k => exact fun h => ⟨k, rfl, h⟩
  have hS : (N.sys.silent.exec cid c (subCommand srv lp)).sh = (subCommand srv lp ⟨N.sys.silent.sh, c⟩).state.sh :=
    exec_sh ..
  rw [← hS, hid] at htraffic
  have hwatching : (N.sys.silent.exec cid c (subCommand srv lp)).watching cid' =
      if cid' = cid then c'.watchers.length else N.sys.watching cid' := by
    rw [hexec, watching_put]
    rfl
  unfold Net.AtMost
  rw [Net.load_launch, hwatching]
  rcases hwatch with hsame | ⟨⟨w, hnew⟩, k, hk, hcn⟩
  · obtain ⟨paths, hpaths, hlen⟩ := htraffic.atMost cid' (hN cid') fun hask hcid => by
      obtain ⟨k, hk, hk'⟩ := hasks hask
      exact hcid ▸ hfaces k hk (by rw [Command.takes, hk', Bool.true_or])
    refine ⟨paths, hpaths, ?_⟩
    split_ifs with hcid
    · rw [hcid, watching_of_conns hc] at hlen
      rwa [hcid, hsame]
    · exact hlen
  · -- A CHANGE_NOTIFY asks for no oplock.
    have hno : ¬c.asksOplock lp = true := fun hask => by
      obtain ⟨k', hk', hask⟩ := hasks hask
      cases hk.symm.trans hk'
      rw [asksOplock, hcn] at hask
      exact absurd hask (by simp [cmdChangeNotify, cmdCreate])
    obtain ⟨m, hm, hroom⟩ := hfaces k hk (by rw [Command.takes, hcn]; simp)
    split_ifs with hcid
    · subst hcid
      obtain ⟨paths, hpaths, hlen⟩ := htraffic.atMost cid' hroom fun hask => absurd hask hno
      refine ⟨paths, hpaths, ?_⟩
      rw [watching_of_conns hc] at hlen
      rw [hnew, length_append, length_singleton]
      omega
    · exact htraffic.atMost cid' (hN cid') fun hask => absurd hask hno

/-- A watcher that ends leaves its message behind. -/
theorem Net.AtMost.watch {N : Net E} (hb : Base N.sys) {cid cid' : ConnId} {i : ℕ} {w : Watcher E} {m : M E Unit}
    {n : ℕ} (hN : N.AtMost cid' n) (hm : m = watchTick i w ∨ m = watchDone i w) (hc : N.sys.conns cid = some c)
    (hw : c.watchers[i]? = some w) : (N.launch none (N.sys.silent.exec cid c m)).AtMost cid' n := by
  obtain ⟨c', hexec, hasync, -⟩ := N.sys.silent.exec_conn cid c m
  have hS : (N.sys.silent.exec cid c m).sh = (m ⟨N.sys.silent.sh, c⟩).state.sh := exec_sh ..
  obtain ⟨paths, hpaths, hlen⟩ := hN
  unfold Net.load at hlen
  unfold Net.AtMost
  have hwatching : (N.sys.silent.exec cid c m).watching cid' =
      if cid' = cid then c'.watchers.length else N.sys.watching cid' := by
    rw [hexec, watching_put]
    rfl
  rw [Net.load_launch, hwatching]
  rcases watch_flow hm ⟨N.sys.silent.sh, c⟩ with hsame | ⟨q, hfin⟩
  · simp only [St.flow, Shared.channels, Conn.async, Prod.mk.injEq] at hsame hasync
    refine ⟨paths, fun path info hp hcid => hpaths path info ?_ hcid, ?_⟩
    · rw [← show _ = N.sys.sh.oplocks from hsame.2.1, ← hS]
      exact hp
    · rw [sent_nil (hS ▸ hsame.2.2.1), hasync.2.2.2.2, hsame.1.2.2.2.2]
      split_ifs with hcid
      · rw [hcid, watching_of_conns hc] at hlen
        rw [hcid]
        simpa using hlen
      · simpa using hlen
  · have hch := hfin.channels
    have hop : (N.sys.silent.sh.sendFinal c.id q).oplocks = N.sys.sh.oplocks := by
      unfold Shared.sendFinal
      split_ifs <;> rfl
    have ha := hasync.trans hfin.async
    simp only [Shared.channels, Prod.mk.injEq, Conn.async] at hch ha
    have hcount := countP_single cid' (sent_sendFinal (S := N.sys.silent.exec cid c m)
      ((congrArg Shared.asyncResp hS).trans hch.2.1) rfl)
    rw [(hb _ _ hc).1] at hcount
    have hlt : i < c.watchers.length := (List.getElem?_eq_some_iff.1 hw).1
    refine ⟨paths, fun path info hp hcid => hpaths path info ?_ hcid, ?_⟩
    · rw [← hop, ← hch.1, ← hS]
      exact hp
    · rw [ha.2.2.2.2, length_eraseIdx_of_lt hlt]
      split_ifs with hcid
      · subst hcid
        rw [watching_of_conns hc] at hlen
        rw [if_pos rfl] at hcount
        omega
      · rw [if_neg fun h => hcid h.symm] at hcount
        omega

/-- The bounds that hold as long as `SlotOk` is met. -/
def Net.Bounded (n : ℕ) (N : Net E) : Prop := Base N.sys ∧ ∀ cid, N.AtMost cid n

/-- **Every transition that meets `SlotOk` keeps the bounds.** -/
theorem Net.Bounded.step {n : ℕ} {N N' : Net E} (h : N.Bounded n) (hok : SlotOk n N a)
    (hstep : N.step srv a = some N') : N'.Bounded n := by
  have htook := Net.step_took hstep
  refine ⟨htook.base h.1, fun cid' => ?_⟩
  cases htook with
  | accept =>
    refine (h.2 cid').mono (fun _ _ hp _ => hp) ?_
    unfold Net.load watching
    dsimp only
    by_cases hcid : cid' = N.sys.next
    · have hnew : N.sys.accept.conns cid' = some (newConn N.sys.next) := by
        rw [hcid]
        exact update_self ..
      rw [hnew]
      exact Nat.add_le_add_left (Nat.zero_le _) _
    · have hold : N.sys.accept.conns cid' = N.sys.conns cid' := update_of_ne hcid ..
      rw [hold]
      exact le_rfl
  | recv hr hc hlive hlp =>
    exact (h.2 cid').exec hc (receive_flow _)
  | sub hbusy hc hlive hlp hfin => exact Net.AtMost.sub h.1 h.2 hc hlp hok cid'
  | reply hbusy hc hlive hlp hfin =>
    exact (h.2 cid').exec hc (sendReply_flow _)
  | @drain cid c q rest hr hc hq hlive hlp =>
    obtain ⟨c', hexec, hasync, -⟩ := N.sys.exec_conn cid c (drainOne q rest)
    have hflow := drainOne_flow q rest ⟨N.sys.sh, c⟩
    simp only [St.flow, Shared.channels, Conn.async, Prod.mk.injEq] at hflow hasync
    refine (h.2 cid').mono (fun path info hp _ => ?_) ?_
    · rw [← hflow.2.1]
      rwa [hexec] at hp
    · unfold Net.load
      dsimp only
      rw [hexec, watching_put, put_sh, hasync.2.2.2.2, hflow.1.2.2.2.2, hflow.2.2.1]
      rw [(h.1 _ _ hc).1] at hq ⊢
      split_ifs with hcid
      · rw [hcid, watching_of_conns hc, update_self, hq, length_cons]
        omega
      · rw [update_of_ne hcid]
  | watch ha hm hc hw => exact (h.2 cid').watch h.1 hm hc hw
  | @close cid c s' hbusy hc hcl =>
    obtain ⟨l, -, hends⟩ := hcl.ends
    have hcalm := Shared.Calm.of_ends hends
    refine (h.2 cid').mono (fun path info hp _ => hcalm.oplocks path info hp) ?_
    have hqueues : (N.sys.remove cid s'.sh).sh.asyncResp = N.sys.sh.asyncResp := hcalm.queues
    have hwatching : (N.sys.remove cid s'.sh).watching cid' ≤ N.sys.watching cid' := by
      unfold watching Sys.remove
      dsimp only
      by_cases hcid : cid' = cid
      · rw [hcid, update_self]
        exact Nat.zero_le _
      · rw [update_of_ne hcid]
    unfold Net.load
    dsimp only
    rw [hqueues]
    exact Nat.add_le_add_left hwatching _
  | @drop j s hj hd =>
    refine (h.2 cid').mono (fun _ _ hp _ => hp) ?_
    have hcount : (N.sends.eraseIdx j).countP (fun s => decide (s.target = cid')) ≤ _ :=
      (N.sends.eraseIdx_sublist j).countP_le
    unfold Net.load
    dsimp only
    omega
  | @put j s hj hd hlen =>
    refine (h.2 cid').mono (fun _ _ hp _ => hp) ?_
    have hcount := countP_eraseIdx (fun s : Send => decide (s.target = cid')) hj
    have hwatching : ∀ queues, (N.sys.setQueues queues).watching cid' = N.sys.watching cid' := fun _ => rfl
    unfold Net.load
    dsimp only
    rw [hwatching]
    unfold setQueues
    dsimp only
    by_cases hcid : s.target = cid'
    · rw [hcid, update_self, length_append, length_singleton]
      rw [decide_eq_true hcid, if_pos rfl] at hcount
      omega
    · rw [update_of_ne fun h => hcid h.symm]
      rw [decide_eq_false hcid] at hcount
      simp only [Bool.false_eq_true, if_false] at hcount
      omega
  | await hidle hq => exact (h.2 cid').mono (fun _ _ hp _ => hp) le_rfl
  | timeout => exact (h.2 cid').mono (fun _ _ hp _ => hp) le_rfl

theorem reach_bounded {n : ℕ} {w : E.World} {N : Net E} (hN : (net srv w).Reach (SlotOk n) N) : N.Bounded n := by
  refine hN.invariant (I := Net.Bounded n) ?_ fun N a N' h hok hstep => h.step hok hstep
  exact ⟨nofun, fun cid => ⟨[], nofun, Nat.zero_le _⟩⟩

/-! ### A compound that waits for itself -/

/-- A CREATE of the file `f` with an oplock, and room for another command behind it. -/
def breakBlock : Bytes := copyAt (createFrame 1 0 1 [0x66, 0x00] ++ zeros 6) 20 (put32 128)

/-- The name in it. -/
def breakPath : GoString := utf16FromBytes [0x66, 0x00]

/-- A compound of such CREATEs. -/
def breakFrame (n : ℕ) : Bytes := (List.replicate n breakBlock).flatten

theorem length_breakBlock : breakBlock.length = 128 := by decide +kernel

theorem breakFrame_succ (n : ℕ) : breakFrame (n + 1) = breakBlock ++ breakFrame n := rfl

theorem drop_breakFrame (k n : ℕ) : (breakFrame (k + n)).drop (128 * k) = breakFrame n := by
  induction k with
  | zero => rw [Nat.zero_add, Nat.mul_zero, drop_zero]
  | succ k ih =>
    rw [show k + 1 + n = k + n + 1 by omega, show 128 * (k + 1) = 128 + 128 * k by omega, breakFrame_succ,
      ← drop_drop, drop_left' length_breakBlock, ih]

theorem length_breakFrame (n : ℕ) : (breakFrame n).length = 128 * n := by
  induction n with
  | zero => rfl
  | succ n ih =>
    rw [breakFrame_succ, length_append, length_breakBlock, ih]
    omega

theorem parse_breakBlock (rest : Bytes) : ∃ hdr, Header.parse (breakBlock ++ rest) = .ok hdr ∧ hdr.flags = 0 ∧
    hdr.command = cmdCreate ∧ hdr.sessionId = 1 ∧ hdr.treeId = 0 ∧ hdr.nextCommand = 128 := by
  have hlen := length_breakBlock
  refine ⟨_, Header.parse_ok (by rw [length_append]; omega) ?_, ?_⟩
  · rw [slice_append_left rest (by omega)]
    decide
  · have hflags : u32At (breakBlock ++ rest) 16 = 0 := by
      rw [u32At_append_left rest (by omega)]
      decide
    dsimp only
    rw [hflags, u16At_append_left rest (by omega), u64At_append_left rest (by omega), u32At_append_left rest (by omega),
      u32At_append_left rest (by omega)]
    decide

theorem create_breakBlock (rest : Bytes) : ∃ req, CreateRequest.parse (breakBlock ++ rest) = .ok req ∧
    req.requestedOplockLevel = 1 ∧ (openOptions req).path = breakPath := by
  have hlen := length_breakBlock
  have hdrop : (breakBlock ++ rest).drop createBody = breakBlock.drop createBody ++ rest :=
    drop_append_of_le_length (by decide +kernel)
  have hbody : (breakBlock.drop createBody).length = 64 := by decide +kernel
  have hu16 : ∀ {ε : Type} {o : ℕ}, o + 2 ≤ 64 → (u16 (breakBlock.drop createBody ++ rest) o : Res ε UInt16) =
      .ok (u16At (breakBlock.drop createBody) o) := fun h => by
    rw [u16, if_pos (by rw [length_append]; omega), u16At_append_left rest (by omega)]
  have hu32 : ∀ {ε : Type} {o : ℕ}, o + 4 ≤ 64 → (u32 (breakBlock.drop createBody ++ rest) o : Res ε UInt32) =
      .ok (u32At (breakBlock.drop createBody) o) := fun h => by
    rw [u32, if_pos (by rw [length_append]; omega), u32At_append_left rest (by omega)]
  have hfixed : fixedBody (breakBlock ++ rest) 57 57 = .ok (breakBlock.drop createBody ++ rest) := by
    unfold fixedBody
    rw [if_neg (by rw [length_append, hlen]; unfold createBody; omega), hdrop]
    dsimp only
    rw [hu16 (by omega)]
    rfl
  have hlevel : (u8 (breakBlock.drop createBody ++ rest) 3 : Res Error UInt8) = .ok 1 := by
    rw [u8, if_pos (by rw [length_append]; omega)]
    rfl
  have hname : varPart (breakBlock ++ rest) 120 2 = .ok [0x66, 0x00] := by
    unfold varPart
    rw [if_neg (by rw [length_append, hlen]; omega), Res.slice, if_pos (by rw [length_append, hlen]; omega),
      slice_append_left rest (by omega)]
    rfl
  have hoff : (u16At (breakBlock.drop createBody) 44).toNat = 120 ∧ (u16At (breakBlock.drop createBody) 46).toNat = 2 := by
    decide
  unfold CreateRequest.parse
  rw [hfixed, ok_bind, hlevel, ok_bind, hu32 (by omega), ok_bind, hu32 (by omega), ok_bind, hu32 (by omega),
    ok_bind, hu32 (by omega), ok_bind, hu32 (by omega), ok_bind, hu16 (by omega), ok_bind, hu16 (by omega),
    ok_bind, hoff.1, hoff.2, hname, ok_bind]
  exact ⟨_, rfl, rfl, rfl⟩

/-- Session 1 of the guest has a tree that may be written to. -/
structure Conn.Ready (c : Conn guestEnv) : Prop where
  session : ∃ sess, c.session? 1 = some sess ∧ sess.authenticated = true ∧ sess.requireSign = false
  tree : ∃ tr, c.tree? 1 0 = some tr ∧ tr.share.readOnly = false

theorem Conn.Ready.congr {c c' : Conn guestEnv} (h : c.Ready) (hs : c'.sessions = c.sessions) : c'.Ready := by
  obtain ⟨⟨sess, hsess, hrest⟩, tr, htr, hro⟩ := h
  refine ⟨⟨sess, ?_, hrest⟩, tr, ?_, hro⟩
  · rwa [Conn.session?, hs]
  · rwa [Conn.tree?, Conn.session?, hs]

theorem Conn.Ready.modifyTree {c : Conn guestEnv} (h : c.Ready) (sid : UInt64) (tid : UInt32)
    {f : Tree guestEnv → Tree guestEnv} (hf : ∀ t, (f t).share = t.share) : (c.modifyTree sid tid f).Ready := by
  obtain ⟨⟨sess, hsess, hauth, hsign⟩, tr, htr, hro⟩ := h
  refine ⟨?_, ?_⟩
  · rw [Conn.modifyTree, Conn.session?_modifySession, hsess]
    split_ifs
    · exact ⟨_, rfl, hauth, hsign⟩
    · exact ⟨_, rfl, hauth, hsign⟩
  · rw [Conn.tree?_modifyTree, htr]
    split_ifs
    · exact ⟨_, rfl, (congrArg Share.readOnly (hf tr)).trans hro⟩
    · exact ⟨_, rfl, hro⟩

theorem dispatch_guest (srv : Config guestEnv) {o : Origin} {sub : Bytes} (hdr : Header) (fid : FileId) {s : St guestEnv}
    {req : CreateRequest} (hcmd : o.cmd = cmdCreate) (hsid : o.sid = 1) (htid : o.tid = 0) (hs : s.c.Ready)
    (hreq : CreateRequest.parse sub = .ok req) :
    ∃ (info : OplockInfo) (r : Handled) (s2 : St guestEnv) (sh1 : Shared guestEnv),
      dispatch srv o sub hdr fid s = .ok r s2 ∧ r.status = statusSuccess ∧ r.sub = sub ∧ s2.c.Ready ∧
        s2.c.dead = s.c.dead ∧ info.conn = o.conn ∧ info.path = (openOptions req).path ∧
        sh1.channels = s.sh.channels ∧
        s2.sh.channels = (sh1.requestOplock info req.requestedOplockLevel).2.channels := by
  obtain ⟨⟨sess, hsess, hauth, -⟩, tr, htr, hro⟩ := id hs
  have hlookup : sess.trees.lookup 0 = some tr := by rwa [Conn.tree?, hsess] at htr
  have hrefusal : s.c.refusal o = none := by
    unfold Conn.refusal
    rw [hsid, hsess, htid, hcmd]
    dsimp only
    rw [hauth, hlookup]
    rfl
  let info : OplockInfo :=
    { fileId := makeFileID o.sid o.tid (tr.nextID + 1), sessID := o.sid, treeID := o.tid
      path := (openOptions req).path, conn := o.conn, enc := s.c.requiresEncryption o.sid }
  have hcreate : ∃ (r : UInt32 × FileId) (s2 : St guestEnv) (sh1 : Shared guestEnv),
      createFile o req fid s = .ok r s2 ∧ r.1 = statusSuccess ∧ s2.c.Ready ∧ s2.c.dead = s.c.dead ∧
        s2.sh.channels = (sh1.requestOplock info req.requestedOplockLevel).2.channels ∧ sh1.channels = s.sh.channels := by
    have htr' : s.c.tree? o.sid o.tid = some tr := by rw [hsid, htid, htr]
    rw [createFile, withTree_apply _ htr']
    have hguard : ¬(tr.share.readOnly && writesToShare req) = true := by rw [hro]; simp
    rw [if_neg hguard]
    let oh : OpenHandle guestEnv :=
      { h := s.sh.world, fileId := info.fileId, path := info.path, deletePending := deleteOnClose req }
    let sh1 : Shared guestEnv := { s.sh with
      world := Nat.succ s.sh.world
      trace := .call (some o) (.stat (E := guestEnv) s.sh.world) ::
        .call (some o) (.openFile tr.share (openOptions req) (.ok s.sh.world)) :: s.sh.trace }
    have hready := hs.modifyTree o.sid o.tid
      (f := fun t => { t with nextID := tr.nextID + 1, opens := t.opens.insert info.fileId oh }) fun _ => rfl
    exact ⟨_, _, sh1, rfl, rfl, hready.congr rfl, rfl, rfl, rfl⟩
  obtain ⟨r, s2, sh1, hrun, hst, hready', hdead, hch, hsh⟩ := hcreate
  have hdispatch : dispatch srv o sub hdr fid s = .ok ⟨r.1, hdr, sub, r.2⟩ s2 := by
    unfold dispatch
    rw [Go.bind_ok (Go.get_apply s), hrefusal]
    dsimp only [handle]
    rw [if_neg (by rw [hcmd]; decide), if_neg (by rw [hcmd]; decide), if_pos hcmd, handleCreate, hreq]
    exact Go.bind_ok hrun
  exact ⟨info, _, s2, sh1, hdispatch, hst, rfl, hready', hdead, rfl, rfl, hsh, hch⟩

/-- The connection has handled `k` of the 130 CREATEs. -/
def Conn.Midway (c : Conn guestEnv) (k : ℕ) : Prop :=
  c.Ready ∧ c.dead = false ∧ ∃ lp, c.loop = some lp ∧ lp.msg = breakFrame 130 ∧ lp.off = 128 * k ∧
    lp.finished = false ∧ lp.chainFailed = false

/-- The only connection has handled `k` of the CREATEs, and `q` messages are in its channel. -/
structure Net.Midway (N : Net guestEnv) (k q : ℕ) : Prop where
  base : Base N.sys
  next : N.sys.next = 1
  live : N.sys.sh.connDone 0 = false
  queue : (N.sys.sh.asyncResp 0).length = q
  conn : ∃ c, N.sys.conns 0 = some c ∧ c.Midway k

/-- The oplock of the file is free. -/
def Net.Free (N : Net guestEnv) : Prop := N.sys.sh.oplocks breakPath = none

/-- The oplock of the file is held by connection 0. -/
def Net.Held (N : Net guestEnv) : Prop := ∃ info, N.sys.sh.oplocks breakPath = some info ∧ info.conn = 0

namespace Net.Midway

variable {N : Net guestEnv} {k q : ℕ}

theorem sub (h : N.Midway k q) (hk : k < 130) (hs : N.sends = []) :
    ∃ (info : OplockInfo) (sh1 : Shared guestEnv) (s' : St guestEnv),
      N.step (guestServer false) (.server (.sub 0)) = some (N.launch (some 0) (N.sys.silent.put 0 s')) ∧
        s'.c.Midway (k + 1) ∧ info.conn = 0 ∧ info.path = breakPath ∧
        sh1.channels = N.sys.silent.sh.channels ∧ s'.sh.channels = (sh1.requestOplock info 1).2.channels := by
  obtain ⟨c, hc, hready, hlive, lp, hlp, hmsg, hoff, hfin, hchain⟩ := h.conn
  have hsub : lp.sub = breakBlock ++ breakFrame (129 - k) := by
    rw [Loop.sub, hmsg, hoff, ← breakFrame_succ, show 130 = k + (129 - k + 1) by omega, drop_breakFrame]
  have hlen : lp.off + headerSize ≤ lp.msg.length := by
    rw [hoff, hmsg, length_breakFrame, headerSize]
    omega
  obtain ⟨hdr, hp, hflags, hcmd, hsid, htid, hnext⟩ := parse_breakBlock (breakFrame (129 - k))
  obtain ⟨req, hreq, hlevel, hpath⟩ := create_breakBlock (breakFrame (129 - k))
  rw [← hsub] at hp hreq
  have hsign : ∀ sess, c.session? hdr.sessionId = some sess → sess.requireSign = false := by
    intro sess hsess
    obtain ⟨sess', hsess', -, hno⟩ := hready.session
    rw [hsid, hsess'] at hsess
    cases hsess
    exact hno
  obtain ⟨s1, hsess1, hdead1, hsh1, hrun⟩ := step_sub (guestServer false) (S := N.sys.silent) hc hlp hlive hfin hlen hp
    hflags hchain hsign (by rw [hcmd]; decide) (by rw [hcmd]; decide)
  obtain ⟨info, r, s2, sh1, hd, hst, hrsub, hready2, hdead2, hconn, hinfo, hch1, hch2⟩ :=
    dispatch_guest (guestServer false) (o := originOf c hdr) hdr lp.lastFileId hcmd hsid htid (hready.congr hsess1) hreq
  obtain ⟨lp', s', hstep, hsh', hsess', hdead', hlp', hfollows⟩ := hrun r s2 hd
  have hf := hfollows hst hrsub
  have hmore := hf.more (by rw [hnext]; decide)
  refine ⟨info, sh1, s', ?_, ⟨hready2.congr hsess', ?_, lp', hlp', hf.msg.trans hmsg, ?_, ?_, hf.chain⟩, ?_, ?_, ?_, ?_⟩
  · have hbusy : N.busy 0 = false := by
      rw [Net.busy, hs]
      rfl
    unfold Net.step
    dsimp only
    rw [hbusy, hstep]
    rfl
  · rw [hdead', hdead2, hdead1, hlive]
  · rw [hmore.1, hoff, hnext]
    rfl
  · rw [hmore.2, hfin]
  · rw [hconn]
    exact (h.base _ _ hc).1
  · rw [hinfo, hpath]
  · rw [hch1, hsh1]
    rfl
  · rw [hsh', hch2, hlevel]

theorem launch {s' : St guestEnv} (h : N.Midway k q)
    (hstep : N.step (guestServer false) (.server (.sub 0)) = some (N.launch (some 0) (N.sys.silent.put 0 s')))
    (hc : s'.c.Midway (k + 1)) (hdone : s'.sh.connDone = N.sys.sh.connDone) :
    (N.launch (some 0) (N.sys.silent.put 0 s')).Midway (k + 1) q where
  base := (Net.step_took hstep).base h.base
  next := h.next
  live := by
    rw [← h.live, ← hdone]
    rfl
  queue := h.queue
  conn := ⟨s'.c, N.sys.silent.put_conns_self 0 s', hc⟩

theorem grant (h : N.Midway k q) (hk : k < 130) (hs : N.sends = []) (hfree : N.Free) :
    ∃ N', N.step (guestServer false) (.server (.sub 0)) = some N' ∧ N'.Midway (k + 1) q ∧ N'.sends = [] ∧ N'.Held := by
  obtain ⟨info, sh1, s', hstep, hc, hconn, hpath, hch, hch'⟩ := h.sub hk hs
  simp only [Shared.channels, Prod.mk.injEq] at hch hch'
  have hnone : sh1.oplocks info.path = none := by
    rw [hch.1, hpath]
    exact hfree
  have hgrant : (sh1.requestOplock info 1).2 = { sh1 with oplocks := Function.update sh1.oplocks info.path (some info) } := by
    simp [Shared.requestOplock, Shared.grant, hnone]
  rw [hgrant] at hch'
  refine ⟨_, hstep, h.launch hstep hc (hch'.2.2.trans hch.2.2), ?_, info, ?_, hconn⟩
  · have hsent : (N.sys.silent.put 0 s').sent = [] := sent_nil (hch'.2.1.trans hch.2.1)
    unfold Net.launch
    dsimp only
    rw [hs, hsent]
    rfl
  · rw [← hpath]
    exact (congrFun hch'.1 _).trans (update_self ..)

theorem broken (h : N.Midway k q) (hk : k < 130) (hs : N.sends = []) (hheld : N.Held) :
    ∃ N' msg, N.step (guestServer false) (.server (.sub 0)) = some N' ∧ N'.Midway (k + 1) q ∧
      N'.sends = [⟨some 0, 0, msg⟩] ∧ N'.Free := by
  obtain ⟨info, sh1, s', hstep, hc, hconn, hpath, hch, hch'⟩ := h.sub hk hs
  obtain ⟨b, hb, hholder⟩ := hheld
  simp only [Shared.channels, Prod.mk.injEq] at hch hch'
  have hsome : sh1.oplocks info.path = some b := by
    rw [hch.1, hpath]
    exact hb
  have hlive : sh1.connDone 0 = false := by
    rw [hch.2.2]
    exact h.live
  let msg : Queued := ⟨oplockBreakMessage b, ⟨b.sessID, cmdOplockBreak, b.enc⟩⟩
  have hbroken : (sh1.requestOplock info 1).2.oplocks = Function.update sh1.oplocks info.path none ∧
      (sh1.requestOplock info 1).2.asyncResp = Function.update sh1.asyncResp 0 (sh1.asyncResp 0 ++ [msg]) ∧
      (sh1.requestOplock info 1).2.connDone = sh1.connDone := by
    simp [Shared.requestOplock, Shared.grant, Shared.breakOplock, Shared.sendOplockBreak, Shared.sendFinal, hsome, hholder,
      hlive, msg]
  rw [hbroken.1, hbroken.2.1, hbroken.2.2] at hch'
  refine ⟨_, msg, hstep, h.launch hstep hc (hch'.2.2.trans hch.2.2), ?_, ?_⟩
  · have hsent : (N.sys.silent.put 0 s').sent = [(0, msg)] := by
      have hnext : (N.sys.silent.put 0 s').next = 1 := h.next
      have hqueue : (N.sys.silent.put 0 s').sh.asyncResp 0 = [msg] := by
        rw [put_sh, hch'.2.1, update_self, hch.2.1]
        rfl
      unfold Sys.sent
      rw [hnext, range_one, flatMap_singleton, hqueue]
      rfl
    unfold Net.launch
    dsimp only
    rw [hs, hsent]
    rfl
  · unfold Net.Free
    rw [← hpath]
    exact (congrFun hch'.1 _).trans (update_self ..)

/-- The message goes into the channel as long as there is a slot. -/
theorem put {msg : Queued} (h : N.Midway k q) (hs : N.sends = [⟨some 0, 0, msg⟩]) (hq : q < asyncRespCap) :
    ∃ N', N.step (guestServer false) (.send 0) = some N' ∧ N'.Midway k (q + 1) ∧ N'.sends = [] ∧ N'.sys.sh.oplocks = N.sys.sh.oplocks := by
  have hstep : N.step (guestServer false) (.send 0) = some { N with
      sends := []
      sys := N.sys.setQueues (Function.update N.sys.sh.asyncResp 0 (N.sys.sh.asyncResp 0 ++ [msg])) } := by
    unfold Net.step Net.complete
    dsimp only
    rw [hs]
    dsimp only [getElem?_cons_zero]
    rw [h.live, if_neg Bool.false_ne_true, if_pos (by rw [h.queue]; exact hq)]
    rfl
  refine ⟨_, hstep, ⟨(Net.step_took hstep).base h.base, h.next, h.live, ?_, h.conn⟩, rfl, rfl⟩
  unfold setQueues
  dsimp only
  rw [update_self, length_append, h.queue]
  rfl

end Net.Midway

/-- The acts that bring a frame through the server and let its connection wait for the next. -/
def visit (raw : Bytes) : List Act :=
  [.server (.recv 0 raw), .server (.sub 0), .server (.reply 0), .await 0]

/-- The guest has a tree and waits for a frame. -/
def guestWaits : List Act := [.server .accept, .await 0] ++ visit setupFrame ++ visit (treeConnectFrame 1)

/-- Connection 0 waits for a frame with a tree that may be written to. -/
def Net.settled (N : Net guestEnv) : Bool :=
  N.reading 0 && N.sends.isEmpty && decide (N.sys.next = 1) && !N.sys.sh.connDone 0 && (N.sys.sh.asyncResp 0).isEmpty &&
    (N.sys.sh.oplocks breakPath).isNone && (N.sys.conns 0).any fun c =>
      !c.dead && c.loop.isNone && !c.requiresEncryption 1 &&
        ((c.session? 1).any fun sess => sess.authenticated && !sess.requireSign) &&
        (c.tree? 1 0).any fun tr => !tr.share.readOnly

theorem Net.settled_spec {N : Net guestEnv} (h : N.settled = true) :
    N.reading 0 = true ∧ N.sends = [] ∧ N.sys.next = 1 ∧ N.sys.sh.connDone 0 = false ∧ N.sys.sh.asyncResp 0 = [] ∧
      N.Free ∧ ∃ c, N.sys.conns 0 = some c ∧ c.dead = false ∧ c.loop = none ∧ c.requiresEncryption 1 = false ∧ c.Ready := by
  simp only [Net.settled, Bool.and_eq_true, decide_eq_true_eq, Bool.not_eq_true', List.isEmpty_iff, isNone_iff_eq_none,
    Option.any_eq_true] at h
  obtain ⟨⟨⟨⟨⟨⟨hr, hs⟩, hn⟩, hd⟩, hq⟩, hfree⟩, c, hc, ⟨⟨⟨hlive, hlp⟩, henc⟩, sess, hsess, hsession⟩, tr, htr, hro⟩ := h
  exact ⟨hr, hs, hn, hd, hq, hfree, c, hc, hlive, hlp, henc, ⟨sess, hsess, hsession⟩, tr, htr, hro⟩

/-- The next command takes nothing. -/
def Net.harmless (N : Net E) : Act → Bool
  | .server (.sub cid) => !N.sys.faces cid Command.takes
  | _ => true

theorem SlotOk.of_harmless {N : Net E} (n : ℕ) (h : N.harmless a = true) : SlotOk n N a := by
  unfold SlotOk
  split
  · intro htakes
    rw [Net.harmless, htakes] at h
    cases h
  · trivial

/-- The compound has come in, and no oplock has been taken before. -/
theorem reach_midway_zero : ∃ N, (∀ n, (net (guestServer false) (0 : ℕ)).Reach (SlotOk n) N) ∧
    N.Midway 0 0 ∧ N.sends = [] ∧ N.Free := by
  obtain ⟨N, hN, htest⟩ := Transition.Reach.of_run (T := net (guestServer false) (0 : ℕ))
    (C := fun N a => N.harmless a = true) (f := Net.settled) guestWaits (by decide +kernel) (by decide +kernel)
  have hreach : ∀ n, (net (guestServer false) (0 : ℕ)).Reach (SlotOk n) N :=
    fun n => hN.mono fun _ _ h => .of_harmless n h
  obtain ⟨hr, hs, hnext, hdone, hq, hfree, c, hc, hlive, hlp, henc, hready⟩ := Net.settled_spec htest
  have hplain : u8At (breakFrame 130) 0 ≠ 0xFD := by decide
  have henc' : c.requiresEncryption (u64At (breakFrame 130) 40) = false := by
    rw [breakFrame_succ, u64At_append_left _ (by rw [length_breakBlock]; omega)]
    exact henc
  obtain ⟨c', hstep, hlp', hlive', hsess, -⟩ := step_recv (guestServer false) (S := N.sys) hc hlp hlive hplain henc'
  have hrecv : N.step (guestServer false) (.server (.recv 0 (breakFrame 130))) = some { N with
      sys := N.sys.put 0 ⟨N.sys.sh, c'⟩
      reading := Function.update N.reading 0 false } := by
    unfold Net.step
    dsimp only
    rw [hr, hstep]
    rfl
  have hbase := (reach_bounded (hreach 0)).1
  refine ⟨_, fun n => net_step (a := .server (.recv 0 (breakFrame 130))) (hreach n) trivial hrecv,
    ⟨(Net.step_took hrecv).base hbase, hnext, hdone, ?_, c', ?_, ?_⟩, hs, hfree⟩
  · exact congrArg List.length hq
  · exact put_conns_self ..
  · exact ⟨hready.congr hsess, hlive', _, hlp', rfl, rfl, rfl, rfl⟩

/-- Where half of the CREATEs find their oplock held, as many messages are in the channel. -/
theorem reach_midway (n : ℕ) (hn : n ≤ 64) : ∃ N, (net (guestServer false) (0 : ℕ)).Reach (fun _ _ => True) N ∧
    N.Midway (2 * n) n ∧ N.sends = [] ∧ N.Free := by
  induction n with
  | zero =>
    obtain ⟨N, hN, hrest⟩ := reach_midway_zero
    exact ⟨N, (hN 0).mono fun _ _ _ => trivial, hrest⟩
  | succ n ih =>
    obtain ⟨N, hN, hmid, hs, hfree⟩ := ih (by omega)
    obtain ⟨N1, hstep1, hmid1, hs1, hheld⟩ := hmid.grant (by omega) hs hfree
    obtain ⟨N2, msg, hstep2, hmid2, hs2, hfree2⟩ := hmid1.broken (by omega) hs1 hheld
    obtain ⟨N3, hstep3, hmid3, hs3, hsame⟩ := hmid2.put hs2 (by unfold asyncRespCap; omega)
    have hN2 := net_step (net_step hN trivial hstep1) trivial hstep2
    refine ⟨N3, net_step hN2 trivial hstep3, hmid3, hs3, ?_⟩
    unfold Net.Free
    rw [hsame]
    exact hfree2

/-! ### Deadlocks -/

/-- **As long as no connection takes on more than its channel holds, none ever waits for
another.** -/
theorem reach_not_deadlocked (srv : Config E) (w : E.World) (N : Net E)
    (hN : (net srv w).Reach (SlotOk asyncRespCap) N) : ¬N.Deadlocked := by
  have hbounded := reach_bounded hN
  rintro ⟨A, ⟨cid, hcid⟩, hA⟩
  obtain ⟨holder, -, ⟨q, hq⟩, -, hfull⟩ := hA cid hcid
  obtain ⟨paths, -, hlen⟩ := hbounded.2 holder
  have hcount : 0 < N.sends.countP (fun s => decide (s.target = holder)) :=
    List.countP_pos_iff.2 ⟨_, hq, decide_eq_true rfl⟩
  unfold Net.load at hlen
  omega

/-- The oplock the first of the CREATEs takes finds a slot. -/
theorem reach_not_deadlocked_held : ∃ N : Net guestEnv,
    (net (guestServer false) (0 : ℕ)).Reach (SlotOk asyncRespCap) N ∧ N.Held ∧ ¬N.Deadlocked := by
  obtain ⟨N, hN, hmid, hs, hfree⟩ := reach_midway_zero
  obtain ⟨N₁, hstep, -, -, hheld⟩ := hmid.grant (by decide) hs hfree
  have hroom : SlotOk asyncRespCap N (.server (.sub 0)) := fun _ => ⟨0, by decide, (reach_bounded (hN 0)).2 0⟩
  have hN₁ := net_step (hN asyncRespCap) hroom hstep
  exact ⟨N₁, hN₁, hheld, reach_not_deadlocked (guestServer false) (0 : ℕ) N₁ hN₁⟩

/-- **A compound of 130 CREATEs waits for itself.** -/
theorem compound_waits_for_itself : ¬∀ (E : Env) (srv : Config E) (w : E.World) (N : Net E),
    (net srv w).Reach (fun _ _ => True) N → ¬N.Deadlocked := by
  intro hall
  obtain ⟨N, hN, hmid, hs, hfree⟩ := reach_midway 64 le_rfl
  obtain ⟨N₁, hstep₁, hmid₁, hs₁, hheld⟩ := hmid.grant (by omega) hs hfree
  obtain ⟨N₂, msg, hstep₂, hmid₂, hs₂, -⟩ := hmid₁.broken (by omega) hs₁ hheld
  refine hall guestEnv (guestServer false) (0 : ℕ) N₂ (net_step (net_step hN trivial hstep₁) trivial hstep₂)
    ⟨{0}, Set.singleton_nonempty 0, fun cid hcid => ⟨0, Set.mem_singleton 0, ?_⟩⟩
  rw [Set.mem_singleton_iff.1 hcid]
  refine ⟨⟨msg, ?_⟩, hmid₂.live, hmid₂.queue.ge⟩
  rw [hs₂]
  exact List.mem_singleton_self _

end Server
end SmbServer
