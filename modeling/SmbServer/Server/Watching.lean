/-
# Watched directories

`watchDirectory` compares what a poll finds with what the start of the watch found.  Both are
snapshots by `snapshotEntries`, which returns what it has when an Enumerate fails, so a
directory that does not change can look changed: names that the first Enumerate did not get to
are reported as added, and names that a poll does not get to as removed
(`unchanged_directory_notified`).  Where no Enumerate of a watch fails, a watch completes only
when its directory really differs (`reach_no_phantom`).

What a directory holds is not in the state of the server.  It is a function `dir` of the handle
and the world of which Enumerate yields a part, and all where it does not fail (`Enumerates`).
-/

import SmbServer.Server.AsyncOrder
import SmbServer.Server.Limits
import SmbServer.Server.Notify

namespace SmbServer
namespace Server

open Wire Function List Option Sys
open Vfs (OsError FileInfo)

variable {E : Env} {srv : Config E}
variable {cid : ConnId} {c : Conn E} {l : Label}

/-! ### Directories and what is seen of them -/

/-- The names in a directory, with their sizes. -/
abbrev Directory := GoString → Option UInt64

/-- What `snapshotEntries` returns. -/
def polled (h : E.Handle) (w : E.World) : GoMap GoString UInt64 := snapshotMap (untilError (E.enumerate h [0x2A] w).1).1

/-- An Enumerate does not fail. -/
def Lists (h : E.Handle) (w : E.World) : Prop := (untilError (E.enumerate h [0x2A] w).1).2 = none

/-- `dir` is what the handles enumerate. -/
structure Enumerates (dir : E.Handle → E.World → Directory) : Prop where
  part : ∀ h w name sz, (polled h w).lookup name = some sz → dir h w name = some sz
  complete : ∀ h w, Lists h w → ∀ name, (polled h w).lookup name = dir h w name

/-- An event tells a difference between two states of a directory. -/
structure NotifyEvent.Real (start now : Directory) (e : NotifyEvent) : Prop where
  differs : start e.name ≠ now e.name
  added : e.action = fileActionAdded → start e.name = none
  removed : e.action = fileActionRemoved → now e.name = none

/-- **The events of a comparison are real.** -/
theorem real_of_mem_diffEntries {old cur : GoMap GoString UInt64} {filter : UInt32} {curNames oldNames : List GoString}
    (hc : curNames.Perm cur.keys) (ho : oldNames.Perm old.keys) {e : NotifyEvent}
    (he : e ∈ diffEntries old cur filter curNames oldNames) :
    e.Real (fun name => old.lookup name) fun name => cur.lookup name := by
  have hadded : ∀ name, old.lookup name = none → (cur.lookup name).isSome → old.lookup name ≠ cur.lookup name := by
    intro name hold hcur heq
    rw [← heq, hold] at hcur
    cases hcur
  rcases (mem_diffEntries hc ho).1 he with ⟨haction, hold, hcur⟩ | h
  · refine ⟨hadded _ hold hcur, fun _ => hold, fun hr => ?_⟩
    exact absurd (haction.symm.trans hr) (show fileActionAdded ≠ fileActionRemoved by decide)
  · cases h with
    | @added name _ hold hcur =>
      exact ⟨hadded name hold hcur, fun _ => hold, fun hr => absurd hr (show fileActionAdded ≠ fileActionRemoved by decide)⟩
    | @removed name _ hold hcur =>
      refine ⟨fun heq => ?_, fun hr => absurd hr (show fileActionRemoved ≠ fileActionAdded by decide), fun _ => hcur⟩
      dsimp only at heq
      rw [heq, hcur] at hold
      cases hold
    | @modified name osz sz _ hold hcur hsz =>
      refine ⟨fun heq => ?_, fun hr => absurd hr (show fileActionModified ≠ fileActionAdded by decide),
        fun hr => absurd hr (show fileActionModified ≠ fileActionRemoved by decide)⟩
      dsimp only at heq
      rw [hold, hcur] at heq
      exact hsz (some.inj heq)

/-! ### The record of the watches -/

/-- What is observed of the watches.  A watch is named by its place among those of its
connection. -/
inductive WatchEvent where
  /-- A watch starts on a directory. -/
  | started (cid : ConnId) (start : Directory)
  /-- A watch completes with STATUS_SUCCESS and these events. -/
  | completed (cid : ConnId) (i : ℕ) (now : Directory) (events : List NotifyEvent)
  /-- A watch is cancelled. -/
  | cancelled (cid : ConnId) (i : ℕ)
  /-- A connection ends with its watches. -/
  | closed (cid : ConnId)

namespace WatchEvent

/-- The connection of an event. -/
def conn : WatchEvent → ConnId
  | started cid _ | completed cid _ _ _ | cancelled cid _ | closed cid => cid

/-- The directories at the start of the watches of one connection, after an event of it. -/
def apply (starts : List Directory) : WatchEvent → List Directory
  | started _ start => starts ++ [start]
  | completed _ i _ _ | cancelled _ i => starts.eraseIdx i
  | closed _ => []

end WatchEvent

/-- The directories at the start of the watches that a connection has. -/
def running (cid : ConnId) (log : List WatchEvent) : List Directory :=
  (log.filter fun e => e.conn = cid).foldl WatchEvent.apply []

theorem running_own {log : List WatchEvent} {e : WatchEvent} (h : e.conn = cid) :
    running cid (log ++ [e]) = e.apply (running cid log) := by
  simp [running, filter_append, h]

theorem running_other {log : List WatchEvent} {e : WatchEvent} (h : e.conn ≠ cid) :
    running cid (log ++ [e]) = running cid log := by
  simp [running, filter_append, h]

/-- **No phantom notifications**: a watch completes only when its directory differs from what
it was at the start, and each of its events is real. -/
def NoPhantom (log : List WatchEvent) : Prop :=
  ∀ older cid i now events, older ++ [.completed cid i now events] <+: log →
    ∃ start, (running cid older)[i]? = some start ∧ (∃ name, start name ≠ now name) ∧ ∀ e ∈ events, e.Real start now

theorem NoPhantom.concat {log : List WatchEvent} (h : NoPhantom log) {e : WatchEvent}
    (he : ∀ cid i now events, e = .completed cid i now events → ∃ start, (running cid log)[i]? = some start ∧
      (∃ name, start name ≠ now name) ∧ ∀ e ∈ events, e.Real start now) : NoPhantom (log ++ [e]) := by
  intro older cid i now events hpre
  rcases prefix_concat_iff.1 hpre with heq | hpre
  · obtain ⟨rfl, hlast⟩ := append_inj' heq rfl
    exact he cid i now events (singleton_inj.1 hlast).symm
  · exact h older cid i now events hpre

/-- The watchers of a connection. -/
def Sys.watchers (S : Sys E) (cid : ConnId) : List (Watcher E) := (S.conns cid).elim [] Conn.watchers

/-- What is observed of a transition: a command that starts a watcher, a round that ends its
watcher, the two other ends of a watcher. -/
def observeWatch (dir : E.Handle → E.World → Directory) (S : Sys E) (l : Label) (S' : Sys E) : Option WatchEvent :=
  match l with
  | .sub cid => ((S'.watchers cid)[(S.watchers cid).length]?).map fun w => .started cid (dir w.h S.sh.world)
  | .tick cid i =>
    if (S'.watchers cid).length < (S.watchers cid).length then
      ((S.watchers cid)[i]?).map fun w => .completed cid i (dir w.h S.sh.world) (w.events S.sh.world)
    else none
  | .done cid i => some (.cancelled cid i)
  | .close cid => some (.closed cid)
  | _ => none

/-- No Enumerate of a watch fails: neither the one of the CHANGE_NOTIFY that starts it, nor
one of its rounds. -/
def EnumOk (S : Sys E) : Label → Prop
  | .sub cid => ∀ c lp k req oh, S.conns cid = some c → c.loop = some lp → nextCommand c lp = some k → k.IsNotify →
      ChangeNotifyRequest.parse k.msg = .ok req → c.open? k.origin.sid k.origin.tid req.fileId = some oh →
      Lists oh.h S.sh.world
  | .tick cid i => ∀ w, (S.watchers cid)[i]? = some w → Lists w.h S.sh.world
  | _ => True

/-! ### What a transition does to the watchers -/

theorem Sys.watchers_some {S : Sys E} (h : S.conns cid = some c) :
    S.watchers cid = c.watchers := by
  rw [Sys.watchers, h]
  rfl

/-- The watchers of a connection before and after one of its transitions. -/
inductive WatchStep (S : Sys E) (cid : ConnId) : Label → List (Watcher E) → List (Watcher E) → Prop where
  | idle {l : Label} {ws : List (Watcher E)} (hdone : ∀ i, l ≠ .done cid i) (hclose : l ≠ .close cid) :
      WatchStep S cid l ws ws
  | started {ws : List (Watcher E)} {w : Watcher E} {c : Conn E} {lp : Loop} {k : Command E}
      {req : ChangeNotifyRequest} {oh : OpenHandle E} (hc : S.conns cid = some c) (hlp : c.loop = some lp)
      (hk : nextCommand c lp = some k) (hn : k.IsNotify) (hreq : ChangeNotifyRequest.parse k.msg = .ok req)
      (ho : c.open? k.origin.sid k.origin.tid req.fileId = some oh) (hh : w.h = oh.h)
      (hsnap : w.snap = polled oh.h S.sh.world) : WatchStep S cid (.sub cid) ws (ws ++ [w])
  | completed {ws : List (Watcher E)} {i : ℕ} {w : Watcher E} (hw : ws[i]? = some w)
      (hev : w.events S.sh.world ≠ []) : WatchStep S cid (.tick cid i) ws (ws.eraseIdx i)
  | cancelled {ws : List (Watcher E)} {i : ℕ} {w : Watcher E} (hw : ws[i]? = some w) :
      WatchStep S cid (.done cid i) ws (ws.eraseIdx i)
  | closed {ws : List (Watcher E)} : WatchStep S cid (.close cid) ws []

theorem Conn.watchers_congr {c' : Conn E} (h : c'.async = c.async) : c'.watchers = c.watchers :=
  congrArg (fun a => a.2.2.2.2) h

/-- A command leaves the watchers alone, or starts one. -/
theorem subCommand_watchStep {S : Sys E} {lp : Loop} (hc : S.conns cid = some c)
    (hlp : c.loop = some lp) (hl : c.Listed) :
    WatchStep S cid (.sub cid) c.watchers (subCommand srv lp ⟨S.sh, c⟩).state.c.watchers := by
  have hidle : ∀ {ws}, ws = c.watchers → WatchStep S cid (.sub cid) c.watchers ws := by
    rintro ws rfl
    exact .idle (nofun) nofun
  have hop := subCommand_operated srv lp hl S.sh
  cases hop with
  | same h => exact hidle (Conn.watchers_congr h)
  | cancelled k hk hcmd h =>
    refine hidle ((Conn.watchers_congr h).trans ?_)
    unfold Conn.cancelPending
    cases c.pending.lookup k.hdr.asyncId <;> rfl
  | started k _ hk hn hw _ _ _ =>
    obtain ⟨w, lp', s', hrun, -, -, ⟨req, oh, hreq, ho, hh, hsnap⟩, hasync, -⟩ := round_watches srv hk hn hw S.sh
    have hstate : (subCommand srv lp ⟨S.sh, c⟩).state.c.async = s'.c.async := by
      rw [subCommand_state (f := fun s => s.c.async) (fun _ _ => rfl) lp _, hrun]
      rfl
    have hws : (subCommand srv lp ⟨S.sh, c⟩).state.c.watchers = c.watchers ++ [w] :=
      Conn.watchers_congr (hstate.trans hasync)
    exact hws ▸ .started hc hlp hk hn hreq ho hh hsnap

/-- A round of a watcher leaves the watchers alone, or ends it where there is something to
report. -/
theorem watchTick_watchStep {S : Sys E} {i : ℕ} {w : Watcher E} (hw : c.watchers[i]? = some w) :
    WatchStep S cid (.tick cid i) c.watchers (watchTick i w ⟨S.sh, c⟩).state.c.watchers := by
  obtain ⟨s1, -, -, hc, hrun⟩ := watchTick_ok i w ⟨S.sh, c⟩
  have hws : s1.c.watchers = c.watchers := congrArg Conn.watchers hc
  rw [hrun]
  by_cases hev : w.events S.sh.world = []
  · rw [if_neg fun h => h hev]
    show WatchStep S cid (.tick cid i) c.watchers s1.c.watchers
    rw [hws]
    exact .idle (nofun) nofun
  · rw [if_pos hev]
    show WatchStep S cid (.tick cid i) c.watchers (s1.c.watchers.eraseIdx i)
    rw [hws]
    exact .completed hw hev

theorem Sys.watchers_congr {S S' : Sys E} (h : S'.conns cid = S.conns cid) :
    S'.watchers cid = S.watchers cid := by
  rw [Sys.watchers, Sys.watchers, h]

/-- A computation of a connection that leaves its operations alone. -/
theorem WatchStep.of_async {S : Sys E} {c' : Conn E} (hdone : ∀ i, l ≠ .done cid i)
    (hclose : l ≠ .close cid) (h : c'.async = c.async) : WatchStep S cid l c.watchers c'.watchers := by
  rw [Conn.watchers_congr h]
  exact .idle hdone hclose

/-- A transition of another connection leaves the watchers alone. -/
theorem WatchStep.other {S : Sys E} (hne : l.conn? ≠ some cid) {ws ws' : List (Watcher E)}
    (h : ws' = ws) : WatchStep S cid l ws ws' := by
  rw [h]
  refine .idle (fun i hl => ?_) fun hl => ?_
  · rw [hl] at hne
    exact hne rfl
  · rw [hl] at hne
    exact hne rfl

/-- The watchers after a computation of one connection. -/
theorem WatchStep.exec {S : Sys E} {cid' : ConnId} {m : M E Unit} (hl : l.conn? = some cid')
    (hc : S.conns cid' = some c) (hown : cid' = cid → WatchStep S cid l c.watchers (m ⟨S.sh, c⟩).state.c.watchers) :
    WatchStep S cid l (S.watchers cid) ((S.exec cid' c m).watchers cid) := by
  obtain ⟨c', heq, hasync, -⟩ := S.exec_conn cid' c m
  rw [heq]
  by_cases hcid : cid' = cid
  · subst hcid
    rw [watchers_some hc, watchers_some (put_conns_self ..)]
    exact Conn.watchers_congr hasync ▸ hown rfl
  · refine .other (fun h => hcid (some.inj (hl.symm.trans h))) (Sys.watchers_congr ?_)
    exact put_conns_of_ne S (Ne.symm hcid) _

/-- **The watchers after a transition.** -/
theorem Sys.step_watchStep {S S' : Sys E} (hb : Base S) (h : S.step srv l = some S') (cid : ConnId) :
    WatchStep S cid l (S.watchers cid) (S'.watchers cid) := by
  cases step_fired h with
  | accept =>
    refine .other (fun h => by cases h) ?_
    by_cases hcid : cid = S.next
    · have hnone : S.conns cid = none := by
        cases hc : S.conns cid with
        | none => rfl
        | some c => exact absurd (hb cid c hc).2.1 (hcid ▸ Nat.lt_irrefl _)
      have hnew : S.accept.conns cid = some (newConn S.next) := by
        rw [hcid]
        exact update_self ..
      rw [watchers_some hnew, Sys.watchers, hnone]
      rfl
    · exact Sys.watchers_congr (update_of_ne hcid ..)
  | recv raw hc hlp =>
    refine .exec rfl hc fun _ => .of_async (nofun) (nofun) ?_
    exact congrArg Prod.fst (receive_flow raw ⟨S.sh, _⟩)
  | sub hc hlp hfin =>
    refine .exec rfl hc fun hcid => ?_
    subst hcid
    exact subCommand_watchStep hc hlp (hb _ _ hc).2.2
  | reply hc hlp hfin =>
    refine .exec rfl hc fun _ => .of_async (nofun) (nofun) ?_
    exact congrArg Prod.fst (sendReply_flow _ ⟨S.sh, _⟩)
  | drain hc hq =>
    refine .exec rfl hc fun _ => .of_async (nofun) (nofun) ?_
    exact congrArg Prod.fst (drainOne_flow _ _ ⟨S.sh, _⟩)
  | tick _ _ =>
    obtain ⟨c, w, hc, hw, heq⟩ := step_tick h
    rw [heq]
    refine .exec rfl hc fun hcid => ?_
    subst hcid
    exact watchTick_watchStep hw
  | done _ _ =>
    obtain ⟨c, w, hc, hw, heq⟩ := step_done h
    rw [heq]
    refine .exec rfl hc fun hcid => ?_
    subst hcid
    exact .cancelled hw
  | @close cid' c s' hc hcl =>
    by_cases hcid : cid = cid'
    · subst hcid
      have hgone : (S.remove cid s'.sh).watchers cid = [] := by
        have hnone : (S.remove cid s'.sh).conns cid = none := update_self ..
        rw [Sys.watchers, hnone]
        rfl
      rw [hgone]
      exact .closed
    · refine .other (fun h => ?_) (Sys.watchers_congr (update_of_ne hcid ..))
      cases h
      exact hcid rfl

/-! ### The record along a run -/

/-- An event is observed in a transition of its connection. -/
theorem observeWatch_conn {dir : E.Handle → E.World → Directory} {S S' : Sys E} {e : WatchEvent}
    (h : observeWatch dir S l S' = some e) : l.conn? = some e.conn := by
  cases l with
  | sub cid =>
    obtain ⟨w, -, rfl⟩ := map_eq_some_iff.1 h
    rfl
  | tick cid i =>
    unfold observeWatch at h
    dsimp only at h
    split_ifs at h
    obtain ⟨w, -, rfl⟩ := map_eq_some_iff.1 h
    rfl
  | done cid i =>
    cases h
    rfl
  | close cid =>
    cases h
    rfl
  | accept => cases h
  | recv cid raw => cases h
  | reply cid => cases h
  | drain cid => cases h

/-- What a watcher remembers of the start. -/
def Watcher.start (w : Watcher E) : Directory := fun name => w.snap.lookup name

/-- The record tells what the watchers remember, and has no phantoms. -/
structure Recorded (S : Sys E) (log : List WatchEvent) : Prop where
  starts : ∀ cid, running cid log = (S.watchers cid).map Watcher.start
  real : NoPhantom log

section

variable {dir : E.Handle → E.World → Directory} {S S' : Sys E} {log : List WatchEvent}

/-- The events a watcher finds are real, and there is a difference where there are some. -/
theorem Watcher.real_of_events (hdir : Enumerates dir) {w : Watcher E} {world : E.World} (hlists : Lists w.h world)
    (hev : w.events world ≠ []) : (∃ name, w.start name ≠ dir w.h world name) ∧
      ∀ e ∈ w.events world, e.Real w.start (dir w.h world) := by
  have hnow : (fun name => (polled w.h world).lookup name) = dir w.h world :=
    funext fun name => hdir.complete w.h world hlists name
  have hreal : ∀ e ∈ w.events world, e.Real w.start (dir w.h world) := by
    intro e he
    rw [← hnow]
    exact real_of_mem_diffEntries (E.rangeOrder_perm ..) (E.rangeOrder_perm ..) he
  obtain ⟨e, he⟩ := exists_mem_of_ne_nil _ hev
  exact ⟨⟨e.name, (hreal e he).differs⟩, hreal⟩

/-- **What is observed of the watches of a connection** is what its transition does to them. -/
theorem WatchStep.observed (hdir : Enumerates dir) (hl : l.conn? = some cid)
    {ws ws' : List (Watcher E)} (h : WatchStep S cid l ws ws') (hS : S.watchers cid = ws) (hS' : S'.watchers cid = ws')
    (hok : EnumOk S l) :
    (observeWatch dir S l S' = none ∧ ws' = ws) ∨ ∃ e, observeWatch dir S l S' = some e ∧
      e.apply (ws.map Watcher.start) = ws'.map Watcher.start ∧
      ∀ cid' i now events, e = .completed cid' i now events → cid' = cid ∧ ∃ start,
        (ws.map Watcher.start)[i]? = some start ∧ (∃ name, start name ≠ now name) ∧ ∀ e ∈ events, e.Real start now := by
  cases h with
  | idle hdone hclose =>
    refine .inl ⟨?_, rfl⟩
    cases l with
    | sub cid' =>
      cases hl
      unfold observeWatch
      dsimp only
      rw [hS, hS', getElem?_eq_none (Nat.le_refl _)]
      rfl
    | tick cid' i =>
      cases hl
      unfold observeWatch
      dsimp only
      rw [hS, hS', if_neg (Nat.lt_irrefl _)]
    | done cid' i =>
      cases hl
      exact absurd rfl (hdone i)
    | close cid' =>
      cases hl
      exact absurd rfl hclose
    | accept => rfl
    | recv cid' raw => rfl
    | reply cid' => rfl
    | drain cid' => rfl
  | @started _ w c lp k req oh hc hlp hk hn hreq ho hh hsnap =>
    refine .inr ⟨.started cid (dir w.h S.sh.world), ?_, ?_, nofun⟩
    · unfold observeWatch
      dsimp only
      rw [hS, hS', getElem?_concat_length]
      rfl
    · have hstart : w.start = dir w.h S.sh.world := by
        have hlists : Lists oh.h S.sh.world := hok c lp k req oh hc hlp hk hn hreq ho
        refine funext fun name => ?_
        rw [hh, ← hdir.complete oh.h S.sh.world hlists name, ← hsnap]
        rfl
      rw [map_append, map_singleton, hstart]
      rfl
  | @completed _ i w hw hev =>
    refine .inr ⟨.completed cid i (dir w.h S.sh.world) (w.events S.sh.world), ?_, ?_, ?_⟩
    · have hlt : (ws.eraseIdx i).length < ws.length := by
        obtain ⟨hi, -⟩ := List.getElem?_eq_some_iff.1 hw
        rw [length_eraseIdx_of_lt hi]
        omega
      unfold observeWatch
      dsimp only
      rw [hS, hS', if_pos hlt, hw]
      rfl
    · exact (eraseIdx_map ..)
    · rintro cid' i' now events he
      cases he
      refine ⟨rfl, w.start, by rw [getElem?_map, hw]; rfl, ?_⟩
      exact w.real_of_events hdir (hok w (by rw [hS, hw])) hev
  | cancelled hw =>
    exact .inr ⟨_, rfl, eraseIdx_map .., nofun⟩
  | closed => exact .inr ⟨_, rfl, rfl, nofun⟩

/-- **A transition keeps the record right** where no Enumerate of a watch fails. -/
theorem Recorded.step (hdir : Enumerates dir) (hb : Base S) (h : Recorded S log) (hok : EnumOk S l)
    (hstep : S.step srv l = some S') : Recorded S' (log ++ (observeWatch dir S l S').toList) := by
  have hws := step_watchStep hb hstep
  have hother : ∀ cid, l.conn? ≠ some cid → S'.watchers cid = S.watchers cid := by
    intro cid hne
    have hstep := hws cid
    revert hstep
    generalize S'.watchers cid = ws'
    intro hstep
    cases hstep with
    | idle hdone hclose => rfl
    | started => exact absurd rfl hne
    | completed => exact absurd rfl hne
    | cancelled => exact absurd rfl hne
    | closed => exact absurd rfl hne
  cases he : observeWatch dir S l S' with
  | none =>
    rw [toList_none, append_nil]
    refine ⟨fun cid => (h.starts cid).trans ?_, h.real⟩
    by_cases hl : l.conn? = some cid
    · rcases (hws cid).observed hdir hl rfl rfl hok with ⟨-, hsame⟩ | ⟨e, hsome, -⟩
      · rw [hsame]
      · cases he.symm.trans hsome
    · rw [hother cid hl]
  | some e =>
    rw [toList_some]
    have hl : l.conn? = some e.conn := observeWatch_conn he
    rcases (hws e.conn).observed hdir hl rfl rfl hok with ⟨hnone, -⟩ | ⟨e', hsome, happly, hcompleted⟩
    · cases he.symm.trans hnone
    · cases he.symm.trans hsome
      rw [← h.starts e.conn] at happly hcompleted
      refine ⟨fun cid => ?_, h.real.concat fun cid i now events hev => ?_⟩
      · by_cases hcid : e.conn = cid
        · subst hcid
          rw [running_own rfl, happly]
        · rw [running_other hcid, h.starts cid, hother cid fun heq => hcid (some.inj (hl.symm.trans heq))]
      · obtain ⟨rfl, hstart⟩ := hcompleted cid i now events hev
        exact hstart

end

/-- **Where no Enumerate of a watch fails there are no phantom notifications.** -/
theorem reach_no_phantom (srv : Config E) (w : E.World) (dir : E.Handle → E.World → Directory) (hdir : Enumerates dir)
    (S : Sys E) (log : List WatchEvent)
    (hS : ((system srv w).recording (observeWatch dir)).Reach (fun p l => EnumOk p.1 l) (S, log)) : NoPhantom log := by
  have hinit : Recorded (system srv w).init [] := by
    refine ⟨fun cid => rfl, fun older cid i now events hpre => ?_⟩
    exact absurd (List.prefix_nil.1 hpre) (by simp)
  refine (hS.recorded (I := Recorded) hinit fun S log l S' hreach h hok hstep => ?_).real
  exact h.step hdir (reach_base hreach) hok hstep

/-! ### A directory that does not change -/

/-- A guest's server on a backend whose directories all hold the file `a`.  In the world `1`
an Enumerate gives `items`. -/
def directoryEnv (items : List (Except OsError FileInfo)) : Env :=
  { guestEnv with enumerate := fun _ _ (w : ℕ) =>
      (if w = 1 then items else [.ok ⟨[0x61], 0, false, Time.zero, Time.zero, Time.zero, Time.zero⟩], w + 1) }

/-- The server, with the share of `guestServer`. -/
def directoryServer (items : List (Except OsError FileInfo)) : Config (directoryEnv items) where
  shares := [⟨[0x73], (), false⟩]
  ipcBackend := ()
  requireEnc := false

/-- A guest opens a directory and watches it, and the ticker fires once. -/
def watchOnce : List Label :=
  [.accept] ++ exchange 0 setupFrame ++ exchange 0 (treeConnectFrame 1) ++ exchange 0 (createFrame 1 0 0 [0x66, 0x00]) ++
    exchange 0 notifyFrame ++ [.tick 0 0]

/-- The first watch of the first connection starts and completes. -/
def completesOnce : List WatchEvent → Bool
  | [.started 0 _, .completed 0 0 _ _] => true
  | _ => false

theorem completesOnce_spec {log : List WatchEvent} (h : completesOnce log = true) :
    ∃ start now events, log = [.started 0 start, .completed 0 0 now events] := by
  unfold completesOnce at h
  split at h
  · exact ⟨_, _, _, rfl⟩
  · cases h

/-- The directory with the file `a`. -/
def oneFile : Directory := fun name => if name = [0x61] then some 0 else none

theorem polled_directoryEnv (items : List (Except OsError FileInfo)) (h : (directoryEnv items).Handle) (w : ℕ)
    (name : GoString) : (polled (E := directoryEnv items) h w).lookup name =
      if w = 1 then (snapshotMap (untilError items).1).lookup name else oneFile name := by
  show (snapshotMap (untilError
    (if w = 1 then items else [.ok ⟨[0x61], 0, false, Time.zero, Time.zero, Time.zero, Time.zero⟩])).1).lookup name = _
  split_ifs
  · rfl
  · by_cases hname : name = [0x61]
    · rw [hname]
      rfl
    · rw [oneFile, if_neg hname]
      exact AList.lookup_insert_ne hname

/-- The directory an event tells of is `d`. -/
def WatchEvent.Sees (d : Directory) : WatchEvent → Prop
  | .started _ start => start = d
  | .completed _ _ now _ => now = d
  | .cancelled _ _ | .closed _ => True

/-- Of a directory that never changes only one state is observed. -/
theorem sees_of_constant {w : E.World} {d : Directory} {S : Sys E} {log : List WatchEvent}
    (hS : ((system srv w).recording (observeWatch fun _ _ => d)).Reach (fun _ _ => True) (S, log)) :
    ∀ e ∈ log, e.Sees d := by
  refine hS.recorded (I := fun _ log => ∀ e ∈ log, e.Sees d) (by simp) fun S log l S' _ h _ _ e he => ?_
  rcases mem_append.1 he with he | he
  · exact h e he
  · replace he : observeWatch (fun _ _ => d) S l S' = some e := mem_toList.1 he
    cases l with
    | sub cid =>
      obtain ⟨w, -, rfl⟩ := map_eq_some_iff.1 he
      rfl
    | tick cid i =>
      unfold observeWatch at he
      dsimp only at he
      split_ifs at he
      obtain ⟨w, -, rfl⟩ := map_eq_some_iff.1 he
      rfl
    | done cid i =>
      cases he
      trivial
    | close cid =>
      cases he
      trivial
    | accept => cases he
    | recv cid raw => cases he
    | reply cid => cases he
    | drain cid => cases he

/-- A watch on a directory that gets its file after the start. -/
theorem reach_no_phantom_added : ∃ (S : Sys (directoryEnv [])) (log : List WatchEvent),
    ((system (directoryServer []) (0 : ℕ)).recording
      (observeWatch fun _ (w : ℕ) => if w = 1 then fun _ => none else oneFile)).Reach (fun p l => EnumOk p.1 l) (S, log) ∧
      completesOnce log = true ∧ NoPhantom log := by
  let dir : ℕ → ℕ → Directory := fun _ w => if w = 1 then fun _ => none else oneFile
  have hlists : ∀ (h w : ℕ), Lists (E := directoryEnv []) h w := by
    intro h w
    show (untilError (if w = 1 then [] else [.ok _])).2 = none
    split_ifs <;> rfl
  have hok : ∀ (S : Sys (directoryEnv [])) (l : Label), EnumOk S l := by
    intro S l
    cases l with
    | sub cid => exact fun c lp k req oh _ _ _ _ _ _ => hlists _ _
    | tick cid i => exact fun w _ => hlists _ _
    | _ => trivial
  have hpolled : ∀ (h w : ℕ) (name : GoString), (polled (E := directoryEnv []) h w).lookup name = dir h w name := by
    intro h w name
    refine (polled_directoryEnv [] h w name).trans ?_
    show _ = (if w = 1 then fun _ => none else oneFile) name
    split_ifs <;> rfl
  have hdir : Enumerates (E := directoryEnv []) dir :=
    ⟨fun h w name sz hsome => (hpolled h w name).symm.trans hsome, fun h w _ name => hpolled h w name⟩
  obtain ⟨⟨S, log⟩, hS, htest⟩ := Transition.Reach.of_run
    (T := (system (directoryServer []) (0 : ℕ)).recording (observeWatch dir)) (C := fun _ _ => True)
    (f := fun p => completesOnce p.2) watchOnce (by decide +kernel) (by decide +kernel)
  have hreach := hS.mono (D := fun p l => EnumOk p.1 l) fun p l _ => hok p.1 l
  exact ⟨S, log, hreach, htest, reach_no_phantom (directoryServer []) (0 : ℕ) dir hdir S log hreach⟩

/-- **A directory that never changes is reported as changed** when the Enumerate at the start
of the watch fails. -/
theorem unchanged_directory_notified : ¬∀ (E : Env) (srv : Config E) (w : E.World)
    (dir : E.Handle → E.World → Directory), Enumerates dir → ∀ (S : Sys E) (log : List WatchEvent),
      ((system srv w).recording (observeWatch dir)).Reach (fun _ _ => True) (S, log) → NoPhantom log := by
  intro hall
  let items : List (Except OsError FileInfo) := [.error .other]
  have hlookup : ∀ (h w : ℕ) (name : GoString), w ≠ 1 →
      (polled (E := directoryEnv items) h w).lookup name = oneFile name :=
    fun h w name hw => (polled_directoryEnv items h w name).trans (if_neg hw)
  have hdir : Enumerates (E := directoryEnv items) fun _ _ => oneFile := by
    refine ⟨fun h w name sz hsome => ?_, fun h w hlists name => hlookup h w name ?_⟩
    · by_cases hw : w = (1 : ℕ)
      · cases ((polled_directoryEnv items h w name).trans (if_pos hw)).symm.trans hsome
      · exact (hlookup h w name hw).symm.trans hsome
    · rintro rfl
      cases hlists
  obtain ⟨⟨S, log⟩, hS, htest⟩ := Transition.Reach.of_run
    (T := (system (directoryServer items) (0 : ℕ)).recording (observeWatch fun _ _ => oneFile)) (C := fun _ _ => True)
    (f := fun p => completesOnce p.2) watchOnce (by decide +kernel) (by decide +kernel)
  obtain ⟨start, now, events, rfl⟩ := completesOnce_spec htest
  have hsees := sees_of_constant hS
  obtain rfl : start = oneFile := hsees (.started 0 start) (by simp)
  obtain rfl : now = oneFile := hsees (.completed 0 0 now events) (by simp)
  obtain ⟨start, hstart, ⟨name, hne⟩, -⟩ := hall (directoryEnv items) (directoryServer items) (0 : ℕ) (fun _ _ => oneFile)
    hdir S _ hS [.started 0 oneFile] 0 0 oneFile events (List.prefix_refl _)
  obtain rfl : oneFile = start := Option.some.inj hstart
  exact hne rfl

end Server
end SmbServer
