/-
# Asynchronous operations complete once and in order

The request loop of a connection, its watchers, CANCELs and the cleanup all touch the
operations of a connection, and an interim response and its final response take different
ways to the socket: the one is part of the reply of a frame, the other goes through the
channel of the connection.

| event       | transition                                         |
|-------------|----------------------------------------------------|
| `issued`    | a CHANGE_NOTIFY gets an AsyncId                    |
| `replied`   | a reply is written, with its interim responses     |
| `final`     | a final response is taken from the channel and written |

`Tracked` counts where the AsyncIds issued by a connection are: with a watcher, in a
message on its way, in the channel, or in a final response that was written.  An AsyncId
is at one of these places, at most once for each time it was issued, and a connection that
looks into its channel has written all its interim responses.  AsyncIds are 64 bits wide:
they are distinct up to the `2^64`th operation of a connection (`async_once`), and not
beyond (`asyncId_comes_again`).
-/

import SmbServer.Server.Deadlock
import SmbServer.Server.Interims

namespace SmbServer
namespace Server

open Wire Go Function List Option Sys

variable {E : Env} {srv : Config E}
variable {w : Watcher E} {i j : ℕ} {s s' : St E} {S : Sys E} {a : Act}

/-! ### Events -/

/-- What happens to the AsyncIds of a connection. -/
inductive AsyncEvent where
  | issued (cid : ConnId) (id : UInt64)
  | replied (cid : ConnId) (ids : List UInt64)
  | final (cid : ConnId) (id : UInt64)

/-- The AsyncId of a message, if it is a final response of a CHANGE_NOTIFY. -/
def Queued.final? (q : Queued) : Option UInt64 :=
  if u16At q.frame 12 = cmdChangeNotify then some (u64At q.frame 32) else none

/-- A frame was written in between. -/
def Net.writes (N N' : Net E) : Bool := decide (N.sys.sh.trace.length < N'.sys.sh.trace.length)

/-- What can be observed of a transition. -/
def observe (N : Net E) (a : Act) (N' : Net E) : Option AsyncEvent :=
  match a with
  | .server (.sub cid) => (N.sys.conns cid).bind fun c => (N'.sys.conns cid).bind fun c' =>
    if c'.nextAsync = c.nextAsync then none else some (.issued cid c'.nextAsync)
  | .server (.reply cid) => (N.sys.conns cid).bind fun c =>
    if N.writes N' then some (.replied cid c.interims) else none
  | .server (.drain cid) => (N.sys.sh.asyncResp cid).head?.bind fun q =>
    if N.writes N' then q.final?.map (.final cid) else none
  | _ => none

namespace AsyncEvent

/-- The connection of an event. -/
def conn : AsyncEvent → ConnId
  | .issued cid _ | .replied cid _ | .final cid _ => cid

/-- The AsyncId the event issues on a connection. -/
def issuedOn (cid : ConnId) : AsyncEvent → List UInt64
  | .issued cid' id => if cid' = cid then [id] else []
  | _ => []

/-- The interim responses written on a connection. -/
def repliedOn (cid : ConnId) : AsyncEvent → List UInt64
  | .replied cid' ids => if cid' = cid then ids else []
  | _ => []

/-- The final response written on a connection. -/
def finalOn (cid : ConnId) : AsyncEvent → List UInt64
  | .final cid' id => if cid' = cid then [id] else []
  | _ => []

end AsyncEvent

/-- The AsyncIds a connection has issued, in their order. -/
def issuedIds (cid : ConnId) (log : List AsyncEvent) : List UInt64 := log.flatMap (AsyncEvent.issuedOn cid)

/-- The AsyncIds of the interim responses a connection has written, in their order. -/
def repliedIds (cid : ConnId) (log : List AsyncEvent) : List UInt64 := log.flatMap (AsyncEvent.repliedOn cid)

/-- The AsyncIds of the final responses a connection has written, in their order. -/
def finalIds (cid : ConnId) (log : List AsyncEvent) : List UInt64 := log.flatMap (AsyncEvent.finalOn cid)

/-- The AsyncIds of the final responses for a connection that are on their way or in its
channel. -/
def Net.finals (N : Net E) (cid : ConnId) : List UInt64 :=
  (N.sends.filterMap fun s => if s.target = cid then s.msg.final? else none) ++
    (N.sys.sh.asyncResp cid).filterMap Queued.final?

/-- The AsyncIds of the running watchers of a connection. -/
def Conn.watched (c : Conn E) : List UInt64 := c.watchers.map fun w => w.op.asyncID

/-- The AsyncIds of the running watchers. -/
def Net.watched (N : Net E) (cid : ConnId) : List UInt64 := ((N.sys.conns cid).map Conn.watched).getD []

/-! ### Messages -/

/-- The final response of an operation carries its AsyncId. -/
theorem Watcher.Sends.final? {q : Queued} (h : w.Sends q) (hcmd : w.hdr.command = cmdChangeNotify) :
    q.final? = some w.op.asyncID := by
  obtain ⟨status, body, rfl⟩ := h
  let hdr : Header := { w.hdr with flags := flagServerToRedir ||| flagAsyncCommand, status, asyncId := w.op.asyncID }
  have hasync : (flagServerToRedir ||| flagAsyncCommand) &&& flagAsyncCommand ≠ 0 := by decide
  have hcommand : u16At (hdr.encode ++ body) 12 = cmdChangeNotify := by
    rw [u16At_append_left _ (by rw [Header.length_encode]; omega), hdr.encode_fields.2.1]
    exact hcmd
  have hid : u64At (hdr.encode ++ body) 32 = w.op.asyncID := by
    rw [u64At_append_left _ (by rw [Header.length_encode]; omega)]
    exact hdr.encode_async.2 hasync
  unfold Queued.final? finalizeAsync
  rw [hcommand, if_pos rfl, hid]

/-- The break of an oplock is no final response. -/
theorem final?_oplockBreak (info : OplockInfo) (dest : Addressee) :
    (⟨oplockBreakMessage info, dest⟩ : Queued).final? = none := by
  have hcommand : u16At (oplockBreakMessage info) 12 = cmdOplockBreak := rfl
  unfold Queued.final?
  rw [hcommand]
  rfl

theorem Net.finals_launch (N : Net E) (sender : Option ConnId) (S : Sys E) (cid : ConnId) (id : UInt64) :
    ((N.launch sender S).finals cid).count id = (N.finals cid).count id +
      (S.sent.filterMap fun m => if m.1 = cid then m.2.final? else none).count id := by
  have hmap : (S.sent.map fun m => (⟨sender, m.1, m.2⟩ : Send)).filterMap
      (fun s => if s.target = cid then s.msg.final? else none) =
        S.sent.filterMap fun m => if m.1 = cid then m.2.final? else none := filterMap_map ..
  unfold Net.finals Net.launch
  dsimp only [setQueues]
  rw [filterMap_append, hmap, count_append, count_append, count_append]
  omega

theorem count_filterMap_eraseIdx {α : Type} (f : α → Option UInt64) {l : List α} {x : α} (h : l[j]? = some x)
    (id : UInt64) : (l.filterMap f).count id = ((l.eraseIdx j).filterMap f).count id + (f x).toList.count id := by
  obtain ⟨hj, rfl⟩ := List.getElem?_eq_some_iff.1 h
  have hperm := (getElem_cons_eraseIdx_perm hj).filterMap f
  rw [← hperm.count_eq id, filterMap_cons]
  cases f l[j] with
  | none => rfl
  | some id' => simp [count_cons]

/-! ### What is tracked -/

/-- The first `n` AsyncIds of a connection. -/
def firstIds (n : ℕ) : List UInt64 := (List.range n).map fun i => UInt64.ofNat (i + 1)

/-- The tables, the watchers and the reply of a connection fit together. -/
structure Conn.Tidy (c : Conn E) : Prop where
  pending : ∀ id, (c.pending.lookup id).isSome → id ∈ c.watched
  notify : ∀ w ∈ c.watchers, w.hdr.command = cmdChangeNotify
  laid : ∀ lp, c.loop = some lp → lp.Laid c.out

/-- Where the AsyncIds of a connection are. -/
structure Tracked (cid : ConnId) (N : Net E) (log : List AsyncEvent) : Prop where
  base : Base N.sys
  fresh : N.sys.next ≤ cid → issuedIds cid log = []
  issued : ∃ n, issuedIds cid log = firstIds n ∧ ∀ c, N.sys.conns cid = some c → c.nextAsync = UInt64.ofNat n
  once : ∀ id, (N.watched cid).count id + (N.finals cid).count id + (finalIds cid log).count id ≤
    (issuedIds cid log).count id
  tidy : ∀ c, N.sys.conns cid = some c → c.Tidy
  live : ∀ c, N.sys.conns cid = some c → c.dead = false → repliedIds cid log ++ c.interims = issuedIds cid log
  replied : repliedIds cid log <+: issuedIds cid log
  order : ∀ older id newer, log = older ++ .final cid id :: newer → id ∈ repliedIds cid older

namespace Tracked

variable {cid : ConnId} {N N' : Net E} {log : List AsyncEvent} {ev : Option AsyncEvent}

theorem order_snoc (h : Tracked cid N log) (hev : ∀ id, ev = some (.final cid id) → id ∈ repliedIds cid log) :
    ∀ older id newer, log ++ ev.toList = older ++ .final cid id :: newer → id ∈ repliedIds cid older := by
  intro older id newer heq
  cases ev with
  | none => exact h.order older id newer (by simpa using heq)
  | some e =>
    rcases eq_nil_or_concat newer with rfl | ⟨newer', e', rfl⟩
    · obtain ⟨hlog, he⟩ := append_inj' heq rfl
      rw [← hlog]
      exact hev id (congrArg some (List.cons.inj he).1)
    · rw [concat_eq_append, ← cons_append, ← append_assoc] at heq
      obtain ⟨hlog, -⟩ := append_inj' heq rfl
      exact h.order older id newer' hlog

theorem issuedIds_append (log log' : List AsyncEvent) :
    issuedIds cid (log ++ log') = issuedIds cid log ++ issuedIds cid log' := flatMap_append ..

theorem repliedIds_append (log log' : List AsyncEvent) :
    repliedIds cid (log ++ log') = repliedIds cid log ++ repliedIds cid log' := flatMap_append ..

theorem finalIds_append (log log' : List AsyncEvent) :
    finalIds cid (log ++ log') = finalIds cid log ++ finalIds cid log' := flatMap_append ..

/-- A transition of another connection, or the end of this one. -/
theorem other (h : Tracked cid N log) (hbase : Base N'.sys) (hnext : N.sys.next ≤ N'.sys.next)
    (hconn : ∀ c, N'.sys.conns cid = some c → N.sys.conns cid = some c)
    (hfinals : ∀ id, (N'.finals cid).count id ≤ (N.finals cid).count id) (hissued : issuedIds cid ev.toList = [])
    (hreplied : repliedIds cid ev.toList = []) (hfinal : finalIds cid ev.toList = []) :
    Tracked cid N' (log ++ ev.toList) := by
  have hi : issuedIds cid (log ++ ev.toList) = issuedIds cid log := by rw [issuedIds_append, hissued, append_nil]
  have hr : repliedIds cid (log ++ ev.toList) = repliedIds cid log := by rw [repliedIds_append, hreplied, append_nil]
  have hf : finalIds cid (log ++ ev.toList) = finalIds cid log := by rw [finalIds_append, hfinal, append_nil]
  have hwatched : ∀ id, (N'.watched cid).count id ≤ (N.watched cid).count id := by
    intro id
    unfold Net.watched
    cases hc : N'.sys.conns cid with
    | none => exact Nat.zero_le _
    | some c => rw [hconn c hc]
  obtain ⟨n, hn, hlast⟩ := h.issued
  refine ⟨hbase, fun hle => ?_, ⟨n, ?_, fun c hc => hlast c (hconn c hc)⟩, fun id => ?_, fun c hc => h.tidy c (hconn c hc),
    fun c hc hd => ?_, ?_, h.order_snoc fun id hev => ?_⟩
  · rw [hi]
    exact h.fresh (hnext.trans hle)
  · rw [hi, hn]
  · rw [hi, hf]
    have := h.once id
    have := hwatched id
    have := hfinals id
    omega
  · rw [hi, hr]
    exact h.live c (hconn c hc) hd
  · rw [hi, hr]
    exact h.replied
  · rw [hev] at hfinal
    simp [finalIds, AsyncEvent.finalOn] at hfinal

theorem firstIds_succ (n : ℕ) : firstIds (n + 1) = firstIds n ++ [UInt64.ofNat n + 1] := by
  rw [firstIds, range_succ, map_append, map_singleton, UInt64.ofNat_add]
  rfl

theorem own {c c' : Conn E} (h : Tracked cid N log) (hbase : Base N'.sys) (hnext : N'.sys.next = N.sys.next)
    (hc : N.sys.conns cid = some c) (hc' : N'.sys.conns cid = some c')
    (hissued : c'.nextAsync = c.nextAsync ∧ issuedIds cid ev.toList = [] ∨
      c'.nextAsync = c.nextAsync + 1 ∧ issuedIds cid ev.toList = [c.nextAsync + 1])
    (hcount : ∀ id, c'.watched.count id + (N'.finals cid).count id + (finalIds cid ev.toList).count id ≤
      c.watched.count id + (N.finals cid).count id + (issuedIds cid ev.toList).count id)
    (htidy : c'.Tidy)
    (hlive : c'.dead = false → c.dead = false ∧
      repliedIds cid ev.toList ++ c'.interims = c.interims ++ issuedIds cid ev.toList)
    (hreplied : repliedIds cid ev.toList = [] ∨ c.dead = false ∧ repliedIds cid ev.toList = c.interims)
    (hfinal : ∀ id, ev = some (.final cid id) → id ∈ repliedIds cid log) : Tracked cid N' (log ++ ev.toList) := by
  obtain ⟨n, hn, hlast⟩ := h.issued
  have hlt : cid < N.sys.next := (h.base _ _ hc).2.1
  refine ⟨hbase, fun hle => ?_, ?_, fun id => ?_, fun c1 h1 => ?_, fun c1 h1 hd => ?_, ?_, h.order_snoc hfinal⟩
  · exact absurd (hnext ▸ hle) (Nat.not_le.2 hlt)
  · rw [issuedIds_append, hn]
    rcases hissued with ⟨hsame, hnone⟩ | ⟨hsucc, hone⟩
    · refine ⟨n, by rw [hnone, append_nil], fun c1 h1 => ?_⟩
      cases hc'.symm.trans h1
      rw [hsame, hlast c hc]
    · refine ⟨n + 1, by rw [hone, firstIds_succ, hlast c hc], fun c1 h1 => ?_⟩
      cases hc'.symm.trans h1
      rw [hsucc, hlast c hc, UInt64.ofNat_add]
      rfl
  · have hbefore := h.once id
    have hafter := hcount id
    unfold Net.watched at hbefore ⊢
    rw [hc] at hbefore
    rw [hc', issuedIds_append, finalIds_append, count_append, count_append]
    dsimp only [map_some, getD_some] at hbefore ⊢
    omega
  · cases hc'.symm.trans h1
    exact htidy
  · cases hc'.symm.trans h1
    obtain ⟨hd', heq⟩ := hlive hd
    rw [repliedIds_append, issuedIds_append, append_assoc, heq, ← append_assoc, h.live c hc hd']
  · rw [repliedIds_append, issuedIds_append]
    rcases hreplied with hnone | ⟨hd, heq⟩
    · rw [hnone, append_nil]
      exact h.replied.trans (prefix_append ..)
    · rw [heq, h.live c hc hd]
      exact prefix_append ..

end Tracked

/-! ### The computations of a connection -/

namespace Conn

variable {c c' : Conn E}

/-- The tables and the watchers of a connection, and its next reply. -/
theorem Tidy.congr (h : c.Tidy) (hasync : c'.async = c.async) (hlaid : ∀ lp, c'.loop = some lp → lp.Laid c'.out) :
    c'.Tidy := by
  simp only [Conn.async, Prod.mk.injEq] at hasync
  obtain ⟨-, hpending, -, -, hwatchers⟩ := hasync
  refine ⟨?_, ?_, hlaid⟩
  · rw [hpending, Conn.watched, hwatchers]
    exact h.pending
  · rw [hwatchers]
    exact h.notify

theorem laid_none (h : c.loop = none) : ∀ lp, c.loop = some lp → lp.Laid c.out := by
  intro lp hlp
  rw [h] at hlp
  cases hlp

theorem interims_none (h : c.loop = none) : c.interims = [] := by
  rw [Conn.interims, h]
  rfl

theorem interims_some {lp : Loop} (h : c.loop = some lp) : c.interims = lp.interims c.out := by
  rw [Conn.interims, h]
  rfl

theorem watched_congr (h : c'.async = c.async) : c'.watched = c.watched :=
  congrArg (fun a => a.2.2.2.2.map fun w : Watcher E => w.op.asyncID) h

end Conn

/-- A frame that is taken up has no response yet. -/
theorem receive_ok {raw : Bytes} (h : receive raw s = .ok () s') :
    s'.c.dead = true ∧ s'.c.loop = s.c.loop ∨ ∃ msg via, s'.c.loop = some { msg, via } := by
  obtain ⟨r, s1, h1, h⟩ := bind_eq_ok h
  have hloop := screen_keeps_loop raw s
  rw [h1] at hloop
  cases r with
  | none =>
    cases h
    exact .inl ⟨rfl, hloop⟩
  | some r =>
    cases h
    exact .inr ⟨r.1, r.2, congrArg (fun f => f.2.2) (s1.c.begin_frame r.1 r.2)⟩

/-- The reply is written, or there is none, or the connection ends. -/
theorem sendReply_ok {lp : Loop} (h : sendReply lp s = .ok () s') :
    s.c.out = [] ∨ s'.c.dead = true ∨ s.sh.trace.length < s'.sh.trace.length := by
  have hwrite : ∀ {s1 s2 : St E} {frame : Bytes} {sealing : Option (UInt64 × Bytes × Bytes)} {content : List Addressee},
      s1.sh.trace = s.sh.trace →
      (writeMessage frame sealing content >>= fun ok => modifyConn fun c => { c with loop := none, dead := !ok }) s1 =
        .ok () s2 → s2.c.dead = true ∨ s.sh.trace.length < s2.sh.trace.length := by
    intro s1 s2 frame sealing content ht hrun
    obtain ⟨ok, s3, h3, hrun⟩ := bind_eq_ok hrun
    unfold writeMessage at h3
    split_ifs at h3
    · cases h3
      cases hrun
      exact .inl rfl
    · cases h3
      cases hrun
      refine .inr ?_
      rw [← ht]
      exact Nat.lt_succ_self _
  unfold sendReply at h
  rw [bind_ok (get_apply s)] at h
  split_ifs at h with hout
  · exact .inl hout
  · obtain ⟨r, s1, h1, h⟩ := bind_eq_ok h
    have hquiet := (maybeSealResponse_quiet s.c.out s).trace_eq
    rw [h1] at hquiet
    cases r with
    | none => exact .inr (hwrite hquiet h)
    | some r => exact .inr (hwrite hquiet h)

theorem Loop.Laid.interims_nil {lp : Loop} {out : Bytes} (h : lp.Laid out) (hout : out = []) : lp.interims out = [] := by
  cases hr : lp.replies with
  | nil => rw [Loop.interims, hr, filterMap_nil]
  | cons r rest =>
    have := h.starts r (by rw [hr]; exact mem_cons_self)
    rw [hout, length_nil] at this
    omega

theorem Conn.Operated.congr {c c1 c' : Conn E} {lp : Loop} (h : c.Operated lp c1) (hasync : c'.async = c1.async) :
    c.Operated lp c' := by
  cases h with
  | same h => exact .same (hasync.trans h)
  | cancelled k hk hcmd h => exact .cancelled k hk hcmd (hasync.trans h)
  | started k w hk hn hw hop hhdr h => exact .started k w hk hn hw hop hhdr (hasync.trans h)

/-- What a command does to the operations: nothing, or it starts one. -/
theorem Conn.Operated.starts {c c' : Conn E} {lp : Loop} (h : c.Operated lp c') :
    (c'.nextAsync = c.nextAsync ∧ c'.pending = c.pending ∧ c'.watchers = c.watchers) ∨
      ∃ w, c'.nextAsync = c.nextAsync + 1 ∧ c'.pending = c.pending.insert (c.nextAsync + 1) w.op ∧
        c'.watchers = c.watchers ++ [w] ∧ w.op.asyncID = c.nextAsync + 1 ∧ w.hdr.command = cmdChangeNotify := by
  cases h with
  | same h =>
    simp only [Conn.async, Prod.mk.injEq] at h
    exact .inl ⟨h.1, h.2.1, h.2.2.2.2⟩
  | cancelled k hk hcmd h =>
    have hkept : ∀ id, (c.cancelPending id).nextAsync = c.nextAsync ∧ (c.cancelPending id).pending = c.pending ∧
        (c.cancelPending id).watchers = c.watchers := fun id => by
      unfold Conn.cancelPending
      cases c.pending.lookup id <;> exact ⟨rfl, rfl, rfl⟩
    obtain ⟨h1, h2, h3⟩ := hkept k.hdr.asyncId
    simp only [Conn.async, Prod.mk.injEq] at h
    exact .inl ⟨h.1.trans h1, h.2.1.trans h2, h.2.2.2.2.trans h3⟩
  | started k w hk hn hw hop hhdr h =>
    simp only [Conn.async, Conn.registerPending, Prod.mk.injEq] at h
    refine .inr ⟨w, h.1, ?_, h.2.2.2.2, congrArg PendingOp.asyncID hop, ?_⟩
    · rw [hop]
      exact h.2.1
    · rw [hhdr]
      exact hn.1

theorem Conn.Tidy.operated {c c' : Conn E} {lp : Loop} (h : c.Tidy) (hop : c.Operated lp c')
    (hlaid : ∀ lp, c'.loop = some lp → lp.Laid c'.out) : c'.Tidy := by
  rcases hop.starts with ⟨-, hpending, hwatchers⟩ | ⟨w, -, hpending, hwatchers, hid, hcmd⟩
  · refine ⟨?_, ?_, hlaid⟩
    · rw [hpending, Conn.watched, hwatchers]
      exact h.pending
    · rw [hwatchers]
      exact h.notify
  · refine ⟨fun id hid' => ?_, fun w' hw' => ?_, hlaid⟩
    · rw [Conn.watched, hwatchers, map_append, mem_append]
      by_cases hnew : id = c.nextAsync + 1
      · exact .inr (by rw [hnew, ← hid]; exact mem_singleton_self _)
      · rw [hpending, AList.lookup_insert_ne hnew] at hid'
        exact .inl (h.pending id hid')
    · rw [hwatchers, mem_append, mem_singleton] at hw'
      rcases hw' with hold | rfl
      · exact h.notify w' hold
      · exact hcmd

/-- The AsyncId a command issues, from the counter before and after it. -/
def issuedBetween (before after : UInt64) : List UInt64 := if after = before then [] else [after]

/-- The reply after a command has the interim response of the AsyncId it issued. -/
theorem subCommand_ok {lp : Loop} (hlaid : lp.Laid s.c.out) (hl : s.c.Listed)
    (hrun : subCommand srv lp s = .ok () s') : (∀ lp', s'.c.loop = some lp' → lp'.Laid s'.c.out) ∧
      s'.c.interims = lp.interims s.c.out ++ issuedBetween s.c.nextAsync s'.c.nextAsync := by
  obtain ⟨lp', s1, hround, h⟩ := bind_eq_ok hrun
  cases h
  obtain ⟨hlaid', hinterims⟩ := hlaid.round hl hround
  refine ⟨fun lp1 h1 => ?_, (Conn.interims_some rfl).trans ?_⟩
  · cases h1
    exact hlaid'
  · unfold issuedBetween
    rcases hinterims with ⟨hsame, hnext⟩ | ⟨hnew, hnext⟩
    · exact hsame.trans (by rw [if_pos hnext, append_nil])
    · have hne : ¬s1.c.nextAsync = s.c.nextAsync := by
        rw [hnext]
        exact fun h => absurd (UInt64.add_eq_left.1 h) (by decide)
      exact hnew.trans (by rw [if_neg hne, hnext])

theorem count_watched_eraseIdx {watchers : List (Watcher E)} (h : watchers[i]? = some w) (id : UInt64) :
    (watchers.map fun w => w.op.asyncID).count id =
      ((watchers.eraseIdx i).map fun w => w.op.asyncID).count id + [w.op.asyncID].count id := by
  have hcount := count_filterMap_eraseIdx (fun w : Watcher E => some w.op.asyncID) h id
  rwa [filterMap_eq_map'] at hcount

theorem Conn.Tidy.finalized {c c' : Conn E} (h : c.Tidy) (hw : c.watchers[i]? = some w)
    (hasync : c'.async = ({ c.unregister w.op with watchers := c.watchers.eraseIdx i } : Conn E).async)
    (hlaid : ∀ lp, c'.loop = some lp → lp.Laid c'.out) : c'.Tidy := by
  simp only [Conn.async, Conn.unregister, Prod.mk.injEq] at hasync
  obtain ⟨-, hpending, -, -, hwatchers⟩ := hasync
  refine ⟨fun id hid => ?_, fun w' hw' => ?_, hlaid⟩
  · rw [hpending] at hid
    have hne : id ≠ w.op.asyncID := by
      rintro rfl
      rw [AList.lookup_erase] at hid
      cases hid
    rw [AList.lookup_erase_ne hne] at hid
    have hmem := count_pos_iff.2 (h.pending id hid)
    have hcount := count_watched_eraseIdx hw id
    rw [count_singleton, if_neg (by simpa using hne.symm)] at hcount
    rw [Conn.watched, hwatchers, ← count_pos_iff]
    rw [Conn.watched] at hmem
    omega
  · rw [hwatchers] at hw'
    exact h.notify w' (mem_of_mem_eraseIdx hw')

theorem watchTick_dead (i : ℕ) (w : Watcher E) : Keeps (fun s => s.c.dead) (watchTick i w) := by
  refine .bind (.bind (fun _ => rfl) fun _ => .pure _) fun cur => .bind (fun _ => rfl) fun curNames =>
    .bind (fun _ => rfl) fun oldNames => ?_
  dsimp only
  split_ifs
  · exact fun _ => rfl
  · exact .pure _

theorem Shared.Traffic.finals {sh : Shared E} {asks : Prop} {cid : ConnId} (h : sh.Traffic asks cid S.sh)
    (hsilent : sh.asyncResp = fun _ => []) (cid' : ConnId) :
    (S.sent.filterMap fun m => if m.1 = cid' then m.2.final? else none) = [] := by
  have hsent : S.sent = [] ∨ ∃ info dest, S.sent = [(info.conn, ⟨oplockBreakMessage info, dest⟩)] := by
    cases h with
    | calm h => exact .inl (sent_nil (h.queues.trans hsilent))
    | grant path info hask hconn ho hq hd => exact .inl (sent_nil (hq.trans hsilent))
    | broken path info dest hinfo ho hq hd => exact (sent_sendFinal hq hsilent).imp id fun h => ⟨info, dest, h⟩
  rcases hsent with h | ⟨info, dest, h⟩
  · rw [h, filterMap_nil]
  · rw [h, filterMap_cons]
    dsimp only
    rw [final?_oplockBreak, ite_self, filterMap_nil]

/-- An event is observed in a transition of its connection. -/
theorem observe_conn {N N' : Net E} {e : AsyncEvent} (h : observe N a N' = some e) :
    a = .server (.sub e.conn) ∨ a = .server (.reply e.conn) ∨ a = .server (.drain e.conn) := by
  unfold observe at h
  split at h
  · obtain ⟨c, -, h⟩ := bind_eq_some_iff.1 h
    obtain ⟨c', -, h⟩ := bind_eq_some_iff.1 h
    split_ifs at h
    cases h
    exact .inl rfl
  · obtain ⟨c, -, h⟩ := bind_eq_some_iff.1 h
    split_ifs at h
    cases h
    exact .inr (.inl rfl)
  · obtain ⟨q, -, h⟩ := bind_eq_some_iff.1 h
    split_ifs at h
    obtain ⟨id, -, rfl⟩ := map_eq_some_iff.1 h
    exact .inr (.inr rfl)
  · cases h

/-- In the other transitions nothing is observed of a connection. -/
theorem observe_other {N N' : Net E} {cid : ConnId}
    (h : a ≠ .server (.sub cid) ∧ a ≠ .server (.reply cid) ∧ a ≠ .server (.drain cid)) :
    issuedIds cid (observe N a N').toList = [] ∧ repliedIds cid (observe N a N').toList = [] ∧
      finalIds cid (observe N a N').toList = [] := by
  cases he : observe N a N' with
  | none => exact ⟨rfl, rfl, rfl⟩
  | some e =>
    have hne : e.conn ≠ cid := by
      rintro rfl
      rcases observe_conn he with ha | ha | ha
      · exact h.1 ha
      · exact h.2.1 ha
      · exact h.2.2 ha
    cases e with
    | issued cid' id => exact ⟨by simp [issuedIds, AsyncEvent.issuedOn, show cid' ≠ cid from hne], rfl, rfl⟩
    | replied cid' ids => exact ⟨rfl, by simp [repliedIds, AsyncEvent.repliedOn, show cid' ≠ cid from hne], rfl⟩
    | final cid' id => exact ⟨rfl, rfl, by simp [finalIds, AsyncEvent.finalOn, show cid' ≠ cid from hne]⟩

/-! ### The transitions -/

namespace Tracked

variable {cid : ConnId} {N N' : Net E} {log : List AsyncEvent} {c : Conn E} {lp : Loop}

/-- Where a transition of the net does not concern the connection. -/
theorem elsewhere (h : Tracked cid N log) (hbase : Base N'.sys) (hnext : N.sys.next ≤ N'.sys.next)
    (hconn : ∀ c, N'.sys.conns cid = some c → N.sys.conns cid = some c)
    (hfinals : ∀ id, (N'.finals cid).count id ≤ (N.finals cid).count id)
    (ha : a ≠ .server (.sub cid) ∧ a ≠ .server (.reply cid) ∧ a ≠ .server (.drain cid)) :
    Tracked cid N' (log ++ (observe N a N').toList) := by
  obtain ⟨hi, hr, hf⟩ := observe_other (N := N) (a := a) ha
  exact h.other hbase hnext hconn hfinals hi hr hf

theorem finals_congr (hs : N'.sends = N.sends) (hq : N'.sys.sh.asyncResp cid = N.sys.sh.asyncResp cid) (id : UInt64) :
    (N'.finals cid).count id ≤ (N.finals cid).count id := by
  rw [Net.finals, Net.finals, hs, hq]

theorem accept (h : Tracked cid N log) (hbase : Base N.sys.accept) :
    Tracked cid { N with sys := N.sys.accept } log := by
  by_cases hcid : cid = N.sys.next
  · have hnone : issuedIds cid log = [] := h.fresh hcid.ge
    have hreplied : repliedIds cid log = [] := by
      have hpre := h.replied
      rwa [hnone, prefix_nil] at hpre
    have hnew : ({ N with sys := N.sys.accept } : Net E).sys.conns cid = some (newConn N.sys.next) := by
      rw [hcid]
      exact update_self ..
    have hconn : ∀ c, ({ N with sys := N.sys.accept } : Net E).sys.conns cid = some c → c = newConn N.sys.next :=
      fun c hc => some.inj (hc.symm.trans hnew)
    refine ⟨hbase, fun _ => hnone, ⟨0, hnone, fun c hc => ?_⟩, fun id => ?_, fun c hc => ?_, fun c hc _ => ?_, h.replied, h.order⟩
    · rw [hconn c hc]
      rfl
    · have hbefore := h.once id
      have hwatched : ({ N with sys := N.sys.accept } : Net E).watched cid = [] := by
        rw [Net.watched, hnew]
        rfl
      rw [hwatched, count_nil]
      rw [hnone, count_nil] at hbefore ⊢
      have hfinals : ({ N with sys := N.sys.accept } : Net E).finals cid = N.finals cid := rfl
      rw [hfinals]
      omega
    · rw [hconn c hc]
      exact ⟨nofun, nofun, nofun⟩
    · rw [hconn c hc, hreplied, hnone]
      rfl
  · have hold : N.sys.accept.conns cid = N.sys.conns cid := update_of_ne hcid ..
    have hafter : Tracked cid { N with sys := N.sys.accept } (log ++ (none : Option AsyncEvent).toList) :=
      h.other hbase (Nat.le_succ _) (fun c hc => hold ▸ hc) (fun _ => le_rfl) rfl rfl rfl
    simpa using hafter

theorem recv {raw : Bytes} {reading : ConnId → Bool} (h : Tracked cid N log) (hc : N.sys.conns cid = some c)
    (hlive : c.dead = false) (hlp : c.loop = none) (hbase : Base (N.sys.exec cid c (receive raw))) :
    Tracked cid { N with sys := N.sys.exec cid c (receive raw), reading } log := by
  obtain ⟨c', hexec, hasync, hrun⟩ := N.sys.exec_conn cid c (receive raw)
  have hflow := receive_flow raw ⟨N.sys.sh, c⟩
  simp only [St.flow, Shared.channels, Prod.mk.injEq] at hflow
  have hsame : c'.async = c.async := hasync.trans hflow.1
  have hreply : (∀ lp, c'.loop = some lp → lp.Laid c'.out) ∧ (c'.dead = false → c'.interims = []) := by
    rcases hrun with ⟨s', hok, rfl⟩ | ⟨hnone, -⟩
    · rcases receive_ok hok with ⟨-, hkept⟩ | ⟨msg, via, hloop⟩
      · rw [hlp] at hkept
        exact ⟨Conn.laid_none hkept, fun _ => Conn.interims_none hkept⟩
      · refine ⟨fun lp hlp => ?_, fun _ => Conn.interims_some hloop⟩
        cases hloop.symm.trans hlp
        exact ⟨fun _ h => (by cases h), .nil, fun _ h => (by cases h)⟩
    · exact ⟨Conn.laid_none hnone, fun _ => Conn.interims_none hnone⟩
  have hconn : (N.sys.exec cid c (receive raw)).conns cid = some c' := by
    rw [hexec]
    exact put_conns_self ..
  let N1 : Net E := { N with sys := N.sys.exec cid c (receive raw), reading }
  have hfinals : ∀ id, (N1.finals cid).count id ≤ (N.finals cid).count id := by
    refine finals_congr rfl ?_
    show (N.sys.exec cid c (receive raw)).sh.asyncResp cid = _
    rw [exec_sh, hflow.2.2.1]
  have hafter : Tracked cid N1 (log ++ (none : Option AsyncEvent).toList) := by
    refine h.own hbase ?_ hc hconn (.inl ⟨congrArg Prod.fst hsame, rfl⟩) (fun id => ?_)
      ((h.tidy c hc).congr hsame hreply.1) (fun hd => ⟨hlive, ?_⟩) (.inl rfl) (fun _ h => by cases h)
    · show (N.sys.exec cid c (receive raw)).next = _
      rw [hexec]
      rfl
    · rw [Conn.watched_congr hsame]
      exact Nat.add_le_add_right (Nat.add_le_add_left (hfinals id) _) _
    · rw [hreply.2 hd, Conn.interims_none hlp]
      rfl
  simpa using hafter

theorem sub (h : Tracked cid N log) (hc : N.sys.conns cid = some c) (hlive : c.dead = false) (hlp : c.loop = some lp)
    (hN' : N' = N.launch (some cid) (N.sys.silent.exec cid c (subCommand srv lp))) (hbase : Base N'.sys) :
    Tracked cid N' (log ++ (observe N (.server (.sub cid)) N').toList) := by
  obtain ⟨c', hexec, hasync, hrun⟩ := N.sys.silent.exec_conn cid c (subCommand srv lp)
  have hl := (h.base _ _ hc).2.2
  have hconn : N'.sys.conns cid = some c' := by
    rw [hN', hexec]
    exact N.sys.silent.put_conns_self cid _
  have hop : c.Operated lp c' := (subCommand_operated srv lp hl N.sys.silent.sh).congr hasync
  have hobserved : issuedIds cid (observe N (.server (.sub cid)) N').toList = issuedBetween c.nextAsync c'.nextAsync ∧
      repliedIds cid (observe N (.server (.sub cid)) N').toList = [] ∧
      finalIds cid (observe N (.server (.sub cid)) N').toList = [] := by
    have hobserve : observe N (.server (.sub cid)) N' =
        if c'.nextAsync = c.nextAsync then none else some (.issued cid c'.nextAsync) := by
      unfold observe
      dsimp only
      rw [hc, hconn]
      rfl
    rw [hobserve]
    unfold issuedBetween
    split_ifs
    · exact ⟨rfl, rfl, rfl⟩
    · exact ⟨by simp [issuedIds, AsyncEvent.issuedOn], rfl, rfl⟩
  have hfinals : ∀ id, (N'.finals cid).count id = (N.finals cid).count id := by
    intro id
    have htraffic := subCommand_traffic srv lp hl N.sys.silent.sh
    have hS : (N.sys.silent.exec cid c (subCommand srv lp)).sh = (subCommand srv lp ⟨N.sys.silent.sh, c⟩).state.sh :=
      exec_sh ..
    rw [← hS] at htraffic
    rw [hN', Net.finals_launch, htraffic.finals rfl cid, count_nil, Nat.add_zero]
  have hreply : (∀ lp', c'.loop = some lp' → lp'.Laid c'.out) ∧
      (c'.dead = false → c'.interims = c.interims ++ issuedBetween c.nextAsync c'.nextAsync) := by
    rcases hrun with ⟨s', hok, rfl⟩ | ⟨hnone, hdead⟩
    · obtain ⟨hlaid, hinterims⟩ := subCommand_ok ((h.tidy c hc).laid lp hlp) hl hok
      exact ⟨hlaid, fun _ => hinterims.trans (by rw [Conn.interims_some hlp])⟩
    · exact ⟨Conn.laid_none hnone, fun hd => absurd (hdead.symm.trans hd) (by decide)⟩
  obtain ⟨hi, hr, hf⟩ := hobserved
  have hissued : c'.nextAsync = c.nextAsync ∧ c'.watched = c.watched ∧ issuedBetween c.nextAsync c'.nextAsync = [] ∨
      c'.nextAsync = c.nextAsync + 1 ∧ c'.watched = c.watched ++ [c.nextAsync + 1] ∧
        issuedBetween c.nextAsync c'.nextAsync = [c.nextAsync + 1] := by
    rcases hop.starts with ⟨hnext, -, hwatchers⟩ | ⟨w, hnext, -, hwatchers, hid, -⟩
    · exact .inl ⟨hnext, by rw [Conn.watched, hwatchers, Conn.watched], if_pos hnext⟩
    · have hne : ¬c.nextAsync + 1 = c.nextAsync := fun h => absurd (UInt64.add_eq_left.1 h) (by decide)
      refine .inr ⟨hnext, ?_, ?_⟩
      · rw [Conn.watched, hwatchers, map_append, map_singleton, hid, Conn.watched]
      · rw [issuedBetween, hnext, if_neg hne]
  refine h.own hbase (by rw [hN', hexec]; rfl) hc hconn ?_ (fun id => ?_) ((h.tidy c hc).operated hop hreply.1)
    (fun hd => ⟨hlive, ?_⟩) (.inl hr) fun id hid => ?_
  · rw [hi]
    exact hissued.imp (fun h => ⟨h.1, h.2.2⟩) fun h => ⟨h.1, h.2.2⟩
  · rw [hi, hf, hfinals, count_nil]
    rcases hissued with ⟨-, hwatched, hnone⟩ | ⟨-, hwatched, hone⟩
    · rw [hwatched, hnone, count_nil]
    · rw [hwatched, hone, count_append]
      omega
  · rw [hr, hi, hreply.2 hd]
    rfl
  · rw [hid] at hf
    simp [finalIds, AsyncEvent.finalOn] at hf

theorem reply (h : Tracked cid N log) (hc : N.sys.conns cid = some c) (hlive : c.dead = false) (hlp : c.loop = some lp)
    (hN' : N' = { N with sys := N.sys.exec cid c (sendReply lp) }) (hbase : Base N'.sys) :
    Tracked cid N' (log ++ (observe N (.server (.reply cid)) N').toList) := by
  obtain ⟨c', hexec, hasync, hrun⟩ := N.sys.exec_conn cid c (sendReply lp)
  have hflow := sendReply_flow lp ⟨N.sys.sh, c⟩
  simp only [St.flow, Shared.channels, Prod.mk.injEq] at hflow
  have hsame : c'.async = c.async := hasync.trans hflow.1
  have hconn : N'.sys.conns cid = some c' := by
    rw [hN', hexec]
    exact put_conns_self ..
  have hsh : N'.sys.sh = (sendReply lp ⟨N.sys.sh, c⟩).state.sh := by
    rw [hN']
    exact exec_sh ..
  have hobserve : observe N (.server (.reply cid)) N' = if N.writes N' then some (.replied cid c.interims) else none := by
    unfold observe
    dsimp only
    rw [hc]
    rfl
  have hi : issuedIds cid (observe N (.server (.reply cid)) N').toList = [] := by
    rw [hobserve]
    split_ifs <;> rfl
  have hf : finalIds cid (observe N (.server (.reply cid)) N').toList = [] := by
    rw [hobserve]
    split_ifs <;> rfl
  have hr : repliedIds cid (observe N (.server (.reply cid)) N').toList = if N.writes N' then c.interims else [] := by
    rw [hobserve]
    split_ifs
    · simp [repliedIds, AsyncEvent.repliedOn]
    · rfl
  have hloop : c'.loop = none := by
    rcases hrun with ⟨s', hok, rfl⟩ | ⟨hnone, -⟩
    · exact sendReply_loop hok
    · exact hnone
  -- A reply that was not written had no responses, or its connection is gone.
  have hwritten : c'.dead = false → (if N.writes N' then c.interims else []) = c.interims := by
    intro hd
    split_ifs with hw
    · rfl
    rcases hrun with ⟨s', hok, rfl⟩ | ⟨-, hdead⟩
    · rcases sendReply_ok hok with hout | hdead | htrace
      · rw [Conn.interims_some hlp, ((h.tidy c hc).laid lp hlp).interims_nil hout]
      · exact absurd (hdead.symm.trans hd) (by decide)
      · refine absurd (decide_eq_true ?_) hw
        rw [hsh, hok]
        exact htrace
    · exact absurd (hdead.symm.trans hd) (by decide)
  refine h.own hbase (by rw [hN', hexec]; rfl) hc hconn (.inl ⟨congrArg Prod.fst hsame, hi⟩) (fun id => ?_)
    ((h.tidy c hc).congr hsame (Conn.laid_none hloop)) (fun hd => ⟨hlive, ?_⟩) ?_ fun id hid => ?_
  · rw [Conn.watched_congr hsame, hi, hf]
    refine Nat.add_le_add_right (Nat.add_le_add_left (finals_congr ?_ ?_ id) _) _
    · rw [hN']
    · rw [hsh, hflow.2.2.1]
  · rw [hi, hr, hwritten hd, Conn.interims_none hloop]
  · rw [hr]
    split_ifs
    · exact .inr ⟨hlive, rfl⟩
    · exact .inl rfl
  · rw [hid] at hf
    simp [finalIds, AsyncEvent.finalOn] at hf

theorem drain {q : Queued} {rest : List Queued} {reading : ConnId → Bool} (h : Tracked cid N log)
    (hc : N.sys.conns cid = some c) (hq : N.sys.sh.asyncResp c.id = q :: rest) (hlive : c.dead = false) (hlp : c.loop = none)
    (hN' : N' = { N with sys := N.sys.exec cid c (drainOne q rest), reading }) (hbase : Base N'.sys) :
    Tracked cid N' (log ++ (observe N (.server (.drain cid)) N').toList) := by
  have hid := (h.base _ _ hc).1
  rw [hid] at hq
  obtain ⟨c', hexec, hasync, hrun⟩ := N.sys.exec_conn cid c (drainOne q rest)
  have hflow := drainOne_flow q rest ⟨N.sys.sh, c⟩
  simp only [St.flow, Shared.channels, Prod.mk.injEq] at hflow
  have hsame : c'.async = c.async := hasync.trans hflow.1
  have hconn : N'.sys.conns cid = some c' := by
    rw [hN', hexec]
    exact put_conns_self ..
  have hobserve : observe N (.server (.drain cid)) N' = if N.writes N' then q.final?.map (.final cid) else none := by
    unfold observe
    dsimp only
    rw [hq]
    rfl
  have hi : issuedIds cid (observe N (.server (.drain cid)) N').toList = [] := by
    rw [hobserve]
    split_ifs
    · cases q.final? <;> rfl
    · rfl
  have hr : repliedIds cid (observe N (.server (.drain cid)) N').toList = [] := by
    rw [hobserve]
    split_ifs
    · cases q.final? <;> rfl
    · rfl
  have hf : ∀ id, (finalIds cid (observe N (.server (.drain cid)) N').toList).count id ≤ q.final?.toList.count id := by
    intro id
    rw [hobserve]
    split_ifs
    · cases q.final? with
      | none => exact Nat.zero_le _
      | some id' => simp [finalIds, AsyncEvent.finalOn]
    · exact Nat.zero_le _
  have hfinals : ∀ id, (N'.finals cid).count id + q.final?.toList.count id = (N.finals cid).count id := by
    intro id
    have hqueue : N'.sys.sh.asyncResp cid = rest := by
      have hsh : N'.sys.sh = (drainOne q rest ⟨N.sys.sh, c⟩).state.sh := by
        rw [hN']
        exact exec_sh ..
      rw [hsh, hflow.2.2.1, hid, update_self]
    have hsends : N'.sends = N.sends := by rw [hN']
    rw [Net.finals, Net.finals, hqueue, hq, hsends, count_append, count_append, filterMap_cons]
    cases q.final? with
    | none => rfl
    | some id' =>
      simp only [toList_some, count_cons, count_nil]
      omega
  have hkept : c'.loop = none := by
    rcases hrun with ⟨s', hok, rfl⟩ | ⟨hnone, -⟩
    · have hframe := drainOne_background q rest ⟨N.sys.sh, c⟩
      rw [hok] at hframe
      exact (congrArg (fun f => f.2.2) hframe).trans hlp
    · exact hnone
  -- Between two frames every interim response has been written.
  have hall : repliedIds cid log = issuedIds cid log := by
    have hlive := h.live c hc hlive
    rwa [Conn.interims_none hlp, append_nil] at hlive
  refine h.own hbase (by rw [hN', hexec]; rfl) hc hconn (.inl ⟨congrArg Prod.fst hsame, hi⟩) (fun id => ?_)
    ((h.tidy c hc).congr hsame (Conn.laid_none hkept)) (fun _ => ⟨hlive, ?_⟩) (.inl hr) fun id hid => ?_
  · rw [Conn.watched_congr hsame, hi, count_nil]
    have := hf id
    have := hfinals id
    omega
  · rw [hi, hr, Conn.interims_none hkept, Conn.interims_none hlp]
  · rw [hall, ← count_pos_iff]
    have hfinal : q.final? = some id := by
      rw [hobserve] at hid
      split_ifs at hid
      obtain ⟨id', hq', he⟩ := map_eq_some_iff.1 hid
      rw [hq', AsyncEvent.final.inj he |>.2]
    have := h.once id
    have := hfinals id
    rw [hfinal, toList_some, count_singleton_self] at this
    omega

theorem watch {m : M E Unit} (h : Tracked cid N log)
    (ha : a ≠ .server (.sub cid) ∧ a ≠ .server (.reply cid) ∧ a ≠ .server (.drain cid))
    (hm : m = watchTick i w ∨ m = watchDone i w) (hc : N.sys.conns cid = some c) (hw : c.watchers[i]? = some w)
    (hN' : N' = N.launch none (N.sys.silent.exec cid c m)) (hbase : Base N'.sys) :
    Tracked cid N' (log ++ (observe N a N').toList) := by
  obtain ⟨c', hexec, hasync, hrun⟩ := N.sys.silent.exec_conn cid c m
  have hquiet : issuedIds cid (observe N a N').toList = [] ∧ repliedIds cid (observe N a N').toList = [] ∧
      finalIds cid (observe N a N').toList = [] := observe_other ha
  obtain ⟨hi, hr, hf⟩ := hquiet
  have hconn : N'.sys.conns cid = some c' := by
    rw [hN', hexec]
    exact N.sys.silent.put_conns_self cid _
  have hbackground : Background m := by
    rcases hm with rfl | rfl
    · exact watchTick_background i w
    · exact finalizeCN_background i w _ _
  have hdead : Keeps (fun s => s.c.dead) m := by
    rcases hm with rfl | rfl
    · exact watchTick_dead i w
    · exact fun _ => rfl
  have hreply : (∀ lp', c'.loop = some lp' → lp'.Laid c'.out) ∧
      (c'.dead = false → c.dead = false ∧ c'.interims = c.interims) := by
    rcases hrun with ⟨s', hok, rfl⟩ | ⟨hnone, hstop⟩
    · have hframe : (m ⟨N.sys.silent.sh, c⟩).state.c.frame = c.frame := hbackground ⟨N.sys.silent.sh, c⟩
      have hdead : (m ⟨N.sys.silent.sh, c⟩).state.c.dead = c.dead := hdead ⟨N.sys.silent.sh, c⟩
      rw [hok] at hframe hdead
      change s'.c.dead = c.dead at hdead
      change s'.c.frame = c.frame at hframe
      simp only [Conn.frame, Prod.mk.injEq] at hframe
      obtain ⟨hout, -, hloop⟩ := hframe
      refine ⟨fun lp' hlp' => ?_, fun hd => ⟨hdead ▸ hd, ?_⟩⟩
      · rw [hout]
        exact (h.tidy c hc).laid lp' (hloop ▸ hlp')
      · rw [Conn.interims, Conn.interims, hloop, hout]
    · exact ⟨Conn.laid_none hnone, fun hd => absurd (hstop.symm.trans hd) (by decide)⟩
  have hS : (N.sys.silent.exec cid c m).sh = (m ⟨N.sys.silent.sh, c⟩).state.sh := exec_sh ..
  have hlive : c'.dead = false → c.dead = false ∧ repliedIds cid (observe N a N').toList ++ c'.interims =
      c.interims ++ issuedIds cid (observe N a N').toList := by
    intro hd
    obtain ⟨hd', hinterims⟩ := hreply.2 hd
    exact ⟨hd', by rw [hr, hi, hinterims, append_nil, nil_append]⟩
  have hfinal : ∀ id, observe N a N' = some (.final cid id) → id ∈ repliedIds cid log := by
    intro id hev
    rw [hev] at hf
    simp [finalIds, AsyncEvent.finalOn] at hf
  rcases watch_flow hm ⟨N.sys.silent.sh, c⟩ with hsame | ⟨q, hfin⟩
  · simp only [St.flow, Shared.channels, Prod.mk.injEq] at hsame
    have hsame' : c'.async = c.async := hasync.trans hsame.1
    refine h.own hbase (by rw [hN', hexec]; rfl) hc hconn (.inl ⟨congrArg Prod.fst hsame', hi⟩) (fun id => ?_)
      ((h.tidy c hc).congr hsame' hreply.1) hlive (.inl hr) hfinal
    rw [Conn.watched_congr hsame', hi, hf, hN', Net.finals_launch, sent_nil (hS ▸ hsame.2.2.1)]
    simp
  · have hcmd := (h.tidy c hc).notify w (mem_of_getElem? hw)
    have hch := hfin.channels
    simp only [Shared.channels, Prod.mk.injEq] at hch
    have hsent := sent_sendFinal (S := N.sys.silent.exec cid c m) ((congrArg Shared.asyncResp hS).trans hch.2.1) rfl
    have hasync' := hasync.trans hfin.async
    refine h.own hbase (by rw [hN', hexec]; rfl) hc hconn (.inl ⟨congrArg Prod.fst hasync', hi⟩) (fun id => ?_)
      ((h.tidy c hc).finalized hw hasync' hreply.1) hlive (.inl hr) hfinal
    have hwatched : c'.watched = (c.watchers.eraseIdx i).map fun w => w.op.asyncID :=
      congrArg (fun a => a.2.2.2.2.map fun w : Watcher E => w.op.asyncID) hasync'
    have hcount := count_watched_eraseIdx hw id
    have hsends : ((N.sys.silent.exec cid c m).sent.filterMap fun m => if m.1 = cid then m.2.final? else none).count id ≤
        [w.op.asyncID].count id := by
      rcases hsent with hnone | hone
      · rw [hnone]
        exact Nat.zero_le _
      · rw [hone, filterMap_cons]
        dsimp only
        rw [if_pos (h.base _ _ hc).1, hfin.sends.final? hcmd]
        exact le_rfl
    rw [hi, hf, hwatched, hN', Net.finals_launch, Conn.watched]
    simp only [count_nil]
    omega

theorem put {s : Send} (h : Tracked cid N log) (hj : N.sends[j]? = some s)
    (hN' : N' = { N with
      sends := N.sends.eraseIdx j
      sys := N.sys.setQueues (Function.update N.sys.sh.asyncResp s.target (N.sys.sh.asyncResp s.target ++ [s.msg])) }) :
    Tracked cid N' (log ++ (observe N (.send j) N').toList) := by
  refine h.elsewhere (by rw [hN']; exact h.base) (by rw [hN']; exact le_rfl) (fun c hc => by rw [hN'] at hc; exact hc)
    (fun id => ?_) ⟨by simp, by simp, by simp⟩
  have hcount := count_filterMap_eraseIdx (fun s : Send => if s.target = cid then s.msg.final? else none) hj id
  rw [hN']
  unfold Net.finals setQueues
  dsimp only
  rw [count_append, count_append]
  by_cases htarget : s.target = cid
  · rw [htarget, update_self, filterMap_append, count_append]
    rw [if_pos htarget] at hcount
    have hone : ([s.msg].filterMap Queued.final?).count id = s.msg.final?.toList.count id := by
      rw [filterMap_cons]
      cases s.msg.final? <;> rfl
    rw [hone]
    omega
  · rw [update_of_ne fun h => htarget h.symm]
    omega

theorem drop (h : Tracked cid N log) :
    Tracked cid { N with sends := N.sends.eraseIdx j } (log ++ (observe N (.send j) { N with sends := N.sends.eraseIdx j }).toList) := by
  refine h.elsewhere h.base le_rfl (fun c hc => hc) (fun id => ?_) ⟨by simp, by simp, by simp⟩
  unfold Net.finals
  dsimp only
  rw [count_append, count_append]
  exact Nat.add_le_add_right (((N.sends.eraseIdx_sublist j).filterMap _).count_le id) _

end Tracked


/-- A watcher sends to its own connection only. -/
theorem watch_sent_other {N : Net E} {cid cid' : ConnId} {c : Conn E} {m : M E Unit}
    (hid : c.id = cid') (hcid : cid' ≠ cid) (hm : m = watchTick i w ∨ m = watchDone i w) :
    ((N.sys.silent.exec cid' c m).sent.filterMap fun m => if m.1 = cid then m.2.final? else none) = [] := by
  have hS : (N.sys.silent.exec cid' c m).sh = (m ⟨N.sys.silent.sh, c⟩).state.sh := exec_sh ..
  rcases watch_flow hm ⟨N.sys.silent.sh, c⟩ with hsame | ⟨q, hfin⟩
  · simp only [St.flow, Shared.channels, Prod.mk.injEq] at hsame
    rw [sent_nil (hS ▸ hsame.2.2.1), filterMap_nil]
  · have hch := hfin.channels
    simp only [Shared.channels, Prod.mk.injEq] at hch
    rcases sent_sendFinal (S := N.sys.silent.exec cid' c m) ((congrArg Shared.asyncResp hS).trans hch.2.1) rfl with
      hnone | hone
    · rw [hnone, filterMap_nil]
    · rw [hone, filterMap_cons, filterMap_nil]
      dsimp only
      rw [if_neg (hid ▸ hcid)]

/-- **Every transition keeps track.** -/
theorem Tracked.step {cid : ConnId} {N N' : Net E} {log : List AsyncEvent} (h : Tracked cid N log)
    (hstep : N.step srv a = some N') : Tracked cid N' (log ++ (observe N a N').toList) := by
  have htook := Net.step_took hstep
  have hbase := htook.base h.base
  have hput : ∀ {S : Sys E} {cid' : ConnId} {c : Conn E} {m : M E Unit} {c1 : Conn E}, cid' ≠ cid →
      (S.exec cid' c m).conns cid = some c1 → S.conns cid = some c1 := by
    intro S cid' c m c1 hne hc1
    obtain ⟨c', hexec, -, -⟩ := S.exec_conn cid' c m
    rwa [hexec, put_conns_of_ne _ hne.symm] at hc1
  have hnext : ∀ (S : Sys E) (cid' : ConnId) (c : Conn E) (m : M E Unit), S.next ≤ (S.exec cid' c m).next := by
    intro S cid' c m
    obtain ⟨c', hexec, -, -⟩ := S.exec_conn cid' c m
    rw [hexec]
    exact le_rfl
  cases htook with
  | accept =>
    have hafter := h.accept hbase
    simpa [observe] using hafter
  | @recv cid' raw c hr hc hlive hlp =>
    by_cases hcid : cid' = cid
    · subst hcid
      have hafter : Tracked cid' { N with
          sys := N.sys.exec cid' c (receive raw)
          reading := Function.update N.reading cid' false } log := h.recv hc hlive hlp hbase
      simpa [observe] using hafter
    · have hflow := receive_flow raw ⟨N.sys.sh, c⟩
      simp only [St.flow, Shared.channels, Prod.mk.injEq] at hflow
      refine h.elsewhere hbase (hnext ..) (fun c1 => hput hcid) (fun id => ?_)
        ⟨by simp, by simp, by simp⟩
      refine Tracked.finals_congr ?_ ?_ id
      · rfl
      · dsimp only
        rw [exec_sh, hflow.2.2.1]
  | @sub cid' c lp hb hc hlive hlp hfin =>
    by_cases hcid : cid' = cid
    · subst hcid
      exact h.sub hc hlive hlp rfl hbase
    · have htraffic := subCommand_traffic srv lp (h.base _ _ hc).2.2 N.sys.silent.sh
      rw [← show (N.sys.silent.exec cid' c (subCommand srv lp)).sh = _ from exec_sh ..] at htraffic
      refine h.elsewhere hbase (hnext N.sys.silent cid' c _) (fun c1 => hput (S := N.sys.silent) hcid) (fun id => ?_)
        ⟨by simp [hcid], by simp, by simp⟩
      rw [Net.finals_launch, htraffic.finals rfl cid, count_nil, Nat.add_zero]
  | @reply cid' c lp hb hc hlive hlp hfin =>
    by_cases hcid : cid' = cid
    · subst hcid
      exact h.reply hc hlive hlp rfl hbase
    · have hflow := sendReply_flow lp ⟨N.sys.sh, c⟩
      simp only [St.flow, Shared.channels, Prod.mk.injEq] at hflow
      refine h.elsewhere hbase (hnext ..) (fun c1 => hput hcid) (fun id => ?_)
        ⟨by simp, by simp [hcid], by simp⟩
      refine Tracked.finals_congr ?_ ?_ id
      · rfl
      · dsimp only
        rw [exec_sh, hflow.2.2.1]
  | @drain cid' c q rest hr hc hq hlive hlp =>
    by_cases hcid : cid' = cid
    · subst hcid
      exact h.drain hc hq hlive hlp rfl hbase
    · have hflow := drainOne_flow q rest ⟨N.sys.sh, c⟩
      simp only [St.flow, Shared.channels, Prod.mk.injEq] at hflow
      refine h.elsewhere hbase (hnext ..) (fun c1 => hput hcid) (fun id => ?_)
        ⟨by simp, by simp, by simp [hcid]⟩
      refine Tracked.finals_congr ?_ ?_ id
      · rfl
      · dsimp only
        rw [exec_sh, hflow.2.2.1, (h.base _ _ hc).1, update_of_ne fun h => hcid h.symm]
  | @watch a cid' i c w m ha hm hc hw =>
    have hother : a ≠ .server (.sub cid) ∧ a ≠ .server (.reply cid) ∧ a ≠ .server (.drain cid) := by
      rcases ha with rfl | rfl | rfl <;> exact ⟨by simp, by simp, by simp⟩
    by_cases hcid : cid' = cid
    · subst hcid
      exact h.watch hother hm hc hw rfl hbase
    · refine h.elsewhere hbase (hnext N.sys.silent cid' c _) (fun c1 => hput (S := N.sys.silent) hcid) (fun id => ?_) hother
      rw [Net.finals_launch, watch_sent_other (h.base _ _ hc).1 hcid hm, count_nil, Nat.add_zero]
  | @close cid' c s' hb hc hcl =>
    obtain ⟨l, -, hends⟩ := hcl.ends
    have hqueues : (N.sys.remove cid' s'.sh).sh.asyncResp = N.sys.sh.asyncResp := (Shared.Calm.of_ends hends).queues
    refine h.elsewhere hbase le_rfl (fun c1 hc1 => (conns_remove hc1).2) (fun id => ?_) ⟨by simp, by simp, by simp⟩
    refine Tracked.finals_congr ?_ ?_ id
    · rfl
    · exact congrFun hqueues cid
  | drop hj hd => exact h.drop
  | put hj hd hlen => exact h.put hj rfl
  | await hidle hq => exact h.elsewhere hbase le_rfl (fun _ hc => hc) (fun _ => le_rfl) ⟨by simp, by simp, by simp⟩
  | timeout => exact h.elsewhere hbase le_rfl (fun _ hc => hc) (fun _ => le_rfl) ⟨by simp, by simp, by simp⟩

/-- **In every run the AsyncIds are kept track of.** -/
theorem reach_tracked (cid : ConnId) {w : E.World} {N : Net E} {log : List AsyncEvent}
    (hN : ((net srv w).recording observe).Reach (fun _ _ => True) (N, log)) : Tracked cid N log := by
  refine hN.invariant (I := fun p => Tracked cid p.1 p.2) ?_ fun p a p' hp _ hstep => ?_
  · refine ⟨nofun, fun _ => rfl, ⟨0, rfl, nofun⟩, fun id => le_rfl,
      nofun, nofun, nil_prefix, fun older id newer h => ?_⟩
    cases older <;> cases h
  · obtain ⟨N', hN', rfl⟩ := map_eq_some_iff.1 hstep
    exact hp.step hN'

/-! ### A CANCEL without an operation -/

/-- **A CANCEL of an operation that is not pending** is answered, and changes nothing
else. -/
theorem round_cancel_idle (srv : Config E) {c : Conn E} {lp : Loop} {k : Command E} (hk : nextCommand c lp = some k)
    (hcmd : k.hdr.command = cmdCancel) (hp : c.pending.lookup k.hdr.asyncId = none) (sh : Shared E) :
    ∃ lp' out balance, round srv lp ⟨sh, c⟩ = .ok lp' ⟨sh, { c with out, creditBalance := balance }⟩ := by
  have hroute : ∃ r out, r.hdr = k.hdr ∧ route srv k.origin k.hdr k.lp
      ((⟨sh, c.charge k.hdr.creditCharge⟩ : St E).answering k.lp) =
        .ok r ⟨sh, { c.charge k.hdr.creditCharge with out }⟩ := by
    unfold route
    split_ifs with hfailed hcancel
    · exact ⟨_, _, rfl, rfl⟩
    · have hidle : ∀ c' : Conn E, c'.pending = c.pending → c'.cancelPending k.hdr.asyncId = c' := by
        intro c' hsame
        rw [Conn.cancelPending, hsame, hp]
      let s0 : St E := (⟨sh, c.charge k.hdr.creditCharge⟩ : St E).answering k.lp
      have hmodify : (modifyConn (fun c => c.cancelPending k.hdr.asyncId) : M E Unit) s0 = .ok () s0 := by
        have hrun : (modifyConn (fun c => c.cancelPending k.hdr.asyncId) : M E Unit) s0 =
            .ok () ⟨s0.sh, s0.c.cancelPending k.hdr.asyncId⟩ := rfl
        rw [hrun, hidle s0.c rfl]
      have hhandler : handleCancel k.hdr s0 = .ok statusSuccess ⟨s0.sh, { s0.c with out := s0.c.out ++ simpleResponse }⟩ := by
        rw [handleCancel, bind_ok hmodify]
        rfl
      rw [bind_ok hhandler]
      exact ⟨_, _, rfl, rfl⟩
    · exact absurd hcmd hcancel
  obtain ⟨r, out, hhdr, hroute⟩ := hroute
  obtain ⟨start, reply, hrun, -, -⟩ := respond_eq hroute
  rw [round_eq_respond srv hk (by rw [hcmd]; decide), hrun]
  obtain ⟨out', heq⟩ := Conn.finishResponse_eq srv ({ c.charge k.hdr.creditCharge with out } : Conn E) k.lp.first
    r.status r.hdr start (by rw [hhdr, hcmd]; decide)
  dsimp only
  rw [heq]
  exact ⟨_, out', _, rfl⟩

/-! ### Once, and in order -/

/-- The next command is a CANCEL of an operation that is not pending. -/
def Command.cancelsNothing (k : Command E) : Bool :=
  decide (k.hdr.command = cmdCancel) && (k.before.pending.lookup k.hdr.asyncId).isNone

/-- Nothing changes but the reply of the connection and its credits. -/
def Net.OnlyReplies (N : Net E) (cid : ConnId) (N' : Net E) : Prop :=
  ∃ c out balance lp, N.sys.conns cid = some c ∧
    N' = { N with sys := N.sys.put cid ⟨N.sys.sh, { c with out, creditBalance := balance, loop := some lp }⟩ }

/-- Asynchronous operations complete at most once and in order. -/
structure AsyncOnce (srv : Config E) (cid : ConnId) (N : Net E) (log : List AsyncEvent) : Prop where
  /-- AsyncIds are distinct. -/
  distinct : (issuedIds cid log).Nodup
  /-- Each has one interim response, which is written or in the reply being made. -/
  interim : ∀ c, N.sys.conns cid = some c → c.dead = false → repliedIds cid log ++ c.interims = issuedIds cid log
  /-- A connection that has stopped wrote the interim responses of the first ones. -/
  stopped : repliedIds cid log <+: issuedIds cid log
  /-- Each has one final response at most, written, in the channel or on its way. -/
  final : (finalIds cid log ++ N.finals cid).Nodup ∧ (finalIds cid log ++ N.finals cid) ⊆ issuedIds cid log
  /-- A final response is written after its interim response. -/
  order : ∀ older id newer, log = older ++ .final cid id :: newer → id ∈ repliedIds cid older
  /-- A CANCEL of an operation that is not pending changes nothing. -/
  cancel : ∀ N', N.step srv (.server (.sub cid)) = some N' → N.sys.faces cid Command.cancelsNothing = true →
    N.OnlyReplies cid N'
  /-- An operation with a final response is not pending. -/
  unregistered : ∀ c, N.sys.conns cid = some c → ∀ id ∈ finalIds cid log ++ N.finals cid, c.pending.lookup id = none

theorem nodup_firstIds {n : ℕ} (h : n ≤ 2 ^ 64) : (firstIds n).Nodup := by
  refine Nodup.map_on (fun i hi j hj heq => ?_) nodup_range
  rw [mem_range] at hi hj
  have hmod := congrArg UInt64.toNat heq
  rw [UInt64.toNat_ofNat', UInt64.toNat_ofNat'] at hmod
  omega

theorem Net.onlyReplies_of_cancel {N N' : Net E} {cid : ConnId} (hstep : N.step srv (.server (.sub cid)) = some N')
    (hfaces : N.sys.faces cid Command.cancelsNothing = true) : N.OnlyReplies cid N' := by
  obtain ⟨c, lp, k, hc, hlp, hk, hp⟩ := faces_spec hfaces
  simp only [Command.cancelsNothing, Bool.and_eq_true, decide_eq_true_eq, isNone_iff_eq_none] at hp
  rw [(nextCommand_spec hk).1] at hp
  obtain ⟨lp', out, balance, hround⟩ := round_cancel_idle srv hk hp.1 hp.2 N.sys.silent.sh
  cases Net.step_took hstep with
  | @sub _ c' lp0 hb hc' hlive hlp0 hfin =>
    cases hc.symm.trans hc'
    cases hlp.symm.trans hlp0
    have hexec : N.sys.silent.exec cid c (subCommand srv lp) = N.sys.silent.put cid
        ⟨N.sys.silent.sh, { c with out, creditBalance := balance, loop := some lp' }⟩ := by
      have hrun : subCommand srv lp ⟨N.sys.silent.sh, c⟩ =
          .ok () ⟨N.sys.silent.sh, { c with out, creditBalance := balance, loop := some lp' }⟩ := by
        rw [subCommand, bind_ok hround]
        rfl
      rw [Sys.exec, hrun]
      rfl
    have hsent : (N.sys.silent.put cid
        ⟨N.sys.silent.sh, { c with out, creditBalance := balance, loop := some lp' }⟩).sent = [] := sent_nil rfl
    refine ⟨c, out, balance, lp', hc, ?_⟩
    rw [hexec, Net.launch, hsent, map_nil, append_nil]
    rfl
  | watch ha hm hc hw => rcases ha with ha | ha | ha <;> cases ha

/-- **Asynchronous operations complete at most once and in order**, up to the `2^64`th of
a connection. -/
theorem async_once (srv : Config E) (w : E.World) (N : Net E) (log : List AsyncEvent) (cid : ConnId)
    (hN : ((net srv w).recording observe).Reach (fun _ _ => True) (N, log)) (hlen : (issuedIds cid log).length ≤ 2 ^ 64) :
    AsyncOnce srv cid N log := by
  have h := reach_tracked cid hN
  obtain ⟨n, hn, -⟩ := h.issued
  have hdistinct : (issuedIds cid log).Nodup := by
    rw [hn] at hlen ⊢
    refine nodup_firstIds ?_
    rwa [firstIds, List.length_map, List.length_range] at hlen
  have honce : ∀ id, (N.watched cid).count id + (finalIds cid log ++ N.finals cid).count id ≤ 1 := by
    intro id
    have := h.once id
    have := List.nodup_iff_count_le_one.1 hdistinct id
    rw [List.count_append]
    omega
  refine ⟨hdistinct, h.live, h.replied, ⟨List.nodup_iff_count_le_one.2 fun id => ?_, fun id hid => ?_⟩, h.order,
    fun N' => Net.onlyReplies_of_cancel, fun c hc id hid => ?_⟩
  · have := honce id
    omega
  · have hpos := List.count_pos_iff.2 hid
    have := h.once id
    rw [← List.count_pos_iff]
    rw [List.count_append] at hpos
    omega
  · have hpos := List.count_pos_iff.2 hid
    have hwatched := honce id
    rw [Net.watched, hc, Option.map_some, Option.getD_some] at hwatched
    cases hp : c.pending.lookup id with
    | none => rfl
    | some op =>
      have hmem := List.count_pos_iff.2 ((h.tidy c hc).pending id (by rw [hp]; rfl))
      omega

/-! ### A connection that goes on watching -/

/-- A CHANGE_NOTIFY of the first open of a guest. -/
def notifyFrame : Bytes :=
  Header.encode { command := cmdChangeNotify, sessionId := 1 } ++
    put16 32 ++ put16 0 ++ put32 0 ++ (makeFileID 1 0 1).1 ++ put32 0 ++ put32 0

theorem parse_notifyFrame : ∃ hdr, Header.parse notifyFrame = .ok hdr ∧ hdr.flags = 0 ∧ hdr.command = cmdChangeNotify ∧
    hdr.sessionId = 1 ∧ hdr.treeId = 0 ∧ hdr.nextCommand = 0 :=
  ⟨_, Header.parse_ok (by decide) (by decide), by decide⟩

theorem changeNotify_notifyFrame : ∃ req, ChangeNotifyRequest.parse notifyFrame = .ok req ∧ req.fileId = makeFileID 1 0 1 :=
  ⟨_, rfl, by decide⟩

/-- The connection of a guest with an open. -/
structure Conn.Watching (c : Conn guestEnv) : Prop where
  alive : c.dead = false
  plain : c.requiresEncryption 1 = false
  unsigned : ∀ sess, c.session? 1 = some sess → sess.requireSign = false
  opened : (c.open? 1 0 (makeFileID 1 0 1)).isSome

theorem Conn.Watching.congr {c c' : Conn guestEnv} (h : c.Watching) (hsess : c'.sessions = c.sessions)
    (hdead : c'.dead = c.dead) : c'.Watching := by
  have hsession : ∀ sid, c'.session? sid = c.session? sid := fun sid => by rw [Conn.session?, Conn.session?, hsess]
  have hopen : ∀ sid tid fid, c'.open? sid tid fid = c.open? sid tid fid := fun sid tid fid => by
    rw [Conn.open?, Conn.open?, Conn.tree?, Conn.tree?, hsession]
  refine ⟨hdead.trans h.alive, ?_, fun sess hs => h.unsigned sess (hsession 1 ▸ hs), hopen .. ▸ h.opened⟩
  rw [Conn.requiresEncryption, hsession]
  exact h.plain

/-- The guest waits for a frame. -/
structure Net.Watching (N : Net guestEnv) : Prop where
  reading : N.reading 0 = true
  sends : N.sends = []
  queue : N.sys.sh.asyncResp 0 = []
  conn : ∃ c, N.sys.conns 0 = some c ∧ c.loop = none ∧ c.Watching

/-- A CHANGE_NOTIFY that is alone in its frame starts an operation. -/
theorem Sys.step_watches (srv : Config E) {cid : ConnId} {c : Conn E} {lp : Loop} {k : Command E}
    (hc : S.conns cid = some c) (hlp : c.loop = some lp) (hlive : c.dead = false) (hfin : lp.finished = false)
    (hk : nextCommand c lp = some k) (hn : k.IsNotify) (hw : k.Watches) (hlast : k.hdr.nextCommand = 0) :
    ∃ lp' s', S.step srv (.sub cid) = some (S.put cid s') ∧ s'.c.loop = some lp' ∧ lp'.finished = true ∧
      s'.c.nextAsync = c.nextAsync + 1 ∧ s'.c.out = c.out ++ buildAsyncInterim k.hdr (c.nextAsync + 1) ∧
      s'.c.sessions = c.sessions ∧ s'.c.dead = c.dead ∧ s'.sh.asyncResp = S.sh.asyncResp := by
  obtain ⟨w, lp', s', hround, -, -, -, hasync, hout, hsess, hdead, hch, -, hafter⟩ := round_watches srv hk hn hw S.sh
  have hsub : subCommand srv lp ⟨S.sh, c⟩ = .ok () ⟨s'.sh, { s'.c with loop := some lp' }⟩ := by
    rw [subCommand, bind_ok hround]
    rfl
  have haction : action srv S.sh c (.sub cid) = some (subCommand srv lp) := by simp [action, hlp, hlive, hfin]
  simp only [Shared.channels, Prod.mk.injEq] at hch
  refine ⟨lp', _, step_of_action rfl rfl hc haction hsub, rfl, ?_, congrArg Prod.fst hasync, hout, hsess, hdead, hch.2.1⟩
  rw [hafter.finished, hlast]
  simp

/-- A reply that is not sealed is written, and the connection goes on. -/
theorem Sys.step_reply_plain (srv : Config E) {cid : ConnId} {c : Conn E} {lp : Loop}
    (hc : S.conns cid = some c) (hlp : c.loop = some lp) (hlive : c.dead = false) (hfin : lp.finished = true)
    (hplain : c.requiresEncryption (u64At c.out 40) = false) (hout : c.out.length = headerSize) :
    ∃ s', S.step srv (.reply cid) = some (S.put cid s') ∧ s'.c = { c with loop := none, dead := false } ∧
      s'.sh.asyncResp = S.sh.asyncResp := by
  have hseal : maybeSealResponse c.out ⟨S.sh, c⟩ = .ok none ⟨S.sh, c⟩ := by
    unfold maybeSealResponse
    by_cases hcmd : c.out.length < headerSize ∨ u16At c.out 12 = cmdNegotiate ∨ u16At c.out 12 = cmdSessionSetup
    · rw [if_pos hcmd]
      rfl
    · rw [if_neg hcmd, bind_ok (get_apply _)]
      rw [Conn.requiresEncryption] at hplain
      dsimp only
      cases hs : c.session? (u64At c.out 40) with
      | none => rfl
      | some sess =>
        rw [hs] at hplain
        dsimp only
        cases sess.encryptionKey with
        | none => rfl
        | some key =>
          dsimp only
          rw [if_pos (by rw [show sess.requireEncrypt = false from hplain]; rfl)]
          rfl
  have hne : c.out ≠ [] := by
    rintro h
    rw [h] at hout
    cases hout
  let sh : Shared E := { S.sh with trace := .wrote c.id c.out none (lp.replies.map Reply.toAddressee) :: S.sh.trace }
  have hwrite : writeMessage c.out none (lp.replies.map Reply.toAddressee) ⟨S.sh, c⟩ = .ok true ⟨sh, c⟩ := by
    unfold writeMessage
    rw [if_neg]
    rintro (h | h)
    · exact hne h
    · rw [hout] at h
      revert h
      decide
  have hrun : sendReply lp ⟨S.sh, c⟩ = .ok () ⟨sh, { c with loop := none, dead := false }⟩ := by
    unfold sendReply
    rw [bind_ok (get_apply _)]
    dsimp only
    rw [if_neg hne, bind_ok hseal]
    dsimp only
    rw [bind_ok hwrite]
    rfl
  have haction : action srv S.sh c (.reply cid) = some (sendReply lp) := by simp [action, hlp, hlive, hfin]
  exact ⟨_, step_of_action rfl rfl hc haction hrun, rfl, rfl⟩

theorem recorded_step {w : E.World} {N N' : Net E} {log : List AsyncEvent}
    (hN : ((net srv w).recording observe).Reach (fun _ _ => True) (N, log)) (h : N.step srv a = some N') :
    ((net srv w).recording observe).Reach (fun _ _ => True) (N', log ++ (observe N a N').toList) := by
  refine Transition.Reach.step (T := (net srv w).recording observe) (l := a) hN trivial ?_
  show (N.step srv a).map _ = _
  rw [h]
  rfl

/-- The guest sends its CHANGE_NOTIFY once more. -/
theorem Net.Watching.again {N : Net guestEnv} {log : List AsyncEvent} (h : N.Watching)
    (hN : ((net (guestServer false) (0 : ℕ)).recording observe).Reach (fun _ _ => True) (N, log)) :
    ∃ N' log', ((net (guestServer false) (0 : ℕ)).recording observe).Reach (fun _ _ => True) (N', log') ∧ N'.Watching ∧
      (issuedIds 0 log').length = (issuedIds 0 log).length + 1 := by
  obtain ⟨c, hc, hidle, hcw⟩ := h.conn
  have hbusy : N.busy 0 = false := by
    rw [Net.busy, h.sends]
    rfl
  -- The frame comes in.
  obtain ⟨c1, hstep1, hlp1, hlive1, hsess1, hout1⟩ := step_recv (guestServer false) (S := N.sys) hc hidle
    hcw.alive (show u8At notifyFrame 0 ≠ 0xFD by decide) hcw.plain
  let N1 : Net guestEnv := { N with sys := N.sys.put 0 ⟨N.sys.sh, c1⟩, reading := Function.update N.reading 0 false }
  have hrecv : N.step (guestServer false) (.server (.recv 0 notifyFrame)) = some N1 := by
    unfold Net.step
    dsimp only
    rw [h.reading, hstep1]
    rfl
  have hcw1 : c1.Watching := hcw.congr hsess1 (hlive1.trans hcw.alive.symm)
  -- Its command starts an operation.
  obtain ⟨hdr, hp, hflags, hcmd, hsid, htid, hlast⟩ := parse_notifyFrame
  obtain ⟨req, hreq, hfid⟩ := changeNotify_notifyFrame
  let lp1 : Loop := { msg := notifyFrame, via := .plain }
  have hk : nextCommand c1 lp1 = some ⟨c1, hdr, lp1⟩ :=
    nextCommand_unsigned (by decide) hp hflags (by rw [hsid]; exact hcw1.unsigned)
  have hw : (⟨c1, hdr, lp1⟩ : Command guestEnv).Watches := by
    refine ⟨req, hreq, ?_⟩
    show (c1.open? hdr.sessionId hdr.treeId req.fileId).isSome
    rw [hsid, htid, hfid]
    exact hcw1.opened
  have hc1 : N1.sys.silent.conns 0 = some c1 := N.sys.put_conns_self 0 ⟨N.sys.sh, c1⟩
  obtain ⟨lp2, s2, hstep2, hlp2, hfin2, hnext2, hout2, hsess2, hdead2, hqueue2⟩ := step_watches (guestServer false) hc1 hlp1
    hlive1 rfl hk ⟨hcmd, rfl⟩ hw hlast
  have hcw2 : s2.c.Watching := hcw1.congr hsess2 hdead2
  let N2 : Net guestEnv := N1.launch (some 0) (N1.sys.silent.put 0 s2)
  have hsub : N1.step (guestServer false) (.server (.sub 0)) = some N2 := by
    unfold Net.step
    dsimp only
    rw [show N1.busy 0 = false from hbusy, hstep2]
    rfl
  have hsends2 : N2.sends = [] := by
    show N.sends ++ (N1.sys.silent.put 0 s2).sent.map _ = []
    rw [h.sends, sent_nil hqueue2]
    rfl
  have hc2 : N2.sys.conns 0 = some s2.c := N1.sys.silent.put_conns_self 0 s2
  -- The interim response is written.
  rw [hout1, nil_append] at hout2
  have hplain2 : s2.c.requiresEncryption (u64At s2.c.out 40) = false := by
    rw [hout2, buildAsyncInterim, (Header.encode_fields _).2.2.2.2, hsid]
    exact hcw2.plain
  obtain ⟨s3, hstep3, hc3, hqueue3⟩ := step_reply_plain (guestServer false) (S := N2.sys) hc2 hlp2 hcw2.alive hfin2
    hplain2 (by rw [hout2, buildAsyncInterim, Header.length_encode]; rfl)
  let N3 : Net guestEnv := { N2 with sys := N2.sys.put 0 s3 }
  have hreply : N2.step (guestServer false) (.server (.reply 0)) = some N3 := by
    have hbusy2 : N2.busy 0 = false := by
      rw [Net.busy, hsends2]
      rfl
    unfold Net.step
    dsimp only
    rw [hbusy2, hstep3]
    rfl
  have hqueue : N3.sys.sh.asyncResp 0 = [] := (congrFun hqueue3 0).trans h.queue
  have hconn3 : N3.sys.conns 0 = some s3.c := N2.sys.put_conns_self 0 s3
  -- The connection waits for the next frame.
  let N4 : Net guestEnv := { N3 with reading := Function.update N3.reading 0 true }
  have hawait : N3.step (guestServer false) (.await 0) = some N4 := by
    have hidle3 : N3.idle 0 = true := by
      rw [Net.idle, hconn3, hc3]
      rfl
    unfold Net.step
    dsimp only
    rw [if_pos ⟨hidle3, hqueue⟩]
  have hissued : observe N1 (.server (.sub 0)) N2 = some (.issued 0 (c1.nextAsync + 1)) := by
    have hne : c1.nextAsync + 1 ≠ c1.nextAsync := by simp
    unfold observe
    dsimp only
    rw [show N1.sys.conns 0 = some c1 from hc1, hc2, bind_some, bind_some, hnext2, if_neg hne]
  have hreplied : issuedIds 0 (observe N2 (.server (.reply 0)) N3).toList = [] := by
    unfold observe
    dsimp only
    rw [hc2, bind_some]
    split_ifs <;> rfl
  refine ⟨N4, _, recorded_step (recorded_step (recorded_step (recorded_step hN hrecv) hsub) hreply) hawait,
    ⟨update_self 0 true N3.reading, hsends2, hqueue, s3.c, hconn3, by rw [hc3], ?_⟩, ?_⟩
  · exact hcw2.congr (by rw [hc3]) (by rw [hc3]; exact hcw2.alive.symm)
  · rw [Tracked.issuedIds_append, Tracked.issuedIds_append, Tracked.issuedIds_append, Tracked.issuedIds_append, hissued,
      hreplied]
    simp [issuedIds, observe, AsyncEvent.issuedOn]

/-- The guest opens a file and waits for a frame. -/
def guestOpens : List Act := guestWaits ++ visit (createFrame 1 0 0 [0x66, 0x00])

/-- A guest with an open waits for a frame. -/
def Net.opened (N : Net guestEnv) : Bool :=
  N.reading 0 && N.sends.isEmpty && (N.sys.sh.asyncResp 0).isEmpty && (N.sys.conns 0).any fun c =>
    c.loop.isNone && !c.dead && !c.requiresEncryption 1 && ((c.session? 1).all fun sess => !sess.requireSign) &&
      (c.open? 1 0 (makeFileID 1 0 1)).isSome

theorem Net.opened_spec {N : Net guestEnv} (h : N.opened = true) : N.Watching := by
  simp only [Net.opened, Bool.and_eq_true, Bool.not_eq_true', List.isEmpty_iff, isNone_iff_eq_none,
    Option.any_eq_true, Option.all_eq_true] at h
  obtain ⟨⟨⟨hr, hs⟩, hq⟩, c, hc, ⟨⟨⟨hlp, hlive⟩, henc⟩, hsign⟩, hopen⟩ := h
  exact ⟨hr, hs, hq, c, hc, hlp, hlive, henc, hsign, hopen⟩

/-- **A guest can make its connection issue any number of AsyncIds.** -/
theorem reach_watching (n : ℕ) : ∃ N log, ((net (guestServer false) (0 : ℕ)).recording observe).Reach (fun _ _ => True) (N, log) ∧
    N.Watching ∧ (issuedIds 0 log).length = n := by
  induction n with
  | zero =>
    obtain ⟨⟨N, log⟩, hN, htest⟩ := Transition.Reach.of_run (T := (net (guestServer false) (0 : ℕ)).recording observe)
      (C := fun _ _ => True) (f := fun p => p.1.opened && (issuedIds 0 p.2).isEmpty) guestOpens (by decide +kernel)
      (by decide +kernel)
    rw [Bool.and_eq_true, List.isEmpty_iff] at htest
    exact ⟨N, log, hN, Net.opened_spec htest.1, by rw [htest.2]; rfl⟩
  | succ n ih =>
    obtain ⟨N, log, hN, hw, hlen⟩ := ih
    obtain ⟨N', log', hN', hw', hlen'⟩ := hw.again hN
    exact ⟨N', log', hN', hw', by rw [hlen', hlen]⟩

/-- An operation of a guest that is pending. -/
theorem async_once_pending : ∃ (N : Net guestEnv) (log : List AsyncEvent),
    ((net (guestServer false) (0 : ℕ)).recording observe).Reach (fun _ _ => True) (N, log) ∧
      (issuedIds 0 log).length = 1 ∧ AsyncOnce (guestServer false) 0 N log := by
  obtain ⟨N, log, hN, -, hlen⟩ := reach_watching 1
  exact ⟨N, log, hN, hlen, async_once (guestServer false) (0 : ℕ) N log 0 hN (by rw [hlen]; decide)⟩

/-- **After `2^64` operations the first AsyncId comes again.** -/
theorem asyncId_comes_again : ¬∀ (E : Env) (srv : Config E) (w : E.World) (N : Net E) (log : List AsyncEvent) (cid : ConnId),
    ((net srv w).recording observe).Reach (fun _ _ => True) (N, log) → AsyncOnce srv cid N log := by
  intro hall
  obtain ⟨N, log, hN, -, hlen⟩ := reach_watching (2 ^ 64 + 1)
  have hdistinct := (hall guestEnv (guestServer false) (0 : ℕ) N log 0 hN).distinct
  obtain ⟨n, hn, -⟩ := (reach_tracked 0 hN).issued
  have hn' : n = 2 ^ 64 + 1 := by rw [← hlen, hn, firstIds, List.length_map, List.length_range]
  rw [hn, firstIds] at hdistinct
  have hsame := List.inj_on_of_nodup_map hdistinct (List.mem_range.2 (show 0 < n by omega))
    (List.mem_range.2 (show 2 ^ 64 < n by omega)) (by rw [← UInt64.toNat_inj, UInt64.toNat_ofNat', UInt64.toNat_ofNat']; rfl)
  omega

end Server
end SmbServer
