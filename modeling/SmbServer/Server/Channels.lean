/-
# Channels with a bound

In `SmbServer.Server.System` a message is in the queue of its connection as soon as it is
sent.  In the source an `asyncResp` channel has 64 slots, and whoever sends waits for a
free one: a connection in the middle of a CREATE that breaks an oplock
(`sendOplockBreak`), or a watcher that has taken its operation out of the tables
(`finalizeCN`).  `Net` is the server with these waits.

A transition runs on empty channels, and what it leaves there is what its goroutine has
to send next (`launch`).  A connection goes on with its frame when it has sent its
message; what follows the send in `handleCreate` is about the connection itself, so it
makes no difference that the model has done it before.  `serveConn` empties its channel,
then waits 200 ms at most for a frame, and so on: `reading` is whether it waits.
-/

import SmbServer.Server.Traffic

namespace SmbServer
open Bool
namespace Server

open Wire Function List Option Sys

variable {E : Env} {srv : Config E}
variable {S S' : Sys E} {cid : ConnId} {i : ℕ}

/-- `make(chan []byte, 64)`. -/
def asyncRespCap : ℕ := 64

/-- A message about to be sent, by a connection or, without a sender, by a watcher. -/
structure Send where
  sender : Option ConnId
  target : ConnId
  msg : Queued

/-- The server, the sends that have not been made yet, and the connections that wait for a
frame. -/
structure Net (E : Env) where
  sys : Sys E
  sends : List Send := []
  reading : ConnId → Bool := fun _ => false

/-- What can happen next. -/
inductive Act where
  /-- A transition of the server. -/
  | server (l : Label)
  /-- A watcher sees that its context is done. -/
  | expire (cid : ConnId) (i : ℕ)
  /-- One of the sends is made. -/
  | send (j : ℕ)
  /-- `drainAsync` finds the channel empty. -/
  | await (cid : ConnId)
  /-- The read deadline passes. -/
  | timeout (cid : ConnId)

namespace Sys

/-- The system with other messages in its channels. -/
def setQueues (S : Sys E) (queues : ConnId → List Queued) : Sys E :=
  { S with sh := { S.sh with asyncResp := queues } }

/-- The system with empty channels. -/
def silent (S : Sys E) : Sys E := S.setQueues fun _ => []

/-- The messages in the channels. -/
def sent (S : Sys E) : List (ConnId × Queued) :=
  (List.range S.next).flatMap fun cid => (S.sh.asyncResp cid).map fun q => (cid, q)

/-- A watcher ends because its context is done. -/
def expire (S : Sys E) (cid : ConnId) (i : ℕ) : Option (Sys E) :=
  (S.conns cid).bind fun c => (c.watchers[i]?).map fun w => S.exec cid c (watchDone i w)

end Sys

namespace Net

/-- The connection is in the middle of a send. -/
def busy (N : Net E) (cid : ConnId) : Bool := N.sends.any fun s => decide (s.sender = some cid)

/-- `S` is the system after a transition on empty channels. -/
def launch (N : Net E) (sender : Option ConnId) (S : Sys E) : Net E :=
  { N with
    sys := S.setQueues N.sys.sh.asyncResp
    sends := N.sends ++ S.sent.map fun m => ⟨sender, m.1, m.2⟩ }

/-- The message next in the channel cannot be written, and `drainAsync` returns. -/
def drainFails (N : Net E) (cid : ConnId) : Bool :=
  match N.sys.sh.asyncResp cid with
  | q :: _ => decide (q.frame = [] ∨ Transport.maxMessageLen < UInt32.ofNat q.frame.length)
  | [] => false

/-- The `select` of `sendOplockBreak` and `sendFinal`. -/
def complete (N : Net E) (j : ℕ) : Option (Net E) :=
  match N.sends[j]? with
  | none => none
  | some s =>
    let N' := { N with sends := N.sends.eraseIdx j }
    if N.sys.sh.connDone s.target then some N'
    else if (N.sys.sh.asyncResp s.target).length < asyncRespCap then
      let queue := N.sys.sh.asyncResp s.target ++ [s.msg]
      some { N' with sys := N.sys.setQueues (Function.update N.sys.sh.asyncResp s.target queue) }
    else none

/-- The connection is between two frames. -/
def idle (N : Net E) (cid : ConnId) : Bool := (N.sys.conns cid).any fun c => !c.dead && c.loop.isNone

/-- One transition. -/
def step (srv : Config E) (a : Act) (N : Net E) : Option (Net E) :=
  match a with
  | .server .accept => (N.sys.step srv .accept).map fun S => { N with sys := S }
  | .server (.recv cid raw) =>
    if N.reading cid then (N.sys.step srv (.recv cid raw)).map fun S =>
      { N with sys := S, reading := Function.update N.reading cid false }
    else none
  | .server (.sub cid) =>
    if N.busy cid then none else (N.sys.silent.step srv (.sub cid)).map (N.launch (some cid))
  | .server (.reply cid) =>
    if N.busy cid then none else (N.sys.step srv (.reply cid)).map fun S => { N with sys := S }
  | .server (.drain cid) =>
    if N.reading cid then none else (N.sys.step srv (.drain cid)).map fun S =>
      { N with sys := S, reading := Function.update N.reading cid (N.drainFails cid) }
  | .server (.tick cid i) => (N.sys.silent.step srv (.tick cid i)).map (N.launch none)
  | .server (.done cid i) => (N.sys.silent.step srv (.done cid i)).map (N.launch none)
  | .server (.close cid) =>
    if N.busy cid then none else (N.sys.step srv (.close cid)).map fun S => { N with sys := S }
  | .expire cid i => (N.sys.silent.expire cid i).map (N.launch none)
  | .send j => N.complete j
  | .await cid =>
    if N.idle cid ∧ N.sys.sh.asyncResp cid = [] then some { N with reading := Function.update N.reading cid true }
    else none
  | .timeout cid => some { N with reading := Function.update N.reading cid false }

end Net

/-- The server with bounded channels, from its start in a world. -/
def net (srv : Config E) (w : E.World) : Transition (Net E) Act where
  init := { sys := (system srv w).init }
  step := Net.step srv

/-! ### Computations of a connection -/

/-- The system after a computation of one connection. -/
theorem Sys.exec_conn (S : Sys E) (cid : ConnId) (c : Conn E) (m : M E Unit) : ∃ c',
    S.exec cid c m = S.put cid ⟨(m ⟨S.sh, c⟩).state.sh, c'⟩ ∧ c'.async = (m ⟨S.sh, c⟩).state.c.async ∧
      ((∃ s', m ⟨S.sh, c⟩ = .ok () s' ∧ c' = s'.c) ∨ c'.loop = none ∧ c'.dead = true) := by
  unfold Sys.exec
  cases hm : m ⟨S.sh, c⟩ with
  | ok u s' => exact ⟨s'.c, rfl, rfl, .inl ⟨s', rfl, rfl⟩⟩
  | panic s' => exact ⟨{ s'.c with loop := none, dead := true }, rfl, rfl, .inr ⟨rfl, rfl⟩⟩

/-- A connection that has stopped handles nothing. -/
theorem Sys.step_alive {l : Label} {c : Conn E} (h : S.step srv l = some S')
    (hc : S.conns cid = some c) (hl : (∃ raw, l = .recv cid raw) ∨ l = .sub cid ∨ l = .reply cid) : c.dead = false := by
  have haction : ∃ m, action srv S.sh c l = some m := by
    rcases hl with ⟨raw, rfl⟩ | rfl | rfl
    all_goals
      obtain ⟨c', m, hc', hm, -⟩ := step_conn h rfl rfl
      cases hc.symm.trans hc'
      exact ⟨m, hm⟩
  obtain ⟨m, hm⟩ := haction
  cases hd : c.dead with
  | false => rfl
  | true =>
    rcases hl with ⟨raw, rfl⟩ | rfl | rfl
    · simp [action, hd] at hm
    all_goals cases hlp : c.loop <;> simp [action, hd, hlp] at hm

/-- A round of a watcher runs on a watcher of its connection. -/
theorem Sys.step_tick (h : S.step srv (.tick cid i) = some S') :
    ∃ c w, S.conns cid = some c ∧ c.watchers[i]? = some w ∧ S' = S.exec cid c (watchTick i w) := by
  obtain ⟨c, m, hc, hm, rfl⟩ := step_conn h rfl rfl
  obtain ⟨w, hw, rfl⟩ := map_eq_some_iff.1 hm
  exact ⟨c, w, hc, hw, rfl⟩

theorem Sys.step_done (h : S.step srv (.done cid i) = some S') :
    ∃ c w, S.conns cid = some c ∧ c.watchers[i]? = some w ∧ S' = S.exec cid c (watchDone i w) := by
  obtain ⟨c, m, hc, hm, rfl⟩ := step_conn h rfl rfl
  simp only [action] at hm
  cases hw : c.watchers[i]? with
  | none =>
    rw [hw] at hm
    cases hm
  | some w =>
    rw [hw] at hm
    dsimp only at hm
    split_ifs at hm
    cases hm
    exact ⟨c, w, hc, hw, rfl⟩

theorem Sys.expire_eq (h : S.expire cid i = some S') :
    ∃ c w, S.conns cid = some c ∧ c.watchers[i]? = some w ∧ S' = S.exec cid c (watchDone i w) := by
  obtain ⟨c, hc, h⟩ := bind_eq_some_iff.1 h
  obtain ⟨w, hw, rfl⟩ := map_eq_some_iff.1 h
  exact ⟨c, w, hc, hw, rfl⟩

/-- A message is written by a connection between two frames. -/
theorem Sys.step_drain (h : S.step srv (.drain cid) = some S') :
    ∃ c q rest, S.conns cid = some c ∧ S.sh.asyncResp c.id = q :: rest ∧ c.dead = false ∧ c.loop = none ∧
      S' = S.exec cid c (drainOne q rest) := by
  obtain ⟨c, m, hc, hm, rfl⟩ := step_conn h rfl rfl
  simp only [action] at hm
  cases hq : S.sh.asyncResp c.id with
  | nil =>
    rw [hq] at hm
    cases hm
  | cons q rest =>
    rw [hq] at hm
    dsimp only at hm
    split_ifs at hm with hidle
    cases hm
    simp only [and_eq_true, not_eq_true', isNone_iff_eq_none] at hidle
    exact ⟨c, q, rest, hc, hq, hidle.1, hidle.2, rfl⟩

/-! ### What a transition is -/

/-- What each act does where it is enabled. -/
inductive Net.Took (srv : Config E) (N : Net E) : Act → Net E → Prop where
  | accept : Took srv N (.server .accept) { N with sys := N.sys.accept }
  | recv {cid : ConnId} {raw : Bytes} {c : Conn E} (hr : N.reading cid = true) (hc : N.sys.conns cid = some c)
      (hlive : c.dead = false) (hlp : c.loop = none) : Took srv N (.server (.recv cid raw))
        { N with sys := N.sys.exec cid c (receive raw), reading := Function.update N.reading cid false }
  | sub {cid : ConnId} {c : Conn E} {lp : Loop} (hb : N.busy cid = false) (hc : N.sys.conns cid = some c)
      (hlive : c.dead = false) (hlp : c.loop = some lp) (hfin : lp.finished = false) : Took srv N (.server (.sub cid))
        (N.launch (some cid) (N.sys.silent.exec cid c (subCommand srv lp)))
  | reply {cid : ConnId} {c : Conn E} {lp : Loop} (hb : N.busy cid = false) (hc : N.sys.conns cid = some c)
      (hlive : c.dead = false) (hlp : c.loop = some lp) (hfin : lp.finished = true) : Took srv N (.server (.reply cid))
        { N with sys := N.sys.exec cid c (sendReply lp) }
  | drain {cid : ConnId} {c : Conn E} {q : Queued} {rest : List Queued} (hr : N.reading cid = false)
      (hc : N.sys.conns cid = some c) (hq : N.sys.sh.asyncResp c.id = q :: rest) (hlive : c.dead = false)
      (hlp : c.loop = none) : Took srv N (.server (.drain cid))
        { N with sys := N.sys.exec cid c (drainOne q rest), reading := Function.update N.reading cid (N.drainFails cid) }
  | watch {a : Act} {cid : ConnId} {i : ℕ} {c : Conn E} {w : Watcher E} {m : M E Unit}
      (ha : a = .server (.tick cid i) ∨ a = .server (.done cid i) ∨ a = .expire cid i)
      (hm : m = watchTick i w ∨ m = watchDone i w) (hc : N.sys.conns cid = some c) (hw : c.watchers[i]? = some w) :
      Took srv N a (N.launch none (N.sys.silent.exec cid c m))
  | close {cid : ConnId} {c : Conn E} {s' : St E} (hb : N.busy cid = false) (hc : N.sys.conns cid = some c)
      (hcl : Closed none (fun _ _ => True) (N.sys.closing c) s') : Took srv N (.server (.close cid))
        { N with sys := N.sys.remove cid s'.sh }
  | drop {j : ℕ} {s : Send} (hj : N.sends[j]? = some s) (hd : N.sys.sh.connDone s.target = true) :
      Took srv N (.send j) { N with sends := N.sends.eraseIdx j }
  | put {j : ℕ} {s : Send} (hj : N.sends[j]? = some s) (hd : N.sys.sh.connDone s.target = false)
      (hlen : (N.sys.sh.asyncResp s.target).length < asyncRespCap) : Took srv N (.send j)
        { N with
          sends := N.sends.eraseIdx j
          sys := N.sys.setQueues
            (Function.update N.sys.sh.asyncResp s.target (N.sys.sh.asyncResp s.target ++ [s.msg])) }
  | await {cid : ConnId} (hidle : N.idle cid = true) (hq : N.sys.sh.asyncResp cid = []) :
      Took srv N (.await cid) { N with reading := Function.update N.reading cid true }
  | timeout {cid : ConnId} : Took srv N (.timeout cid) { N with reading := Function.update N.reading cid false }

/-- **Every transition of a net is one of these.** -/
theorem Net.step_took {N N' : Net E} {a : Act} (h : N.step srv a = some N') : Net.Took srv N a N' := by
  unfold Net.step at h
  cases a with
  | server l =>
    cases l with
    | accept =>
      obtain ⟨S, hS, rfl⟩ := map_eq_some_iff.1 h
      cases hS
      exact .accept
    | recv cid raw =>
      dsimp only at h
      split_ifs at h with hr
      obtain ⟨S, hS, rfl⟩ := map_eq_some_iff.1 h
      cases step_fired hS with
      | recv _ hc hlp => exact .recv hr hc (step_alive hS hc (.inl ⟨raw, rfl⟩)) hlp
    | sub cid =>
      dsimp only at h
      split_ifs at h with hb
      obtain ⟨S, hS, rfl⟩ := map_eq_some_iff.1 h
      cases step_fired hS with
      | sub hc hlp hfin => exact .sub (not_eq_true _ ▸ hb) hc (step_alive hS hc (.inr (.inl rfl))) hlp hfin
    | reply cid =>
      dsimp only at h
      split_ifs at h with hb
      obtain ⟨S, hS, rfl⟩ := map_eq_some_iff.1 h
      cases step_fired hS with
      | reply hc hlp hfin => exact .reply (not_eq_true _ ▸ hb) hc (step_alive hS hc (.inr (.inr rfl))) hlp hfin
    | drain cid =>
      dsimp only at h
      split_ifs at h with hr
      obtain ⟨S, hS, rfl⟩ := map_eq_some_iff.1 h
      obtain ⟨c, q, rest, hc, hq, hlive, hlp, rfl⟩ := step_drain hS
      exact .drain (not_eq_true _ ▸ hr) hc hq hlive hlp
    | tick cid i =>
      obtain ⟨S, hS, rfl⟩ := map_eq_some_iff.1 h
      obtain ⟨c, w, hc, hw, rfl⟩ := step_tick hS
      exact .watch (.inl rfl) (.inl rfl) hc hw
    | done cid i =>
      obtain ⟨S, hS, rfl⟩ := map_eq_some_iff.1 h
      obtain ⟨c, w, hc, hw, rfl⟩ := step_done hS
      exact .watch (.inr (.inl rfl)) (.inr rfl) hc hw
    | close cid =>
      dsimp only at h
      split_ifs at h with hb
      obtain ⟨S, hS, rfl⟩ := map_eq_some_iff.1 h
      obtain ⟨c, s', hc, hcl, rfl⟩ := step_close hS
      exact .close (not_eq_true _ ▸ hb) hc hcl
  | expire cid i =>
    obtain ⟨S, hS, rfl⟩ := map_eq_some_iff.1 h
    obtain ⟨c, w, hc, hw, rfl⟩ := expire_eq hS
    exact .watch (.inr (.inr rfl)) (.inr rfl) hc hw
  | send j =>
    unfold Net.complete at h
    dsimp only at h
    cases hj : N.sends[j]? with
    | none =>
      rw [hj] at h
      cases h
    | some s =>
      rw [hj] at h
      dsimp only at h
      split_ifs at h with hd hlen
      · cases h
        exact .drop hj hd
      · cases h
        exact .put hj (not_eq_true _ ▸ hd) hlen
  | await cid =>
    dsimp only at h
    split_ifs at h with hidle
    cases h
    exact .await hidle.1 hidle.2
  | timeout cid =>
    cases h
    exact .timeout

/-- Computations of a connection keep its id and its listings. -/
theorem Base.exec {c : Conn E} {m : M E Unit} (hb : Base S) (hc : S.conns cid = some c)
    (hm : (m ⟨S.sh, c⟩).state.c.id = c.id ∧ (m ⟨S.sh, c⟩).state.c.Listed) : Base (S.exec cid c m) := by
  obtain ⟨s', ha, e⟩ := S.exec_eq cid c m
  have hbase := ha.base hm.2
  rw [e]
  exact hb.put hc (hbase.1.trans hm.1) hbase.2

/-- **The connections of a net carry their own ids.** -/
theorem Net.Took.base {N N' : Net E} {a : Act} (h : Net.Took srv N a N') (hb : Base N.sys) : Base N'.sys := by
  have haside : ∀ {p : Event E → Bool} {cid : ConnId} {c : Conn E} {m : M E Unit}, N.sys.conns cid = some c →
      Aside p ⟨N.sys.sh, c⟩ (m ⟨N.sys.sh, c⟩).state → Base (N.sys.exec cid c m) :=
    fun hc h => hb.exec hc (h.base (hb _ _ hc).2.2)
  cases h with
  | accept =>
    intro cid c h
    rcases conns_accept h with ⟨rfl, rfl⟩ | ⟨-, h⟩
    · exact ⟨rfl, Nat.lt_succ_self _, nofun⟩
    · exact ⟨(hb _ _ h).1, (hb _ _ h).2.1.trans (Nat.lt_succ_self _), (hb _ _ h).2.2⟩
  | recv hr hc hlive hlp => exact haside (p := fun _ => false) hc (receive_quiet _ _)
  | @sub cid c lp hbusy hc hlive hlp hfin =>
    have hsilent : Base N.sys.silent := hb
    have hbase : Base (N.sys.silent.exec cid c (subCommand srv lp)) := by
      have hrun := subCommand_moves srv lp (s := ⟨N.sys.silent.sh, c⟩) (hb _ _ hc).2.2
      refine hsilent.exec hc ?_
      generalize (subCommand srv lp ⟨N.sys.silent.sh, c⟩).state = s' at hrun ⊢
      induction hrun with
      | refl => exact ⟨rfl, (hb _ _ hc).2.2⟩
      | tail _ h ih =>
        have hstep := h.base ih.2
        exact ⟨hstep.1.trans ih.1, hstep.2⟩
    exact hbase
  | reply hbusy hc hlive hlp hfin => exact haside hc (sendReply_quiet _ _)
  | @drain cid c q rest hr hc hq hlive hlp => exact haside hc (drainOne_aside (s := ⟨N.sys.sh, c⟩) hq)
  | @watch a cid i c w m ha hm hc hw =>
    have hsilent : Base N.sys.silent := hb
    have hmem : w ∈ (⟨N.sys.silent.sh, c⟩ : St E).c.watchers := mem_of_getElem? hw
    have hbase : Base (N.sys.silent.exec cid c m) := by
      refine hsilent.exec hc ?_
      rcases hm with rfl | rfl
      · exact (watchTick_aside hmem).base (hb _ _ hc).2.2
      · exact (finalizeCN_aside (p := fun _ => false) hmem _ _).base (hb _ _ hc).2.2
    exact hbase
  | close hbusy hc hcl => exact fun cid c h => hb _ _ (conns_remove h).2
  | drop hj hd => exact hb
  | put hj hd hlen => exact hb
  | await hidle hq => exact hb
  | timeout => exact hb

/-! ### Messages -/

theorem Sys.sent_nil (h : S.sh.asyncResp = fun _ => []) : S.sent = [] := by
  unfold Sys.sent
  rw [h]
  simp

/-- One message is sent at most, and none to a connection that is done. -/
theorem Sys.sent_sendFinal {sh : Shared E} {target : ConnId} {q : Queued}
    (h : S.sh.asyncResp = (sh.sendFinal target q).asyncResp) (hsilent : sh.asyncResp = fun _ => []) :
    S.sent = [] ∨ S.sent = [(target, q)] := by
  unfold Shared.sendFinal at h
  split_ifs at h
  · exact .inl (sent_nil (h.trans hsilent))
  · have hrange : ∀ n, ((List.range n).flatMap fun cid => (S.sh.asyncResp cid).map fun q => (cid, q)) =
        if target < n then [(target, q)] else [] := by
      intro n
      induction n with
      | zero => simp
      | succ n ih =>
        rw [range_succ, flatMap_append, ih, flatMap_singleton, h]
        dsimp only
        rcases Nat.lt_trichotomy target n with hlt | rfl | hgt
        · rw [update_of_ne hlt.ne', hsilent, if_pos hlt, if_pos (Nat.lt_succ_of_lt hlt)]
          rfl
        · rw [update_self, hsilent, if_neg (lt_irrefl _), if_pos (Nat.lt_succ_self _)]
          rfl
        · rw [update_of_ne hgt.ne, hsilent, if_neg hgt.not_gt, if_neg (Nat.not_lt.2 hgt)]
          rfl
    unfold Sys.sent
    rw [hrange]
    split_ifs
    · exact .inr rfl
    · exact .inl rfl

end Server
end SmbServer
