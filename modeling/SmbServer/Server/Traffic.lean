/-
# Operations, oplocks and messages of a command

`Effect` says what each step of a handler may change, but not how many steps there are.
Here a pass of the loop is followed as a whole, for what has to be counted: the pending
operations of a connection with their watchers (`Conn.async`), the oplock table, and the
messages for the channels (`Shared.channels`).

A CHANGE_NOTIFY that finds its open starts one operation (`round_watches`), a CANCEL
closes the `done` channel of a pending one (`round_cancels`), and every other pass leaves
the operations alone (`round_async`).  A CREATE takes one oplock or breaks one, which
sends one message; no other command sends any (`round_traffic`).
-/

import SmbServer.Server.Frames

namespace SmbServer
namespace Server

open Wire Go Conn Shared

variable {E : Env} {srv : Config E} {o : Origin} {msg : Bytes} {s s' : St E} {α β γ : Type}
variable {lp : Loop} {c : Conn E} {k : Command E}

/-- The asynchronous operations of a connection. -/
def Conn.async (c : Conn E) :
    UInt64 × GoMap UInt64 PendingOp × GoMap UInt64 PendingOp × List UInt64 × List (Watcher E) :=
  (c.nextAsync, c.pending, c.pendingByMsg, c.cancelled, c.watchers)

/-- What the connections of a server tell each other by. -/
def Shared.channels (sh : Shared E) :
    (GoString → Option OplockInfo) × (ConnId → List Queued) × (ConnId → Bool) :=
  (sh.oplocks, sh.asyncResp, sh.connDone)

/-! ### The steps of a handler -/

/-- Only CHANGE_NOTIFY and CANCEL touch the operations. -/
theorem Effect.async (he : Effect srv o msg s s') (hcn : o.cmd ≠ cmdChangeNotify) (hcancel : o.cmd ≠ cmdCancel) :
    s'.c.async = s.c.async := by
  cases he with
  | create tr req hd r _ hcmd hreq htr hopen hs =>
    simp only [registerOpen, Outcome.ok.injEq] at hs
    obtain ⟨-, rfl⟩ := hs
    rfl
  | treeDisconnect s1 hcmd h0 hc =>
    have hconn := congrArg Conn.async hc.conn
    exact hconn
  | logoff s1 hcmd h0 hc =>
    have hconn := congrArg Conn.async hc.conn
    exact hconn
  | cancel cs hcmd => exact absurd hcmd hcancel
  | pending messageID hcmd => exact absurd hcmd hcn
  | watch w oh hcmd hreq hhdr ho hh => exact absurd hcmd hcn
  | _ => rfl

theorem dispatch_async (hcn : o.cmd ≠ cmdChangeNotify) (hcancel : o.cmd ≠ cmdCancel) (sub : Bytes) (hdr : Header)
    (fid : FileId) (hl : s.c.Listed) : (dispatch srv o sub hdr fid s).state.c.async = s.c.async := by
  have hd : Answers srv o sub Conn.Listed (dispatch srv o sub hdr fid) := dispatch_answers hdr fid
  have hrun := (hd s.c.out s ⟨hl, rfl⟩).1
  generalize (dispatch srv o sub hdr fid s).state = s' at hrun ⊢
  induction hrun with
  | refl => rfl
  | tail _ he ih => exact (he.async hcn hcancel).trans ih

/-- No message is sent and no oplock taken. -/
structure Shared.Calm (sh sh' : Shared E) : Prop where
  queues : sh'.asyncResp = sh.asyncResp
  done : sh'.connDone = sh.connDone
  oplocks : ∀ path info, sh'.oplocks path = some info → sh.oplocks path = some info

namespace Shared.Calm

variable {sh sh₁ sh₂ : Shared E}

theorem of_eq (h : sh₁.channels = sh.channels) : sh.Calm sh₁ := by
  simp only [Shared.channels, Prod.mk.injEq] at h
  exact ⟨h.2.1, h.2.2, fun _ _ hp => h.1 ▸ hp⟩

theorem trans (h : sh.Calm sh₁) (h' : sh₁.Calm sh₂) : sh.Calm sh₂ :=
  ⟨h'.queues.trans h.queues, h'.done.trans h.done, fun _ _ hp => h.oplocks _ _ (h'.oplocks _ _ hp)⟩

theorem of_ends {origin : Option Origin} {l : List (OpenHandle E)} (h : sh.Ends origin l sh₁) : sh.Calm sh₁ := by
  refine ⟨h.asyncResp, h.connDone, fun path info hp => ?_⟩
  rw [h.oplocks] at hp
  split_ifs at hp
  exact hp

end Shared.Calm

/-- Only CREATE takes oplocks and sends messages. -/
theorem Effect.calm (he : Effect srv o msg s s') (hcreate : o.cmd ≠ cmdCreate) : s.sh.Calm s'.sh := by
  cases he with
  | create tr req hd r _ hcmd hreq htr hopen hs => exact absurd hcmd hcreate
  | treeDisconnect s1 hcmd h0 hc =>
    obtain ⟨l, -, hends⟩ := hc.ends
    have hcalm := Calm.of_ends hends
    exact ⟨hcalm.queues, hcalm.done, hcalm.oplocks⟩
  | logoff s1 hcmd h0 hc =>
    obtain ⟨l, -, hends⟩ := hc.ends
    have hcalm := Calm.of_ends hends
    exact ⟨hcalm.queues, hcalm.done, hcalm.oplocks⟩
  | endOpen req oh hcmd hreq h hclosed =>
    refine ⟨rfl, rfl, fun path info hp => ?_⟩
    have hp' : Function.update s.sh.oplocks oh.path none path = some info := hp
    by_cases hpath : path = oh.path
    · rw [hpath, Function.update_self] at hp'
      cases hp'
    · rwa [Function.update_of_ne hpath] at hp'
  | _ => exact .of_eq rfl

theorem dispatch_calm (hcreate : o.cmd ≠ cmdCreate) (sub : Bytes) (hdr : Header) (fid : FileId) (hl : s.c.Listed) :
    s.sh.Calm (dispatch srv o sub hdr fid s).state.sh := by
  have hd : Answers srv o sub Conn.Listed (dispatch srv o sub hdr fid) := dispatch_answers hdr fid
  have hrun := (hd s.c.out s ⟨hl, rfl⟩).1
  generalize (dispatch srv o sub hdr fid s).state = s' at hrun ⊢
  induction hrun with
  | refl => exact .of_eq rfl
  | tail _ he ih => exact ih.trans (he.calm hcreate)

/-! ### The messages of a CREATE -/

/-- What a command of connection `cid` does to oplocks and channels; `asks` is what it
takes for an oplock to be granted. -/
inductive Shared.Traffic (asks : Prop) (cid : ConnId) (sh sh' : Shared E) : Prop where
  | calm (h : sh.Calm sh')
  | grant (path : GoString) (info : OplockInfo) (hasks : asks) (hconn : info.conn = cid)
      (ho : sh'.oplocks = Function.update sh.oplocks path (some info)) (hq : sh'.asyncResp = sh.asyncResp)
      (hd : sh'.connDone = sh.connDone)
  | broken (path : GoString) (info : OplockInfo) (dest : Addressee) (hinfo : sh.oplocks path = some info)
      (ho : sh'.oplocks = Function.update sh.oplocks path none)
      (hq : sh'.asyncResp = (sh.sendFinal info.conn ⟨oplockBreakMessage info, dest⟩).asyncResp)
      (hd : sh'.connDone = sh.connDone)

namespace Shared.Traffic

variable {asks : Prop} {cid : ConnId} {sh sh₁ sh₂ : Shared E}

/-- What leaves the channels alone may come before and after. -/
theorem congr {sh' sh1' : Shared E} (h : sh₁.Traffic asks cid sh1') (hb : sh₁.channels = sh.channels)
    (ha : sh'.channels = sh1'.channels) : sh.Traffic asks cid sh' := by
  simp only [Shared.channels, Prod.mk.injEq] at hb ha
  cases h with
  | calm h =>
    refine .calm ⟨ha.2.1.trans (h.queues.trans hb.2.1), ha.2.2.trans (h.done.trans hb.2.2), fun path info hp => ?_⟩
    rw [ha.1] at hp
    exact hb.1 ▸ h.oplocks path info hp
  | grant path info hasks hconn ho hq hd =>
    exact .grant path info hasks hconn (by rw [ha.1, ho, hb.1]) (by rw [ha.2.1, hq, hb.2.1]) (by rw [ha.2.2, hd, hb.2.2])
  | broken path info dest hinfo ho hq hd =>
    refine .broken path info dest (hb.1 ▸ hinfo) (by rw [ha.1, ho, hb.1]) ?_ (by rw [ha.2.2, hd, hb.2.2])
    rw [ha.2.1, hq]
    unfold sendFinal
    rw [hb.2.2]
    split_ifs
    · exact hb.2.1
    · rw [hb.2.1]

theorem bind {m : M E α} {g : α → M E β} (hm : (m s).state.sh.channels = s.sh.channels)
    (hg : ∀ a s', m s = .ok a s' → s'.sh.Traffic asks cid (g a s').state.sh) :
    s.sh.Traffic asks cid ((m >>= g) s).state.sh := by
  rw [bind_apply]
  cases hms : m s with
  | ok a s' =>
    rw [hms] at hm
    exact (hg a s' hms).congr hm rfl
  | panic s' =>
    rw [hms] at hm
    exact .calm (.of_eq hm)

theorem before {m : M E α} {g : α → M E β} (hm : s.sh.Traffic asks cid (m s).state.sh)
    (hg : ∀ a s', (g a s').state.sh.channels = s'.sh.channels) : s.sh.Traffic asks cid ((m >>= g) s).state.sh := by
  rw [bind_apply]
  cases hms : m s with
  | ok a s' =>
    rw [hms] at hm
    exact hm.congr rfl (hg a s')
  | panic s' =>
    rw [hms] at hm
    exact hm

end Shared.Traffic

theorem call_channels (origin : Option Origin) (op : α → Call E) (f : E.World → α × E.World) (s : St E) :
    (call origin op f s).state.sh.channels = s.sh.channels := rfl

/-- The oplock section of `handleCreate` takes an oplock or breaks one. -/
theorem Shared.requestOplock_traffic (sh : Shared E) (info : OplockInfo) (level : UInt8) :
    sh.Traffic (level ≠ 0) info.conn (sh.requestOplock info level).2 := by
  unfold requestOplock Shared.grant breakOplock
  split_ifs with hlevel hheld
  · exact .calm (.of_eq rfl)
  · cases hinfo : sh.oplocks info.path with
    | none =>
      rw [hinfo] at hheld
      cases hheld
    | some b =>
      refine .broken info.path b ⟨b.sessID, cmdOplockBreak, b.enc⟩ hinfo ?_ ?_ ?_
      all_goals
        unfold sendOplockBreak sendFinal
        dsimp only
        split_ifs <;> rfl
  · exact .grant info.path info hlevel rfl rfl rfl rfl

theorem createFile_traffic (o : Origin) (req : CreateRequest) (fid : FileId) (s : St E) :
    s.sh.Traffic (req.requestedOplockLevel ≠ 0) o.conn (createFile o req fid s).state.sh := by
  have hcalm : ∀ {m : M E (UInt32 × FileId)} {s : St E}, (m s).state.sh.channels = s.sh.channels →
      s.sh.Traffic (req.requestedOplockLevel ≠ 0) o.conn (m s).state.sh := fun h => .calm (.of_eq h)
  cases htr : s.c.tree? o.sid o.tid with
  | none =>
    rw [createFile, withTree_none _ htr]
    exact .calm (.of_eq rfl)
  | some tr =>
    rw [createFile, withTree_apply _ htr]
    split_ifs
    · exact hcalm rfl
    refine .bind (call_channels ..) fun opened s1 _ => ?_
    cases opened with
    | error e => exact hcalm rfl
    | ok h =>
      refine .bind (call_channels ..) fun st s2 _ => ?_
      cases st with
      | error e => exact .bind (call_channels ..) fun _ s3 _ => hcalm rfl
      | ok fi =>
        let info : OplockInfo :=
          { fileId := makeFileID o.sid o.tid (tr.nextID + 1), sessID := o.sid, treeID := o.tid
            path := (openOptions req).path, conn := o.conn, enc := s2.c.requiresEncryption o.sid }
        exact (requestOplock_traffic s2.sh info req.requestedOplockLevel).congr rfl rfl

/-- The command is a CREATE that asks for an oplock. -/
def asksOplock (cmd : UInt16) (sub : Bytes) : Bool :=
  decide (cmd = cmdCreate) &&
    match CreateRequest.parse sub with
    | .ok req => decide (req.requestedOplockLevel ≠ 0)
    | _ => false

theorem dispatch_traffic (o : Origin) (sub : Bytes) (hdr : Header) (fid : FileId) (hl : s.c.Listed) :
    s.sh.Traffic (asksOplock o.cmd sub = true) o.conn (dispatch srv o sub hdr fid s).state.sh := by
  by_cases hcreate : o.cmd = cmdCreate
  swap
  · exact .calm (dispatch_calm hcreate sub hdr fid hl)
  unfold dispatch
  refine .bind rfl fun s1 s2 hget => ?_
  cases hget
  cases s.c.refusal o with
  | some status => exact .calm (.of_eq rfl)
  | none =>
    dsimp only [handle]
    rw [if_neg (by rw [hcreate]; decide), if_neg (by rw [hcreate]; decide), if_pos hcreate]
    unfold handleCreate asksOplock
    cases hparse : CreateRequest.parse sub with
    | panic => exact .calm (.of_eq rfl)
    | err e => exact .calm (.of_eq rfl)
    | ok req =>
      have hasks : (decide (o.cmd = cmdCreate) && decide (req.requestedOplockLevel ≠ 0)) = true ↔
          req.requestedOplockLevel ≠ 0 := by simp [hcreate]
      dsimp only
      rw [hasks]
      exact .before (createFile_traffic o req fid s) fun _ _ => rfl

/-! ### The pass -/

/-- What `finishResponse` leaves alone is after a response as it is after the switch. -/
theorem respond_state {f : St E → γ} (hf : ∀ (s : St E) first status hdr start,
      f ⟨s.sh, s.c.finishResponse srv first status hdr start⟩ = f s) (o : Origin) (hdr : Header) (lp : Loop) (s : St E) :
    f (respond srv o hdr lp s).state = f (route srv o hdr lp (s.answering lp)).state := by
  cases hroute : route srv o hdr lp (s.answering lp) with
  | ok r s' =>
    obtain ⟨start, reply, hrun, -⟩ := respond_eq hroute
    rw [hrun]
    exact hf s' _ _ _ _
  | panic s' =>
    have hrun : respond srv o hdr lp s = .panic s' := by
      have hrest : respond srv o hdr lp s = (route srv o hdr lp >>= _) (s.answering lp) := rfl
      rw [hrest, bind_apply, hroute]
    rw [hrun]
    rfl

theorem Conn.finishResponse_async (first : Bool) (status : UInt32) (hdr : Header) (start : ℕ) (c : Conn E) :
    (c.finishResponse srv first status hdr start).async = c.async := by
  unfold finishResponse
  extract_lets hdr' c1 c2
  have h2 : c2.async = c.async := by
    unfold c2 updatePreauth
    split_ifs <;> rfl
  cases c2.signerFor hdr' with
  | none => exact h2
  | some signer => exact h2

theorem route_async {hdr : Header} (hcn : o.cmd = cmdChangeNotify → lp.chainFailed = true)
    (hcancel : o.cmd = cmdCancel → lp.chainFailed = true) (hl : s.c.Listed) :
    (route srv o hdr lp s).state.c.async = s.c.async := by
  unfold route
  by_cases hf : lp.chainFailed = true
  · rw [if_pos hf]
    rfl
  · rw [if_neg hf, if_neg fun h => hf (hcancel h)]
    refine Go.state_bind (f := fun s : St E => s.c.async) rfl fun _ s' hlog => ?_
    cases hlog
    exact dispatch_async (fun h => hf (hcn h)) (fun h => hf (hcancel h)) _ _ _ hl

theorem route_traffic (o : Origin) (hdr : Header) (lp : Loop) (hl : s.c.Listed) :
    s.sh.Traffic (asksOplock o.cmd lp.sub = true) o.conn (route srv o hdr lp s).state.sh := by
  unfold route
  split_ifs
  · exact .calm (.of_eq rfl)
  · exact .calm (.of_eq rfl)
  · refine .bind rfl fun _ s' hlog => ?_
    cases hlog
    exact dispatch_traffic o _ _ _ hl

/-- A CHANGE_NOTIFY that fails leaves all but `c.out` alone. -/
theorem handleChangeNotify_idle (o : Origin) (msg : Bytes) (hdr : Header) (s : St E) (h : ∀ req, ChangeNotifyRequest.parse msg = .ok req →
      s.c.open? o.sid o.tid req.fileId = none) :
    (handleChangeNotify o msg hdr s).state.c.async = s.c.async ∧ (handleChangeNotify o msg hdr s).state.sh = s.sh ∧
      (handleChangeNotify o msg hdr s).state.c.sessions = s.c.sessions := by
  unfold handleChangeNotify
  cases hreq : ChangeNotifyRequest.parse msg with
  | panic => exact ⟨rfl, rfl, rfl⟩
  | err e => exact ⟨rfl, rfl, rfl⟩
  | ok req =>
    dsimp only
    cases ht : s.c.tree? o.sid o.tid with
    | none =>
      rw [withTree_none _ ht]
      exact ⟨rfl, rfl, rfl⟩
    | some tr =>
      have ho : tr.opens.lookup req.fileId = none := by
        have h := h req hreq
        rwa [Conn.open?, ht] at h
      rw [withTree_apply _ ht, ho]
      exact ⟨rfl, rfl, rfl⟩

/-- **A CHANGE_NOTIFY that finds its open** registers one operation, appends its interim
response and starts its watcher. -/
theorem round_watches (srv : Config E) (hk : nextCommand c lp = some k) (hn : k.IsNotify)
    (hw : k.Watches) (sh : Shared E) : ∃ w lp' s', round srv lp ⟨sh, c⟩ = .ok lp' s' ∧
      w.op = ⟨c.nextAsync + 1, k.hdr.messageId⟩ ∧ w.hdr = k.hdr ∧
      (∃ req oh, ChangeNotifyRequest.parse k.msg = .ok req ∧ c.open? k.origin.sid k.origin.tid req.fileId = some oh ∧
        w.h = oh.h ∧ w.snap = snapshotMap (untilError (E.enumerate oh.h [0x2A] sh.world).1).1) ∧
      s'.c.async = ({ (c.registerPending k.hdr.messageId).2 with watchers := c.watchers ++ [w] } : Conn E).async ∧
      s'.c.out = c.out ++ buildAsyncInterim k.hdr (c.nextAsync + 1) ∧ s'.c.sessions = c.sessions ∧
      s'.c.dead = c.dead ∧ s'.sh.channels = sh.channels ∧ lp'.msg = k.lp.msg ∧
      lp.After k.hdr.nextCommand lp.prevRespStart (replyOf c c k.origin k.hdr k.hdr c.out.length) lp' := by
  obtain ⟨req, hreq, hopen⟩ := hw
  rw [(nextCommand_spec hk).1] at hopen
  obtain ⟨oh, hopen⟩ := Option.isSome_iff_exists.1 hopen
  obtain ⟨tr, ht, ho⟩ := open?_eq_some.1 hopen
  have hkept : lp.Kept k.lp := (nextCommand_spec hk).2.2.1
  let s1 : St E := k.record ⟨sh, c.charge k.hdr.creditCharge⟩
  have ht1 : s1.c.tree? k.origin.sid k.origin.tid = some tr := ht
  rw [round_eq srv hk, if_pos (show _ ∧ _ from hn)]
  let op : PendingOp := ⟨c.nextAsync + 1, k.hdr.messageId⟩
  let items := E.enumerate oh.h [0x2A] sh.world
  let w : Watcher E := { op, hdr := k.hdr, h := oh.h, snap := snapshotMap (untilError items.1).1, req, dest :=
    ⟨k.origin.sid, k.origin.cmd, s1.c.requiresEncryption k.origin.sid⟩ }
  let s2 : St E := ⟨{ s1.sh with
      world := items.2, trace := .call (some k.origin) (.enumerate oh.h [0x2A]) :: s1.sh.trace },
    { (s1.c.registerPending k.hdr.messageId).2 with
      out := c.out ++ buildAsyncInterim k.hdr (c.nextAsync + 1), watchers := c.watchers ++ [w] }⟩
  have hhandler : handleChangeNotify k.origin k.lp.sub k.hdr s1 = .ok (statusPending, true) s2 := by
    unfold handleChangeNotify
    rw [show ChangeNotifyRequest.parse k.lp.sub = .ok req from hreq]
    dsimp only
    rw [withTree_apply _ ht1, ho]
    rfl
  have hrun : notify srv k.origin k.hdr k.lp ⟨sh, c.charge k.hdr.creditCharge⟩ =
      .ok ((k.lp.addReply (replyOf c c k.origin k.hdr k.hdr c.out.length)).advance k.hdr.nextCommand) s2 := by
    have hlog : notify srv k.origin k.hdr k.lp ⟨sh, c.charge k.hdr.creditCharge⟩ =
        (handleChangeNotify k.origin k.lp.sub k.hdr >>= fun r => if r.2 then
          return (k.lp.addReply (replyOf s1.c s1.c k.origin k.hdr k.hdr s1.c.out.length)).advance k.hdr.nextCommand
        else respond srv k.origin k.hdr (k.lp.settle r.1)) s1 := rfl
    rw [hlog, bind_ok hhandler]
    rfl
  refine ⟨w, _, s2, hrun, rfl, rfl, ⟨req, oh, hreq, hopen, rfl, rfl⟩, rfl, rfl, rfl, rfl, rfl, ?_, ?_⟩
  · unfold Loop.advance
    split_ifs <;> rfl
  · rw [← hkept.prev]
    exact Loop.after_advance hkept.via hkept.replies hkept.finished k.hdr.nextCommand _

/-- **A CANCEL** closes the `done` channel of its operation if that is pending, and does
nothing to the operations otherwise. -/
theorem round_cancels (hk : nextCommand c lp = some k)
    (hcmd : k.hdr.command = cmdCancel) (hf : k.lp.chainFailed = false) (sh : Shared E) :
    (round srv lp ⟨sh, c⟩).state.c.async = (c.cancelPending k.hdr.asyncId).async := by
  have hcharge : ∀ c' : Conn E, c'.pending = c.pending → c'.async = c.async →
      (c'.cancelPending k.hdr.asyncId).async = (c.cancelPending k.hdr.asyncId).async := by
    intro c' hp ha
    simp only [Conn.async, Prod.mk.injEq] at ha
    unfold cancelPending
    rw [hp]
    cases c.pending.lookup k.hdr.asyncId with
    | none => simp [Conn.async, ha]
    | some op => simp [Conn.async, ha]
  rw [round_eq_respond srv hk (by rw [hcmd]; decide),
    respond_state (f := fun s => s.c.async) fun s _ _ _ _ => finishResponse_async ..]
  unfold route
  rw [if_neg (by rw [hf]; decide), if_pos (show k.origin.cmd = cmdCancel from hcmd)]
  exact hcharge _ rfl rfl

/-- **Every other pass leaves the operations alone.** -/
theorem round_async (hk : nextCommand c lp = some k)
    (hw : ¬(k.IsNotify ∧ k.Watches)) (hcancel : k.hdr.command = cmdCancel → k.lp.chainFailed = true)
    (hl : c.Listed) (sh : Shared E) : (round srv lp ⟨sh, c⟩).state.c.async = c.async := by
  have hrespond : ∀ (lp' : Loop) (s : St E), s.c.Listed → (k.hdr.command = cmdChangeNotify → lp'.chainFailed = true) →
      (k.hdr.command = cmdCancel → lp'.chainFailed = true) →
      (respond srv k.origin k.hdr lp' s).state.c.async = s.c.async := by
    intro lp' s hl hcn hcancel
    rw [respond_state (f := fun s => s.c.async) fun s _ _ _ _ => finishResponse_async ..]
    exact route_async hcn hcancel hl
  rw [round_eq srv hk]
  split_ifs with hn
  · have hidle := handleChangeNotify_idle k.origin k.lp.sub k.hdr (k.record ⟨sh, c.charge k.hdr.creditCharge⟩)
      fun req hreq => by
        by_contra hopen
        refine hw ⟨hn, req, hreq, ?_⟩
        rw [(nextCommand_spec hk).1]
        exact Option.isSome_iff_ne_none.2 hopen
    unfold notify
    refine Go.state_bind (f := fun s : St E => s.c.async) rfl fun _ s1 hlog => ?_
    cases hlog
    refine Go.state_bind (f := fun s : St E => s.c.async) rfl fun _ s1 hget => ?_
    cases hget
    refine Go.state_bind (f := fun s : St E => s.c.async) hidle.1 fun r s1 hrun => ?_
    obtain ⟨status, pending⟩ := r
    cases pending with
    | true => rfl
    | false =>
      obtain ⟨hst, -⟩ := handleChangeNotify_fails hrun
      have hfailed : (k.lp.settle status).chainFailed = true := by
        rcases hst with rfl | rfl <;> simp [Loop.settle, statusInvalidParameter, statusInvalidHandle, statusSuccess,
          statusMoreProcessingRequired]
      replace hrun : handleChangeNotify k.origin k.lp.sub k.hdr (k.record ⟨sh, c.charge k.hdr.creditCharge⟩) =
        .ok (status, false) s1 := hrun
      have hs : s1.c.sessions = c.sessions := by
        have hsess := hidle.2.2
        rwa [hrun] at hsess
      refine hrespond _ _ (fun sid tid fid oh ho => hl sid tid fid oh ?_) (fun _ => hfailed) fun _ => hfailed
      rwa [Conn.open?, Conn.tree?, Conn.session?, hs] at ho
  · refine hrespond _ _ hl (fun h => ?_) hcancel
    cases hf : k.lp.chainFailed with
    | true => rfl
    | false => exact absurd ⟨h, hf⟩ hn

/-- **The messages of a pass.** -/
theorem round_traffic (hk : nextCommand c lp = some k) (hl : c.Listed)
    (sh : Shared E) : sh.Traffic (asksOplock k.hdr.command k.lp.sub = true) c.id (round srv lp ⟨sh, c⟩).state.sh := by
  have hrespond : ∀ (lp' : Loop) (s : St E), s.c.Listed → lp'.sub = k.lp.sub →
      s.sh.Traffic (asksOplock k.hdr.command k.lp.sub = true) c.id (respond srv k.origin k.hdr lp' s).state.sh := by
    intro lp' s hl hsub
    rw [respond_state (f := fun s => s.sh) fun s _ _ _ _ => rfl, ← hsub, ← (nextCommand_spec hk).1]
    exact route_traffic (s := s.answering lp') k.origin k.hdr lp' hl
  rw [round_eq srv hk]
  split_ifs with hn
  · by_cases hw : k.Watches
    · obtain ⟨w, lp', s', hrun, -, -, -, -, -, -, -, hch, -⟩ := round_watches srv hk hn hw sh
      rw [round_eq srv hk, if_pos (show _ ∧ _ from hn)] at hrun
      rw [hrun]
      exact .calm (.of_eq hch)
    · have hidle := handleChangeNotify_idle k.origin k.lp.sub k.hdr (k.record ⟨sh, c.charge k.hdr.creditCharge⟩)
        fun req hreq => by
          by_contra hopen
          refine hw ⟨req, hreq, ?_⟩
          rw [(nextCommand_spec hk).1]
          exact Option.isSome_iff_ne_none.2 hopen
      unfold notify
      refine Traffic.bind (s := ⟨sh, c.charge k.hdr.creditCharge⟩) rfl fun _ s1 hlog => ?_
      cases hlog
      refine .bind rfl fun _ s1 hget => ?_
      cases hget
      refine .bind (congrArg Shared.channels hidle.2.1) fun r s1 hrun => ?_
      obtain ⟨status, pending⟩ := r
      cases pending with
      | true => exact .calm (.of_eq rfl)
      | false =>
        replace hrun : handleChangeNotify k.origin k.lp.sub k.hdr (k.record ⟨sh, c.charge k.hdr.creditCharge⟩) =
          .ok (status, false) s1 := hrun
        have hs : s1.c.sessions = c.sessions := by
          have hsess := hidle.2.2
          rwa [hrun] at hsess
        refine hrespond _ _ (fun sid tid fid oh ho => hl sid tid fid oh ?_) rfl
        rwa [Conn.open?, Conn.tree?, Conn.session?, hs] at ho
  · exact hrespond _ ⟨sh, c.charge k.hdr.creditCharge⟩ hl rfl

/-! ### The transition -/

theorem round_none (srv : Config E) (hk : nextCommand c lp = none) (sh : Shared E) :
    (round srv lp ⟨sh, c⟩).state = ⟨sh, c⟩ := by
  unfold nextCommand at hk
  unfold round
  split_ifs at hk ⊢ with hlen
  · rfl
  · cases hp : Header.parse lp.sub with
    | ok hdr =>
      rw [hp] at hk
      cases hk
    | err e => rfl
    | panic => rfl

theorem subCommand_state {f : St E → γ} (hf : ∀ (s : St E) (lp : Loop), f { s with c := { s.c with loop := some lp } } = f s)
    (lp : Loop) (s : St E) : f (subCommand srv lp s).state = f (round srv lp s).state := by
  unfold subCommand
  rw [bind_apply]
  cases round srv lp s with
  | ok lp' s' => exact hf s' lp'
  | panic s' => rfl

/-- What a pass of the loop does to the operations of its connection. -/
inductive Conn.Operated (c : Conn E) (lp : Loop) (c' : Conn E) : Prop where
  | same (h : c'.async = c.async)
  | cancelled (k : Command E) (hk : nextCommand c lp = some k) (hcmd : k.hdr.command = cmdCancel)
      (h : c'.async = (c.cancelPending k.hdr.asyncId).async)
  | started (k : Command E) (w : Watcher E) (hk : nextCommand c lp = some k) (hn : k.IsNotify) (hw : k.Watches)
      (hop : w.op = ⟨c.nextAsync + 1, k.hdr.messageId⟩) (hhdr : w.hdr = k.hdr)
      (h : c'.async = ({ (c.registerPending k.hdr.messageId).2 with watchers := c.watchers ++ [w] } : Conn E).async)

/-- **The operations after a transition that handles a command.** -/
theorem subCommand_operated (srv : Config E) (lp : Loop) (hl : c.Listed) (sh : Shared E) :
    c.Operated lp (subCommand srv lp ⟨sh, c⟩).state.c := by
  have hstate : (subCommand srv lp ⟨sh, c⟩).state.c.async = (round srv lp ⟨sh, c⟩).state.c.async :=
    subCommand_state (f := fun s => s.c.async) (fun _ _ => rfl) lp _
  cases hk : nextCommand c lp with
  | none =>
    rw [round_none srv hk] at hstate
    exact .same hstate
  | some k =>
    by_cases hw : k.IsNotify ∧ k.Watches
    · obtain ⟨w, lp', s', hrun, hop, hhdr, -, hasync, -⟩ := round_watches srv hk hw.1 hw.2 sh
      rw [hrun] at hstate
      exact .started k w hk hw.1 hw.2 hop hhdr (hstate.trans hasync)
    · by_cases hcancel : k.hdr.command = cmdCancel ∧ k.lp.chainFailed = false
      · exact .cancelled k hk hcancel.1 (hstate.trans (round_cancels hk hcancel.1 hcancel.2 sh))
      · refine .same (hstate.trans (round_async hk hw (fun hcmd => ?_) hl sh))
        cases hf : k.lp.chainFailed with
        | true => rfl
        | false => exact absurd ⟨hcmd, hf⟩ hcancel

/-- The next command of the loop asks for an oplock. -/
def Conn.asksOplock (c : Conn E) (lp : Loop) : Bool :=
  (nextCommand c lp).any fun k => Server.asksOplock k.hdr.command k.lp.sub

/-- **The messages of a transition that handles a command.** -/
theorem subCommand_traffic (srv : Config E) (lp : Loop) (hl : c.Listed) (sh : Shared E) :
    sh.Traffic (c.asksOplock lp = true) c.id (subCommand srv lp ⟨sh, c⟩).state.sh := by
  rw [subCommand_state (f := fun s => s.sh) fun _ _ => rfl]
  unfold Conn.asksOplock
  cases hk : nextCommand c lp with
  | none =>
    rw [round_none srv hk]
    exact .calm (.of_eq rfl)
  | some k =>
    rw [Option.any_some]
    exact round_traffic hk hl sh

/-! ### The other transitions -/

/-- The operations of a connection and the channels. -/
def St.flow (s : St E) := (s.c.async, s.sh.channels)

theorem receive_flow (raw : Bytes) : Keeps St.flow (receive raw : M E Unit) := by
  refine .bind (screen_keeps (fun _ _ _ => rfl) raw) fun r => ?_
  cases r with
  | none => exact fun _ => rfl
  | some r =>
    intro s
    have hbegin : (s.c.begin r.1 r.2).async = s.c.async := by
      simp only [begin, updatePreauth]
      split_ifs <;> rfl
    exact congrArg (·, s.sh.channels) hbegin

theorem writeMessage_flow (frame : Bytes) (sealing : Option (UInt64 × Bytes × Bytes)) (content : List Addressee) :
    Keeps St.flow (writeMessage frame sealing content : M E Bool) := by
  intro s
  unfold writeMessage
  split_ifs <;> rfl

theorem maybeSealResponse_flow (out : Bytes) : Keeps St.flow (maybeSealResponse out : M E _) := by
  unfold maybeSealResponse
  extract_lets cmd sid
  split_ifs
  · exact .pure _
  · refine .get fun s => ?_
    cases s.c.session? sid with
    | none => exact .pure _
    | some sess =>
      dsimp only
      cases sess.encryptionKey with
      | none => exact .pure _
      | some key =>
        dsimp only
        split_ifs
        · exact .pure _
        · cases sess.encCCM <|> Encryption.newAESCCM key with
          | none => exact .pure _
          | some ccm => exact .bind (fun _ => rfl) fun _ => .bind (fun _ => rfl) fun _ => .pure _

theorem sendReply_flow (lp : Loop) : Keeps St.flow (sendReply lp : M E Unit) := by
  refine .get fun s => ?_
  split_ifs
  · exact fun _ => rfl
  · refine .bind (maybeSealResponse_flow _) fun r => ?_
    cases r with
    | none => exact .bind (writeMessage_flow _ _ _) fun _ => fun _ => rfl
    | some r => exact .bind (writeMessage_flow _ _ _) fun _ => fun _ => rfl

/-- `drainOne` takes the message out of the queue. -/
theorem drainOne_flow (q : Queued) (rest : List Queued) (s : St E) : (drainOne q rest s).state.flow =
    (s.c.async, s.sh.oplocks, Function.update s.sh.asyncResp s.c.id rest, s.sh.connDone) := by
  unfold drainOne
  rw [bind_ok (modify_apply ..)]
  have hwrite : Keeps St.flow (writeMessage q.frame none [q.dest] >>= fun _ => pure () : M E Unit) :=
    .bind (writeMessage_flow _ _ _) fun _ => .pure _
  exact hwrite _

/-- A watcher that ends takes its operation out of the tables and sends its message. -/
structure Finalized (i : ℕ) (w : Watcher E) (q : Queued) (s s' : St E) : Prop where
  async : s'.c.async = ({ s.c.unregister w.op with watchers := s.c.watchers.eraseIdx i } : Conn E).async
  channels : s'.sh.channels = (s.sh.sendFinal s.c.id q).channels
  sends : w.Sends q

theorem finalizeCN_finalized (i : ℕ) (w : Watcher E) (status : UInt32) (body : Bytes) (s : St E) :
    ∃ q, Finalized i w q s (finalizeCN i w status body s).state :=
  ⟨_, rfl, rfl, status, body, rfl⟩

/-- **A round of a watcher** changes nothing, or the watcher ends with it. -/
theorem watchTick_flow (i : ℕ) (w : Watcher E) (s : St E) :
    (watchTick i w s).state.flow = s.flow ∨ ∃ q, Finalized i w q s (watchTick i w s).state := by
  let items := E.enumerate w.h [0x2A] s.sh.world
  let cur := snapshotMap (untilError items.1).1
  let curNames := E.rangeOrder _ cur.keys items.2
  let oldNames := E.rangeOrder _ w.snap.keys curNames.2
  let events := diffEntries w.snap cur w.req.completionFilter curNames.1 oldNames.1
  let s1 : St E := { s with sh := { s.sh with
    world := oldNames.2, trace := .call none (.enumerate w.h [0x2A]) :: s.sh.trace } }
  have hrun : watchTick i w s = (if events ≠ [] then
      finalizeCN i w statusSuccess (buildChangeNotifyBody w.req.outputBufferLength [] events)
    else pure ()) s1 := rfl
  rw [hrun]
  split_ifs
  · obtain ⟨q, hq⟩ := finalizeCN_finalized i w statusSuccess
      (buildChangeNotifyBody w.req.outputBufferLength [] events) s1
    refine .inr ⟨q, hq.async, hq.channels.trans ?_, hq.sends⟩
    unfold sendFinal
    split_ifs <;> rfl
  · exact .inl rfl

/-- **What a watcher does**: nothing, or it ends. -/
theorem watch_flow {i : ℕ} {w : Watcher E} {m : M E Unit} (hm : m = watchTick i w ∨ m = watchDone i w) (s : St E) :
    (m s).state.flow = s.flow ∨ ∃ q, Finalized i w q s (m s).state := by
  rcases hm with rfl | rfl
  · exact watchTick_flow i w s
  · exact .inr (finalizeCN_finalized i w _ _ s)

end Server
end SmbServer
