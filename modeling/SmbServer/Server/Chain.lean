/-
# Replies as compounds

The responses of a frame form a compound: each is linked to the next when the next
one is begun, and the last keeps the `NextCommand` of its request, which is zero if
the chain of requests ended where its last header said.  `ChainOk` is when that is
so: the chain does not run out, a CHANGE_NOTIFY stays pending only as its last
command, behind a response that needs no linking, and one that fails is not the
first, since it appends an error body with no header of its own.
-/

import SmbServer.Server.Frames
import SmbServer.Wire.Compound

namespace SmbServer
namespace Server

open Wire List Option Sys

variable {E : Env} {srv : Config E}

/-- Where a client should meet a response, and which request it answers. -/
def Reply.visit (r : Reply) : Visit := ⟨r.start, r.cmd, r.messageId⟩

/-- Every reply that is done is a compound of one response for each command that was
handled, and every queued message stands alone. -/
def ChainSafe (S : Sys E) : Prop :=
  (∀ cid c lp, S.conns cid = some c → c.loop = some lp → lp.finished = true → c.out ≠ [] →
    compound? c.out = some (lp.replies.map Reply.visit)) ∧
  ∀ cid, ∀ q ∈ S.sh.asyncResp cid, u32At q.frame 20 = 0

/-- The response at `p` needs no linking: the buffer is aligned, and the `NextCommand`
of the request happens to be the distance to its end. -/
def Conn.Linked (c : Conn E) (p : ℕ) : Prop :=
  c.out.length % 8 = 0 ∧ (u32At c.out (p + 20)).toNat = c.out.length - p

/-- What the chain needs of its next command. -/
structure Command.Fits (k : Command E) (c : Conn E) (lp : Loop) : Prop where
  last : k.IsNotify → k.Watches → k.hdr.nextCommand = 0
  linked : k.IsNotify → k.Watches → ∀ p ∈ lp.prevRespStart, c.Linked p
  later : k.IsNotify → ¬k.Watches → lp.first = false

/-- After the first command there is another as long as a header names one, and the
next command fits. -/
def ChainOk (S : Sys E) : Label → Prop
  | .sub cid => ∀ c ∈ S.conns cid, ∀ lp ∈ c.loop,
      (lp.first = false → (nextCommand c lp).isSome) ∧ ∀ k ∈ nextCommand c lp, k.Fits c lp
  | _ => True

section Decidable

instance (k : Command E) : Decidable k.IsNotify :=
  inferInstanceAs (Decidable (k.hdr.command = cmdChangeNotify ∧ k.lp.chainFailed = false))

instance (k : Command E) : Decidable k.Watches :=
  decidable_of_iff ((match ChangeNotifyRequest.parse k.msg with
    | .ok req => (k.before.open? k.origin.sid k.origin.tid req.fileId).isSome
    | _ => false) = true) (by
      unfold Command.Watches
      cases ChangeNotifyRequest.parse k.msg <;> simp)

instance (c : Conn E) (p : ℕ) : Decidable (c.Linked p) :=
  inferInstanceAs (Decidable (c.out.length % 8 = 0 ∧ (u32At c.out (p + 20)).toNat = c.out.length - p))

instance (k : Command E) (c : Conn E) (lp : Loop) : Decidable (k.Fits c lp) :=
  decidable_of_iff ((k.IsNotify → k.Watches → k.hdr.nextCommand = 0) ∧
    (k.IsNotify → k.Watches → ∀ p ∈ lp.prevRespStart, c.Linked p) ∧
    (k.IsNotify → ¬k.Watches → lp.first = false))
    ⟨fun h => ⟨h.1, h.2.1, h.2.2⟩, fun h => ⟨h.1, h.2, h.3⟩⟩

instance (S : Sys E) : ∀ l, Decidable (ChainOk S l)
  | .sub cid => inferInstanceAs (Decidable (∀ c ∈ S.conns cid, ∀ lp ∈ c.loop,
      (lp.first = false → (nextCommand c lp).isSome) ∧ ∀ k ∈ nextCommand c lp, k.Fits c lp))
  | .accept | .recv _ _ | .reply _ | .drain _ | .tick _ _ | .done _ _ | .close _ => isTrue trivial

end Decidable

/-! ### The responses so far -/

theorem message_interim (hdr : Header) (id : UInt64) :
    Message (buildAsyncInterim hdr id) hdr.command hdr.nextCommand hdr.messageId := by
  obtain ⟨h1, h2, h3, h4, -⟩ := Header.encode_fields { hdr with
    flags := flagServerToRedir ||| flagAsyncCommand
    status := statusPending
    asyncId := id
    credit := 0 }
  exact ⟨(Header.length_encode _).ge, h1, h2, h3, h4⟩

theorem HeaderOf.message {hdr : Header} {a : Answer} (h : HeaderOf hdr a.hdr) (cr : Crypto) :
    Message (a.element cr) hdr.command hdr.nextCommand hdr.messageId := by
  obtain ⟨h1, h2, h3, h4, -⟩ := a.element_fields cr
  refine ⟨?_, h1, h2.trans h.command, h3.trans h.nextCommand, h4.trans h.messageId⟩
  rw [a.length_element]
  exact Nat.le_add_right _ _

/-- The responses of a frame are a compound, up to the `NextCommand` of the last, which
is that of its request. -/
structure Chained (c : Conn E) (lp : Loop) : Prop where
  empty : lp.replies = [] → c.out = [] ∧ lp.prevRespStart = none ∧ lp.first = true
  compound : lp.replies ≠ [] → Compound c.out (lp.replies.map Reply.visit)
  last : ∀ r ∈ lp.replies.getLast?, lp.first = false ∧
    lp.finished = decide (u32At c.out (r.start + 20) = 0) ∧
    (lp.finished = false → lp.prevRespStart = some r.start ∧
      c.out.length ≤ r.start + 64 + bodyMax)

/-- A further message behind the responses so far. -/
theorem Chained.push {c : Conn E} {lp : Loop} (h : Chained c lp) {base e : Bytes} {k : Header}
    (hm : Message e k.command k.nextCommand k.messageId) (hempty : lp.replies = [] → base = [])
    (hlast : ∀ r ∈ lp.replies.getLast?, c.out.length ≤ base.length ∧ base.length % 8 = 0 ∧
      (u32At base (r.start + 20)).toNat = base.length - r.start ∧
      ∀ o n, o + n ≤ c.out.length → o + n ≤ r.start + 20 ∨ r.start + 24 ≤ o →
        slice base o n = slice c.out o n) {r : Reply}
    (hr : r.visit = ⟨base.length, k.command, k.messageId⟩) :
    Compound (base ++ e) ((lp.replies ++ [r]).map Reply.visit) := by
  obtain ⟨hat, -⟩ := hm.headerAt base
  rcases eq_nil_or_concat' lp.replies with hnil | ⟨rs, r0, hrs⟩
  · rw [hnil, nil_append, map_singleton, hr]
    exact .single hat (by rw [hempty hnil]; rfl)
  · have hc := h.compound (by simp [hrs])
    rw [hrs, map_append, map_singleton] at hc
    obtain ⟨hle, halign, hnext, hs⟩ := hlast r0 (by simp [hrs])
    have hstart := (hc.headers r0.visit (by simp)).length
    -- First the buffer up to the message, then the message.
    have hbase : Compound base (rs.map Reply.visit ++ [r0.visit]) := hc.relink hle hs
    have hout : Compound (base ++ e) (rs.map Reply.visit ++ [r0.visit]) :=
      hbase.relink (by simp) fun o n ho _ => slice_append_left _ ho
    rw [hrs, map_append, map_append, map_singleton, map_singleton, hr]
    refine hout.push hat ⟨hstart.trans hle, halign, ?_⟩
    rw [u32At, slice_append_left _ (by simp only [Reply.visit] at hstart ⊢; omega)]
    exact hnext

theorem chained_rule (hE : E.Bounded) : FrameRule srv ChainOk Chained where
  congr ho _ h := ⟨fun hr => by rw [ho]; exact h.empty hr, fun hr => by rw [ho]; exact h.compound hr,
    fun r hr => by rw [ho]; exact h.last r hr⟩
  start _ _ _ _ := ⟨fun _ => ⟨rfl, rfl, rfl⟩, fun hr => absurd rfl hr, fun r hr => nomatch hr⟩
  pass {S cid c lp lp' s'} _ hc hlp hfin hC h _ hp _ := by
    obtain ⟨hmore, hfits⟩ := hC c hc lp hlp
    cases hp with
    | stop hnone =>
      -- The chain may end here only if it has not begun.
      have hfirst : lp.first = true := by
        by_contra hf
        have := hmore (by simpa using hf)
        simp [show nextCommand c lp = none from hnone] at this
      have hnil : lp.replies = [] := by
        cases hr : lp.replies.getLast? with
        | none => exact getLast?_eq_none_iff.1 hr
        | some r => exact absurd (hfirst.symm.trans (h.last r hr).1) (by decide)
      exact ⟨h.empty, h.compound, fun r hr => by simp [Loop.stop, hnil] at hr⟩
    | pending k id hk hn hw hout hs ha =>
      have hfit := hfits k hk
      have hnext := hfit.last hn hw
      have hm := message_interim k.hdr id
      refine ⟨fun hr => by simp [ha.replies] at hr, fun _ => ?_, fun r hr => ?_⟩
      · rw [ha.replies, hout]
        refine h.push hm (fun hnil => (h.empty hnil).1) (fun r hr => ?_) rfl
        obtain ⟨hprev, -⟩ := (h.last r hr).2.2 hfin
        obtain ⟨halign, hdist⟩ := hfit.linked hn hw r.start hprev
        exact ⟨le_rfl, halign, hdist, fun _ _ _ _ => rfl⟩
      · rw [ha.replies, getLast?_concat] at hr
        cases hr
        obtain ⟨-, hat⟩ := hm.headerAt c.out
        replace hat : u32At s'.c.out (c.out.length + 20) = 0 := by rw [hout, hat, hnext]
        refine ⟨ha.first, ?_, fun hf => ?_⟩
        · rw [ha.finished, hfin, hnext]
          exact (decide_eq_true hat).symm
        · rw [ha.finished, hnext] at hf
          simp at hf
    | answer k junk a hk hj ha =>
      have hm := ha.hdr.message E.crypto
      have hbody := ha.body hE
      have hjunk : junk.length ≤ 8 := by
        rcases hj with ⟨rfl, -⟩ | ⟨rfl, -⟩ <;> decide
      refine ⟨fun hr => by simp [ha.after.replies] at hr, fun _ => ?_, fun r hr => ?_⟩
      · rw [ha.after.replies, ha.out]
        refine h.push hm (fun hnil => ?_) (fun r hr => ?_) rfl
        · obtain ⟨hout, hprev, hfirst⟩ := h.empty hnil
          rcases hj with ⟨rfl, -⟩ | ⟨-, hn, hw⟩
          · change linkPrevious lp.prevRespStart (c.out ++ []) = []
            rw [hprev, hout]
            rfl
          · exact absurd (hfirst.symm.trans ((hfits k hk).later hn hw)) (by decide)
        · obtain ⟨hprev, hlen⟩ := (h.last r hr).2.2 hfin
          have hne : lp.replies ≠ [] := by rintro hnil; simp [hnil] at hr
          have hstart : r.start + 64 ≤ c.out.length :=
            ((h.compound hne).headers r.visit (List.mem_map_of_mem (mem_of_getLast? hr))).length
          have hjoin : r.start + 24 ≤ (c.out ++ junk).length := by rw [length_append]; omega
          rw [hprev]
          obtain ⟨halign, hle, hnext⟩ := linkPrevious_some hjoin
          have hge := length_linkPrevious (some r.start) (c.out ++ junk)
          rw [length_append] at hle hge
          refine ⟨Nat.le_trans (Nat.le_add_right _ _) hge, halign, ?_, fun o n hon hpos => ?_⟩
          · have hlt : (linkPrevious (some r.start) (c.out ++ junk)).length - r.start < 2 ^ 32 := by
              unfold bodyMax at hlen
              omega
            rw [hnext, UInt32.toNat_ofNat_of_lt' hlt]
          · have hs : slice (linkPrevious (some r.start) (c.out ++ junk)) o n =
                slice (c.out ++ junk) o n :=
              slice_linkPrevious (fun p hp => by obtain rfl := some.inj hp; exact hpos)
                (by rw [length_append]; omega)
            exact hs.trans (slice_append_left _ hon)
      · rw [ha.after.replies, getLast?_concat] at hr
        cases hr
        obtain ⟨-, hat⟩ := hm.headerAt (linkPrevious lp.prevRespStart (c.out ++ junk))
        refine ⟨ha.after.first, ?_, fun _ => ⟨ha.after.prev, ?_⟩⟩
        · rw [ha.after.finished, hfin, ha.out, Bool.false_or]
          exact (decide_eq_decide.2 (by rw [← hat]; rfl)).symm
        · rw [ha.out, length_append, a.length_element]
          simp only [replyOf]
          omega

/-! ### The queued messages -/

/-- No watcher and no queued message has a `NextCommand`. -/
def Unchained (S : Sys E) : Prop :=
  (∀ cid c, S.conns cid = some c → ∀ w ∈ c.watchers, w.hdr.nextCommand = 0) ∧
  ∀ cid, ∀ q ∈ S.sh.asyncResp cid, u32At q.frame 20 = 0

/-- What is known of a command that may start a watcher. -/
def Command.Unchained (k : Command E) (s : St E) : Prop :=
  k.hdr.In k.msg ∧ (k.IsNotify → ∀ req, ChangeNotifyRequest.parse k.msg = .ok req →
    (s.c.open? k.origin.sid k.origin.tid req.fileId).isSome → k.hdr.nextCommand = 0)

theorem Watcher.Sends.next {w : Watcher E} {q : Queued} (h : w.Sends q) :
    u32At q.frame 20 = w.hdr.nextCommand := by
  obtain ⟨status, body, rfl⟩ := h
  have hlen : 20 + 4 ≤ (Header.encode { w.hdr with
      flags := flagServerToRedir ||| flagAsyncCommand
      status
      asyncId := w.op.asyncID }).length := by rw [Header.length_encode]; decide
  rw [u32At, finalizeAsync, slice_append_left _ hlen]
  exact (Header.encode_fields _).2.2.1

theorem oplockBreakMessage_next (info : OplockInfo) : u32At (oplockBreakMessage info) 20 = 0 :=
  rfl

theorem unchained_preserved : Preserved srv ChainOk Command.Unchained Unchained where
  accept S _ h := by
    refine ⟨fun cid c hc w hw => ?_, h.2⟩
    rcases conns_accept hc with ⟨-, rfl⟩ | ⟨-, hc⟩
    · cases hw
    · exact h.1 cid c hc w hw
  aside S cid c s' _ hc h ha := by
    refine ⟨fun cid' c' hc' w hw => ?_, fun cid' q hq => ?_⟩
    · rcases conns_put hc' with ⟨-, rfl⟩ | ⟨-, hc'⟩
      · exact h.1 cid c hc w (ha.watchers hw)
      · exact h.1 cid' c' hc' w hw
    · rcases ha.queue cid' q hq with hq | ⟨w, hw, hsend⟩
      · exact h.2 cid' q hq
      · rw [hsend.next]
        exact h.1 cid c hc w hw
  start S cid c lp k _ hc hlp hk _ hC := by
    obtain ⟨hbefore, -, -, hin⟩ := nextCommand_spec hk
    refine ⟨hin, fun hn req hreq ho => ((hC c hc lp hlp).2 k hk).last hn ⟨req, hreq, ?_⟩⟩
    rw [hbefore]
    exact ho
  carry k s s' hd ha := ⟨hd.1, fun hn req hreq ho => hd.2 hn req hreq (by rwa [ha.open?] at ho)⟩
  exec S cid c k _ hc _ _ _ h hd := by
    refine ⟨⟨fun cid' c' hc' w hw => ?_, h.2⟩, hd⟩
    rcases conns_put hc' with ⟨-, rfl⟩ | ⟨-, hc'⟩
    · exact h.1 cid _ hc w hw
    · exact h.1 cid' c' hc' w hw
  effect S cid c k s' _ hc _ hf h hd he := by
    refine ⟨⟨fun cid' c' hc' w hw => ?_, fun cid' q hq => ?_⟩, hd.1, fun hn req hreq ho => ?_⟩
    · rcases conns_put hc' with ⟨-, rfl⟩ | ⟨-, hc'⟩
      · rcases he.watcher_cases hw with hw | ⟨hcmd, hreq, hin, ho⟩
        · exact h.1 cid c hc w hw
        · rw [hd.1.nextCommand_eq hin]
          exact hd.2 ⟨hcmd, hf⟩ w.req hreq ho
      · exact h.1 cid' c' hc' w hw
    · rcases he.queue_cases hq with hq | ⟨info, hframe⟩
      · exact h.2 cid' q hq
      · rw [hframe]
        exact oplockBreakMessage_next info
    · -- A CHANGE_NOTIFY opens nothing, so the open was there before the step.
      obtain ⟨oh, hoh⟩ := isSome_iff_exists.1 ho
      rcases he.open_cases hoh with ⟨oh0, h0, -⟩ | ⟨-, -, hcr⟩
      · exact hd.2 hn req hreq (by rw [h0]; rfl)
      · exact absurd (hn.1.symm.trans hcr.cmd) (by decide)
  close S cid c s' _ hc h _ hcl := by
    obtain ⟨l, -, hends⟩ := hcl.ends
    have hq : s'.sh.asyncResp = S.sh.asyncResp := hends.asyncResp
    refine ⟨fun cid' c' hc' w hw => h.1 cid' c' (conns_remove hc').2 w hw, fun cid' q hm => ?_⟩
    have hm' : q ∈ s'.sh.asyncResp cid' := hm
    rw [hq] at hm'
    exact h.2 cid' q hm'

/-- **Replies are compounds.**  In every run of the server in which each step meets
`ChainOk`, a client that follows `NextCommand` through a reply meets one response for
each command that was handled, in order; and no queued message has a `NextCommand`. -/
theorem reach_chainSafe (srv : Config E) (w : E.World) (hE : E.Bounded) (S : Sys E)
    (hS : (system srv w).Reach ChainOk S) : ChainSafe S := by
  refine ⟨fun cid c lp hc hlp hfin hne => ?_, ?_⟩
  · have h : Chained c lp := (chained_rule hE).reach hS cid c lp hc hlp
    have hr : lp.replies ≠ [] := fun hnil => hne (h.empty hnil).1
    refine (h.compound hr).compound_eq (by simpa using hr) fun v hv => ?_
    rw [List.getLast?_map] at hv
    obtain ⟨r, hr, rfl⟩ := Option.map_eq_some_iff.1 hv
    exact of_decide_eq_true ((h.last r hr).2.1.symm.trans hfin)
  · have h₀ : Unchained (system srv w).init := 
      ⟨fun cid c hc => (nomatch hc), fun cid q hq => (nomatch hq)⟩
    exact (unchained_preserved.reach h₀ hS).2.2

/-! ### Two runs -/

/-- The reply of a connection is done and is not a compound of its responses. -/
def Sys.misses (S : Sys E) (cid : ConnId) : Bool :=
  (S.conns cid).any fun c => c.loop.any fun lp =>
    lp.finished && c.out ≠ [] && compound? c.out ≠ some (lp.replies.map Reply.visit)

/-- The reply of a connection is done and has `n` responses. -/
def Sys.answers (S : Sys E) (cid : ConnId) (n : ℕ) : Bool :=
  (S.conns cid).any fun c => c.loop.any fun lp => lp.finished && lp.replies.length = n

theorem guestEnv_bounded : guestEnv.Bounded where
  token a t w r h := by
    obtain rfl : _ = r := Except.ok.inj h
    decide
  pipe h pp i w hp := nomatch hp
  listing h p w := show listingSize [] < 2 ^ 30 by decide

/-- A CANCEL that names a next command behind the end of its frame. -/
def danglingCancelFrame : Bytes := Header.encode { command := cmdCancel, nextCommand := 1000 }

/-- **A reply points behind its own end.**  The response to `danglingCancelFrame` keeps
the `NextCommand` of its request, although no other response follows. -/
theorem dangling_reply_is_no_compound :
    ¬ ∀ (E : Env) (srv : Config E) (w : E.World) (S : Sys E), E.Bounded →
      (system srv w).Reach (fun _ _ => True) S → ChainSafe S := by
  intro h
  obtain ⟨S, hS, hbad⟩ := Transition.Reach.of_run (T := guestSystem false) (C := fun _ _ => True)
    (f := fun S => S.misses 0) [.accept, .recv 0 danglingCancelFrame, .sub 0, .sub 0]
    (by decide +kernel) (by decide +kernel)
  have hsafe := h guestEnv (guestServer false) (0 : ℕ) S guestEnv_bounded hS
  unfold Sys.misses at hbad
  cases hc : S.conns 0 with
  | none => simp [hc] at hbad
  | some c =>
    cases hlp : c.loop with
    | none => simp [hc, hlp] at hbad
    | some lp =>
      simp only [hc, hlp, Option.any_some, Bool.and_eq_true, decide_eq_true_eq] at hbad
      exact hbad.2 (hsafe.1 0 c lp hc hlp hbad.1.1 hbad.1.2)

/-- Two CANCELs in one frame. -/
def cancelCancelFrame : Bytes :=
  Header.encode { command := cmdCancel, nextCommand := 64 } ++ Header.encode { command := cmdCancel }

/-- The hypotheses of `reach_chainSafe` are met by a run with a reply of two responses. -/
theorem reach_chainSafe_cancels : guestEnv.Bounded ∧ ∃ S, (guestSystem false).Reach ChainOk S ∧
    S.answers 0 2 = true ∧ ChainSafe S := by
  obtain ⟨S, hS, hn⟩ := Transition.Reach.of_run (T := guestSystem false) (C := ChainOk)
    (f := fun S => S.answers 0 2) [.accept, .recv 0 cancelCancelFrame, .sub 0, .sub 0]
    (by decide +kernel) (by decide +kernel)
  exact ⟨guestEnv_bounded, S, hS, hn,
    reach_chainSafe (guestServer false) (0 : ℕ) guestEnv_bounded S hS⟩

end Server
end SmbServer
