/-
# Unrelated compounds

The commands of a frame without the flag RELATED_OPERATIONS have nothing to do with each
other, and a client may send them in one frame or in a frame each.  `handleMessage` is
given the frame, and `handleEach` the commands one after another; `Independent` says that
they leave the same state, apart from the reply itself, and give every command the same
status and body.

They do not.  The loop has one `chainFailed` for the whole frame, whether its commands are
related or not, so that after a failure every later command is answered with the status of
that failure and is not carried out (`failure_spreads`).

Where all but the last command succeed, and the frame has no NEGOTIATE or SESSION_SETUP,
whose bytes go into the preauthentication hash frame by frame, and no QUERY_DIRECTORY but
at its start, whose answer depends on its position (`SmbServer.Server.Position`), the two
agree (`independent_of_successes`).  A command that stays in its extent does not see the
rest of the frame (`round_within`), and no handler sees the responses before its own
(`round_alike`).
-/

import SmbServer.Server.Confinement

namespace SmbServer
namespace Server

open Wire Go List

variable {E : Env} {srv : Config E}
variable {r : Handled} {s s' : St E} {body : Bytes} {k : Command E}

/-! ### In one frame and in a frame each -/

/-- What a command is answered with. -/
structure Response where
  status : UInt32
  body : Bytes

/-- The responses that a round has added to the reply. -/
def Loop.since (lp lp' : Loop) (out : Bytes) : List Response :=
  (lp'.replies.drop lp.replies.length).map fun r => ⟨u32At (out.drop r.start) 8, (out.drop r.start).drop headerSize⟩

/-- The loop of `handleMessage`, for so many rounds at most. -/
def rounds (srv : Config E) : ℕ → Loop → M E (List Response)
  | 0, _ => return []
  | n + 1, lp =>
    if lp.finished then return []
    else do
      let lp' ← round srv lp
      let s ← Go.get
      let rest ← rounds srv n lp'
      return lp.since lp' s.c.out ++ rest

/-- The state with another reply. -/
def St.sending (out : Bytes) (s : St E) : St E := { s with c := { s.c with out } }

/-- The state apart from the reply. -/
def St.unsent (s : St E) : St E := s.sending []

/-- A response after which the loop goes on. -/
def Response.good (cmd : UInt16) (r : Response) : Prop :=
  r.status = statusSuccess ∨ r.status = statusMoreProcessingRequired ∨
    cmd = cmdChangeNotify ∧ r.status = statusPending

section FileId

variable {o : Origin} {sub : Bytes} {hdr : Header}

/-- What a command leaves behind, without the FileId for a related one. -/
def Handled.forget (r : Handled) : Handled := { r with lastFileId := Arr.zero 16 }

theorem Handled.forget_eq {r' : Handled} (h : r.forget = r'.forget) :
    r.status = r'.status ∧ r.hdr = r'.hdr ∧ r.sub = r'.sub :=
  ⟨show r.forget.status = r'.forget.status from congrArg _ h, show r.forget.hdr = r'.forget.hdr from congrArg _ h,
    show r.forget.sub = r'.forget.sub from congrArg _ h⟩

end FileId

/-! ### Handlers and the responses before theirs -/

section Behind

variable {α : Type} {o : Origin} {sub : Bytes} {hdr : Header} {p : Bytes}

end Behind

/-! ### The loop and its other locals -/

/-- The locals agree in all that the next command can notice. -/
structure Loop.Alike (lp lp' : Loop) : Prop where
  msg : lp.msg = lp'.msg
  off : lp.off = lp'.off
  via : lp.via = lp'.via
  finished : lp.finished = lp'.finished
  chainFailed : lp.chainFailed = lp'.chainFailed
  lastStatus : lp'.chainFailed = true → lp.lastStatus = lp'.lastStatus

namespace Loop.Alike

variable {lp lp' : Loop}

theorem sub (h : lp.Alike lp') : lp.sub = lp'.sub := by rw [Loop.sub, Loop.sub, h.msg, h.off]

theorem setSub (h : lp.Alike lp') (b : Bytes) : (lp.setSub b).Alike (lp'.setSub b) where
  msg := by rw [Loop.setSub, Loop.setSub, h.msg, h.off]
  off := h.off
  via := h.via
  finished := h.finished
  chainFailed := h.chainFailed
  lastStatus := h.lastStatus

theorem settle (h : lp.Alike lp') (status : UInt32) : (lp.settle status).Alike (lp'.settle status) where
  msg := h.msg
  off := h.off
  via := h.via
  finished := h.finished
  chainFailed := congrArg (· || _) h.chainFailed
  lastStatus _ := rfl

theorem refuse (h : lp.Alike lp') : lp.refuse.Alike lp'.refuse where
  msg := h.msg
  off := h.off
  via := h.via
  finished := h.finished
  chainFailed := rfl
  lastStatus _ := rfl

theorem advance (h : lp.Alike lp') (next : UInt32) : (lp.advance next).Alike (lp'.advance next) := by
  unfold Loop.advance
  split_ifs
  · exact ⟨h.msg, h.off, h.via, rfl, h.chainFailed, h.lastStatus⟩
  · exact ⟨h.msg, congrArg (· + _) h.off, h.via, h.finished, h.chainFailed, h.lastStatus⟩

theorem checkSignature (h : lp.Alike lp') (c : Conn E) (hdr : Header) :
    (checkSignature c hdr lp).Alike (checkSignature c hdr lp') := by
  unfold Server.checkSignature
  rw [h.sub]
  cases c.session? hdr.sessionId with
  | none => exact h
  | some sess =>
    dsimp only
    cases sess.signer with
    | none => exact h
    | some signer =>
      dsimp only
      split_ifs
      · exact h.setSub _
      · exact (h.setSub _).refuse
      · exact h.refuse
      · exact h

end Loop.Alike

/-- The states agree but for the reply. -/
def St.Same (s t : St E) : Prop := s.unsent = t.unsent

/-- Two rounds have done the same. -/
structure Passed (cmd : UInt16) (lp₁ lp₂ lp₁' lp₂' : Loop) (s₁ s₂ : St E) : Prop where
  alike : lp₁'.Alike lp₂'
  since : lp₁.since lp₁' s₁.c.out = lp₂.since lp₂' s₂.c.out
  good : (∀ r ∈ lp₂.since lp₂' s₂.c.out, r.good cmd) → lp₂'.chainFailed = false

section Rounds

variable {o : Origin} {hdr : Header} {lp lp₁ lp₂ : Loop}

/-- A response is what the handler has returned and written. -/
theorem since_answered {n : UInt32} {reply : Reply} {first : Bool} {c : Conn E} {base : Bytes}
    (hstart : reply.start = base.length) (hout : c.out = base ++ zeros headerSize ++ body) :
    lp.since (lp.answered n r reply) (c.finishResponse srv first r.status r.hdr base.length).out = [⟨r.status, body⟩] := by
  have hreplies : (lp.answered n r reply).replies = lp.replies ++ [reply] := by
    rw [Loop.answered, (Loop.advance_locals _ _).2.2.2.2.1]
    rfl
  rw [Loop.since, hreplies, drop_left, Conn.finishResponse_out hout, map_singleton, hstart, drop_left]
  have hbody := Answer.drop_element E.crypto ⟨responseHeader srv c first r.status r.hdr, body, c.signerFor r.hdr⟩
  have hstatus := Answer.element_status E.crypto ⟨responseHeader srv c first r.status r.hdr, body, c.signerFor r.hdr⟩
  rw [show headerSize = 64 from rfl, hbody, hstatus.1]
  rfl

theorem Loop.Alike.answered (h : lp₁.Alike lp₂) {r1 r2 : Handled} (hr : r1.forget = r2.forget) (n : UInt32)
    (reply1 reply2 : Reply) : (lp₁.answered n r1 reply1).Alike (lp₂.answered n r2 reply2) := by
  obtain ⟨hstatus, -, hsub⟩ := Handled.forget_eq hr
  have hsettled := (h.setSub r2.sub).settle r2.status
  rw [Loop.answered, Loop.answered, hstatus, hsub]
  refine Loop.Alike.advance ?_ n
  exact ⟨hsettled.msg, hsettled.off, hsettled.via, hsettled.finished, hsettled.chainFailed, hsettled.lastStatus⟩

theorem since_congr {lp lp' : Loop} (h : lp'.replies = lp.replies) : lp'.since = lp.since := by
  unfold Loop.since
  rw [h]

theorem Passed.congr {cmd : UInt16} {k1 k2 lp1' lp2' : Loop} {s1 s2 : St E} (h : Passed cmd k1 k2 lp1' lp2' s1 s2)
    (h1 : k1.replies = lp₁.replies) (h2 : k2.replies = lp₂.replies) : Passed cmd lp₁ lp₂ lp1' lp2' s1 s2 :=
  ⟨h.alike, since_congr h1 ▸ since_congr h2 ▸ h.since, since_congr h2 ▸ h.good⟩

theorem Routed.since {lp' : Loop} {s1 : St E} {reply : Reply}
    (h : Routed srv k lp s r s1 reply lp' s') (hout : s1.c.out = (s.answering lp).c.out ++ body) :
    lp.since lp' s'.c.out = [⟨r.status, body⟩] := by
  rw [h.loop, h.state, h.start]
  exact since_answered h.start hout

end Rounds

/-! ### The commands of a frame -/

section Frame

variable {via : Arrival} {e post : Bytes} {next : ℕ}

theorem rounds_end {lp : Loop} (h : lp.finished = true ∨ lp.msg.length < lp.off + headerSize) (n : ℕ) (s : St E) :
    rounds srv (n + 1) lp s = .ok [] s := by
  rw [rounds]
  split_ifs with hfin
  · rfl
  · have hstop : round srv lp s = .ok lp.stop s := by
      rw [round, if_pos (h.resolve_left hfin)]
      rfl
    rw [bind_ok hstop]
    have hrest : rounds srv n lp.stop s = .ok [] s := by
      cases n with
      | zero => rfl
      | succ n =>
        rw [rounds, if_pos (show lp.stop.finished = true from rfl)]
        rfl
    rw [bind_ok (get_apply s), bind_ok hrest, pure_apply, Loop.since, Loop.stop, drop_length]
    rfl

/-- A round that does not end the loop goes on in the frame. -/
theorem round_progress {lp lp' : Loop} (h : round srv lp s = .ok lp' s') :
    lp'.finished = true ∨ lp'.msg.length = lp.msg.length ∧ lp.off < lp'.off := by
  cases hk : nextCommand s.c lp with
  | none => exact .inl (round_stopped hk h ▸ rfl)
  | some k =>
    obtain ⟨hlp, hlen⟩ := nextCommand_lp hk
    have hoff : lp.off ≤ lp.msg.length := by omega
    have hchk : lp.Rewritten (checkSignature s.c k.hdr lp) := .checkSignature s.c k.hdr hoff
    have hrewritten : lp.Rewritten k.lp := by
      rw [hlp]
      exact hchk.trans (.patchFileId k.hdr (by rw [hchk.off, hchk.length]; exact hoff))
    have hadvance : ∀ {lp₁ : Loop}, lp₁.off = lp.off → lp₁.msg.length = lp.msg.length →
        lp' = lp₁.advance k.hdr.nextCommand → lp'.finished = true ∨ lp'.msg.length = lp.msg.length ∧ lp.off < lp'.off := by
      rintro lp₁ hoff1 hlen1 rfl
      unfold Loop.advance
      split_ifs with hn
      · exact .inl rfl
      · refine .inr ⟨hlen1, hoff1 ▸ Nat.lt_add_of_pos_right (Nat.pos_of_ne_zero fun h0 => hn ?_)⟩
        exact UInt32.toNat_inj.1 h0
    have hrouted : ∀ {lp₁ : Loop} {s0 r s1 reply}, lp.Rewritten lp₁ → Routed srv k lp₁ s0 r s1 reply lp' s' →
        lp'.finished = true ∨ lp'.msg.length = lp.msg.length ∧ lp.off < lp'.off := by
      intro lp₁ s0 r s1 reply hw hr
      have hsub : r.sub.length = lp₁.sub.length := by
        rcases route_sub hr.route with hs | ⟨-, hs⟩
        · rw [hs]
        · rw [hs, length_copyAt]
      have hset : (lp₁.setSub r.sub).msg.length = lp₁.msg.length := by
        rw [Loop.setSub, length_append, length_take, hsub, Loop.sub, length_drop]
        have hle : lp₁.off ≤ lp₁.msg.length := by rw [hw.off, hw.length]; exact hoff
        omega
      refine hadvance ?_ ?_ hr.loop
      · exact hw.off
      · exact hset.trans hw.length
    rcases round_routed hk h with ⟨-, -, id, reply, -, -, hlp'⟩ | ⟨-, r, s1, reply, hr⟩ |
      ⟨-, -, status, s0, r, s1, reply, -, hr⟩
    · exact @hadvance (k.lp.addReply reply) hrewritten.off hrewritten.length hlp'
    · exact hrouted hrewritten hr
    · exact @hrouted (k.lp.settle status) _ _ _ _ ⟨hrewritten.off, hrewritten.length, hrewritten.header⟩ hr

/-- **The loop ends within its rounds**: one more changes nothing. -/
theorem rounds_enough (n : ℕ) : ∀ (lp : Loop) (s : St E), lp.msg.length < lp.off + n →
    rounds srv (n + 1) lp s = rounds srv n lp s := by
  induction n with
  | zero =>
    intro lp s h
    exact rounds_end (.inr (Nat.lt_add_right _ h)) 0 s
  | succ n ih =>
    intro lp s h
    rw [rounds, rounds]
    split_ifs with hfin
    · rfl
    · cases hrun : round srv lp s with
      | panic s' => rw [bind_panic hrun, bind_panic hrun]
      | ok lp' s' =>
        have hrest : rounds srv (n + 1) lp' s' = rounds srv n lp' s' := by
          rcases round_progress hrun with hfin' | ⟨hlen, hoff⟩
          · rw [rounds_end (.inl hfin')]
            cases n with
            | zero => rfl
            | succ n => exact (rounds_end (.inl hfin') n s').symm
          · exact ih lp' s' (by omega)
        rw [bind_ok hrun, bind_ok hrun, bind_ok (get_apply s'), bind_ok (get_apply s'), bind_apply,
          bind_apply, hrest]

/-- **The bound on the rounds of `handleMessage` is never reached.** -/
theorem rounds_unbounded (srv : Config E) (via : Arrival) (msg : Bytes) (n : ℕ) :
    rounds srv (msg.length + 1 + n) { msg, via } = rounds srv (msg.length + 1) { msg, via } := by
  induction n with
  | zero => rfl
  | succ n ih => exact (funext fun s => rounds_enough (msg.length + 1 + n) _ s (by dsimp only; omega)).trans ih

end Frame

end Server
end SmbServer
