/-
# Messages for sessions that require encryption

`maybeSealResponse` decides once for a whole reply, from its first header, whether
it is sealed and for which session, and it does so after the commands are done.
`drainAsync` seals nothing.  So a response for a session that requires encryption
leaves sealed under its key when it is in a reply whose first response is for the
same session, that session is still there, and its cached cipher is not one of an
earlier key (`OutboundOk`); and it leaves in plaintext when it comes from a watcher
or an oplock break, or when the command was a LOGOFF
(`logoff_response_is_plaintext`).
-/

import SmbServer.Server.Frames

namespace SmbServer
namespace Server

open Wire Go List Event

variable {E : Env} {srv : Config E}

/-- A message that must not leave in plaintext. -/
def Addressee.Secret (a : Addressee) : Prop :=
  a.enc = true ∧ a.cmd ≠ cmdNegotiate ∧ a.cmd ≠ cmdSessionSetup

instance (a : Addressee) : Decidable a.Secret :=
  inferInstanceAs (Decidable (a.enc = true ∧ a.cmd ≠ cmdNegotiate ∧ a.cmd ≠ cmdSessionSetup))

/-- The frame is a TRANSFORM message for the session, sealed under its encryption key. -/
def SealedFor (E : Env) (sid : UInt64) (frame : Bytes) (sealing : Option (UInt64 × Bytes × Bytes)) :
    Prop :=
  ∃ key nonce out, sealing = some (sid, key, key) ∧
    frame = Encryption.AESCCM.seal E.crypto ⟨key⟩ nonce out sid

/-- Every frame written that holds a message for a session requiring encryption was
sealed for that session. -/
def OutboundSafe (S : Sys E) : Prop :=
  ∀ cid frame sealing content, .wrote cid frame sealing content ∈ S.sh.trace →
    ∀ a ∈ content, a.Secret → SealedFor E a.sid frame sealing

/-- The reply begins with a response on the session, other than to a NEGOTIATE or a
SESSION_SETUP; the session is still there and requires encryption; and its cached
cipher, if any, was made from its present key. -/
def Conn.SealsFor (c : Conn E) (lp : Loop) (sid : UInt64) : Prop :=
  (∃ r ∈ lp.replies.head?, r.start = 0 ∧ r.sid = sid ∧ r.cmd ≠ cmdNegotiate ∧
    r.cmd ≠ cmdSessionSetup) ∧
  ∃ sess ∈ c.session? sid, sess.requireEncrypt = true ∧
    ∀ ccm ∈ sess.encCCM, sess.encryptionKey = some ccm.key

instance (c : Conn E) (lp : Loop) (sid : UInt64) : Decidable (c.SealsFor lp sid) :=
  inferInstanceAs (Decidable ((∃ r ∈ lp.replies.head?, r.start = 0 ∧ r.sid = sid ∧
    r.cmd ≠ cmdNegotiate ∧ r.cmd ≠ cmdSessionSetup) ∧
    ∃ sess ∈ c.session? sid, sess.requireEncrypt = true ∧
      ∀ ccm ∈ sess.encCCM, sess.encryptionKey = some ccm.key))

/-- A reply with a message that must not leave in plaintext is one that will be sealed
for its session, and no such message is next in a queue. -/
def OutboundOk (S : Sys E) : Label → Prop
  | .reply cid => ∀ c ∈ S.conns cid, ∀ lp ∈ c.loop, ∀ r ∈ lp.replies, r.Secret →
      c.SealsFor lp r.sid
  | .drain cid => ∀ c ∈ S.conns cid, ∀ q ∈ (S.sh.asyncResp c.id).head?, ¬q.dest.Secret
  | _ => True

instance (S : Sys E) : ∀ l, Decidable (OutboundOk S l)
  | .reply cid => inferInstanceAs (Decidable (∀ c ∈ S.conns cid, ∀ lp ∈ c.loop,
      ∀ r ∈ lp.replies, r.Secret → c.SealsFor lp r.sid))
  | .drain cid => inferInstanceAs (Decidable (∀ c ∈ S.conns cid,
      ∀ q ∈ (S.sh.asyncResp c.id).head?, ¬q.dest.Secret))
  | .accept | .recv _ _ | .sub _ | .tick _ _ | .done _ _ | .close _ => isTrue trivial

/-! ### The first header of a reply -/

/-- What is known of the start of a reply whose first response is at its start. -/
structure Heading (out : Bytes) (prev : Option ℕ) (cmd : UInt16) (sid : UInt64) : Prop where
  length : 64 ≤ out.length
  command : u16At out 12 = cmd
  session : cmd ≠ cmdSessionSetup → u64At out 40 = sid
  starts : ∀ p ∈ prev, p = 0 ∨ 64 ≤ p

namespace Heading

variable {out : Bytes} {prev : Option ℕ} {cmd : UInt16} {sid : UInt64}

theorem append (h : Heading out prev cmd sid) (b : Bytes) : Heading (out ++ b) prev cmd sid where
  length := by rw [length_append]; exact Nat.le_add_right_of_le h.length
  command := by rw [u16At, slice_append_left _ (Nat.le_trans (by decide) h.length)]; exact h.command
  session hc := by
    rw [u64At, slice_append_left _ (Nat.le_trans (by decide) h.length)]
    exact h.session hc
  starts := h.starts

theorem link (h : Heading out prev cmd sid) :
    Heading (linkPrevious prev out) (some (linkPrevious prev out).length) cmd sid where
  length := h.length.trans (length_linkPrevious _ _)
  command := by
    rw [u16At, slice_linkPrevious (fun p hp => by have := h.starts p hp; omega)
      (Nat.le_trans (by decide) h.length)]
    exact h.command
  session hc := by
    rw [u64At, slice_linkPrevious (fun p hp => by have := h.starts p hp; omega)
      (Nat.le_trans (by decide) h.length)]
    exact h.session hc
  starts p hp := by
    cases hp
    exact .inr (h.length.trans (length_linkPrevious _ _))

end Heading

/-- The first response of a reply, where it begins at the start. -/
structure Headed (c : Conn E) (lp : Loop) : Prop where
  empty : lp.replies = [] → c.out = [] ∧ lp.prevRespStart = none
  head : ∀ r ∈ lp.replies.head?, r.start = 0 → Heading c.out lp.prevRespStart r.cmd r.sid

theorem headed_rule {C : Sys E → Label → Prop} : FrameRule srv C Headed where
  congr ho _ h := ⟨fun hr => by rw [ho]; exact h.empty hr, fun r hr h0 => by
    rw [ho]; exact h.head r hr h0⟩
  start _ _ _ _ := ⟨fun _ => ⟨rfl, rfl⟩, fun r hr => nomatch hr⟩
  pass {S cid c lp lp' s'} _ _ _ _ _ h _ hp _ := by
    cases hp with
    | stop _ => exact ⟨h.empty, h.head⟩
    | pending k id hk hn hw hout hs ha =>
      refine ⟨fun hr => by simp [ha.replies] at hr, fun r hr h0 => ?_⟩
      rw [ha.prev, hout]
      rw [ha.replies] at hr
      cases hl : lp.replies with
      | nil =>
        obtain ⟨hout0, hprev⟩ := h.empty hl
        rw [hl] at hr
        cases hr
        obtain ⟨-, hcmd, -, -, hsid⟩ := Header.encode_fields { k.hdr with
          flags := flagServerToRedir ||| flagAsyncCommand
          status := statusPending
          asyncId := id
          credit := 0 }
        rw [hout0, hprev]
        exact ⟨(Header.length_encode _).ge, hcmd, fun _ => hsid, fun p hp => nomatch hp⟩
      | cons r0 rs =>
        rw [hl] at hr
        exact (h.head r (by rw [hl]; exact hr) h0).append _
    | answer k junk a hk hj ha =>
      refine ⟨fun hr => by simp [ha.after.replies] at hr, fun r hr h0 => ?_⟩
      rw [ha.after.prev, ha.out]
      rw [ha.after.replies] at hr
      cases hl : lp.replies with
      | nil =>
        obtain ⟨hout0, hprev⟩ := h.empty hl
        rw [hl] at hr
        cases hr
        -- The response is at the start only if nothing was appended before it.
        have hnil : linkPrevious lp.prevRespStart (c.out ++ junk) = [] :=
          length_eq_zero_iff.1 h0
        obtain ⟨-, hcmd, -, -, hsid⟩ := a.element_fields E.crypto
        rw [hnil]
        refine ⟨?_, hcmd.trans ha.hdr.command, fun hc => hsid.trans (ha.hdr.sessionId hc), ?_⟩
        · rw [nil_append, a.length_element]
          exact Nat.le_add_right _ _
        · exact fun p hp => .inl (Option.some.inj hp).symm
      | cons r0 rs =>
        rw [hl] at hr
        exact ((h.head r (by rw [hl]; exact hr) h0).append junk).link.append _

/-! ### What is written -/

/-- `maybeSealResponse` seals a reply with the cipher of the session of its first header. -/
theorem maybeSealResponse_cipher {out key : Bytes} {s : St E} {sess : Session E}
    {ccm : Encryption.AESCCM} (hlen : 64 ≤ out.length) (hn : u16At out 12 ≠ cmdNegotiate)
    (hss : u16At out 12 ≠ cmdSessionSetup) (hs : s.c.session? (u64At out 40) = some sess)
    (hreq : sess.requireEncrypt = true) (hkey : sess.encryptionKey = some key)
    (hccm : (sess.encCCM <|> Encryption.newAESCCM key) = some ccm) :
    ∃ nonce s', maybeSealResponse out s = .ok (some
      (ccm.seal E.crypto nonce out (u64At out 40), u64At out 40, ccm.key, key)) s' := by
  have hshort : ¬(out.length < headerSize ∨ u16At out 12 = cmdNegotiate ∨
      u16At out 12 = cmdSessionSetup) := by
    simp only [headerSize, hn, hss, or_self, or_false]
    omega
  refine ⟨(E.nonce s.sh.world).1, ?_⟩
  unfold maybeSealResponse
  simp only [if_neg hshort]
  rw [bind_ok (get_apply s)]
  simp only [hs, hkey, hreq, hccm, Bool.not_true, Bool.false_eq_true, if_false]
  exact ⟨_, rfl⟩

theorem sendReply_trace (lp : Loop) (s : St E) :
    (sendReply lp s).state.sh.trace = s.sh.trace ∨
      ∃ r s1 cid, maybeSealResponse s.c.out s = .ok r s1 ∧ (sendReply lp s).state.sh.trace =
        .wrote cid ((r.map Prod.fst).getD s.c.out) (r.map Prod.snd)
          (lp.replies.map Reply.toAddressee) :: s.sh.trace := by
  have hwrite : ∀ (s1 : St E) frame sealing content (g : Bool → M E Unit),
      (∀ ok, Keeps (fun s => s.sh.trace) (g ok)) → s1.sh.trace = s.sh.trace →
      ((writeMessage frame sealing content >>= g) s1).state.sh.trace = s.sh.trace ∨
        ((writeMessage frame sealing content >>= g) s1).state.sh.trace =
          .wrote s1.c.id frame sealing content :: s.sh.trace := by
    intro s1 frame sealing content g hg ht
    rw [bind_apply]
    unfold writeMessage
    split_ifs
    · exact .inl ((hg false s1).trans ht)
    · exact .inr ((hg true _).trans (congrArg _ ht))
  unfold sendReply
  rw [bind_ok (get_apply s)]
  split_ifs
  · exact .inl rfl
  · have hquiet := (maybeSealResponse_quiet s.c.out s).trace_eq
    rw [bind_apply]
    cases hm : maybeSealResponse s.c.out s with
    | panic s1 =>
      rw [hm] at hquiet
      exact .inl hquiet
    | ok r s1 =>
      rw [hm] at hquiet
      cases r with
      | none =>
        refine (hwrite s1 _ _ _ _ (fun _ _ => rfl) hquiet).imp id fun h => ?_
        exact ⟨none, s1, _, rfl, h⟩
      | some r =>
        refine (hwrite s1 _ _ _ _ (fun _ _ => rfl) hquiet).imp id fun h => ?_
        exact ⟨some r, s1, _, rfl, h⟩

theorem drainOne_wrote {q : Queued} {rest : List Queued} {s : St E} {e : Event E}
    (he : e ∈ (drainOne q rest s).state.sh.trace) :
    e ∈ s.sh.trace ∨ ∃ cid, e = .wrote cid q.frame none [q.dest] := by
  simp only [drainOne, bind_apply, modify_apply, writeMessage] at he
  split_ifs at he
  · exact .inl he
  · rcases mem_cons.1 he with rfl | he
    · exact .inr ⟨_, rfl⟩
    · exact .inl he

theorem Event.excludes_of_isWrite {e : Event E} (h : e.isWrite = true) :
    (∀ cid, e.isHandler cid = false) ∧ e.isWatch = false := by
  cases e with
  | wrote cid frame sealing content => exact ⟨fun _ => rfl, rfl⟩
  | _ => cases h

theorem Change.wrote {k : Option (Command E)} {s s' : St E} (h : Change srv k s s') {e : Event E}
    (hw : e.isWrite = true) (he : e ∈ s'.sh.trace) : e ∈ s.sh.trace := by
  cases h with
  | aside ha => exact ha.trace_eq ▸ he
  | exec cmd hk hf hs =>
    rcases mem_cons.1 he with rfl | he
    · cases hw
    · exact he
  | effect cmd hk hf h =>
    obtain ⟨es, ht, hes⟩ := h.trace
    rw [ht] at he
    rcases mem_append.1 he with he | he
    · exact absurd (hes e he) (by simp [(excludes_of_isWrite hw).1])
    · exact he

theorem Change.wrote_run {k : Option (Command E)} {s s' : St E}
    (h : Relation.ReflTransGen (Change srv k) s s') {e : Event E} (hw : e.isWrite = true)
    (he : e ∈ s'.sh.trace) : e ∈ s.sh.trace := by
  induction h with
  | refl => exact he
  | tail _ hst ih => exact ih (hst.wrote hw he)

/-- **Frames are written by `sendReply` and `drainOne` alone.** -/
theorem Sys.step_wrote {S S' : Sys E} {l : Label} (hb : Base S) (h : S.step srv l = some S')
    {e : Event E} (hw : e.isWrite = true) (he : e ∈ S'.sh.trace) :
    e ∈ S.sh.trace ∨
      (∃ cid c lp, l = .reply cid ∧ S.conns cid = some c ∧ c.loop = some lp ∧
        e ∈ (sendReply lp ⟨S.sh, c⟩).state.sh.trace) ∨
      ∃ cid c q rest, l = .drain cid ∧ S.conns cid = some c ∧ S.sh.asyncResp c.id = q :: rest ∧
        e ∈ (drainOne q rest ⟨S.sh, c⟩).state.sh.trace := by
  have hwatch : ∀ {c : Conn E} {m : M E Unit}, Aside isWatch ⟨S.sh, c⟩ (m ⟨S.sh, c⟩).state →
      e ∈ (m ⟨S.sh, c⟩).state.sh.trace → e ∈ S.sh.trace := by
    intro c m hm he
    obtain ⟨es, ht, hes⟩ := hm.trace
    rw [ht] at he
    refine (mem_append.1 he).resolve_left fun he => ?_
    exact absurd (hes e he) (by simp [(excludes_of_isWrite hw).2])
  cases Sys.step_fired h with
  | accept => exact .inl he
  | recv raw hc hlp =>
    rw [Sys.exec_sh] at he
    exact .inl (hwatch (receive_quiet raw _) he)
  | @sub cid c lp hc hlp hfin =>
    rw [Sys.exec_sh] at he
    exact .inl (Change.wrote_run (subCommand_moves srv lp (hb _ _ hc).2.2) hw he)
  | @reply cid c lp hc hlp hfin =>
    rw [Sys.exec_sh] at he
    exact .inr (.inl ⟨cid, c, lp, rfl, hc, hlp, he⟩)
  | @drain cid c q rest hc hq =>
    rw [Sys.exec_sh] at he
    exact .inr (.inr ⟨cid, c, q, rest, rfl, hc, hq, he⟩)
  | @tick cid c i w hc hw' =>
    rw [Sys.exec_sh] at he
    exact .inl (hwatch (watchTick_aside hw') he)
  | @done cid c i w hc hw' =>
    rw [Sys.exec_sh] at he
    exact .inl (hwatch (finalizeCN_aside hw' _ _) he)
  | @close cid c s' hc hcl =>
    obtain ⟨l, -, hends⟩ := hcl.ends
    obtain ⟨es, ht, hes⟩ := hends.isHandler (fun o h => (nomatch h : o.conn = cid))
    refine .inl ?_
    rw [Sys.remove, ht] at he
    refine (mem_append.1 he).resolve_left fun he => ?_
    exact absurd (hes e he) (by simp [(excludes_of_isWrite hw).1])

/-- A session that requires encryption has a key that makes a cipher. -/
def Session.Keyed (sess : Session E) : Prop :=
  sess.requireEncrypt = true → ∃ key, sess.encryptionKey = some key ∧ key.length = 16

theorem reach_keyed {C : Sys E → Label → Prop} {w : E.World} {S : Sys E}
    (hS : (system srv w).Reach C S) : Sessions Session.Keyed S := by
  refine Sessions.reach (fun hsame h hreq => ?_) (fun _ h => nomatch h) (fun r sess _ _ => ?_) hS
  · rw [hsame.encryptionKey]
    exact h (hsame.requireEncrypt ▸ hreq)
  · exact ⟨_, rfl, by simp [Encryption.deriveServerEncryptionKey, kdfCounter]⟩

theorem Session.Keyed.cipher {sess : Session E} (h : sess.Keyed) (hreq : sess.requireEncrypt = true) :
    ∃ key ccm, sess.encryptionKey = some key ∧
      (sess.encCCM <|> Encryption.newAESCCM key) = some ccm ∧
      ((∀ ccm ∈ sess.encCCM, sess.encryptionKey = some ccm.key) → ccm = ⟨key⟩) := by
  obtain ⟨key, hkey, hlen⟩ := h hreq
  cases hc : sess.encCCM with
  | none => exact ⟨key, ⟨key⟩, hkey, by simp [Encryption.newAESCCM, hlen], fun _ => rfl⟩
  | some ccm =>
    refine ⟨key, ccm, hkey, rfl, fun hccm => ?_⟩
    have hk : ccm.key = key := Option.some.inj ((hccm ccm rfl).symm.trans hkey)
    rw [← hk]

/-- A reply that `SealsFor` a session is sealed for it. -/
theorem sealedFor_of_sealsFor {s s1 : St E} {lp : Loop} {sid : UInt64}
    {r : Option (Bytes × UInt64 × Bytes × Bytes)} (hh : Headed s.c lp)
    (hk : ∀ sess, s.c.session? sid = some sess → sess.Keyed) (h : s.c.SealsFor lp sid)
    (hr : maybeSealResponse s.c.out s = .ok r s1) :
    SealedFor E sid ((r.map Prod.fst).getD s.c.out) (r.map Prod.snd) := by
  obtain ⟨⟨r0, hr0, hstart, rfl, hn, hss⟩, sess, hsess, hreq, hccm⟩ := h
  have hhead := hh.head r0 hr0 hstart
  obtain ⟨key, ccm, hkey, hcipher, heq⟩ := (hk sess hsess).cipher hreq
  obtain rfl := heq hccm
  have hsid := hhead.session hss
  rw [← hhead.command] at hn hss
  rw [← hsid] at hsess
  obtain ⟨nonce, s2, hseal⟩ :=
    maybeSealResponse_cipher hhead.length hn hss hsess hreq hkey hcipher
  rw [hseal, Outcome.ok.injEq] at hr
  rw [← hr.1, ← hsid]
  exact ⟨key, nonce, s.c.out, rfl, rfl⟩

/-- **Outbound encryption.**  In every run of the server in which each step meets
`OutboundOk`, every frame written that holds a message for a session requiring
encryption is a TRANSFORM message sealed under the key of that session. -/
theorem reach_outboundSafe (srv : Config E) (w : E.World) (S : Sys E)
    (hS : (system srv w).Reach OutboundOk S) : OutboundSafe S := by
  induction hS with
  | init => exact fun cid frame sealing content h => nomatch h
  | @step S S' l hS hC hs ih =>
    intro cid frame sealing content he a ha hsec
    rcases Sys.step_wrote (reach_base hS) hs rfl he with
      hold | ⟨cid', c, lp, rfl, hc, hlp, hnew⟩ | ⟨cid', c, q, rest, rfl, hc, hq, hnew⟩
    · exact ih cid frame sealing content hold a ha hsec
    · rcases sendReply_trace lp ⟨S.sh, c⟩ with hsame | ⟨r, s₁, _, hr, ht⟩
      · exact ih cid frame sealing content (hsame ▸ hnew) a ha hsec
      rw [ht] at hnew
      rcases List.mem_cons.1 hnew with hw | hold
      · simp only [Event.wrote.injEq] at hw
        obtain ⟨-, rfl, rfl, rfl⟩ := hw
        obtain ⟨reply, hreply, rfl⟩ := List.mem_map.1 ha
        have hseals := hC c hc lp hlp reply hreply hsec
        exact sealedFor_of_sealsFor (headed_rule.reach hS cid' c lp hc hlp)
          (fun sess hsess => reach_keyed hS cid' c _ sess hc hsess) hseals hr
      · exact ih cid frame sealing content hold a ha hsec
    · rcases drainOne_wrote hnew with hold | ⟨_, hw⟩
      · exact ih cid frame sealing content hold a ha hsec
      · simp only [Event.wrote.injEq] at hw
        obtain ⟨-, -, -, rfl⟩ := hw
        obtain rfl := List.mem_singleton.1 ha
        exact absurd hsec (hC c hc q (by rw [hq]; rfl))

/-! ### Two runs -/

/-- Some frame was written that holds a message for a session requiring encryption, and
whose sealing passes a test. -/
def Sys.wroteSecret (S : Sys E) (p : Option (UInt64 × Bytes × Bytes) → Bool) : Bool :=
  S.sh.trace.any fun e =>
    match e with
    | .wrote _ _ sealing content => p sealing && content.any fun a => decide a.Secret
    | _ => false

/-- The hypothesis of `reach_outboundSafe` is met by a run in which the response to an
ECHO is sealed. -/
theorem reach_outboundSafe_echo : ∃ S, (guestSystem true).Reach OutboundOk S ∧
    S.wroteSecret Option.isSome = true ∧ OutboundSafe S := by
  obtain ⟨S, hS, hw⟩ := Transition.Reach.of_run (T := guestSystem true) (C := OutboundOk)
    (f := fun S => S.wroteSecret Option.isSome)
    ([.accept] ++ exchange 0 setupFrame ++ exchange 0 sealedEchoFrame)
    (by decide +kernel) (by decide +kernel)
  exact ⟨S, hS, hw, reach_outboundSafe (guestServer true) (0 : ℕ) S hS⟩

/-- A LOGOFF of session 1 in a TRANSFORM message, as `Seal` makes it under the key of a
guest with the nonce zero. -/
def sealedLogoffFrame : Bytes :=
  [0xFD, 0x53, 0x4D, 0x42, 0x82, 0x73, 0x09, 0x42, 0x40, 0x00, 0x00, 0x00, 0x00, 0x00, 0x01, 0x00,
   0x02, 0x00, 0x00, 0x44, 0x00, 0x00, 0x00, 0x00, 0x00, 0x00, 0x00, 0x00, 0x00, 0x00, 0x00, 0x00,
   0x00, 0x00, 0x00, 0x00, 0x44, 0x00, 0x00, 0x00, 0x00, 0x00, 0x01, 0x00, 0x01, 0x00, 0x00, 0x00,
   0x00, 0x00, 0x00, 0x00, 0xFD, 0x53, 0x4D, 0x42, 0x40, 0x00, 0x00, 0x00, 0x00, 0x00, 0x00, 0x00,
   0x02, 0x00, 0x00, 0x01, 0x03, 0x00, 0x00, 0x00, 0x00, 0x00, 0x00, 0x00, 0x00, 0x00, 0x00, 0x00,
   0x00, 0x00, 0x00, 0x02, 0x03, 0x00, 0x00, 0x00, 0x00, 0x00, 0x00, 0x00, 0x01, 0x00, 0x00, 0x00,
   0x00, 0x00, 0x00, 0x03, 0x03, 0x00, 0x00, 0x00, 0x00, 0x00, 0x00, 0x00, 0x00, 0x00, 0x00, 0x00,
   0x00, 0x00, 0x00, 0x04, 0x07, 0x00, 0x00, 0x00]

/-- **The response to a LOGOFF on a session that requires encryption is written in
plaintext.**  The session is gone when `maybeSealResponse` looks for it. -/
theorem logoff_response_is_plaintext :
    ¬ ∀ (E : Env) (srv : Config E) (w : E.World) (S : Sys E), srv.requireEnc = true →
      (system srv w).Reach (fun _ _ => True) S → OutboundSafe S := by
  intro h
  obtain ⟨S, hS, hbad⟩ := Transition.Reach.of_run (T := guestSystem true) (C := fun _ _ => True)
    (f := fun S => S.wroteSecret Option.isNone)
    ([.accept] ++ exchange 0 setupFrame ++ exchange 0 sealedLogoffFrame)
    (by decide +kernel) (by decide +kernel)
  obtain ⟨e, he, hp⟩ := List.any_eq_true.1 hbad
  cases e with
  | wrote cid frame sealing content =>
    obtain ⟨hnone, hsec⟩ := Bool.and_eq_true_iff.1 hp
    obtain ⟨a, ha, hsec⟩ := List.any_eq_true.1 hsec
    obtain ⟨key, nonce, out, rfl, -⟩ := h guestEnv (guestServer true) (0 : ℕ) S rfl hS cid frame
      sealing content he a ha (of_decide_eq_true hsec)
    cases hnone
  | _ => cases hp

end Server
end SmbServer
