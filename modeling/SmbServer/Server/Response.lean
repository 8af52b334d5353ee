/-
# What one command leaves in the reply

A pass of the loop of `handleMessage` ends in one of three ways (`Pass`): there is
no further header, or the command is a CHANGE_NOTIFY that stays pending and has
its interim response appended, or it is answered.  An answer is a header, a body
and perhaps a signature (`Answer.element`), put behind the previous responses
once these have been linked to it (`linkPrevious`).  A CHANGE_NOTIFY that fails
has appended an error body of its own before that.
-/

import SmbServer.Server.Reach

namespace SmbServer
open List Option

variable {o : Origin} {n : ℕ} {status : UInt32} {hdr : Header} {lp lp' : Loop} {msg : Bytes} {r : Handled}

/-- A stretch of a buffer that is known as a concatenation. -/
theorem slice_eq_of_append {b m : Bytes} {o : ℕ} (pre : Bytes) (h : ∃ post, b = pre ++ (m ++ post))
    (ho : pre.length = o) (hn : m.length = n) : slice b o n = m := by
  obtain ⟨post, rfl⟩ := h
  subst ho hn
  rw [slice_append_right _ _ le_rfl, Nat.sub_self, slice_zero_length]

namespace Wire

/-- The fields a response is recognised by, where `EncodeAt` puts them. -/
theorem Header.encode_fields (h : Header) : slice h.encode 0 6 = smb2ProtocolId ++ put16 64 ∧
    u16At h.encode 12 = h.command ∧ u32At h.encode 20 = h.nextCommand ∧
    u64At h.encode 24 = h.messageId ∧ u64At h.encode 40 = h.sessionId := by
  have h1 := h.written_encode
  exact ⟨rfl, h1.command, h1.nextCommand, h1.messageId, h1.sessionId⟩

/-- The flags of a response, and the AsyncId of an asynchronous one. -/
theorem Header.encode_async (h : Header) : u32At h.encode 16 = h.flags ∧
    (h.flags &&& flagAsyncCommand ≠ 0 → u64At h.encode 32 = h.asyncId) :=
  ⟨h.written_encode.flags, h.written_encode.asyncId⟩

/-- The status and the credits a response tells. -/
theorem Header.encode_status (h : Header) : u32At h.encode 8 = h.status ∧ u16At h.encode 14 = h.credit :=
  ⟨h.written_encode.status, h.written_encode.credit⟩

end Wire

namespace Server

open Wire Go Conn Loop

variable {E : Env} {srv : Config E}

/-! ### One response -/

/-- A response: its header, its body, and the signer it is signed with. -/
structure Answer where
  hdr : Header
  body : Bytes
  signer : Option Signing.Signer

namespace Answer

/-- The bytes of a response. -/
def element (cr : Crypto) (a : Answer) : Bytes :=
  match a.signer with
  | none => a.hdr.encode ++ a.body
  | some signer =>
    let resp := copyAt (a.hdr.encode ++ a.body) 16 (put32 (a.hdr.flags ||| flagSigned))
    (signer.sign cr resp).getD resp

variable (cr : Crypto) (a : Answer)

/-- A signed response is the signature of its bytes with the Signed flag. -/
theorem sign_element {signer : Signing.Signer} (h : a.signer = some signer) :
    signer.sign cr (copyAt (a.hdr.encode ++ a.body) 16 (put32 (a.hdr.flags ||| flagSigned))) =
      some (a.element cr) := by
  have hlen : ¬ (copyAt (a.hdr.encode ++ a.body) 16
      (put32 (a.hdr.flags ||| flagSigned))).length < 64 := by
    rw [length_copyAt, length_append, Header.length_encode]
    omega
  simp only [element, h, Signing.Signer.sign, if_neg hlen, getD_some]

theorem length_element : (a.element cr).length = 64 + a.body.length := by
  cases h : a.signer with
  | none => simp [element, h]
  | some signer =>
    rw [Signing.Signer.length_sign (a.sign_element cr h), length_copyAt, length_append,
      Header.length_encode]

/-- **A signed response verifies.** -/
theorem verify_element {signer : Signing.Signer} (h : a.signer = some signer) :
    signer.verify cr (a.element cr) = (some true, a.element cr) :=
  Signing.Signer.verify_sign (a.sign_element cr h)

/-- Outside of the flags and the signature, a response begins with its header. -/
theorem slice_element {o : ℕ} (h : o + n ≤ 16 ∨ 20 ≤ o ∧ o + n ≤ 48) :
    slice (a.element cr) o n = slice a.hdr.encode o n := by
  have hpre : slice (a.hdr.encode ++ a.body) o n = slice a.hdr.encode o n :=
    slice_append_left _ (by rw [Header.length_encode]; omega)
  cases hs : a.signer with
  | none => simp only [element, hs, hpre]
  | some signer =>
    have hsign := a.sign_element cr hs
    unfold Signing.Signer.sign at hsign
    split_ifs at hsign
    rw [← some.inj hsign, slice_copyAt_before _ _ (by omega), Signing.unsigned,
      slice_copyAt_before _ _ (by omega), ← hpre]
    rcases h with h | h
    · exact slice_copyAt_before _ _ h
    · exact slice_copyAt_after _ _ _ (by rw [length_put32]; omega)

/-- Behind the header of a response is its body. -/
theorem drop_element : (a.element cr).drop 64 = a.body := by
  have hbody : (a.hdr.encode ++ a.body).drop 64 = a.body := drop_left' a.hdr.length_encode
  cases hs : a.signer with
  | none => simp only [element, hs, hbody]
  | some signer =>
    have hsign := a.sign_element cr hs
    unfold Signing.Signer.sign at hsign
    split_ifs at hsign
    rw [← some.inj hsign, drop_copyAt_of_le _ _ (by simp), Signing.unsigned,
      drop_copyAt_of_le _ _ (by simp), drop_copyAt_of_le _ _ (by simp), hbody]

theorem element_fields : slice (a.element cr) 0 6 = smb2ProtocolId ++ put16 64 ∧
    u16At (a.element cr) 12 = a.hdr.command ∧ u32At (a.element cr) 20 = a.hdr.nextCommand ∧
    u64At (a.element cr) 24 = a.hdr.messageId ∧ u64At (a.element cr) 40 = a.hdr.sessionId := by
  obtain ⟨h1, h2, h3, h4, h5⟩ := a.hdr.encode_fields
  unfold u16At u32At u64At at *
  rw [a.slice_element cr (by omega), a.slice_element cr (by omega), a.slice_element cr (by omega),
    a.slice_element cr (by omega), a.slice_element cr (by omega)]
  exact ⟨h1, h2, h3, h4, h5⟩

theorem element_status : u32At (a.element cr) 8 = a.hdr.status ∧ u16At (a.element cr) 14 = a.hdr.credit := by
  obtain ⟨h1, h2⟩ := a.hdr.encode_status
  unfold u16At u32At at *
  rw [a.slice_element cr (by omega), a.slice_element cr (by omega)]
  exact ⟨h1, h2⟩

/-- The flags of a response are those of its header, up to the Signed flag. -/
theorem element_flags (h : a.hdr.flags &&& flagAsyncCommand = 0) :
    u32At (a.element cr) 16 &&& flagAsyncCommand = 0 := by
  have hflags : u32At (a.hdr.encode ++ a.body) 16 = a.hdr.flags := by
    rw [u32At_append_left _ (by rw [Header.length_encode]; omega), a.hdr.encode_async.1]
  cases hs : a.signer with
  | none => rwa [element, hs, hflags]
  | some signer =>
    have hsign := a.sign_element cr hs
    unfold Signing.Signer.sign at hsign
    split_ifs at hsign
    have hself : slice (a.element cr) 16 4 = put32 (a.hdr.flags ||| flagSigned) := by
      rw [← some.inj hsign, slice_copyAt_before _ _ (by omega), Signing.unsigned, slice_copyAt_before _ _ (by omega)]
      rw [← length_put32 (a.hdr.flags ||| flagSigned)]
      refine slice_copyAt_self ?_
      rw [length_put32, length_append, Header.length_encode]
      omega
    have hor : (a.hdr.flags ||| flagSigned) &&& flagAsyncCommand =
        a.hdr.flags &&& flagAsyncCommand ||| flagSigned &&& flagAsyncCommand := by
      refine UInt32.toBitVec_inj.1 ?_
      rw [UInt32.toBitVec_and, UInt32.toBitVec_or, UInt32.toBitVec_or, UInt32.toBitVec_and, UInt32.toBitVec_and,
        BitVec.and_or_distrib_right]
    rw [u32At_of_slice hself, hor, h]
    rfl

end Answer

theorem Conn.signerFor_congr {c c' : Conn E} (h : c'.sessions = c.sessions) (hdr : Header) :
    c'.signerFor hdr = c.signerFor hdr := by
  simp only [Conn.signerFor, Conn.session?, h]

/-- **`finishResponse` makes a response of the header it left room for and the body of
the handler.** -/
theorem Conn.finishResponse_out {c : Conn E} {base body : Bytes} {first : Bool}
    (h : c.out = base ++ zeros headerSize ++ body) :
    (c.finishResponse srv first status hdr base.length).out = base ++ Answer.element E.crypto
      ⟨responseHeader srv c first status hdr, body, c.signerFor hdr⟩ := by
  have hcopy : copyAt c.out base.length (responseHeader srv c first status hdr).encode =
      base ++ ((responseHeader srv c first status hdr).encode ++ body) := by
    have hz : (zeros headerSize).length = 64 := by simp [headerSize]
    rw [h, copyAt_eq (by simp [headerSize]), append_assoc base, take_left,
      Header.length_encode, ← drop_drop, drop_left, ← hz, drop_left,
      append_assoc]
  unfold finishResponse
  extract_lets hdr' c1 c2
  have hout : c2.out = base ++ (hdr'.encode ++ body) := by
    unfold c2 updatePreauth
    split_ifs <;> exact hcopy
  have hsess : c2.sessions = c.sessions := by
    unfold c2
    split_ifs
    · exact sessions_of_tables (updatePreauth_tables c1 _)
    · rfl
  have hsig : c2.signerFor hdr' = c.signerFor hdr := signerFor_congr hsess hdr'
  rw [hsig]
  cases hs : c.signerFor hdr with
  | none => exact hout
  | some signer =>
    simp only [signResponse, hout, take_left, drop_left]
    rfl

/-- Apart from NEGOTIATE and SESSION_SETUP, the end of a response is about `c.out` and the
credits. -/
theorem Conn.finishResponse_eq (srv : Config E) (c : Conn E) (first : Bool) (status : UInt32) (hdr : Header) (start : ℕ)
    (hcmd : ¬(hdr.command = cmdNegotiate ∨ hdr.command = cmdSessionSetup)) :
    ∃ out, c.finishResponse srv first status hdr start =
      { c with out, creditBalance := c.creditBalance + (srv.maxCredits - c.creditBalance) } := by
  unfold finishResponse
  extract_lets hdr' c1 c2
  have hc2 : c2 = c1 := if_neg hcmd
  rw [hc2]
  cases c1.signerFor hdr' with
  | none => exact ⟨_, rfl⟩
  | some signer => exact ⟨_, rfl⟩

/-! ### Linking the previous response -/

theorem length_linkPrevious (prev : Option ℕ) (out : Bytes) :
    out.length ≤ (linkPrevious prev out).length := by
  cases prev with
  | none => exact le_rfl
  | some p => simp [linkPrevious]

/-- Linking a response touches only its `NextCommand`. -/
theorem slice_linkPrevious {prev : Option ℕ} {out : Bytes} {o : ℕ}
    (h : ∀ p ∈ prev, o + n ≤ p + 20 ∨ p + 24 ≤ o) (hlen : o + n ≤ out.length) :
    slice (linkPrevious prev out) o n = slice out o n := by
  cases prev with
  | none => rfl
  | some p =>
    have hpad : slice (out ++ zeros (pad8 out.length)) o n = slice out o n :=
      slice_append_left _ hlen
    rw [← hpad]
    rcases h p rfl with h | h
    · exact slice_copyAt_before _ _ h
    · exact slice_copyAt_after _ _ _ (by rw [length_put32]; exact h)

/-- A linked response points at the end of the buffer, which is aligned. -/
theorem linkPrevious_some {p : ℕ} {out : Bytes} (h : p + 24 ≤ out.length) :
    (linkPrevious (some p) out).length % 8 = 0 ∧
      (linkPrevious (some p) out).length ≤ out.length + 7 ∧
      u32At (linkPrevious (some p) out) (p + 20) =
        UInt32.ofNat ((linkPrevious (some p) out).length - p) := by
  have hlen : (linkPrevious (some p) out).length = out.length + pad8 out.length := by
    simp [linkPrevious]
  rw [hlen]
  refine ⟨by unfold pad8; omega, by unfold pad8; omega, u32At_of_slice ?_⟩
  have hput : p + 20 + (put32 (UInt32.ofNat (out.length + pad8 out.length - p))).length ≤
      (out ++ zeros (pad8 out.length)).length := by
    rw [length_put32, length_append]
    omega
  have hself := slice_copyAt_self hput
  rw [length_put32] at hself
  rw [← hself]
  simp [linkPrevious]

/-! ### The three ways a pass ends -/

/-- The locals after a command with the reply `r`. -/
structure Loop.After (lp : Loop) (nextCommand : UInt32) (prev : Option ℕ) (r : Reply) (lp' : Loop) :
    Prop where
  via : lp'.via = lp.via
  first : lp'.first = false
  prev : lp'.prevRespStart = prev
  replies : lp'.replies = lp.replies ++ [r]
  finished : lp'.finished = (lp.finished || decide (nextCommand = 0))

theorem Loop.after_advance (hvia : lp'.via = lp.via)
    (hreplies : lp'.replies = lp.replies) (hfin : lp'.finished = lp.finished) (nextCommand : UInt32)
    (r : Reply) :
    lp.After nextCommand lp'.prevRespStart r ((lp'.addReply r).advance nextCommand) := by
  unfold Loop.advance
  split_ifs with hn
  · exact ⟨hvia, rfl, rfl, by rw [← hreplies]; rfl, by simp [hn]⟩
  · exact ⟨hvia, rfl, rfl, by rw [← hreplies]; rfl, by simp [hn, ← hfin, addReply]⟩

/-- The header of a response, up to what a handler and the credits put into it. -/
structure HeaderOf (hdr hdr' : Header) : Prop where
  command : hdr'.command = hdr.command
  nextCommand : hdr'.nextCommand = hdr.nextCommand
  messageId : hdr'.messageId = hdr.messageId
  sessionId : hdr.command ≠ cmdSessionSetup → hdr'.sessionId = hdr.sessionId

theorem HeaderOf.refl (hdr : Header) : HeaderOf hdr hdr := ⟨rfl, rfl, rfl, fun _ => rfl⟩

theorem handleSessionSetup_hdr {s s' : St E}
    {r : UInt32 × Header} (h : handleSessionSetup srv o msg hdr s = .ok r s')
    (hcmd : hdr.command = cmdSessionSetup) : HeaderOf hdr r.2 := by
  unfold handleSessionSetup at h
  cases hp : SessionSetupRequest.parse msg with
  | panic => rw [hp] at h; cases h
  | err e =>
    rw [hp] at h
    obtain ⟨_, _, -, h⟩ := bind_eq_ok h
    cases h
    exact .refl hdr
  | ok req =>
    rw [hp] at h
    obtain ⟨sid, _, -, h⟩ := bind_eq_ok h
    obtain ⟨_, _, -, h⟩ := bind_eq_ok h
    obtain ⟨_, _, -, h⟩ := bind_eq_ok h
    cases h
    exact ⟨rfl, rfl, rfl, fun hne => absurd hcmd hne⟩

/-- The session a header names stays, under its own id, and with a signer if it had one. -/
def KeepsSigner (hdr hdr' : Header) (c c' : Conn E) : Prop :=
  ∀ sess, c.session? hdr.sessionId = some sess → hdr'.sessionId = hdr.sessionId ∧
    ∃ sess', c'.session? hdr.sessionId = some sess' ∧ (sess.signer.isSome → sess'.signer.isSome)

theorem KeepsSigner.refl {c c' : Conn E} (h : c'.sessions = c.sessions) :
    KeepsSigner hdr hdr c c' :=
  fun sess hs => ⟨rfl, sess, by rw [Conn.session?, h]; exact hs, id⟩

theorem KeepsSigner.congr {hdr' hdr'' : Header} {c c' c1 c1' : Conn E}
    (h : KeepsSigner hdr hdr' c c') (hc : c.sessions = c1.sessions) (hc' : c1'.sessions = c'.sessions)
    (hh : hdr''.sessionId = hdr'.sessionId) : KeepsSigner hdr hdr'' c1 c1' := by
  unfold KeepsSigner Conn.session? at *
  rwa [hh, ← hc, hc']

theorem finishSessionSetup_session {cid : ConnId} {sid : UInt64}
    {res : Except Auth.AuthError Auth.AcceptResult} {s s' : St E} {sess : Session E}
    (h : finishSessionSetup srv cid sid res s = .ok status s') (hs : s.c.session? sid = some sess) :
    ∃ sess', s'.c.session? sid = some sess' ∧ (sess.signer.isSome → sess'.signer.isSome) := by
  have hsend : ∀ {s1 : St E} {token}, sendToken srv sid token s1 = .ok status s' →
      s'.c.session? sid = s1.c.session? sid := by
    intro s1 token h
    unfold sendToken at h
    obtain ⟨_, _, h1, h⟩ := bind_eq_ok h
    cases h1
    obtain ⟨_, s2, h1, h⟩ := bind_eq_ok h
    cases h1
    cases hs1 : s1.c.session? sid with
    | none => rw [hs1] at h; cases h
    | some sess1 =>
      rw [hs1] at h
      cases h
      exact hs1
  match res with
  | .error .logonFailed => cases h; exact ⟨sess, hs, id⟩
  | .error .other => cases h; exact ⟨sess, hs, id⟩
  | .ok r =>
    unfold finishSessionSetup at h
    dsimp only at h
    split_ifs at h
    · obtain ⟨_, s1, h1, h⟩ := bind_eq_ok h
      cases h1
      refine ⟨authenticate srv r sess, ?_, fun _ => Signing.newSigner_deriveSigningKey _ _⟩
      rw [hsend h]
      simp [session?_modifySession, hs]
    · obtain ⟨_, s1, h1, h⟩ := bind_eq_ok h
      cases h1
      exact ⟨sess, (hsend h).trans hs, id⟩

/-- A SESSION_SETUP on a session that is there. -/
theorem handleSessionSetup_session {s s' : St E}
    {r : UInt32 × Header} (h : handleSessionSetup srv o msg hdr s = .ok r s') :
    KeepsSigner hdr r.2 s.c s'.c := by
  unfold handleSessionSetup at h
  cases hp : SessionSetupRequest.parse msg with
  | panic => rw [hp] at h; cases h
  | err e =>
    rw [hp] at h
    obtain ⟨_, _, h1, h⟩ := bind_eq_ok h
    cases h1
    cases h
    exact .refl rfl
  | ok req =>
    rw [hp] at h
    intro sess hs
    obtain ⟨sid, s1, h1, h⟩ := bind_eq_ok h
    obtain ⟨rfl, rfl⟩ : hdr.sessionId = sid ∧ s = s1 := by
      unfold sessionFor at h1
      rw [bind_ok (get_apply s), hs] at h1
      cases h1
      exact ⟨rfl, rfl⟩
    obtain ⟨res, s2, h2, h⟩ := bind_eq_ok h
    obtain ⟨sess2, hs2, hsig⟩ : ∃ sess2, s2.c.session? hdr.sessionId = some sess2 ∧
        sess2.signer = sess.signer := by
      unfold acceptToken at h2
      rw [bind_ok (get_apply s), hs] at h2
      cases h2
      simp [session?_modifySession, hs]
    obtain ⟨status, s3, h3, h⟩ := bind_eq_ok h
    cases h
    obtain ⟨sess', hs', hsome⟩ := finishSessionSetup_session h3 hs2
    exact ⟨rfl, sess', hs', hsig ▸ hsome⟩

theorem handleTreeConnect_hdr {s s' : St E}
    {r : UInt32 × Header} (h : handleTreeConnect srv o msg hdr s = .ok r s') : HeaderOf hdr r.2 := by
  have herr : ∀ {status : UInt32}, (do return (← errBody status, hdr) : M E _) s = .ok r s' →
      HeaderOf hdr r.2 := by
    intro status h
    obtain ⟨_, _, -, h⟩ := bind_eq_ok h
    cases h
    exact .refl hdr
  unfold handleTreeConnect at h
  cases hp : TreeConnectRequest.parse msg with
  | panic => rw [hp] at h; cases h
  | err e => rw [hp] at h; exact herr h
  | ok req =>
    rw [hp] at h
    dsimp only at h
    cases hsh : srv.shareByName (parseShareName (utf16FromBytes req.path)) with
    | none => rw [hsh] at h; exact herr h
    | some sh =>
      rw [hsh] at h
      obtain ⟨s1, _, hget, h⟩ := bind_eq_ok h
      cases hsess : s1.c.session? o.sid with
      | none => rw [hsess] at h; cases h
      | some sess =>
        rw [hsess] at h
        obtain ⟨_, _, -, h⟩ := bind_eq_ok h
        obtain ⟨_, _, -, h⟩ := bind_eq_ok h
        cases h
        exact ⟨rfl, rfl, rfl, fun _ => rfl⟩

theorem dispatch_hdr {sub : Bytes} {fid : FileId} {s s' : St E}
    (h : dispatch srv o sub hdr fid s = .ok r s') (hcmd : o.cmd = hdr.command) :
    HeaderOf hdr r.hdr := by
  unfold dispatch at h
  obtain ⟨s1, _, -, h⟩ := bind_eq_ok h
  cases hr : s1.c.refusal o with
  | some status =>
    rw [hr] at h
    obtain ⟨_, _, -, h⟩ := bind_eq_ok h
    cases h
    exact .refl hdr
  | none =>
    rw [hr] at h
    dsimp only [handle] at h
    split_ifs at h with hss htc
    · obtain ⟨r1, _, h1, h⟩ := bind_eq_ok h
      cases h
      exact handleSessionSetup_hdr h1 (hcmd ▸ hss)
    · obtain ⟨r1, _, h1, h⟩ := bind_eq_ok h
      cases h
      exact handleTreeConnect_hdr h1
    all_goals
      obtain ⟨r1, _, -, h⟩ := bind_eq_ok h
      cases h
      exact .refl hdr

theorem dispatch_session {sub : Bytes} {fid : FileId} {s s' : St E}
    (h : dispatch srv o sub hdr fid s = .ok r s') (hcmd : o.cmd = cmdSessionSetup) :
    KeepsSigner hdr r.hdr s.c s'.c := by
  unfold dispatch at h
  obtain ⟨_, _, h1, h⟩ := bind_eq_ok h
  cases h1
  cases hr : s.c.refusal o with
  | some status =>
    rw [hr] at h
    obtain ⟨_, _, h1, h⟩ := bind_eq_ok h
    cases h1
    cases h
    exact .refl rfl
  | none =>
    rw [hr] at h
    dsimp only [handle] at h
    rw [if_pos hcmd] at h
    obtain ⟨r1, _, h1, h⟩ := bind_eq_ok h
    cases h
    exact handleSessionSetup_session h1

/-- The switch of `handleMessage` adds one body and keeps what the response is
recognised by. -/
theorem route_ok {cmd : Command E} {s s' : St E} (hs : Fresh cmd lp s)
    (h : route srv cmd.origin cmd.hdr lp s = .ok r s') :
    HeaderOf cmd.hdr r.hdr ∧ OutBy s.c.out s'.c ∧
      (cmd.hdr.command = cmdSessionSetup → KeepsSigner cmd.hdr r.hdr s.c s'.c) := by
  by_cases hf : lp.chainFailed = true
  · unfold route at h
    rw [if_pos hf] at h
    cases h
    exact ⟨.refl _, ⟨[], (append_nil _).symm, fun _ => Nat.zero_le _⟩, fun _ => .refl rfl⟩
  · obtain ⟨rfl, -, -, hl⟩ := hs.resolve_left hf
    unfold route at h
    rw [if_neg hf] at h
    split_ifs at h with hcancel
    · obtain ⟨status, s1, h1, h⟩ := bind_eq_ok h
      cases h
      have hc : Answers srv cmd.origin cmd.msg (fun _ => True) (handleCancel cmd.hdr) :=
        handleCancel_answers hcancel cmd.hdr
      refine ⟨.refl _, (hc s.c.out s ⟨trivial, rfl⟩).2 status s' h1, fun hss => ?_⟩
      exact absurd (hcancel.symm.trans hss) (by decide)
    · obtain ⟨_, s1, h1, h⟩ := bind_eq_ok h
      cases h1
      have hd : Answers srv cmd.origin cmd.msg Conn.Listed
          (dispatch srv cmd.origin cmd.msg cmd.hdr cmd.lp.lastFileId) :=
        dispatch_answers cmd.hdr cmd.lp.lastFileId
      have hsetup : cmd.origin.cmd = cmdSessionSetup →
          KeepsSigner cmd.hdr r.hdr (cmd.record s).c s'.c := dispatch_session h
      exact ⟨dispatch_hdr h rfl, (hd s.c.out (cmd.record s) ⟨hl, rfl⟩).2 r s' h, hsetup⟩

/-- A CHANGE_NOTIFY that reaches its handler. -/
def Command.IsNotify (k : Command E) : Prop :=
  k.hdr.command = cmdChangeNotify ∧ k.lp.chainFailed = false

/-- The open a CHANGE_NOTIFY asks to watch is there. -/
def Command.Watches (k : Command E) : Prop :=
  ∃ req, ChangeNotifyRequest.parse k.msg = .ok req ∧
    (k.before.open? k.origin.sid k.origin.tid req.fileId).isSome

/-- What a command that is answered leaves behind.  `junk` is what it appended before
its response. -/
structure Answered (k : Command E) (s : St E) (lp : Loop) (junk : Bytes) (a : Answer) (lp' : Loop)
    (s' : St E) : Prop where
  hdr : HeaderOf k.hdr a.hdr
  sync : a.hdr.flags &&& flagAsyncCommand = 0
  body : E.Bounded → a.body.length ≤ bodyMax
  signer : a.signer = s'.c.signerFor a.hdr
  setup : k.hdr.command = cmdSessionSetup → KeepsSigner k.hdr a.hdr s.c s'.c
  out : s'.c.out = linkPrevious lp.prevRespStart (s.c.out ++ junk) ++ a.element E.crypto
  after : lp.After k.hdr.nextCommand
    (some (linkPrevious lp.prevRespStart (s.c.out ++ junk)).length)
    (replyOf s.c s'.c k.origin k.hdr a.hdr
      (linkPrevious lp.prevRespStart (s.c.out ++ junk)).length) lp'

/-- The ways a pass of the loop ends. -/
inductive Pass (s : St E) (lp : Loop) : Loop → St E → Prop where
  | stop (h : nextCommand s.c lp = none) : Pass s lp lp.stop s
  | pending {lp' : Loop} {s' : St E} (k : Command E) (id : UInt64)
      (hk : nextCommand s.c lp = some k) (hn : k.IsNotify) (hw : k.Watches)
      (hout : s'.c.out = s.c.out ++ buildAsyncInterim k.hdr id)
      (hs : s'.c.sessions = s.c.sessions)
      (hafter : lp.After k.hdr.nextCommand lp.prevRespStart
        (replyOf s.c s.c k.origin k.hdr k.hdr s.c.out.length) lp') : Pass s lp lp' s'
  | answer {lp' : Loop} {s' : St E} (k : Command E) (junk : Bytes) (a : Answer)
      (hk : nextCommand s.c lp = some k)
      (hj : junk = [] ∧ ¬k.IsNotify ∨ junk = errorResponse ∧ k.IsNotify ∧ ¬k.Watches)
      (h : Answered k s lp junk a lp' s') : Pass s lp lp' s'

theorem replyOf_congr {c c' : Conn E} (h : c'.sessions = c.sessions) (after : Conn E) (o : Origin)
    (hdr hdr' : Header) (start : ℕ) :
    replyOf c' after o hdr hdr' start = replyOf c after o hdr hdr' start := by
  simp only [replyOf, requiresEncryption, Conn.session?, h]

theorem responseHeader_sync (srv : Config E) (c : Conn E) (first : Bool) (status : UInt32) (hdr : Header) :
    (responseHeader srv c first status hdr).flags &&& flagAsyncCommand = 0 := by
  unfold responseHeader
  dsimp only
  rw [UInt32.and_assoc]
  simp [flagAsyncCommand]

theorem respond_ok {k : Command E} {lp1 : Loop} {s0 s s' : St E} {junk : Bytes}
    (hf : Fresh k lp1 s) (hlp : lp.Kept lp1) (hs : s.c.sessions = s0.c.sessions)
    (ho : s.c.out = s0.c.out ++ junk) (h : respond srv k.origin k.hdr lp1 s = .ok lp' s') :
    ∃ a, Answered k s0 lp junk a lp' s' := by
  unfold respond at h
  obtain ⟨_, s1, h1, h⟩ := bind_eq_ok h
  cases h1
  obtain ⟨before, s1, h1, h⟩ := bind_eq_ok h
  cases h1
  obtain ⟨_, s2, h1, h⟩ := bind_eq_ok h
  cases h1
  obtain ⟨r, s3, hr, h⟩ := bind_eq_ok h
  obtain ⟨hhdr, ⟨body, hbody, hlen⟩, hsetup⟩ := route_ok (by exact hf) hr
  obtain ⟨_, s4, h1, h⟩ := bind_eq_ok h
  cases h1
  obtain ⟨after, s4, h1, h⟩ := bind_eq_ok h
  cases h1
  cases h
  -- The response begins where the previous ones, once linked, end.
  have hlink : linkPrevious lp1.prevRespStart s.c.out =
      linkPrevious lp.prevRespStart (s0.c.out ++ junk) := by rw [hlp.prev, ho]
  have hsess : (s3.c.finishResponse srv lp1.first r.status r.hdr
      (linkPrevious lp1.prevRespStart s.c.out).length).sessions = s3.c.sessions :=
    sessions_of_tables (finishResponse_tables ..)
  refine ⟨⟨responseHeader srv s3.c lp1.first r.status r.hdr, body, s3.c.signerFor r.hdr⟩, ?_⟩
  constructor
  · exact ⟨hhdr.command, hhdr.nextCommand, hhdr.messageId, hhdr.sessionId⟩
  · exact responseHeader_sync srv s3.c lp1.first r.status r.hdr
  · exact hlen
  · exact (signerFor_congr hsess _).symm
  · exact fun hss => (hsetup hss).congr hs hsess rfl
  · rw [← hlink]
    exact finishResponse_out hbody
  · rw [← hlink, ← replyOf_congr hs]
    let lp2 : Loop := { (lp1.setSub r.sub).settle r.status with
      lastFileId := r.lastFileId
      prevRespStart := some (linkPrevious lp1.prevRespStart s.c.out).length }
    have hvia : lp2.via = lp.via := hlp.via
    exact after_advance hvia hlp.replies hlp.finished k.hdr.nextCommand _

/-- `handleChangeNotify` is pending where there is something to watch, and leaves the
sessions alone. -/
theorem handleChangeNotify_ok {s s' : St E}
    {r : UInt32 × Bool} (h : handleChangeNotify o msg hdr s = .ok r s') :
    s'.c.sessions = s.c.sessions ∧ (r.2 = true ↔ ∃ req, ChangeNotifyRequest.parse msg = .ok req ∧
      (s.c.open? o.sid o.tid req.fileId).isSome) := by
  unfold handleChangeNotify at h
  cases hp : ChangeNotifyRequest.parse msg with
  | panic => rw [hp] at h; cases h
  | err e =>
    rw [hp] at h
    cases h
    exact ⟨rfl, by simp⟩
  | ok req =>
    rw [hp] at h
    obtain ⟨s1, _, h1, h⟩ := bind_eq_ok h
    cases h1
    cases ht : s.c.tree? o.sid o.tid with
    | none => rw [ht] at h; cases h
    | some tr =>
      rw [ht] at h
      dsimp only at h
      cases ho : tr.opens.lookup req.fileId with
      | none =>
        rw [ho] at h
        cases h
        exact ⟨rfl, by simp [Conn.open?, ht, ho]⟩
      | some oh =>
        rw [ho] at h
        cases h
        exact ⟨rfl, by simp [Conn.open?, ht, ho]⟩

/-- **A pass of the loop ends in one of the three ways.** -/
theorem round_pass {s s' : St E} (hl : s.c.Listed)
    (h : round srv lp s = .ok lp' s') : Pass s lp lp' s' := by
  unfold round at h
  split_ifs at h with hoff
  · cases h
    exact .stop (by simp [nextCommand, hoff])
  cases hp : Header.parse lp.sub with
  | panic => rw [hp] at h; cases h
  | err e =>
    rw [hp] at h
    cases h
    exact .stop (by simp [nextCommand, hoff, hp])
  | ok hdr =>
    rw [hp] at h
    obtain ⟨_, s1, h1, h⟩ := bind_eq_ok h
    cases h1
    obtain ⟨s1, _, h1, h⟩ := bind_eq_ok h
    cases h1
    let s1 : St E := { s with c := s.c.charge hdr.creditCharge }
    let k : Command E := ⟨s.c, hdr, patchFileId hdr (checkSignature s.c hdr lp)⟩
    have hk : nextCommand s.c lp = some k := by simp [nextCommand, hoff, hp, k]
    have hkept : lp.Kept k.lp := (nextCommand_spec hk).2.2.1
    change (if hdr.command = cmdChangeNotify ∧ k.lp.chainFailed = false then
      notify srv k.origin k.hdr k.lp else respond srv k.origin k.hdr k.lp) s1 = .ok lp' s' at h
    split_ifs at h with hn
    · obtain ⟨_, s2, h2, h⟩ := bind_eq_ok h
      cases h2
      obtain ⟨_, _, h2, h⟩ := bind_eq_ok h
      cases h2
      obtain ⟨⟨status, pending⟩, s3, h3, h⟩ := bind_eq_ok h
      obtain ⟨hsess, hpend⟩ := handleChangeNotify_ok h3
      have hsteps : Steps srv k.origin k.msg _ (handleChangeNotify k.origin k.msg k.hdr) _ :=
        handleChangeNotify_steps hn.1 (nextCommand_spec hk).2.2.2 s.c.out
      have hout := (hsteps (k.record s1) rfl).2 _ s3 h3
      replace hsess : s3.c.sessions = s.c.sessions := hsess
      dsimp only at h
      split_ifs at h with hpd
      · cases h
        rcases hout with ⟨-, id, hout⟩ | ⟨⟨-, -, h2⟩, -⟩
        · refine .pending k id hk hn (hpend.1 hpd) hout hsess ?_
          rw [← hkept.prev]
          exact after_advance hkept.via hkept.replies hkept.finished hdr.nextCommand _
        · exact absurd (hpd.symm.trans h2) (by decide)
      · rcases hout with ⟨h2, -⟩ | ⟨⟨h1, h2, -⟩, hout⟩
        · cases h2
          exact absurd rfl hpd
        · have hfresh : Fresh k (k.lp.settle status) s3 := .inl (by simp [Loop.settle, h1, h2])
          replace hout : s3.c.out = s.c.out ++ errorResponse := hout
          obtain ⟨a, ha⟩ := respond_ok hfresh (hkept.trans (.settle _ _)) hsess hout h
          exact .answer k errorResponse a hk (.inr ⟨rfl, hn, fun hw => hpd (hpend.2 hw)⟩) ha
    · have hfresh : Fresh k k.lp s1 := by
        cases hf : k.lp.chainFailed with
        | true => exact .inl hf
        | false => exact .inr ⟨rfl, hf, rfl, hl⟩
      have hsess : s1.c.sessions = s.c.sessions := rfl
      have hout : s1.c.out = s.c.out ++ [] := (append_nil _).symm
      obtain ⟨a, ha⟩ := respond_ok hfresh hkept hsess hout h
      exact .answer k [] a hk (.inl ⟨rfl, hn⟩) ha

/-! ### The handler behind a response -/

/-- The locals after a response, from those with which the switch was entered. -/
def Loop.answered (lp : Loop) (nextCommand : UInt32) (r : Handled) (reply : Reply) : Loop :=
  (({ (lp.setSub r.sub).settle r.status with
      lastFileId := r.lastFileId
      prevRespStart := some reply.start } : Loop).addReply reply).advance nextCommand

/-- The locals after a pass go on to the next command, or the loop ends. -/
theorem Loop.advance_locals (lp : Loop) (n : UInt32) : (lp.advance n).first = false ∧
    (lp.advance n).lastFileId = lp.lastFileId ∧ (lp.advance n).chainFailed = lp.chainFailed ∧
    (lp.advance n).lastStatus = lp.lastStatus ∧ (lp.advance n).replies = lp.replies ∧
    ((lp.advance n).finished = false → n ≠ 0) := by
  unfold Loop.advance
  split_ifs with hn
  · exact ⟨rfl, rfl, rfl, rfl, rfl, nofun⟩
  · exact ⟨rfl, rfl, rfl, rfl, rfl, fun _ => hn⟩

/-- A failure is kept by the locals after a response. -/
theorem Loop.answered_failed {n : UInt32} {reply : Reply} {P : UInt32 → Prop}
    (hP : ∀ status, status ≠ statusSuccess → status ≠ statusMoreProcessingRequired → status = r.status → P status)
    (h : lp.chainFailed = true → P r.status) (hf : (lp.answered n r reply).chainFailed = true) :
    P (lp.answered n r reply).lastStatus := by
  obtain ⟨-, -, hfailed, hstatus, -⟩ := advance_locals (({ (lp.setSub r.sub).settle r.status with
    lastFileId := r.lastFileId
    prevRespStart := some reply.start } : Loop).addReply reply) n
  rw [Loop.answered, hfailed] at hf
  rw [Loop.answered, hstatus]
  simp only [addReply, Loop.settle, Loop.setSub, Bool.or_eq_true, Bool.and_eq_true, decide_eq_true_eq] at hf ⊢
  rcases hf with hf | hf
  · exact h hf
  · exact hP _ hf.1 hf.2 rfl

/-- A synchronous response: the switch leaves `r`, from which the response is finished. -/
structure Routed (srv : Config E) (k : Command E) (lp : Loop) (s : St E) (r : Handled) (s₁ : St E)
    (reply : Reply) (lp' : Loop) (s' : St E) : Prop where
  route : route srv k.origin k.hdr lp (s.answering lp) = .ok r s₁
  start : reply.start = (linkPrevious lp.prevRespStart s.c.out).length
  loop : lp' = lp.answered k.hdr.nextCommand r reply
  state : s' = ⟨s₁.sh, s₁.c.finishResponse srv lp.first r.status r.hdr reply.start⟩

/-- What the response tells: its header and the body of the handler, with its status. -/
theorem Routed.answer {k : Command E} {s s1 s' : St E} {reply : Reply} {body : Bytes}
    (h : Routed srv k lp s r s1 reply lp' s') (hout : s1.c.out = (s.answering lp).c.out ++ body) :
    lp'.replies = lp.replies ++ [reply] ∧ u32At (s'.c.out.drop reply.start) 8 = r.status ∧
      ∃ hdr : Bytes, hdr.length = headerSize ∧ s'.c.out.drop reply.start = hdr ++ body ∧
        s'.c.out.take reply.start = linkPrevious lp.prevRespStart s.c.out := by
  let a : Answer := ⟨responseHeader srv s1.c lp.first r.status r.hdr, body, s1.c.signerFor r.hdr⟩
  have hall : s'.c.out = linkPrevious lp.prevRespStart s.c.out ++ a.element E.crypto := by
    rw [h.state, h.start]
    exact finishResponse_out hout
  have helem : s'.c.out.drop reply.start = a.element E.crypto := by rw [hall, h.start, drop_left]
  refine ⟨?_, ?_, (a.element E.crypto).take 64, ?_, ?_, ?_⟩
  · rw [h.loop, Loop.answered, (advance_locals _ _).2.2.2.2.1]
    rfl
  · rw [helem]
    exact (Answer.element_status _ _).1
  · rw [length_take, Answer.length_element]
    exact min_eq_left (Nat.le_add_right _ _)
  · have hbody : (a.element E.crypto).drop 64 = body := Answer.drop_element _ _
    rw [helem, ← hbody, take_append_drop]
  · rw [hall, h.start, take_left]

theorem respond_routed {k : Command E} {s s' : St E}
    (h : respond srv k.origin k.hdr lp s = .ok lp' s') :
    ∃ r s1 reply, Routed srv k lp s r s1 reply lp' s' := by
  have hroute : (route srv k.origin k.hdr lp).Returns (s.answering lp) := by
    obtain ⟨_, _, h1, h⟩ := bind_eq_ok h
    cases h1
    obtain ⟨_, _, h1, h⟩ := bind_eq_ok h
    cases h1
    obtain ⟨_, _, h1, h⟩ := bind_eq_ok h
    cases h1
    obtain ⟨r, s1, hr, -⟩ := bind_eq_ok h
    exact ⟨r, s1, hr⟩
  obtain ⟨r, s1, hr⟩ := hroute
  obtain ⟨start, reply, hrun, hstart, rfl⟩ := respond_eq hr
  rw [hrun] at h
  cases h
  exact ⟨r, s1, reply, hr, hstart, rfl, rfl⟩

/-- A CHANGE_NOTIFY that is not parsed, or whose tree has no such open. -/
def Command.NotifyFails (k : Command E) : Prop :=
  k.hdr.command = cmdChangeNotify ∧ ∀ req, ChangeNotifyRequest.parse k.msg = .ok req →
    (k.before.tree? k.hdr.sessionId k.hdr.treeId).isSome ∧
      k.before.open? k.hdr.sessionId k.hdr.treeId req.fileId = none

/-- `handleChangeNotify` returns at once only where the request is not parsed, or there is
a tree without the open. -/
theorem handleChangeNotify_fails {s s' : St E}
    (h : handleChangeNotify o msg hdr s = .ok (status, false) s') :
    (status = statusInvalidParameter ∨ status = statusInvalidHandle) ∧
      ∀ req, ChangeNotifyRequest.parse msg = .ok req →
        (s.c.tree? o.sid o.tid).isSome ∧ s.c.open? o.sid o.tid req.fileId = none := by
  have hpend := (handleChangeNotify_ok h).2
  unfold handleChangeNotify at h
  cases hreq : ChangeNotifyRequest.parse msg with
  | panic => rw [hreq] at h; cases h
  | err e =>
    rw [hreq] at h
    cases h
    exact ⟨.inl rfl, nofun⟩
  | ok req =>
    rw [hreq] at h
    dsimp only at h
    cases ht : s.c.tree? o.sid o.tid with
    | none =>
      rw [withTree_none _ ht] at h
      cases h
    | some tr =>
      rw [withTree_apply _ ht] at h
      cases ho : tr.opens.lookup req.fileId with
      | some oh =>
        rw [ho] at h
        cases h
      | none =>
        rw [ho] at h
        cases h
        refine ⟨.inr rfl, fun req' h' => ?_⟩
        obtain rfl := Res.ok.inj h'
        exact ⟨rfl, by rw [Conn.open?, ht]; exact ho⟩

/-- A pass over a command leaves it pending, or answers it from the switch, which after a
failed CHANGE_NOTIFY it enters with a failed chain. -/
theorem round_routed {s s' : St E} {k : Command E} (hk : nextCommand s.c lp = some k)
    (h : round srv lp s = .ok lp' s') :
    (k.IsNotify ∧ k.Watches ∧ ∃ id reply, s'.c.out = s.c.out ++ buildAsyncInterim k.hdr id ∧
      reply.start = s.c.out.length ∧ lp' = (k.lp.addReply reply).advance k.hdr.nextCommand) ∨
    (¬k.IsNotify ∧ ∃ r s1 reply,
      Routed srv k k.lp ⟨s.sh, s.c.charge k.hdr.creditCharge⟩ r s1 reply lp' s') ∨
    (k.IsNotify ∧ k.NotifyFails ∧ ∃ status s0 r s1 reply,
      (status = statusInvalidParameter ∨ status = statusInvalidHandle) ∧ Routed srv k (k.lp.settle status) s0 r s1 reply lp' s') := by
  rw [show s = ⟨s.sh, s.c⟩ from rfl, round_eq srv hk] at h
  split_ifs at h with hn
  · obtain ⟨_, s2, h2, h⟩ := bind_eq_ok h
    cases h2
    obtain ⟨_, _, h2, h⟩ := bind_eq_ok h
    cases h2
    obtain ⟨⟨status, pending⟩, s3, h3, h⟩ := bind_eq_ok h
    have hsteps : Steps srv k.origin k.msg _ (handleChangeNotify k.origin k.msg k.hdr) _ :=
      handleChangeNotify_steps hn.1 (nextCommand_spec hk).2.2.2 s.c.out
    have hout := (hsteps (k.record ⟨s.sh, s.c.charge k.hdr.creditCharge⟩) rfl).2 _ s3 h3
    cases pending with
    | true =>
      cases h
      rcases hout with ⟨-, id, hout⟩ | ⟨⟨-, -, h2⟩, -⟩
      · obtain ⟨req, hreq, hopen⟩ := (handleChangeNotify_ok h3).2.1 rfl
        exact .inl ⟨hn, ⟨req, hreq, (nextCommand_spec hk).1 ▸ hopen⟩, id, _, hout, rfl, rfl⟩
      · cases h2
    | false =>
      rcases hout with ⟨h2, -⟩ | ⟨-, -⟩
      · cases h2
      · obtain ⟨r, s1, reply, hr⟩ := respond_routed h
        obtain ⟨hst, hfails⟩ := handleChangeNotify_fails h3
        refine .inr (.inr ⟨hn, ⟨hn.1, fun req hreq => ?_⟩, status, s3, r, s1, reply, hst, hr⟩)
        rw [(nextCommand_spec hk).1]
        exact hfails req hreq
  · obtain ⟨r, s1, reply, hr⟩ := respond_routed h
    exact .inr (.inl ⟨hn, r, s1, reply, hr⟩)

theorem round_going {s s' : St E} {k : Command E} (hk : nextCommand s.c lp = some k) (h : round srv lp s = .ok lp' s')
    (hfin : lp'.finished = false) : k.hdr.nextCommand ≠ 0 := by
  rcases round_routed hk h with ⟨-, -, id, reply, -, -, hlp'⟩ | ⟨-, r, s1, reply, hr⟩ |
    ⟨-, -, status, s0, r, s1, reply, -, hr⟩
  · rw [hlp'] at hfin
    exact (advance_locals _ _).2.2.2.2.2 hfin
  · rw [hr.loop] at hfin
    exact (advance_locals _ _).2.2.2.2.2 hfin
  · rw [hr.loop] at hfin
    exact (advance_locals _ _).2.2.2.2.2 hfin

theorem round_stopped {s s' : St E} (hk : nextCommand s.c lp = none) (h : round srv lp s = .ok lp' s') :
    lp' = lp.stop := by
  unfold nextCommand at hk
  unfold round at h
  split_ifs at hk h
  · cases h
    rfl
  · cases hp : Header.parse lp.sub with
    | ok hdr => rw [hp] at hk; cases hk
    | err e =>
      rw [hp] at h
      cases h
      rfl
    | panic => rw [hp] at h; cases h

end Server
end SmbServer
