/-
# Writes into a frame

The commands of a compound share the buffer of their frame, and each is given all that
is left of it.  While a command is handled the buffer is written to in three places: the
signature check zeroes and recomputes the signature, a related command gets a FileId, and
`handleOplockBreak` zeroes a Status.  A command whose extent, up to its `NextCommand`,
has room for the last two (`Command.Contained`) leaves the commands behind it as they
were (`round_beyond`).
-/

import SmbServer.Server.Response

namespace SmbServer
namespace Server

open Wire Go List Loop

variable {E : Env} {srv : Config E}

/-- How far into its request the handling of a command may write, the signature apart. -/
def writeEnd (cmd : UInt16) : ℕ :=
  ((fileIdOffset cmd).map (· + 16)).getD (if cmd = cmdOplockBreak then 12 else 0)

/-- The extent of the command has room for what is written. -/
def Command.Contained (k : Command E) : Prop :=
  k.hdr.nextCommand = 0 ∨ writeEnd k.hdr.command ≤ k.hdr.nextCommand.toNat

instance (k : Command E) : Decidable k.Contained := inferInstanceAs (Decidable (_ ∨ _))

/-- What is written through `sub` is read through it. -/
theorem Loop.sub_setSub {lp : Loop} (hoff : lp.off ≤ lp.msg.length) (b : Bytes) : (lp.setSub b).sub = b := by
  have htake : (lp.msg.take lp.off).length = lp.off := by rw [length_take]; omega
  unfold Loop.sub Loop.setSub
  exact drop_left' htake

/-- From `n` bytes behind the header of the command on, the message is as it was. -/
structure Loop.Beyond (n : ℕ) (lp lp' : Loop) : Prop where
  off : lp'.off = lp.off
  length : lp'.msg.length = lp.msg.length
  rest : lp'.msg.drop (lp.off + n) = lp.msg.drop (lp.off + n)

namespace Loop.Beyond

variable {n : ℕ} {lp lp' lp'' : Loop}

theorem refl (lp : Loop) : Beyond n lp lp := ⟨rfl, rfl, rfl⟩

theorem trans (h : Beyond n lp lp') (h' : Beyond n lp' lp'') : Beyond n lp lp'' :=
  ⟨h'.off.trans h.off, h'.length.trans h.length, (h.off ▸ h'.rest).trans h.rest⟩

theorem off_le (h : Beyond n lp lp') (hoff : lp.off ≤ lp.msg.length) : lp'.off ≤ lp'.msg.length := by
  rw [h.off, h.length]
  exact hoff

theorem setSub {b : Bytes} (hoff : lp.off ≤ lp.msg.length) (hl : b.length = lp.sub.length)
    (hb : b.drop n = lp.sub.drop n) : Beyond n lp (lp.setSub b) := by
  have htake : (lp.msg.take lp.off).length = lp.off := by rw [length_take]; omega
  refine ⟨rfl, ?_, ?_⟩
  · rw [Loop.sub, length_drop] at hl
    simp only [Loop.setSub, length_append, htake, hl]
    omega
  · rw [Loop.setSub, ← drop_drop, drop_left' htake, hb, Loop.sub, drop_drop]

theorem checkSignature (c : Conn E) {hdr : Header} (hn : hdr.nextCommand ≠ 0) (hoff : lp.off ≤ lp.msg.length) :
    Beyond hdr.nextCommand.toNat lp (checkSignature c hdr lp) := by
  have hverify : ∀ signer : Signing.Signer, Beyond hdr.nextCommand.toNat lp (lp.setSub
      ((signer.verify E.crypto (cmdBytes hdr lp.sub)).2 ++
        lp.sub.drop (signer.verify E.crypto (cmdBytes hdr lp.sub)).2.length)) := by
    intro signer
    have hlen := signer.length_verify E.crypto (cmdBytes hdr lp.sub)
    generalize (signer.verify E.crypto (cmdBytes hdr lp.sub)).2 = b at hlen
    by_cases hle : hdr.nextCommand.toNat ≤ lp.sub.length
    · have hb : b.length = hdr.nextCommand.toNat := by
        rw [hlen, cmdBytes, if_pos ⟨hn, hle⟩, length_take, min_eq_left hle]
      refine setSub hoff ?_ ?_
      · rw [length_append, length_drop]
        omega
      · rw [drop_left' hb, hb]
    · have hb : b.length = lp.sub.length := by rw [hlen, cmdBytes, if_neg fun h => hle h.2]
      rw [hb, drop_length, append_nil]
      refine setSub hoff hb ?_
      rw [drop_eq_nil_of_le (by omega), drop_eq_nil_of_le (by omega)]
  unfold Server.checkSignature
  cases c.session? hdr.sessionId with
  | none => exact refl lp
  | some sess =>
    dsimp only
    cases sess.signer with
    | none => exact refl lp
    | some signer =>
      dsimp only
      split_ifs
      · exact hverify signer
      · exact ⟨(hverify signer).off, (hverify signer).length, (hverify signer).rest⟩
      · exact ⟨rfl, rfl, rfl⟩
      · exact refl lp

theorem patchFileId {hdr : Header} (hn : writeEnd hdr.command ≤ n) (hoff : lp.off ≤ lp.msg.length) :
    Beyond n lp (patchFileId hdr lp) := by
  unfold Server.patchFileId
  split_ifs
  · cases hfo : fileIdOffset hdr.command with
    | none => exact refl lp
    | some fo =>
      have hend : fo + 16 ≤ n := by simpa [writeEnd, hfo] using hn
      dsimp only
      split_ifs
      · exact setSub hoff (length_copyAt ..) (drop_copyAt_of_le _ _ (by rw [lp.lastFileId.2]; exact hend))
      · exact refl lp
  · exact refl lp

end Loop.Beyond

/-- A command that is not refused has its request as it was, but for the FileId of a
related command. -/
theorem checkSignature_sub {c : Conn E} {hdr : Header} {lp : Loop} (hoff : lp.off ≤ lp.msg.length)
    (h : (checkSignature c hdr lp).chainFailed = false) : (checkSignature c hdr lp).sub = lp.sub := by
  revert h
  unfold checkSignature
  cases c.session? hdr.sessionId with
  | none => exact fun _ => rfl
  | some sess =>
    dsimp only
    cases sess.signer with
    | none => exact fun _ => rfl
    | some signer =>
      dsimp only
      split_ifs with hs hok
      · intro _
        obtain ⟨n, hn⟩ : ∃ n, cmdBytes hdr lp.sub = lp.sub.take n := by
          unfold cmdBytes
          split_ifs
          · exact ⟨_, rfl⟩
          · exact ⟨lp.sub.length, take_length.symm⟩
        rw [Signing.Signer.verify_true hok, hn, sub_setSub hoff, length_take]
        rcases le_total n lp.sub.length with hle | hle
        · rw [min_eq_left hle, take_append_drop]
        · rw [min_eq_right hle, take_of_length_le hle, drop_length, append_nil]
      · exact nofun
      · exact nofun
      · exact fun _ => rfl

/-- The switch leaves the request alone, but for an acknowledged oplock break. -/
theorem route_sub {o : Origin} {hdr : Header} {lp : Loop} {s s' : St E} {r : Handled}
    (h : route srv o hdr lp s = .ok r s') :
    r.sub = lp.sub ∨ o.cmd = cmdOplockBreak ∧ r.sub = copyAt lp.sub 8 (zeros 4) := by
  unfold route at h
  split_ifs at h
  · cases h
    exact .inl rfl
  · obtain ⟨_, _, -, h⟩ := bind_eq_ok h
    cases h
    exact .inl rfl
  · obtain ⟨_, s1, -, h⟩ := bind_eq_ok h
    obtain ⟨s1, _, -, h⟩ := bind_eq_ok h
    cases hr : s1.c.refusal o with
    | some status =>
      rw [hr] at h
      obtain ⟨_, _, -, h⟩ := bind_eq_ok h
      cases h
      exact .inl rfl
    | none =>
      rw [hr] at h
      dsimp only [handle] at h
      by_cases hbreak : o.cmd = cmdOplockBreak
      · rw [if_neg (by rw [hbreak]; decide), if_neg (by rw [hbreak]; decide), if_neg (by rw [hbreak]; decide),
          if_pos hbreak] at h
        obtain ⟨⟨status, sub⟩, _, hb, h⟩ := bind_eq_ok h
        cases h
        unfold handleOplockBreak at hb
        split_ifs at hb
        · obtain ⟨_, _, -, hb⟩ := bind_eq_ok hb
          cases hb
          exact .inl rfl
        · obtain ⟨_, _, -, hb⟩ := bind_eq_ok hb
          cases hb
          exact .inr ⟨hbreak, rfl⟩
      · split_ifs at h
        all_goals
          obtain ⟨_, _, -, h⟩ := bind_eq_ok h
          cases h
          exact .inl rfl

/-- A contained command writes nothing behind its extent, and the loop goes on. -/
theorem round_advance {lp lp' : Loop} {s s' : St E} {k : Command E} (hk : nextCommand s.c lp = some k)
    (hc : k.Contained) (hn : k.hdr.nextCommand ≠ 0) (h : round srv lp s = .ok lp' s') :
    ∃ lp1 : Loop, Beyond k.hdr.nextCommand.toNat lp lp1 ∧ (lp1.via = lp.via ∧ lp1.finished = lp.finished) ∧
      lp' = lp1.advance k.hdr.nextCommand := by
  have hend : writeEnd k.hdr.command ≤ k.hdr.nextCommand.toNat := hc.resolve_left hn
  obtain ⟨hlp, hlen⟩ := nextCommand_lp hk
  have hoff : lp.off ≤ lp.msg.length := by omega
  have hk1 : Beyond k.hdr.nextCommand.toNat lp k.lp := by
    have h1 : Beyond _ lp (checkSignature s.c k.hdr lp) := .checkSignature s.c hn hoff
    rw [hlp]
    exact h1.trans (.patchFileId hend (h1.off_le hoff))
  have hkept : lp.Kept k.lp := (nextCommand_spec hk).2.2.1
  have hrouted : ∀ {lp1 : Loop} {s0 r s1 reply}, Beyond k.hdr.nextCommand.toNat lp lp1 →
      (lp1.via = lp.via ∧ lp1.finished = lp.finished) → Routed srv k lp1 s0 r s1 reply lp' s' →
      ∃ lp1 : Loop, Beyond k.hdr.nextCommand.toNat lp lp1 ∧ (lp1.via = lp.via ∧ lp1.finished = lp.finished) ∧
        lp' = lp1.advance k.hdr.nextCommand := by
    intro lp1 s0 r s1 reply hb hl hr
    have hsub : Beyond k.hdr.nextCommand.toNat lp1 (lp1.setSub r.sub) := by
      rcases route_sub hr.route with hs | ⟨hcmd, hs⟩
      · exact .setSub (hb.off_le hoff) (by rw [hs]) (by rw [hs])
      · have h12 : writeEnd k.hdr.command = 12 := by
          rw [show k.hdr.command = cmdOplockBreak from hcmd]
          rfl
        refine .setSub (hb.off_le hoff) (by rw [hs, length_copyAt]) ?_
        rw [hs, drop_copyAt_of_le _ _ (by rw [length_zeros]; omega)]
    refine ⟨_, hb.trans ?_, ?_, hr.loop⟩
    · exact ⟨hsub.off, hsub.length, hsub.rest⟩
    · exact hl
  rcases round_routed hk h with ⟨-, -, id, reply, -, -, hlp'⟩ | ⟨-, r, s1, reply, hr⟩ |
    ⟨-, -, status, s0, r, s1, reply, -, hr⟩
  · exact ⟨k.lp.addReply reply, ⟨hk1.off, hk1.length, hk1.rest⟩, ⟨hkept.via, hkept.finished⟩, hlp'⟩
  · exact hrouted hk1 ⟨hkept.via, hkept.finished⟩ hr
  · have hk2 : Beyond k.hdr.nextCommand.toNat lp (k.lp.settle status) := ⟨hk1.off, hk1.length, hk1.rest⟩
    exact hrouted hk2 ⟨hkept.via, hkept.finished⟩ hr

/-- **A contained command leaves the rest of the frame as it was**, and the loop goes on
there. -/
theorem round_beyond {lp lp' : Loop} {s s' : St E} {k : Command E} (hk : nextCommand s.c lp = some k)
    (hc : k.Contained) (hn : k.hdr.nextCommand ≠ 0) (h : round srv lp s = .ok lp' s') :
    lp'.off = lp.off + k.hdr.nextCommand.toNat ∧ lp'.sub = lp.msg.drop lp'.off := by
  obtain ⟨lp1, hb, -, rfl⟩ := round_advance hk hc hn h
  have hoff' : (lp1.advance k.hdr.nextCommand).off = lp.off + k.hdr.nextCommand.toNat := by
    rw [Loop.advance, if_neg hn, hb.off]
  refine ⟨hoff', ?_⟩
  rw [Loop.sub, hoff', Loop.advance, if_neg hn]
  exact hb.rest

end Server
end SmbServer
