/-
# The decoders stay inside the message

Every `Parse` method of `SmbServer.Wire.Requests` on an arbitrary byte string.
Each first compares the length of the message with the size of its fixed part, so
the words of that part are in range (`Res.u16_bind` and its siblings); what it
then slices at offsets and lengths of the client's choice it first compares with
the length again, as `int`s, in which a 16 bit and a 32 bit number add up without
wrapping.
-/

import SmbServer.Wire.Requests

namespace SmbServer
open List Res
namespace Wire

/-! ### The parts the decoders are made of -/

theorem fixedBody_safe (msg : Bytes) {need : ℕ} (want : UInt16) (h : 2 ≤ need) :
    (fixedBody msg need want).Safe := by
  unfold fixedBody
  split_ifs with hlt
  · exact .throw _
  · have hlen : 0 + 2 ≤ (msg.drop createBody).length := by rw [length_drop]; omega
    simp only [pure_eq, u16_bind hlen]
    split_ifs
    · exact .throw _
    · exact .ok _

theorem fixedBody_eq_ok {msg b : Bytes} {need : ℕ} {want : UInt16} (h : fixedBody msg need want = .ok b) :
    b = msg.drop createBody ∧ createBody + need ≤ msg.length ∧ u16At b 0 = want := by
  unfold fixedBody at h
  split_ifs at h with hlt
  · cases h
  · obtain ⟨ss, hss, h⟩ := Res.bind_eq_ok h
    split_ifs at h with hw
    · cases h
    · obtain rfl := Res.ok.inj h
      refine ⟨rfl, by omega, ?_⟩
      rw [u16] at hss
      split_ifs at hss
      rw [Res.ok.inj hss]
      exact not_not.1 hw

theorem length_fixedBody {msg b : Bytes} {need : ℕ} {want : UInt16}
    (h : fixedBody msg need want = .ok b) : need ≤ b.length := by
  obtain ⟨rfl, hle, -⟩ := fixedBody_eq_ok h
  rw [length_drop]
  omega

theorem varPart_safe (msg : Bytes) (off len : ℕ) : (varPart msg off len).Safe := by
  unfold varPart
  split_ifs with hlt
  · exact .throw _
  · exact .slice (by omega)

/-! ### The fields that declare a limit -/

theorem ReadRequest.length_eq {msg : Bytes} {req : ReadRequest} (h : ReadRequest.parse msg = .ok req) :
    req.length = u32At msg (64 + 4) := by
  obtain ⟨b, hb, h⟩ := Res.bind_eq_ok h
  have hlen := length_fixedBody hb
  simp (disch := omega) only [u32_bind, u64_bind, arr_bind] at h
  obtain ⟨rfl, -⟩ := fixedBody_eq_ok hb
  obtain rfl := Res.ok.inj h
  exact u32At_drop ..

theorem QueryInfoRequest.outputBufferLength_eq {msg : Bytes} {req : QueryInfoRequest}
    (h : QueryInfoRequest.parse msg = .ok req) : req.outputBufferLength = u32At msg (64 + 4) := by
  obtain ⟨b, hb, h⟩ := Res.bind_eq_ok h
  have hlen := length_fixedBody hb
  simp (disch := omega) only [u8_bind, u32_bind, arr_bind] at h
  obtain ⟨rfl, -⟩ := fixedBody_eq_ok hb
  obtain rfl := Res.ok.inj h
  exact u32At_drop ..

theorem QueryDirectoryRequest.outputBufferLength_eq {msg : Bytes} {req : QueryDirectoryRequest}
    (h : QueryDirectoryRequest.parse msg = .ok req) : req.outputBufferLength = u32At msg (64 + 28) := by
  obtain ⟨b, hb, h⟩ := Res.bind_eq_ok h
  have hlen := length_fixedBody hb
  simp (disch := omega) only [u8_bind, u16_bind, u32_bind, arr_bind] at h
  obtain ⟨rfl, -⟩ := fixedBody_eq_ok hb
  split_ifs at h
  · obtain ⟨name, -, h⟩ := Res.bind_eq_ok h
    obtain rfl := Res.ok.inj h
    exact u32At_drop ..
  · obtain rfl := Res.ok.inj h
    exact u32At_drop ..

theorem ChangeNotifyRequest.outputBufferLength_eq {msg : Bytes} {req : ChangeNotifyRequest}
    (h : ChangeNotifyRequest.parse msg = .ok req) : req.outputBufferLength = u32At msg (64 + 4) := by
  unfold ChangeNotifyRequest.parse at h
  split_ifs at h with hlt
  · cases h
  · have hlen : 32 ≤ (msg.drop 64).length := by rw [length_drop]; omega
    simp (disch := omega) only [pure_eq, u16_bind, u32_bind, arr_bind] at h
    obtain rfl := Res.ok.inj h
    exact u32At_drop ..

/-! ### The decoders -/

theorem CreateRequest.parse_safe (msg : Bytes) : (CreateRequest.parse msg).Safe := by
  refine .bind (fixedBody_safe _ _ (by decide)) fun b hb => ?_
  have hlen := length_fixedBody hb
  simp (disch := omega) only [u8_bind, u16_bind, u32_bind]
  exact .bind (varPart_safe _ _ _) fun _ _ => .ok _

theorem CloseRequest.parse_safe (msg : Bytes) : (CloseRequest.parse msg).Safe := by
  refine .bind (fixedBody_safe _ _ (by decide)) fun b hb => ?_
  have hlen := length_fixedBody hb
  simp (disch := omega) only [u16_bind, arr_bind]
  exact .ok _

theorem ReadRequest.parse_safe (msg : Bytes) : (ReadRequest.parse msg).Safe := by
  refine .bind (fixedBody_safe _ _ (by decide)) fun b hb => ?_
  have hlen := length_fixedBody hb
  simp (disch := omega) only [u32_bind, u64_bind, arr_bind]
  exact .ok _

theorem WriteRequest.parse_safe (msg : Bytes) : (WriteRequest.parse msg).Safe := by
  refine .bind (fixedBody_safe _ _ (by decide)) fun b hb => ?_
  have hlen := length_fixedBody hb
  simp (disch := omega) only [u16_bind, u32_bind, u64_bind, arr_bind]
  exact .bind (varPart_safe _ _ _) fun _ _ => .ok _

theorem QueryDirectoryRequest.parse_safe (msg : Bytes) : (QueryDirectoryRequest.parse msg).Safe := by
  refine .bind (fixedBody_safe _ _ (by decide)) fun b hb => ?_
  have hlen := length_fixedBody hb
  simp (disch := omega) only [u8_bind, u16_bind, u32_bind, arr_bind]
  split_ifs with hr
  · exact .bind (.slice hr.2) fun _ _ => .ok _
  · exact .ok _

theorem QueryInfoRequest.parse_safe (msg : Bytes) : (QueryInfoRequest.parse msg).Safe := by
  refine .bind (fixedBody_safe _ _ (by decide)) fun b hb => ?_
  have hlen := length_fixedBody hb
  simp (disch := omega) only [u8_bind, u32_bind, arr_bind]
  exact .ok _

theorem SetInfoRequest.parse_safe (msg : Bytes) : (SetInfoRequest.parse msg).Safe := by
  refine .bind (fixedBody_safe _ _ (by decide)) fun b hb => ?_
  have hlen := length_fixedBody hb
  simp (disch := omega) only [u8_bind, u16_bind, u32_bind, arr_bind]
  exact .bind (varPart_safe _ _ _) fun _ _ => .ok _

theorem FileBasicInformation.parse_safe (b : Bytes) : (FileBasicInformation.parse b).Safe := by
  unfold FileBasicInformation.parse
  split_ifs with hlt
  · exact .throw _
  · simp (disch := omega) only [pure_eq, u32_bind, u64_bind]
    exact .ok _

/-- The elements of the array are all in range when its end is. -/
theorem lockElements_safe (b : Bytes) (n i : ℕ) (h : 48 + (i + n) * 24 ≤ b.length) :
    (lockElements b n i).Safe := by
  induction n generalizing i with
  | zero => exact .ok _
  | succ n ih =>
    simp (disch := omega) only [lockElements, u32_bind, u64_bind]
    exact .bind (ih (i + 1) (by omega)) fun _ _ => .ok _

theorem LockRequest.parse_safe (msg : Bytes) : (LockRequest.parse msg).Safe := by
  refine .bind (fixedBody_safe _ _ (by decide)) fun b hb => ?_
  have hlen := length_fixedBody hb
  simp (disch := omega) only [u16_bind, arr_bind]
  split_ifs with hlt
  · exact .throw _
  · obtain ⟨rfl, -, -⟩ := fixedBody_eq_ok hb
    refine .bind (lockElements_safe _ _ _ ?_) fun _ _ => .ok _
    rw [length_drop]
    omega

theorem IoctlRequest.parse_safe (msg : Bytes) : (IoctlRequest.parse msg).Safe := by
  refine .bind (fixedBody_safe _ _ (by decide)) fun b hb => ?_
  have hlen := length_fixedBody hb
  simp (disch := omega) only [u32_bind, arr_bind]
  split_ifs with hr
  · exact .bind (.slice hr.2) fun _ _ => .ok _
  · exact .ok _

theorem ChangeNotifyRequest.parse_safe (msg : Bytes) : (ChangeNotifyRequest.parse msg).Safe := by
  unfold ChangeNotifyRequest.parse
  split_ifs with hlt
  · exact .throw _
  · have hlen : 32 ≤ (msg.drop 64).length := by rw [length_drop]; omega
    simp (disch := omega) only [pure_eq, u16_bind, u32_bind, arr_bind]
    exact .ok _

theorem SessionSetupRequest.parse_safe (msg : Bytes) : (SessionSetupRequest.parse msg).Safe := by
  refine .bind (fixedBody_safe _ _ (by decide)) fun b hb => ?_
  have hlen := length_fixedBody hb
  simp (disch := omega) only [u8_bind, u16_bind, u32_bind, u64_bind]
  exact .bind (varPart_safe _ _ _) fun _ _ => .ok _

theorem TreeConnectRequest.parse_safe (msg : Bytes) : (TreeConnectRequest.parse msg).Safe := by
  refine .bind (fixedBody_safe _ _ (by decide)) fun b hb => ?_
  have hlen := length_fixedBody hb
  simp (disch := omega) only [u16_bind]
  exact .bind (varPart_safe _ _ _) fun _ _ => .ok _

/-- Each round of `parseContexts` checks both ends of its context. -/
theorem parseContexts_safe (body : Bytes) (count : ℕ) (offset : ℤ) :
    (parseContexts body count offset).Safe := by
  induction count generalizing offset with
  | zero => exact .ok _
  | succ count ih =>
    unfold parseContexts
    split_ifs with hr
    · exact .throw _
    · have hlen : offset.toNat + 8 ≤ body.length := by omega
      simp (disch := omega) only [pure_eq, u16_bind]
      split_ifs with hd
      · exact .throw _
      · refine .bind (.slice (by omega)) fun _ _ => ?_
        exact .bind (ih _) fun _ _ => .ok _

theorem parseDialects_safe (body : Bytes) (n i : ℕ) (h : 36 + (i + n) * 2 ≤ body.length) :
    (parseDialects body n i).Safe := by
  induction n generalizing i with
  | zero => exact .ok _
  | succ n ih =>
    simp (disch := omega) only [parseDialects, u16_bind]
    exact .bind (ih (i + 1) (by omega)) fun _ _ => .ok _

theorem NegotiateRequest.parse_safe (body : Bytes) : (NegotiateRequest.parse body).Safe := by
  unfold NegotiateRequest.parse
  split_ifs with hlt
  · exact .throw _
  · simp (disch := omega) only [pure_eq, u16_bind, u32_bind, arr_bind]
    split_ifs
    · exact .throw _
    · exact .throw _
    · exact .throw _
    · refine .bind (parseDialects_safe _ _ _ (by omega)) fun _ _ => ?_
      split_ifs
      · exact .bind (parseContexts_safe _ _ _) fun _ _ => .ok _
      · exact .ok _

end Wire
end SmbServer
