/-
# The downgrade check

A client that has negotiated asks with FSCTL_VALIDATE_NEGOTIATE_INFO for the values
the server says it negotiated, and drops the connection when they are not those of
the NEGOTIATE response it got.  `handleNegotiate` and `buildValidateNegotiateInfo`
build the four values separately.

The second one takes the dialect from the configuration, not from the negotiation,
and leaves CapEncryption out.  So the two agree exactly when encryption is not
required and the configured dialect, a known one, was offered
(`validated_eq_negotiated_iff`).
-/

import SmbServer.Server.Limits
import SmbServer.Server.Response

namespace SmbServer
namespace Server

open Wire List

variable {E : Env} {srv : Config E}

/-- The values that both responses carry. -/
structure Negotiated where
  capabilities : UInt32
  serverGuid : Bytes
  securityMode : UInt16
  dialect : UInt16
  deriving DecidableEq

/-- The values in the body of a NEGOTIATE response. -/
def negotiatedIn (body : Bytes) : Negotiated where
  capabilities := u32At body 24
  serverGuid := slice body 8 16
  securityMode := u16At body 2
  dialect := u16At body 4

/-- The values in a VALIDATE_NEGOTIATE_INFO, the output of an IOCTL response, whose
offset counts from the header. -/
def validatedIn (body : Bytes) : Negotiated :=
  let out := slice body ((u32At body 32).toNat - headerSize) (u32At body 36).toNat
  { capabilities := u32At out 0
    serverGuid := slice out 4 16
    securityMode := u16At out 20
    dialect := u16At out 22 }

/-! ### What the responses carry -/

theorem negotiatedIn_encode (r : NegotiateResponse) :
    negotiatedIn r.encode = ⟨r.capabilities, r.serverGuid.1, r.securityMode, r.dialectRevision⟩ := by
  have hw := r.written_encode
  simp only [negotiatedIn, hw.capabilities, hw.serverGuid, hw.securityMode, hw.dialectRevision]

theorem validatedIn_ioctlResponse (ctlCode : UInt32) (fileId guid : Arr 16) (dialect : UInt16) (flags : UInt32) :
    validatedIn (ioctlResponse ctlCode fileId [] (buildValidateNegotiateInfo dialect guid) flags) =
      ⟨capLargeMTU, guid.1, signingEnabled, dialect⟩ := by
  let out := buildValidateNegotiateInfo dialect guid
  have hlen : out.length = 24 := by simp [out, buildValidateNegotiateInfo, guid.2]
  let toOff := put16 49 ++ zeros 2 ++ put32 ctlCode ++ fileId.1 ++ put32 0 ++ put32 0
  let toCount := toOff ++ put32 112
  let toOut := toCount ++ put32 24 ++ put32 flags ++ zeros 4
  have h1 : toOff.length = 32 := by simp [toOff, fileId.2]
  have h2 : toCount.length = 36 := by simp [toCount, h1]
  have h3 : toOut.length = 48 := by simp [toOut, h2]
  have hresp : ioctlResponse ctlCode fileId [] out flags = toOut ++ out := by
    unfold ioctlResponse
    simp only [hlen, length_nil, append_nil]
    rfl
  have hoff : u32At (toOut ++ out) 32 = 112 := u32At_of_slice (slice_eq_of_append toOff
    (by simp only [toOut, toCount, append_assoc]; exact ⟨_, rfl⟩) h1 (length_put32 _))
  have hcount : u32At (toOut ++ out) 36 = 24 := u32At_of_slice (slice_eq_of_append toCount
    (by simp only [toOut, append_assoc]; exact ⟨_, rfl⟩) h2 (length_put32 _))
  have hslice : slice (toOut ++ out) 48 24 = out := by
    rw [slice_append_right _ _ h3.le, h3, slice, Nat.sub_self, drop_zero, take_of_length_le hlen.le]
  have hcap : u32At out 0 = capLargeMTU := u32At_of_slice rfl
  have hguid : slice out 4 16 = guid.1 := slice_eq_of_append (put32 4)
    (by simp only [out, buildValidateNegotiateInfo, append_assoc]; exact ⟨_, rfl⟩) (length_put32 _) guid.2
  have hmode : u16At out 20 = signingEnabled := u16At_of_slice (slice_eq_of_append (put32 4 ++ guid.1)
    ⟨put16 dialect, by simp only [out, buildValidateNegotiateInfo, append_assoc]; rfl⟩
    (by simp [guid.2]) (length_put16 _))
  have hdialect : u16At out 22 = dialect := u16At_of_slice (slice_eq_of_append (put32 4 ++ guid.1 ++ [0x01, 0])
    ⟨[], by simp only [out, buildValidateNegotiateInfo, append_assoc, append_nil]⟩
    (by simp [guid.2]) (length_put16 _))
  show validatedIn (ioctlResponse ctlCode fileId [] out flags) = _
  rw [hresp]
  simp only [validatedIn, hoff, hcount]
  rw [show (112 : UInt32).toNat - headerSize = 48 from rfl, show (24 : UInt32).toNat = 24 from rfl, hslice]
  simp only [hcap, hguid, hmode, hdialect]

/-! ### The dialect -/

/-- A dialect `pickDialect` knows. -/
def IsDialect (d : UInt16) : Prop :=
  d = dialectSMB202 ∨ d = dialectSMB21 ∨ d = dialectSMB30 ∨ d = dialectSMB302 ∨ d = dialectSMB311

instance (d : UInt16) : Decidable (IsDialect d) :=
  inferInstanceAs (Decidable (_ ∨ _ ∨ _ ∨ _ ∨ _))

/-- One offer in the loop of `pickDialect`. -/
def pickStep (maxDialect best d : UInt16) : UInt16 :=
  if maxDialect < d then best else if IsDialect d then if best < d then d else best else best

/-- The loop of `pickDialect` ends with the best so far or a known dialect offered, and
with nothing below what it was offered. -/
theorem foldl_pickStep (m : UInt16) (offered : List UInt16) (best : UInt16) :
    (offered.foldl (pickStep m) best = best ∨
      offered.foldl (pickStep m) best ∈ offered ∧ IsDialect (offered.foldl (pickStep m) best)) ∧
    best ≤ offered.foldl (pickStep m) best ∧ (best ≤ m → offered.foldl (pickStep m) best ≤ m) ∧
    ∀ d ∈ offered, IsDialect d → d ≤ m → d ≤ offered.foldl (pickStep m) best := by
  induction offered generalizing best with
  | nil => exact ⟨.inl rfl, UInt16.le_refl _, id, nofun⟩
  | cons d rest ih =>
    obtain ⟨hfrom, hge, hle, hall⟩ := ih (pickStep m best d)
    rw [foldl_cons]
    have hstep : (pickStep m best d = best ∨ pickStep m best d = d ∧ IsDialect d) ∧ best ≤ pickStep m best d ∧
        (best ≤ m → pickStep m best d ≤ m) ∧ (IsDialect d → d ≤ m → d ≤ pickStep m best d) := by
      unfold pickStep
      split_ifs with hm hd hb
      · exact ⟨.inl rfl, UInt16.le_refl _, id, fun _ h => absurd hm (UInt16.not_lt.2 h)⟩
      · exact ⟨.inr ⟨rfl, hd⟩, UInt16.le_of_lt hb, fun _ => UInt16.not_lt.1 hm, fun _ _ => UInt16.le_refl _⟩
      · exact ⟨.inl rfl, UInt16.le_refl _, id, fun _ _ => UInt16.not_lt.1 hb⟩
      · exact ⟨.inl rfl, UInt16.le_refl _, id, fun h => absurd h hd⟩
    obtain ⟨hs, hsge, hsle, hsd⟩ := hstep
    refine ⟨?_, UInt16.le_trans hsge hge, fun h => hle (hsle h), fun x hx hxd hxm => ?_⟩
    · rcases hfrom with h | ⟨h, hd⟩
      · rw [h]
        rcases hs with h' | ⟨h', hd⟩
        · exact .inl h'
        · rw [h']
          exact .inr ⟨mem_cons_self .., hd⟩
      · exact .inr ⟨mem_cons_of_mem _ h, hd⟩
    · rcases mem_cons.1 hx with rfl | hx
      · exact UInt16.le_trans (hsd hxd hxm) hge
      · exact hall x hx hxd hxm

/-- The maximum is picked exactly when it is known and offered. -/
theorem pickDialect_eq_max_iff {offered : List UInt16} {m : UInt16} (h : pickDialect offered m ≠ 0) :
    pickDialect offered m = m ↔ m ∈ offered ∧ IsDialect m := by
  have hfold : pickDialect offered m = offered.foldl (pickStep m) 0 := rfl
  rw [hfold] at h ⊢
  obtain ⟨hfrom, -, hle, hall⟩ := foldl_pickStep m offered 0
  constructor
  · intro heq
    obtain ⟨hmem, hd⟩ := hfrom.resolve_left h
    rw [heq] at hmem hd
    exact ⟨hmem, hd⟩
  · rintro ⟨hmem, hd⟩
    exact UInt16.le_antisymm (hle UInt16.zero_le) (hall m hmem hd (UInt16.le_refl m))

/-! ### The two answers -/

/-- A NEGOTIATE that is answered picked a dialect. -/
theorem handleNegotiate_ok {msg : Bytes} {req : NegotiateRequest} {s s' : St E}
    (hreq : NegotiateRequest.parse (msg.drop headerSize) = .ok req)
    (h : handleNegotiate srv msg s = .ok statusSuccess s') :
    pickDialect req.dialects srv.dialect ≠ 0 ∧ ∃ body, s'.c.out = s.c.out ++ body ∧
      negotiatedIn body = ⟨negotiateCapabilities srv, srv.guid.1, signingEnabled,
        pickDialect req.dialects srv.dialect⟩ := by
  simp only [handleNegotiate, parsed, hreq] at h
  split_ifs at h with hzero
  · exact absurd (Outcome.ok.inj h).1 (by decide)
  · obtain ⟨-, rfl⟩ := Outcome.ok.inj h
    exact ⟨hzero, _, rfl, negotiatedIn_encode _⟩

/-- A VALIDATE_NEGOTIATE_INFO is always answered. -/
theorem handleIoctl_validate {o : Origin} {msg : Bytes} {req : IoctlRequest} (s : St E)
    (hreq : IoctlRequest.parse msg = .ok req) (hctl : req.ctlCode = fsctlValidateNegotiateInfo) :
    ∃ body, handleIoctl srv o msg s = .ok statusSuccess { s with c := { s.c with out := s.c.out ++ body } } ∧
      validatedIn body = ⟨capLargeMTU, srv.guid.1, signingEnabled, srv.dialect⟩ := by
  simp only [handleIoctl, parsed, hreq, if_pos hctl]
  exact ⟨_, rfl, validatedIn_ioctlResponse ..⟩

/-- The answer to a VALIDATE_NEGOTIATE_INFO in `s₂` carries the values of the NEGOTIATE
response that led from `s` to `s₁`. -/
def Validates (srv : Config E) (s s₁ : St E) (o : Origin) (msg : Bytes) (s₂ : St E) : Prop :=
  ∃ s₃, handleIoctl srv o msg s₂ = .ok statusSuccess s₃ ∧
    validatedIn (s₃.c.out.drop s₂.c.out.length) = negotiatedIn (s₁.c.out.drop s.c.out.length)

/-- **The downgrade check agrees with the negotiation exactly when encryption is not
required and the configured dialect is a known one that was offered.** -/
theorem validated_eq_negotiated_iff (srv : Config E) (neg : Bytes) (offer : NegotiateRequest) (s s₁ : St E)
    (hoffer : NegotiateRequest.parse (neg.drop headerSize) = .ok offer)
    (hneg : handleNegotiate srv neg s = .ok statusSuccess s₁) (o : Origin) (msg : Bytes) (req : IoctlRequest)
    (s₂ : St E) (hreq : IoctlRequest.parse msg = .ok req) (hctl : req.ctlCode = fsctlValidateNegotiateInfo) :
    Validates srv s s₁ o msg s₂ ↔
      srv.requireEnc = false ∧ srv.dialect ∈ offer.dialects ∧ IsDialect srv.dialect := by
  obtain ⟨hne, body, hbody, hnegotiated⟩ := handleNegotiate_ok hoffer hneg
  obtain ⟨info, hinfo, hvalidated⟩ := handleIoctl_validate s₂ hreq hctl
  rw [← pickDialect_eq_max_iff hne]
  have hiff : Validates srv s s₁ o msg s₂ ↔ validatedIn info = negotiatedIn body := by
    have hdrop : ∀ a b : Bytes, (a ++ b).drop a.length = b := fun a b => List.drop_left
    constructor
    · rintro ⟨s₃, hrun, heq⟩
      rw [hinfo] at hrun
      cases hrun
      rwa [hdrop, hbody, hdrop] at heq
    · intro heq
      refine ⟨_, hinfo, ?_⟩
      rw [hdrop, hbody, hdrop]
      exact heq
  rw [hiff, hvalidated, hnegotiated, Negotiated.mk.injEq, negotiateCapabilities]
  cases srv.requireEnc with
  | true => exact iff_of_false (fun h => absurd h.1 (by decide)) fun h => absurd h.1 (by decide)
  | false => exact ⟨fun h => ⟨rfl, h.2.2.2.symm⟩, fun h => ⟨rfl, rfl, rfl, h.2.symm⟩⟩

/-- A NEGOTIATE that offers dialects. -/
def negotiateFrame (dialects : List UInt16) : Bytes :=
  Header.encode { command := cmdNegotiate } ++ put16 36 ++ put16 (UInt16.ofNat dialects.length) ++ zeros 32 ++
    dialects.flatMap put16

set_option maxRecDepth 4000 in
/-- Of two dialects offered, the second is the configured one. -/
theorem validated_after_negotiation : ∃ s₁, handleNegotiate (guestServer false)
      (negotiateFrame [dialectSMB202, dialectSMB302]) ⟨{ world := (0 : ℕ) }, newConn 0⟩ = .ok statusSuccess s₁ ∧
    Validates (guestServer false) ⟨{ world := (0 : ℕ) }, newConn 0⟩ s₁ ⟨0, 1, 0, cmdIoctl⟩ (validateFrame 24) s₁ := by
  have hneg : ∃ s₁, handleNegotiate (guestServer false)
      (negotiateFrame [dialectSMB202, dialectSMB302]) ⟨{ world := (0 : ℕ) }, newConn 0⟩ = .ok statusSuccess s₁ :=
    ⟨_, rfl⟩
  obtain ⟨s₁, hneg⟩ := hneg
  refine ⟨s₁, hneg, (validated_eq_negotiated_iff (guestServer false) _
    ⟨0, 0, Arr.zero 16, [dialectSMB202, dialectSMB302], []⟩ _ s₁ rfl hneg ⟨0, 1, 0, cmdIoctl⟩ (validateFrame 24)
    ⟨fsctlValidateNegotiateInfo, Arr.zero 16, [], 0, 24⟩ s₁ rfl rfl).2 ⟨rfl, ?_, ?_⟩⟩
  · decide
  · decide

set_option maxRecDepth 4000 in
/-- A client that offers SMB 2.0.2 alone gets it, and is told SMB 3.0.2. -/
theorem not_validates_lower_dialect :
    ¬∀ (E : Env) (srv : Config E) (neg : Bytes) (offer : NegotiateRequest) (s s₁ : St E),
      NegotiateRequest.parse (neg.drop headerSize) = .ok offer →
      handleNegotiate srv neg s = .ok statusSuccess s₁ →
      ∀ (o : Origin) (msg : Bytes) (req : IoctlRequest) (s₂ : St E), IoctlRequest.parse msg = .ok req →
        req.ctlCode = fsctlValidateNegotiateInfo → Validates srv s s₁ o msg s₂ := by
  intro hall
  let s : St guestEnv := ⟨{ world := (0 : ℕ) }, newConn 0⟩
  have hneg : ∃ s₁, handleNegotiate (guestServer false) (negotiateFrame [dialectSMB202]) s = .ok statusSuccess s₁ :=
    ⟨_, rfl⟩
  obtain ⟨s₁, hneg⟩ := hneg
  have hoffer : NegotiateRequest.parse ((negotiateFrame [dialectSMB202]).drop headerSize) =
      .ok ⟨0, 0, Arr.zero 16, [dialectSMB202], []⟩ := rfl
  have hreq : IoctlRequest.parse (validateFrame 24) = .ok ⟨fsctlValidateNegotiateInfo, Arr.zero 16, [], 0, 24⟩ := rfl
  obtain ⟨s₃, hrun, heq⟩ := hall guestEnv (guestServer false) _ _ s s₁ hoffer hneg ⟨0, 1, 0, cmdIoctl⟩ _ _ s hreq rfl
  obtain ⟨-, body, hbody, hnegotiated⟩ := handleNegotiate_ok hoffer hneg
  obtain ⟨info, hinfo, hvalidated⟩ := handleIoctl_validate (o := ⟨0, 1, 0, cmdIoctl⟩) s hreq rfl
  rw [hinfo] at hrun
  cases hrun
  rw [hbody, List.drop_left, List.drop_left, hvalidated, hnegotiated] at heq
  exact absurd (congrArg Negotiated.dialect heq) (by decide)

end Server
end SmbServer
