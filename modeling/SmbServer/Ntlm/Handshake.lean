/-
# The NTLM handshake

`smb/ntlmssp/server.go`: the `serverAuthenticator` behind a session.  Its first
`Accept` of a NEGOTIATE message stores a challenge and sends it, the next one of an
AUTHENTICATE message checks the proof in the response of the client.  An `Accept` that
fails leaves the stage as it is, so a client may try again under the same challenge.

The lookup of credentials, HMAC-MD5, RC4 and `encoding/asn1` are parameters; so is what
`rand.Read` returns, which is an argument of `accept`.  `Marshal` and `rand.Read` do not
fail.

`accept_cases` says what one `Accept` can do.  From it follows for every sequence of
tokens that an Identity is the answer to a challenge issued before, under the key of the
names in the message, and that there is at most one (`acceptAll_sound`).
-/

import SmbServer.Ntlm.Messages
import SmbServer.Vfs.Interface

namespace SmbServer
open List
namespace Ntlm

open Wire (utf16FromBytes utf16ToBytes)

variable {P : Primitives} {random : Arr 8} {token : Bytes} {s s' : ServerAuthenticator}
  {r : Except Auth.AuthError Auth.AcceptResult} {serverName : GoString}

/-- What the authenticator is built on. -/
structure Primitives where
  asn : Asn1
  /-- `CredentialLookup.LookupNTOWFv2` of a domain and a user. -/
  lookup : GoString → GoString → Option Bytes
  hmacMd5 : Bytes → Bytes → Bytes
  /-- `XORKeyStream` of RC4 under a key. -/
  rc4 : Bytes → Bytes → Bytes

/-- `serverAuthenticator`. -/
structure ServerAuthenticator where
  stage : ℕ := 0
  challenge : Arr 8 := Arr.zero 8
  targetName : GoString
  negotiate : Bytes := []
  domain : GoString := []
  user : GoString := []

/-- The function that `NewServer` returns. -/
def newServer (serverName : GoString) : ServerAuthenticator := { targetName := serverName }

/-! ### Answers -/

def avEOL : UInt16 := 0x00
def avNbCompName : UInt16 := 0x01

/-- `appendAV`. -/
def appendAV (out : Bytes) (id : UInt16) (value : Bytes) : Bytes :=
  out ++ put16 id ++ put16 (UInt16.ofNat value.length) ++ value

/-- `buildTargetInfo`. -/
def buildTargetInfo (serverName : GoString) : Bytes :=
  if serverName = [] then zeros 4
  else appendAV (appendAV [] avNbCompName (utf16ToBytes serverName)) avEOL []

/-- The token that issues a challenge. -/
def challengeToken (asn : Asn1) (targetName : GoString) (challenge : Arr 8) : Bytes :=
  wrapSPNEGOChallenge asn (ChallengeMessage.marshal
    { flags := serverChallengeFlags
      serverChallenge := challenge
      targetName
      targetInfo := buildTargetInfo targetName })

/-- `computeNTProofStr`. -/
def computeNTProofStr (P : Primitives) (responseKeyNT serverChallenge ntChallengeResponse : Bytes) : Bytes :=
  P.hmacMd5 responseKeyNT (serverChallenge ++ ntChallengeResponse.drop 16)

/-- `sessionBaseKey`. -/
def sessionBaseKey (P : Primitives) (responseKeyNT ntProofStr : Bytes) : Bytes := P.hmacMd5 responseKeyNT ntProofStr

/-- `rc4Decrypt`; `NewCipher` takes keys of 1 to 256 bytes. -/
def rc4Decrypt (P : Primitives) (key ciphertext : Bytes) : Bytes :=
  if key.length < 1 ∨ 256 < key.length then [] else P.rc4 key ciphertext

/-- The session key of `handleAuthenticate`. -/
def sessionKeyOf (P : Primitives) (am : AuthenticateMessage) (key proof : Bytes) : Bytes :=
  let base := sessionBaseKey P key proof
  if am.flags &&& flagNegotiateKeyExch ≠ 0 ∧ am.encryptedSessionKey.length = 16 then
    rc4Decrypt P base am.encryptedSessionKey
  else base

/-! ### Accept -/

/-- A computation on the authenticator. -/
abbrev A (α : Type) := Go ServerAuthenticator α

/-- `handleNegotiate`; `random` is what `rand.Read` returns. -/
def handleNegotiate (P : Primitives) (random : Arr 8) (msg : Bytes) : A (Except Auth.AuthError Auth.AcceptResult) :=
  match parseNegotiateMessage msg with
  | .panic => Go.fault
  | .err _ => return .error .other
  | .ok _ => do
      Go.modify fun s => { s with challenge := random, negotiate := msg, stage := 1 }
      let s ← Go.get
      return .ok { outputToken := challengeToken P.asn s.targetName s.challenge }

/-- The check of `handleAuthenticate` and what follows it. -/
def checkProof (P : Primitives) (am : AuthenticateMessage) : A (Except Auth.AuthError Auth.AcceptResult) := do
  let s ← Go.get
  if am.ntChallengeResponse.length < 16 then return .error .logonFailed
  else
    match P.lookup s.domain s.user with
    | none => return .error .logonFailed
    | some key =>
      let proof := computeNTProofStr P key s.challenge.1 am.ntChallengeResponse
      -- `subtle.ConstantTimeCompare`.
      if proof ≠ am.ntChallengeResponse.take 16 then return .error .logonFailed
      else do
        Go.modify fun s => { s with stage := 2 }
        return .ok
          { identity := some { username := s.user, domain := s.domain }
            sessionKey := sessionKeyOf P am key proof
            outputToken := wrapSPNEGOAccept P.asn }

/-- `handleAuthenticate`. -/
def handleAuthenticate (P : Primitives) (msg : Bytes) : A (Except Auth.AuthError Auth.AcceptResult) :=
  match parseAuthenticateMessage msg with
  | .panic => Go.fault
  | .err _ => return .error .other
  | .ok am => do
      Go.modify fun s => { s with domain := utf16FromBytes am.domainName, user := utf16FromBytes am.userName }
      checkProof P am

/-- `Accept`. -/
def accept (P : Primitives) (random : Arr 8) (token : Bytes) : A (Except Auth.AuthError Auth.AcceptResult) :=
  match unwrapSPNEGOToken P.asn token with
  | .panic => Go.fault
  | .err _ => return .error .other
  | .ok msg => do
      let s ← Go.get
      if s.stage = 0 then handleNegotiate P random msg
      else if s.stage = 1 then handleAuthenticate P msg
      else return .error .other

/-! ### What an Accept does -/

/-- The client proves that it knows the key of the names in its message. -/
structure Proves (P : Primitives) (challenge : Arr 8) (token : Bytes) (ident : Auth.Identity) : Prop where
  proof : ∃ msg am key, unwrapSPNEGOToken P.asn token = .ok msg ∧ parseAuthenticateMessage msg = .ok am ∧
    ident = { username := utf16FromBytes am.userName, domain := utf16FromBytes am.domainName } ∧
    P.lookup ident.domain ident.username = some key ∧ 16 ≤ am.ntChallengeResponse.length ∧
    am.ntChallengeResponse.take 16 = P.hmacMd5 key (challenge.1 ++ am.ntChallengeResponse.drop 16)

/-- The token is a NEGOTIATE message, and the result issues the challenge. -/
structure Issues (P : Primitives) (targetName : GoString) (challenge : Arr 8) (token : Bytes)
    (r : Except Auth.AuthError Auth.AcceptResult) : Prop where
  negotiate : ∃ msg m, unwrapSPNEGOToken P.asn token = .ok msg ∧ parseNegotiateMessage msg = .ok m
  result : r = .ok { outputToken := challengeToken P.asn targetName challenge }

/-- The Identity of a result. -/
def identityOf : Except Auth.AuthError Auth.AcceptResult → Option Auth.Identity
  | .ok r => r.identity
  | .error _ => none

/-- How an `Accept` can end. -/
inductive Accepted (P : Primitives) (random : Arr 8) (token : Bytes) (s : ServerAuthenticator) :
    Except Auth.AuthError Auth.AcceptResult → ServerAuthenticator → Prop where
  | negotiated {r : Except Auth.AuthError Auth.AcceptResult} {s' : ServerAuthenticator} (h : s.stage = 0)
      (hr : Issues P s.targetName random token r) (hs : s'.stage = 1) (hc : s'.challenge = random)
      (ht : s'.targetName = s.targetName) : Accepted P random token s r s'
  | authenticated {r : Auth.AcceptResult} {s' : ServerAuthenticator} {ident : Auth.Identity} (h : s.stage = 1)
      (hr : r.identity = some ident) (hp : Proves P s.challenge token ident) (hs : s'.stage = 2)
      (ht : s'.targetName = s.targetName) : Accepted P random token s (.ok r) s'
  | failed {e : Auth.AuthError} {s' : ServerAuthenticator} (hs : s'.stage = s.stage)
      (hc : s'.challenge = s.challenge) (ht : s'.targetName = s.targetName) : Accepted P random token s (.error e) s'

theorem checkProof_accepted {msg : Bytes} {am : AuthenticateMessage}
    {s1 : ServerAuthenticator} (h : s.stage = 1)
    (hu : unwrapSPNEGOToken P.asn token = .ok msg) (hp : parseAuthenticateMessage msg = .ok am)
    (hs1 : s1 = { s with domain := utf16FromBytes am.domainName, user := utf16FromBytes am.userName })
    (hrun : checkProof P am s1 = .ok r s') : Accepted P random token s r s' := by
  rw [checkProof, Go.bind_ok (Go.get_apply s1)] at hrun
  split_ifs at hrun with hlen
  · cases hrun
    exact .failed (by rw [hs1]) (by rw [hs1]) (by rw [hs1])
  cases hkey : P.lookup s1.domain s1.user with
  | none =>
    rw [hkey] at hrun
    cases hrun
    exact .failed (by rw [hs1]) (by rw [hs1]) (by rw [hs1])
  | some key =>
    rw [hkey] at hrun
    dsimp only at hrun
    split_ifs at hrun with hproof
    · cases hrun
      exact .failed (by rw [hs1]) (by rw [hs1]) (by rw [hs1])
    · subst hs1
      cases hrun
      exact .authenticated h rfl ⟨msg, am, key, hu, hp, rfl, hkey, not_lt.1 hlen, (not_not.1 hproof).symm⟩ rfl rfl

/-- **What one `Accept` can do.** -/
theorem accept_cases
    (hrun : accept P random token s = .ok r s') :
    Accepted P random token s r s' := by
  unfold accept at hrun
  cases hu : unwrapSPNEGOToken P.asn token with
  | panic => rw [hu] at hrun; cases hrun
  | err e =>
    rw [hu] at hrun
    cases hrun
    exact .failed rfl rfl rfl
  | ok msg =>
    rw [hu] at hrun
    replace hrun := (Go.bind_ok (Go.get_apply s)).symm.trans hrun
    split_ifs at hrun with h0 h1
    · unfold handleNegotiate at hrun
      cases hp : parseNegotiateMessage msg with
      | panic => rw [hp] at hrun; cases hrun
      | err e =>
        rw [hp] at hrun
        cases hrun
        exact .failed rfl rfl rfl
      | ok m =>
        rw [hp] at hrun
        cases hrun
        exact .negotiated h0 ⟨⟨msg, m, hu, hp⟩, rfl⟩ rfl rfl rfl
    · unfold handleAuthenticate at hrun
      cases hp : parseAuthenticateMessage msg with
      | panic => rw [hp] at hrun; cases hrun
      | err e =>
        rw [hp] at hrun
        cases hrun
        exact .failed rfl rfl rfl
      | ok am =>
        rw [hp] at hrun
        obtain ⟨_, s1, hs1, hrun⟩ := Go.bind_eq_ok hrun
        cases hs1
        exact checkProof_accepted h1 hu hp rfl hrun
    · cases hrun
      exact .failed rfl rfl rfl

/-! ### Sequences of tokens -/

/-- An `Accept` of a sequence: what it was given, and the authenticator before and after. -/
structure Entry where
  token : Bytes
  before : ServerAuthenticator
  result : Except Auth.AuthError Auth.AcceptResult
  after : ServerAuthenticator

/-- The `Accept`s of a sequence of tokens, each with what `rand.Read` returns, up to one that
panics. -/
def acceptAll (P : Primitives) : ServerAuthenticator → List (Bytes × Arr 8) → List Entry
  | _, [] => []
  | s, (token, random) :: rest =>
    match accept P random token s with
    | .panic _ => []
    | .ok r s' => ⟨token, s, r, s'⟩ :: acceptAll P s' rest

/-- What the `Accept`s of one authenticator for `serverName` have to do with each other. -/
structure Sound (P : Primitives) (serverName : GoString) (log : List Entry) : Prop where
  /-- An Identity answers a challenge that an earlier `Accept` issued and stored. -/
  identity : ∀ pre e post, log = pre ++ e :: post → ∀ ident, identityOf e.result = some ident →
    Proves P e.before.challenge e.token ident ∧
      ∃ e₀ ∈ pre, Issues P serverName e₀.after.challenge e₀.token e₀.result ∧
        e₀.after.challenge = e.before.challenge
  /-- There is at most one Identity. -/
  once : (log.filter fun e => (identityOf e.result).isSome).length ≤ 1
  /-- An error leaves the stage of the handshake as it is. -/
  error : ∀ e ∈ log, ∀ x, e.result = .error x → e.after.stage = e.before.stage

/-- What is known after the `Accept`s of `log`, which leave the authenticator `s`. -/
structure Progress (P : Primitives) (serverName : GoString) (log : List Entry) (s : ServerAuthenticator) : Prop where
  sound : Sound P serverName log
  target : s.targetName = serverName
  issued : s.stage = 1 → ∃ e₀ ∈ log, Issues P serverName e₀.after.challenge e₀.token e₀.result ∧
    e₀.after.challenge = s.challenge
  unidentified : s.stage ≤ 1 → ∀ e ∈ log, identityOf e.result = none

theorem Sound.concat {log : List Entry} {e : Entry} (h : Sound P serverName log)
    (hid : ∀ ident, identityOf e.result = some ident → Proves P e.before.challenge e.token ident ∧
      (∃ e0 ∈ log, Issues P serverName e0.after.challenge e0.token e0.result ∧ e0.after.challenge = e.before.challenge) ∧
      ∀ e' ∈ log, identityOf e'.result = none)
    (herr : ∀ x, e.result = .error x → e.after.stage = e.before.stage) : Sound P serverName (log ++ [e]) := by
  refine ⟨fun pre e' post he ident hident => ?_, ?_, fun e' he' => ?_⟩
  · rcases eq_nil_or_concat post with rfl | ⟨post', x, rfl⟩
    · obtain ⟨rfl, rfl⟩ := append_inj' he rfl |>.imp_right fun h => (List.cons.inj h).1
      obtain ⟨hp, hissued, -⟩ := hid ident hident
      exact ⟨hp, hissued⟩
    · rw [concat_eq_append, ← cons_append, ← append_assoc] at he
      exact h.identity pre e' post' (append_inj' he rfl).1 ident hident
  · rw [filter_append, length_append]
    cases hident : identityOf e.result with
    | none => simpa [hident] using h.once
    | some ident =>
      have hnone := (hid ident hident).2.2
      rw [filter_eq_nil_iff.2 fun e' he' => by simp [hnone e' he']]
      simp [hident]
  · rcases mem_append.1 he' with he' | he'
    · exact h.error e' he'
    · obtain rfl := mem_singleton.1 he'
      exact herr

theorem Progress.step {log : List Entry}
    (h : Progress P serverName log s)
    (ha : Accepted P random token s r s') : Progress P serverName (log ++ [⟨token, s, r, s'⟩]) s' := by
  cases ha with
  | negotiated h0 hr hs hc ht =>
    have hnone : identityOf r = none := by rw [hr.result]; rfl
    rw [h.target, ← hc] at hr
    refine ⟨h.sound.concat (fun ident hi => ?_) fun x hx => ?_, ht.trans h.target, fun _ => ?_, fun _ e he => ?_⟩
    · exact absurd (hnone.symm.trans hi) (by simp)
    · exact absurd (hr.result.symm.trans hx) (by simp)
    · exact ⟨_, mem_append_right log (mem_singleton.2 rfl), hr, rfl⟩
    · rcases mem_append.1 he with he | he
      · exact h.unidentified (by omega) e he
      · obtain rfl := mem_singleton.1 he
        exact hnone
  | @authenticated r s' ident h1 hr hp hs ht =>
    refine ⟨h.sound.concat (fun ident' hi => ?_) nofun, ht.trans h.target,
      fun h => absurd (hs.symm.trans h) (by decide), fun h => absurd (hs.symm.trans_le h) (by decide)⟩
    cases hr.symm.trans hi
    exact ⟨hp, h.issued h1, h.unidentified (by omega)⟩
  | @failed e s' hs hc ht =>
    refine ⟨h.sound.concat (nofun) fun _ _ => hs, ht.trans h.target, fun h1 => ?_, fun h1 e' he => ?_⟩
    · obtain ⟨e0, he0, hi, hch⟩ := h.issued (hs ▸ h1)
      exact ⟨e0, mem_append_left _ he0, hi, hch.trans hc.symm⟩
    · rcases mem_append.1 he with he | he
      · exact h.unidentified (hs ▸ h1) e' he
      · obtain rfl := mem_singleton.1 he
        rfl

theorem Progress.acceptAll (tokens : List (Bytes × Arr 8)) :
    ∀ {log : List Entry} {s : ServerAuthenticator}, Progress P serverName log s →
      Sound P serverName (log ++ acceptAll P s tokens) := by
  induction tokens with
  | nil =>
    intro log s h
    rw [Ntlm.acceptAll, append_nil]
    exact h.sound
  | cons t tokens ih =>
    intro log s h
    rw [Ntlm.acceptAll]
    cases hrun : accept P t.2 t.1 s with
    | panic s' =>
      rw [append_nil]
      exact h.sound
    | ok r s' =>
      have hrest := ih (h.step (accept_cases hrun))
      rwa [append_assoc] at hrest

/-- **NTLM authentication is sound**, whatever tokens the authenticator is given. -/
theorem acceptAll_sound (P : Primitives) (serverName : GoString) (tokens : List (Bytes × Arr 8)) :
    Sound P serverName (acceptAll P (newServer serverName) tokens) := by
  have hstart : Progress P serverName [] (newServer serverName) := by
    refine ⟨⟨fun pre e post he => ?_, Nat.zero_le _, fun e he => ?_⟩, rfl, fun h => (by cases h), fun _ e he => ?_⟩
    · cases pre <;> cases he
    · cases he
    · cases he
  exact hstart.acceptAll tokens

/-- A NEGOTIATE and then an AUTHENTICATE message with sixteen zeros as its response, under an
`hmacMd5` that returns zeros: the second `Accept` returns the Identity of the empty names. -/
example :
    ((acceptAll ⟨⟨fun _ => none, fun _ => none, fun _ _ => []⟩, fun _ _ => some [], fun _ _ => zeros 16, fun _ b => b⟩
      (newServer [])
      [(ntlmSignature ++ put32 msgNegotiate ++ zeros 20, Arr.zero 8),
       (ntlmSignature ++ put32 msgAuthenticate ++ zeros 8 ++ put16 16 ++ put16 16 ++ put32 64 ++ zeros 60, Arr.zero 8)]).map
        fun e => (e.after.stage, (identityOf e.result).isSome)) = [(1, false), (2, true)] := by
  decide +kernel

end Ntlm
end SmbServer
