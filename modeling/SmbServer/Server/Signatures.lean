/-
# Signatures of responses

A response is signed when it is complete.  When the next one is begun its header is
linked and the buffer padded (`linkPrevious`), which changes the bytes that were
signed unless the `NextCommand` of the request was already right.  An interim
response is not signed at all, nor is the response to a LOGOFF, whose session is
gone by then.  `SignOk` leaves these cases out; what remains verifies in the bytes
that are written, each response over its own extent.
-/

import SmbServer.Server.Chain
import SmbServer.Server.Outbound

namespace SmbServer
namespace Server

open Wire List Option

variable {E : Env} {srv : Config E}
variable {signer : Signing.Signer} {i : ℕ} {r : Reply}

/-- Where a response of a reply stops: at the next one, or at the end. -/
def stopOf (out : Bytes) (rs : List Reply) (i : ℕ) : ℕ :=
  ((rs[i + 1]?).map Reply.start).getD out.length

/-- The bytes of the `i`-th response. -/
def extent (out : Bytes) (rs : List Reply) (i : ℕ) (r : Reply) : Bytes :=
  slice out r.start (stopOf out rs i - r.start)

/-- Every response of a session with a signer verifies. -/
def Signatures (cr : Crypto) (out : Bytes) (rs : List Reply) : Prop :=
  ∀ (i : ℕ) (r : Reply) (signer : Signing.Signer), rs[i]? = some r → r.signer = some signer →
    (signer.verify cr (extent out rs i r)).1 = some true

/-- If the step writes the reply of the connection, and in plaintext, then its responses
are signed. -/
def RepliesSigned (S S' : Sys E) (cid : ConnId) : Prop :=
  ∀ c lp cid' frame content, S.conns cid = some c → c.loop = some lp →
    S'.sh.trace = .wrote cid' frame none content :: S.sh.trace → Signatures E.crypto frame lp.replies

/-- A response of a session with a signer that is not left to `maybeSealResponse`. -/
def Reply.Signs (r : Reply) : Prop := r.signer.isSome ∧ ¬r.Secret

/-- The reply is going to be sealed. -/
def Conn.Seals (c : Conn E) (lp : Loop) : Prop :=
  ∃ r ∈ lp.replies.head?, r.start = 0 ∧ r.cmd ≠ cmdNegotiate ∧ r.cmd ≠ cmdSessionSetup ∧
    ∃ sess ∈ c.session? r.sid, sess.requireEncrypt = true

/-- What the signatures need of the next command: the response before it, if signed, is
not changed by it, and the command is neither a CHANGE_NOTIFY that stays pending nor a
LOGOFF, unless its response would not be signed anyway. -/
structure Command.Leaves (k : Command E) (c : Conn E) (lp : Loop) : Prop where
  behind : ∀ r ∈ lp.replies, r.Signs → lp.prevRespStart = some r.start →
    k.IsNotify ∧ k.Watches ∨ ¬k.IsNotify ∧ c.Linked r.start
  pending : k.IsNotify → k.Watches → c.signerFor k.hdr = none
  logoff : k.hdr.command = cmdLogoff → k.lp.chainFailed = false → c.signerFor k.hdr = none

/-- The next command leaves the signatures alone, and a reply with a response that was
not signed because it is to be sealed is sealed. -/
def SignOk (S : Sys E) : Label → Prop
  | .sub cid => ∀ c ∈ S.conns cid, ∀ lp ∈ c.loop, ∀ k ∈ nextCommand c lp, k.Leaves c lp
  | .reply cid => ∀ c ∈ S.conns cid, ∀ lp ∈ c.loop, ∀ r ∈ lp.replies, r.signer.isSome → r.Secret →
      c.Seals lp
  | _ => True

section Decidable

instance (r : Reply) : Decidable r.Signs :=
  inferInstanceAs (Decidable (r.signer.isSome ∧ ¬r.Secret))

instance (c : Conn E) (lp : Loop) : Decidable (c.Seals lp) :=
  inferInstanceAs (Decidable (∃ r ∈ lp.replies.head?, r.start = 0 ∧ r.cmd ≠ cmdNegotiate ∧
    r.cmd ≠ cmdSessionSetup ∧ ∃ sess ∈ c.session? r.sid, sess.requireEncrypt = true))

instance (k : Command E) (c : Conn E) (lp : Loop) : Decidable (k.Leaves c lp) :=
  decidable_of_iff ((∀ r ∈ lp.replies, r.Signs → lp.prevRespStart = some r.start →
      k.IsNotify ∧ k.Watches ∨ ¬k.IsNotify ∧ c.Linked r.start) ∧
    (k.IsNotify → k.Watches → c.signerFor k.hdr = none) ∧
    (k.hdr.command = cmdLogoff → k.lp.chainFailed = false → c.signerFor k.hdr = none))
    ⟨fun h => ⟨h.1, h.2.1, h.2.2⟩, fun h => ⟨h.1, h.2, h.3⟩⟩

instance (S : Sys E) : ∀ l, Decidable (SignOk S l)
  | .sub cid => inferInstanceAs (Decidable (∀ c ∈ S.conns cid, ∀ lp ∈ c.loop,
      ∀ k ∈ nextCommand c lp, k.Leaves c lp))
  | .reply cid => inferInstanceAs (Decidable (∀ c ∈ S.conns cid, ∀ lp ∈ c.loop,
      ∀ r ∈ lp.replies, r.signer.isSome → r.Secret → c.Seals lp))
  | .accept | .recv _ _ | .drain _ | .tick _ _ | .done _ _ | .close _ => isTrue trivial

end Decidable

/-! ### Who signs a response -/

/-- A response is signed with the signer of its session, unless it is to be sealed. -/
theorem Conn.signerFor_or_secret {c : Conn E} {hdr : Header}
    (h : (c.session? hdr.sessionId).bind Session.signer = some signer) :
    c.signerFor hdr = some signer ∨
      Addressee.Secret ⟨hdr.sessionId, hdr.command, c.requiresEncryption hdr.sessionId⟩ := by
  obtain ⟨sess, hs, hsig⟩ := bind_eq_some_iff.1 h
  cases he : sess.encrypting hdr.command with
  | false => exact .inl (by simp [Conn.signerFor, hs, he, hsig])
  | true =>
    simp only [Session.encrypting, Bool.and_eq_true, decide_eq_true_eq] at he
    exact .inr ⟨by simp [Conn.requiresEncryption, hs, he.1.1], he.1.2, he.2⟩

theorem Conn.SameSessions.signerFor {c c' : Conn E} (h : c.SameSessions c') {hdr hdr' : Header}
    (hsid : hdr'.sessionId = hdr.sessionId) (hcmd : hdr'.command = hdr.command)
    (hs : c.signerFor hdr = some signer) :
    c'.signerFor hdr' = some signer := by
  obtain ⟨sess, hsess, hsig⟩ := bind_eq_some_iff.1 hs
  obtain ⟨sess', hsess', hsame⟩ := h.kept _ _ hsess
  rw [Conn.signerFor, hsid, hcmd, hsess', ← hsig, bind_some, Session.encrypting,
    hsame.requireEncrypt, hsame.signer]
  rfl

section

variable {k : Command E} {s s' : St E}

theorem Change.sameSessions (h : Change srv (some k) s s') (hss : k.hdr.command ≠ cmdSessionSetup)
    (hlo : k.hdr.command = cmdLogoff → k.lp.chainFailed = true) : s.c.SameSessions s'.c := by
  cases h with
  | aside ha => exact ha.sameSessions
  | exec cmd hk hf hs => exact .ofSessions rfl
  | effect cmd hk hf he =>
    cases hk
    exact he.sameSessions hss fun hc => absurd (hlo hc) (by simp [hf])

/-- A command other than SESSION_SETUP and LOGOFF leaves the sessions as they are. -/
theorem Change.sameSessions_run (h : Relation.ReflTransGen (Change srv (some k)) s s')
    (hss : k.hdr.command ≠ cmdSessionSetup)
    (hlo : k.hdr.command = cmdLogoff → k.lp.chainFailed = true) : s.c.SameSessions s'.c := by
  induction h with
  | refl => exact .ofSessions rfl
  | tail _ hst ih => exact ih.trans (hst.sameSessions hss hlo)

theorem Change.session_of (h : Change srv (some k) s s') (hss : k.hdr.command ≠ cmdSessionSetup)
    {sid : UInt64} {sess' : Session E} (hs : s'.c.session? sid = some sess') :
    ∃ sess, s.c.session? sid = some sess ∧ sess.Same sess' := by
  cases h with
  | aside ha => exact ha.session_of hs
  | exec cmd hk hf _ => exact ⟨sess', hs, .refl sess'⟩
  | effect cmd hk hf he =>
    cases hk
    exact (he.session_cases hs).resolve_right fun h => hss h.1

/-- A command other than SESSION_SETUP makes no session. -/
theorem Change.session_of_run (h : Relation.ReflTransGen (Change srv (some k)) s s')
    (hss : k.hdr.command ≠ cmdSessionSetup) {sid : UInt64} {sess' : Session E}
    (hs : s'.c.session? sid = some sess') :
    ∃ sess, s.c.session? sid = some sess ∧ sess.Same sess' := by
  induction h generalizing sess' with
  | refl => exact ⟨sess', hs, .refl sess'⟩
  | tail _ hst ih =>
    obtain ⟨sess1, h1, hsame1⟩ := hst.session_of hss hs
    obtain ⟨sess, h0, hsame0⟩ := ih h1
    exact ⟨sess, h0, hsame0.trans hsame1⟩

/-- **The signer of the session is the one the response is signed with.** -/
theorem Answered.signer_eq {lp lp' : Loop} {junk : Bytes} {a : Answer} {start : ℕ}
    (ha : Answered k s lp junk a lp' s') (hmoves : Relation.ReflTransGen (Change srv (some k)) s s')
    (hlo : k.hdr.command = cmdLogoff → k.lp.chainFailed = false → s.c.signerFor k.hdr = none)

    (hr : (replyOf s.c s'.c k.origin k.hdr a.hdr start).signer = some signer)
    (hsec : ¬(replyOf s.c s'.c k.origin k.hdr a.hdr start).Secret) : a.signer = some signer := by
  have hcmd := ha.hdr.command
  rw [ha.signer]
  by_cases hss : k.hdr.command = cmdSessionSetup
  · cases hafter : (s'.c.session? a.hdr.sessionId).bind Session.signer with
    | some signer' =>
      have heq : signer' = signer := by
        simp only [replyOf, hafter] at hr
        exact some.inj hr
      rw [← heq]
      exact (Conn.signerFor_or_secret hafter).resolve_right fun h => h.2.2 (hcmd.trans hss)
    | none =>
      -- The session was there with a signer, so it still has one.
      simp only [replyOf, hafter] at hr
      obtain ⟨sess, hsess, hsig⟩ := bind_eq_some_iff.1 hr
      obtain ⟨hsid, sess', hsess', hsome⟩ := ha.setup hss sess hsess
      rw [hsid, hsess'] at hafter
      simp [show sess'.signer = none from hafter, hsig] at hsome
  · have hsid := ha.hdr.sessionId hss
    have hbefore : (s.c.session? k.hdr.sessionId).bind Session.signer = some signer := by
      cases hafter : (s'.c.session? a.hdr.sessionId).bind Session.signer with
      | none =>
        simp only [replyOf, hafter] at hr
        exact hr
      | some signer' =>
        simp only [replyOf, hafter] at hr
        cases hr
        obtain ⟨sess', hsess', hsig⟩ := bind_eq_some_iff.1 hafter
        obtain ⟨sess, hsess, hsame⟩ := Change.session_of_run hmoves hss hsess'
        rw [← hsid, hsess, ← hsig]
        exact hsame.signer.symm
    have hsigner : s.c.signerFor k.hdr = some signer :=
      (Conn.signerFor_or_secret hbefore).resolve_right hsec
    refine (Change.sameSessions_run hmoves hss fun h => ?_).signerFor hsid hcmd hsigner
    by_contra hf
    exact absurd (hsigner.symm.trans (hlo h (by simpa using hf))) (by simp)

end

/-! ### The responses so far -/

/-- Linking a response that is linked changes nothing. -/
theorem linkPrevious_linked {c : Conn E} {p : ℕ} (h : c.Linked p) (hp : p + 24 ≤ c.out.length) :
    linkPrevious (some p) c.out = c.out := by
  have hpad : pad8 c.out.length = 0 := by
    have := h.1
    unfold pad8
    omega
  have hnext : UInt32.ofNat (c.out.length - p) = u32At c.out (p + 20) := by
    rw [← h.2, UInt32.ofNat_toNat]
  simp only [linkPrevious, hpad, zeros, replicate_zero, append_nil, hnext]
  rw [put32_u32At (by omega), copyAt_slice (by omega)]

/-- The responses of a frame that have to be signed are. -/
structure Verified (c : Conn E) (lp : Loop) : Prop where
  starts : ∀ r ∈ lp.replies, r.start + 64 ≤ c.out.length
  spaced : lp.replies.Pairwise fun r r' => r.start + 64 ≤ r'.start
  prev : ∀ p ∈ lp.prevRespStart, ∃ r ∈ lp.replies, r.start = p
  last : ∀ r ∈ lp.replies.getLast?, r.Signs → lp.prevRespStart = some r.start
  signed : ∀ (i : ℕ) (r : Reply) (signer : Signing.Signer), lp.replies[i]? = some r →
    r.signer = some signer → ¬r.Secret →
    (signer.verify E.crypto (extent c.out lp.replies i r)).1 = some true

namespace Verified

variable {c : Conn E} {lp : Loop} (h : Verified c lp)

include h

theorem stop_le {j : ℕ} (hr : lp.replies[j]? = some r) (hij : i < j) :
    stopOf c.out lp.replies i ≤ r.start := by
  obtain ⟨hj, hr⟩ := List.getElem?_eq_some_iff.1 hr
  have hi : i + 1 < lp.replies.length := by omega
  rw [stopOf, getElem?_eq_getElem hi, map_some, getD_some]
  rcases Nat.lt_or_ge (i + 1) j with hlt | hge
  · have := pairwise_iff_getElem.1 h.spaced (i + 1) j hi hj hlt
    rw [hr] at this
    omega
  · obtain rfl : i + 1 = j := by omega
    rw [hr]

theorem stop_bounds (hr : lp.replies[i]? = some r) :
    r.start ≤ stopOf c.out lp.replies i ∧ stopOf c.out lp.replies i ≤ c.out.length := by
  have hstart := h.starts r (mem_of_getElem? hr)
  unfold stopOf
  cases hn : lp.replies[i + 1]? with
  | none => simp only [map_none, getD_none]; omega
  | some r' =>
    have hstart' := h.starts r' (mem_of_getElem? hn)
    obtain ⟨hi, rfl⟩ := List.getElem?_eq_some_iff.1 hr
    obtain ⟨hi', rfl⟩ := List.getElem?_eq_some_iff.1 hn
    have := pairwise_iff_getElem.1 h.spaced i (i + 1) hi hi' (Nat.lt_succ_self i)
    simp only [map_some, getD_some]
    omega

/-- A further response `e` behind `base`, which has the signed responses as they are. -/
theorem push {base e : Bytes} (hr : r.start = base.length)
    (hlen : c.out.length ≤ base.length)
    (hold : ∀ (i : ℕ) (ri : Reply) (n : ℕ), lp.replies[i]? = some ri → ri.Signs →
      ri.start + n ≤ stopOf c.out lp.replies i → slice base ri.start n = slice c.out ri.start n)
    (hlast : ∀ ri ∈ lp.replies.getLast?, ri.Signs → base.length = c.out.length)
    (hnew : ∀ signer, r.signer = some signer → ¬r.Secret →
      (signer.verify E.crypto e).1 = some true) :
    ∀ (i : ℕ) (ri : Reply) (signer : Signing.Signer), (lp.replies ++ [r])[i]? = some ri →
      ri.signer = some signer → ¬ri.Secret →
      (signer.verify E.crypto (extent (base ++ e) (lp.replies ++ [r]) i ri)).1 = some true := by
  intro i ri signer hi hsig hsec
  rcases Nat.lt_or_ge i lp.replies.length with hlt | hge
  · rw [getElem?_append_left hlt] at hi
    have hsigns : ri.Signs := ⟨by rw [hsig]; rfl, hsec⟩
    obtain ⟨hle, hle'⟩ := h.stop_bounds hi
    have hstop : stopOf (base ++ e) (lp.replies ++ [r]) i = stopOf c.out lp.replies i := by
      unfold stopOf
      rcases Nat.lt_or_ge (i + 1) lp.replies.length with hlt' | hge'
      · rw [getElem?_append_left hlt', getElem?_eq_getElem hlt']
        rfl
      · -- The response was the last so far: it stopped at the end and stops at the new one.
        obtain hi' : i + 1 = lp.replies.length := by omega
        have hl : lp.replies.getLast? = some ri := by
          rw [getLast?_eq_getElem?, ← hi', Nat.add_sub_cancel, hi]
        rw [hi', getElem?_concat_length, getElem?_eq_none le_rfl]
        exact hr.trans (hlast ri hl hsigns)
    have hext : extent (base ++ e) (lp.replies ++ [r]) i ri = extent c.out lp.replies i ri := by
      rw [extent, hstop, extent, slice_append_left _ (by omega)]
      exact hold i ri _ hi hsigns (by omega)
    rw [hext]
    exact h.signed i ri signer hi hsig hsec
  · obtain rfl : i = lp.replies.length := by
      have := (List.getElem?_eq_some_iff.1 hi).1
      rw [length_append, length_singleton] at this
      omega
    rw [getElem?_concat_length] at hi
    cases hi
    have hext : extent (base ++ e) (lp.replies ++ [r]) lp.replies.length r = e := by
      have hnone : (lp.replies ++ [r])[lp.replies.length + 1]? = none :=
        getElem?_eq_none (by simp)
      rw [extent, stopOf, hnone, hr, map_none, getD_none, length_append,
        Nat.add_sub_cancel_left, slice_append_right _ _ le_rfl, Nat.sub_self, slice, drop_zero,
        take_length]
    rw [hext]
    exact hnew signer hsig hsec

/-- Unless the response before it is one that has to be signed, linking it leaves those
that have to be alone. -/
theorem slice_link (hprev : ∀ r ∈ lp.replies, lp.prevRespStart = some r.start → ¬r.Signs)
    (junk : Bytes) {n : ℕ} (hr : lp.replies[i]? = some r) (hs : r.Signs)
    (hn : r.start + n ≤ stopOf c.out lp.replies i) :
    slice (linkPrevious lp.prevRespStart (c.out ++ junk)) r.start n = slice c.out r.start n := by
  have hle := (h.stop_bounds hr).2
  rw [← slice_append_left junk (show r.start + n ≤ c.out.length by omega)]
  refine slice_linkPrevious (fun p hp => ?_) (by rw [length_append]; omega)
  obtain ⟨rp, hrp, rfl⟩ := h.prev p hp
  obtain ⟨j, hj⟩ := getElem?_of_mem hrp
  rcases Nat.lt_trichotomy i j with hij | rfl | hji
  · have := h.stop_le hj hij
    omega
  · cases hr.symm.trans hj
    exact absurd hs (hprev r hrp hp)
  · obtain ⟨hi, rfl⟩ := List.getElem?_eq_some_iff.1 hr
    obtain ⟨hj', rfl⟩ := List.getElem?_eq_some_iff.1 hj
    have := pairwise_iff_getElem.1 h.spaced j i hj' hi hji
    omega

end Verified

/-- What a further response at `start` does to the places of the responses. -/
theorem Verified.place {c c' : Conn E} {lp : Loop} (h : Verified c lp) {base e : Bytes}
    (hr : r.start = base.length) (hout : c'.out = base ++ e) (hlen : c.out.length ≤ base.length)
    (he : 64 ≤ e.length) :
    (∀ r' ∈ lp.replies ++ [r], r'.start + 64 ≤ c'.out.length) ∧
      (lp.replies ++ [r]).Pairwise fun r r' => r.start + 64 ≤ r'.start := by
  have hout' : c'.out.length = base.length + e.length := by rw [hout, length_append]
  refine ⟨fun r' hr' => ?_, pairwise_append.2 ⟨h.spaced, pairwise_singleton .., ?_⟩⟩
  · rcases mem_append.1 hr' with hm | hm
    · have := h.starts r' hm
      omega
    · obtain rfl := mem_singleton.1 hm
      omega
  · intro r1 h1 r2 h2
    obtain rfl := mem_singleton.1 h2
    have := h.starts r1 h1
    omega

theorem verified_rule : FrameRule srv SignOk Verified where
  congr ho _ h := by
    obtain ⟨h1, h2, h3, h4, h5⟩ := h
    rw [← ho] at h1 h5
    exact ⟨h1, h2, h3, h4, h5⟩
  start _ _ _ _ := ⟨fun r hr => (nomatch hr), .nil, fun p hp => (nomatch hp), fun r hr => (nomatch hr),
    nofun⟩
  pass {S cid c lp lp' s'} _ hc hlp hfin hC h hmoves hp _ := by
    cases hp with
    | stop hnone => exact ⟨h.starts, h.spaced, h.prev, h.last, h.signed⟩
    | pending k id hk hn hw hout hs ha =>
      have hno := (hC c hc lp hlp k hk).pending hn hw
      have hunsigned : ∀ signer, (replyOf c c k.origin k.hdr k.hdr c.out.length).signer = some signer →
          (replyOf c c k.origin k.hdr k.hdr c.out.length).Secret := by
        intro signer hsig
        have hbind : (c.session? k.hdr.sessionId).bind Session.signer = some signer := by
          change ((c.session? k.hdr.sessionId).bind Session.signer <|>
            (c.session? k.hdr.sessionId).bind Session.signer) = some signer at hsig
          cases hb : (c.session? k.hdr.sessionId).bind Session.signer with
          | none => rw [hb] at hsig; cases hsig
          | some signer' => rw [hb] at hsig; exact hsig
        refine (Conn.signerFor_or_secret hbind).resolve_left fun h => ?_
        rw [hno] at h
        cases h
      have hlen := (message_interim k.hdr id).length
      obtain ⟨hstarts, hspaced⟩ := h.place (r := replyOf c c k.origin k.hdr k.hdr c.out.length) rfl hout le_rfl hlen
      refine ⟨?_, ?_, fun p hp => ?_, fun r hr hsigns => ?_, ?_⟩
      · rw [ha.replies]
        exact hstarts
      · rw [ha.replies]
        exact hspaced
      · rw [ha.prev] at hp
        obtain ⟨r, hr, hrp⟩ := h.prev p hp
        exact ⟨r, by rw [ha.replies]; exact mem_append_left _ hr, hrp⟩
      · rw [ha.replies, getLast?_concat] at hr
        cases hr
        obtain ⟨signer, hsig⟩ := isSome_iff_exists.1 hsigns.1
        exact absurd (hunsigned signer hsig) hsigns.2
      · rw [ha.replies, hout]
        exact h.push rfl le_rfl (fun _ _ _ _ _ _ => rfl) (fun _ _ _ => rfl)
          fun signer hsig hsec => absurd (hunsigned signer hsig) hsec
    | answer k junk a hk hj ha =>
      have hleaves := hC c hc lp hlp k hk
      -- Either nothing is linked, or no response that has to be signed is.
      have hlink : linkPrevious lp.prevRespStart (c.out ++ junk) = c.out ∨
          ∀ r ∈ lp.replies, lp.prevRespStart = some r.start → ¬r.Signs := by
        by_cases hex : ∃ r ∈ lp.replies, lp.prevRespStart = some r.start ∧ r.Signs
        · obtain ⟨r, hr, hprev, hsigns⟩ := hex
          rcases hj with ⟨rfl, hn⟩ | ⟨-, hn, hw⟩
          · have hlinked := (hleaves.behind r hr hsigns hprev).resolve_left fun h => hn h.1
            have := h.starts r hr
            rw [append_nil, hprev, linkPrevious_linked hlinked.2 (by omega)]
            exact .inl rfl
          · rcases hleaves.behind r hr hsigns hprev with h' | h'
            · exact absurd h'.2 hw
            · exact absurd hn h'.1
        · exact .inr fun r hr hprev hsigns => hex ⟨r, hr, hprev, hsigns⟩
      have hlen : c.out.length ≤ (linkPrevious lp.prevRespStart (c.out ++ junk)).length := by
        have := length_linkPrevious lp.prevRespStart (c.out ++ junk)
        rw [length_append] at this
        omega
      have hmoves' : Relation.ReflTransGen (Change srv (some k)) ⟨S.sh, c⟩ s' := hk ▸ hmoves
      obtain ⟨hstarts, hspaced⟩ := h.place (r := replyOf c s'.c k.origin k.hdr a.hdr
        (linkPrevious lp.prevRespStart (c.out ++ junk)).length) rfl ha.out hlen
        (by rw [a.length_element]; omega)
      refine ⟨?_, ?_, fun p hp => ?_, fun r hr _ => ?_, ?_⟩
      · rw [ha.after.replies]
        exact hstarts
      · rw [ha.after.replies]
        exact hspaced
      · rw [ha.after.prev] at hp
        cases hp
        exact ⟨_, by rw [ha.after.replies]; exact mem_append_right _ (mem_singleton_self _),
          rfl⟩
      · rw [ha.after.replies, getLast?_concat] at hr
        cases hr
        exact ha.after.prev
      · rw [ha.after.replies, ha.out]
        refine h.push rfl hlen (fun i ri n hi hs hn => ?_) (fun ri hri hs => ?_)
          fun signer hsig hsec => ?_
        · rcases hlink with heq | hprev
          · rw [heq]
          · exact h.slice_link hprev junk hi hs hn
        · rcases hlink with heq | hprev
          · rw [heq]
          · exact absurd hs (hprev ri (mem_of_getLast? hri) (h.last ri hri hs))
        · rw [a.verify_element E.crypto (ha.signer_eq hmoves' hleaves.logoff hsig hsec)]

/-! ### What is written -/

/-- A reply that `Seals` is not written in plaintext. -/
theorem maybeSealResponse_of_seals {s s1 : St E} {lp : Loop}
    {r : Option (Bytes × UInt64 × Bytes × Bytes)} (hh : Headed s.c lp)
    (hk : ∀ sid sess, s.c.session? sid = some sess → sess.Keyed) (h : s.c.Seals lp)
    (hr : maybeSealResponse s.c.out s = .ok r s1) : r.isSome := by
  obtain ⟨r0, hr0, hstart, hn, hss, sess, hsess, hreq⟩ := h
  have hhead := hh.head r0 hr0 hstart
  obtain ⟨key, ccm, hkey, hcipher, -⟩ := (hk _ sess hsess).cipher hreq
  rw [← hhead.session hss] at hsess
  rw [← hhead.command] at hn hss
  obtain ⟨nonce, s2, hseal⟩ :=
    maybeSealResponse_cipher hhead.length hn hss hsess hreq hkey hcipher
  rw [hseal, Outcome.ok.injEq] at hr
  rw [← hr.1]
  rfl

/-- **Responses are signed.**  In every run of the server in which each step meets
`SignOk`, a reply that is written in plaintext has a signature that `Verify` accepts on
every response of a session with a signer, each over its own extent. -/
theorem reply_signed (srv : Config E) (w : E.World) (S S' : Sys E) (cid : ConnId)
    (hS : (system srv w).Reach SignOk S) (hC : SignOk S (.reply cid))
    (hstep : S.step srv (.reply cid) = some S') : RepliesSigned S S' cid := by
  intro c lp cid' frame content hc hlp ht
  have h : Verified c lp := verified_rule.reach hS cid c lp hc hlp
  cases Sys.step_fired hstep with
  | @reply _ c₀ lp₀ hc₀ hlp₀ hfin =>
    obtain rfl := Option.some.inj (hc.symm.trans hc₀)
    obtain rfl := Option.some.inj (hlp.symm.trans hlp₀)
    rw [Sys.exec_sh] at ht
    rcases sendReply_trace lp ⟨S.sh, c⟩ with hsame | ⟨r, s₁, _, hr, hwrote⟩
    · rw [hsame] at ht
      exact absurd (congrArg List.length ht) (by simp)
    · rw [hwrote] at ht
      simp only [List.cons.injEq, Event.wrote.injEq, Option.map_eq_none_iff, and_true] at ht
      obtain ⟨-, rfl, rfl, -⟩ := ht
      intro i ri signer hi hsig
      refine h.signed i ri signer hi hsig fun hsec => ?_
      have hseals := hC c hc lp hlp ri (List.mem_of_getElem? hi) (by rw [hsig]; rfl) hsec
      have := maybeSealResponse_of_seals (headed_rule.reach hS cid c lp hc hlp)
        (fun sid sess hs => reach_keyed hS cid c sid sess hc hs) hseals hr
      cases this

/-! ### Two runs -/

/-- The reply of a connection is next written in plaintext, with bytes and responses that
pass a test. -/
def Sys.writesPlain (srv : Config E) (S : Sys E) (cid : ConnId) (p : Bytes → List Reply → Bool) :
    Bool :=
  (S.conns cid).any fun c => c.loop.any fun lp => (S.step srv (.reply cid)).any fun S' =>
    match S'.sh.trace with
    | .wrote _ frame none _ :: t => decide (t.length = S.sh.trace.length) && p frame lp.replies
    | _ => false

theorem Sys.writesPlain_spec {S : Sys E} {cid : ConnId} {p : Bytes → List Reply → Bool}
    (h : S.writesPlain srv cid p = true) : ∃ c lp S' cid' frame content, S.conns cid = some c ∧
      c.loop = some lp ∧ S.step srv (.reply cid) = some S' ∧
      S'.sh.trace = .wrote cid' frame none content :: S.sh.trace ∧ p frame lp.replies = true := by
  simp only [Sys.writesPlain, Option.any_eq_true] at h
  obtain ⟨c, hc, lp, hlp, S', hstep, h⟩ := h
  have ht : S'.sh.trace = S.sh.trace ∨ ∃ e, S'.sh.trace = e :: S.sh.trace := by
    cases Sys.step_fired hstep with
    | @reply _ c0 lp0 hc0 hlp0 hfin =>
      rw [Sys.exec_sh]
      exact (sendReply_trace lp0 ⟨S.sh, c0⟩).imp id fun ⟨_, _, _, _, h⟩ => ⟨_, h⟩
  split at h
  case h_1 cid' frame content t heq =>
      simp only [Bool.and_eq_true, decide_eq_true_eq] at h
      refine ⟨c, lp, S', cid', frame, content, hc, hlp, hstep, ?_, h.2⟩
      rcases ht with ht | ⟨e, ht⟩
      · rw [heq] at ht
        have := congrArg List.length ht
        simp [h.1] at this
      · rw [heq, List.cons.injEq] at ht
        rw [heq, ht.2]
  case h_2 => cases h

/-- Two ECHOs on session 1 in one frame. -/
def echoEchoFrame : Bytes :=
  Header.encode { command := cmdEcho, sessionId := 1, nextCommand := 64 } ++
    Header.encode { command := cmdEcho, sessionId := 1 }

/-- **A signature is spoilt by the next response.**  The first response to `echoEchoFrame`
is signed, then padded and linked to the second. -/
theorem linked_response_does_not_verify :
    ¬ ∀ (E : Env) (srv : Config E) (w : E.World) (S S' : Sys E) (cid : ConnId),
      (system srv w).Reach (fun _ _ => True) S → S.step srv (.reply cid) = some S' →
      RepliesSigned S S' cid := by
  intro h
  obtain ⟨S, hS, hbad⟩ := Transition.Reach.of_run (T := guestSystem false) (C := fun _ _ => True)
    (f := fun S => S.writesPlain (guestServer false) 0 fun out rs => (rs[0]?).any fun r =>
      r.signer.any fun signer => (signer.verify guestEnv.crypto (extent out rs 0 r)).1 ≠ some true)
    ([.accept] ++ exchange 0 setupFrame ++ [.recv 0 echoEchoFrame, .sub 0, .sub 0])
    (by decide +kernel) (by decide +kernel)
  obtain ⟨c, lp, S', cid', frame, content, hc, hlp, hstep, ht, hp⟩ := Sys.writesPlain_spec hbad
  have hsigned := h guestEnv (guestServer false) (0 : ℕ) S S' 0 hS hstep c lp cid' frame content hc hlp ht
  simp only [Option.any_eq_true, decide_eq_true_eq] at hp
  obtain ⟨r, hr, signer, hsig, hne⟩ := hp
  exact hne (hsigned 0 r signer hr hsig)

/-- An ECHO on session 1. -/
def echoFrame : Bytes := Header.encode { command := cmdEcho, sessionId := 1 }

/-- The hypotheses of `reply_signed` are met by a run that writes the signed response to
an ECHO. -/
theorem reply_signed_echo : ∃ S S', (guestSystem false).Reach SignOk S ∧ SignOk S (.reply 0) ∧
    S.step (guestServer false) (.reply 0) = some S' ∧
    S.writesPlain (guestServer false) 0 (fun _ rs => rs.any fun r => r.signer.isSome) = true ∧
    RepliesSigned S S' 0 := by
  obtain ⟨S, hS, hp⟩ := Transition.Reach.of_run (T := guestSystem false) (C := SignOk)
    (f := fun S => decide (SignOk S (.reply 0)) &&
      S.writesPlain (guestServer false) 0 fun _ rs => rs.any fun r => r.signer.isSome)
    ([.accept] ++ exchange 0 setupFrame ++ [.recv 0 echoFrame, .sub 0])
    (by decide +kernel) (by decide +kernel)
  obtain ⟨hC, hp⟩ := Bool.and_eq_true_iff.1 hp
  obtain ⟨c, lp, S', cid', frame, content, hc, hlp, hstep, ht, -⟩ := Sys.writesPlain_spec hp
  exact ⟨S, S', hS, of_decide_eq_true hC, hstep, hp,
    reply_signed (guestServer false) (0 : ℕ) S S' 0 hS (of_decide_eq_true hC) hstep⟩

end Server
end SmbServer
