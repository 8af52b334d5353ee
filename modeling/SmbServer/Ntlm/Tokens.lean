/-
# Tokens that make the server panic

`Accept` runs before a client is authenticated, on a token that the client chooses.  Its
parsers of NTLM messages check every bound (`parseNegotiateMessage_safe`,
`parseAuthenticateMessage_safe`).  `parseContextTag` checks the end of a value against the
buffer, but after the length has been folded into a signed 64-bit `int`: eight length
bytes make it negative, or so large that the end of the value wraps, and then the check
passes and the slice is out of range (`parseContextTag_eq`).

The server reads a length wherever one of its scans comes to a byte `A2`.  `TokenOk` says
of the bytes of a token that no such length overflows, and `acceptAll_safe_iff` that these
are the tokens that no authenticator panics on.
-/

import SmbServer.Ntlm.Handshake

namespace SmbServer
open List Option
namespace Ntlm

variable {b raw : Bytes} {k : Bytes → Res Error (Option Bytes)} {bad : Bytes → Bool}
  {found : Bytes → Option Bytes}

/-! ### Lengths -/

/-- The number whose bytes are given, most significant first. -/
def beNat (b : Bytes) : ℕ := b.foldl (fun n x => n * 256 + x.toNat) 0

/-- The length field of a tag: where the value starts, and the low 64 bits of its length. -/
def lengthField (b : Bytes) : Option (ℕ × ℕ) :=
  if b.length < 2 then none
  else if (u8At b 1).toNat < 128 then some (2, (u8At b 1).toNat)
  else if b.length < 2 + ((u8At b 1).toNat - 128) then none
  else some (2 + ((u8At b 1).toNat - 128), beNat (slice b 2 ((u8At b 1).toNat - 128)) % 2 ^ 64)

/-- The end of the value does not fit a 64-bit `int`. -/
def overflows (b : Bytes) : Bool :=
  match lengthField b with
  | some (start, length) => decide (2 ^ 63 ≤ start + length)
  | none => false

/-- The value of a tag, if it is all there. -/
def value? (b : Bytes) : Option Bytes :=
  match lengthField b with
  | some (start, length) => if start + length ≤ b.length then some (slice b start length) else none
  | none => none

theorem toInt_toInt_mul_add (x a b : ℤ) : toInt (toInt x * a + b) = toInt (x * a + b) := by
  unfold toInt
  rw [← Int.bmod_add_bmod, Int.bmod_mul_bmod, Int.bmod_add_bmod]

theorem toInt_add_toInt (x y : ℤ) : toInt (x + toInt y) = toInt (x + y) := Int.add_bmod_bmod

/-- An `int` that is not too large, and the one that comes of one that is. -/
theorem toInt_eq {n : ℕ} (h : n < 2 ^ 64 + 2 ^ 63) :
    toInt n = if 2 ^ 63 ≤ n then (n : ℤ) - 2 ^ 64 else (n : ℤ) := by
  unfold toInt Int.bmod
  dsimp only
  push_cast
  split_ifs <;> omega

/-- Folding in the bytes of a length one by one keeps the low 64 bits of it. -/
theorem foldl_shiftIn (b : Bytes) (n : ℕ) : b.foldl shiftIn (toInt n) =
    toInt (b.foldl (fun n x => n * 256 + x.toNat) n : ℕ) := by
  induction b generalizing n with
  | nil => rw [foldl_nil, foldl_nil]
  | cons x b ih =>
    rw [foldl_cons, foldl_cons, ← ih, shiftIn, toInt_toInt_mul_add]
    push_cast
    rfl

/-- **Where the value of a tag ends.** -/
theorem tagValue_eq {start length : ℕ} (hs : start ≤ b.length) (hs' : start < 2 ^ 63) (hl : length < 2 ^ 64) :
    tagValue b start (toInt length) = if 2 ^ 63 ≤ start + length then .panic
      else if start + length ≤ b.length then .ok (slice b start length)
      else .err .truncatedValue := by
  have hstop : toInt (start + toInt length) =
      if 2 ^ 63 ≤ start + length then ((start + length : ℕ) : ℤ) - 2 ^ 64 else ((start + length : ℕ) : ℤ) := by
    rw [toInt_add_toInt, ← toInt_eq (by omega)]
    push_cast
    rfl
  unfold tagValue
  dsimp only
  rw [hstop]
  by_cases hover : 2 ^ 63 ≤ start + length
  · rw [if_pos hover, if_pos hover, if_neg (by omega), if_neg (by omega)]
  · rw [if_neg hover, if_neg hover]
    by_cases hfit : start + length ≤ b.length
    · have hlen : (((start + length : ℕ) : ℤ) - start).toNat = length := by omega
      rw [if_neg (by omega), if_pos (by omega), if_pos hfit, hlen]
    · rw [if_pos (by omega), if_neg hfit]

theorem lengthByte (x : UInt8) : (x.toNat &&& 0x80 ≠ 0 ↔ 128 ≤ x.toNat) ∧ (128 ≤ x.toNat → x.toNat &&& 0x7F = x.toNat - 128) := by
  have hbyte : ∀ n : Fin 256, (n.val &&& 0x80 ≠ 0 ↔ 128 ≤ n.val) ∧ (128 ≤ n.val → n.val &&& 0x7F = n.val - 128) := by
    decide +kernel
  exact hbyte ⟨x.toNat, x.toNat_lt⟩

theorem beNat_mod_lt (b : Bytes) : beNat b % 2 ^ 64 < 2 ^ 64 := Nat.mod_lt _ (by decide)

theorem toInt_mod (n : ℕ) : toInt (n % 2 ^ 64 : ℕ) = toInt n := by
  rw [toInt, Int.natCast_emod]
  exact Int.emod_bmod n (2 ^ 64)

/-- The length that `parseContextTag` reads is the one of the field. -/
theorem parseContextTag_of_field {start length : ℕ} (h : lengthField b = some (start, length)) :
    parseContextTag b = tagValue b start (toInt length) ∧ start ≤ b.length ∧ start < 2 ^ 63 ∧ length < 2 ^ 64 := by
  have hx := (u8At b 1).toNat_lt
  obtain ⟨hlong, hcount⟩ := lengthByte (u8At b 1)
  unfold lengthField at h
  split_ifs at h with h1 h2 h3
  · obtain ⟨rfl, rfl⟩ := Prod.mk.inj (some.inj h)
    refine ⟨?_, by omega, by omega, by omega⟩
    have hint : toInt ((u8At b 1).toNat : ℕ) = (u8At b 1).toNat := by
      rw [toInt_eq (by omega), if_neg (by omega)]
    rw [parseContextTag, if_neg h1]
    dsimp only
    rw [if_neg fun h => absurd (hlong.1 h) (by omega), hint]
  · obtain ⟨rfl, rfl⟩ := Prod.mk.inj (some.inj h)
    refine ⟨?_, by omega, by omega, beNat_mod_lt _⟩
    have hfold := foldl_shiftIn (slice b 2 ((u8At b 1).toNat - 128)) 0
    rw [parseContextTag, if_neg h1]
    dsimp only
    rw [if_pos (hlong.2 (by omega)), hcount (by omega), if_neg h3, toInt_mod]
    exact congrArg (tagValue b _) hfold

theorem parseContextTag_of_none (h : lengthField b = none) : ∃ e, parseContextTag b = .err e := by
  obtain ⟨hlong, hcount⟩ := lengthByte (u8At b 1)
  unfold lengthField at h
  split_ifs at h with h1 h2 h3
  · exact ⟨.shortTag, if_pos h1⟩
  · refine ⟨.truncatedLength, ?_⟩
    rw [parseContextTag, if_neg h1]
    dsimp only
    rw [if_pos (hlong.2 (by omega)), hcount (by omega), if_pos h3]

/-- **What `parseContextTag` does with any bytes.**  It panics where the end of the value does not
fit an `int`, and otherwise returns the value or an error. -/
theorem parseContextTag_eq (b : Bytes) :
    ∃ e, parseContextTag b = if overflows b then .panic else (value? b).elim (.err e) .ok := by
  unfold overflows value?
  cases hfield : lengthField b with
  | none =>
    obtain ⟨e, he⟩ := parseContextTag_of_none hfield
    exact ⟨e, he⟩
  | some p =>
    obtain ⟨start, length⟩ := p
    obtain ⟨hparse, h1, h2, h3⟩ := parseContextTag_of_field hfield
    refine ⟨.truncatedValue, ?_⟩
    rw [hparse, tagValue_eq h1 h2 h3]
    dsimp only
    by_cases hover : 2 ^ 63 ≤ start + length
    · rw [if_pos hover, if_pos (decide_eq_true hover)]
    · simp only [if_neg hover, decide_eq_false hover, Bool.false_eq_true, if_false]
      split_ifs <;> rfl

/-! ### Scans -/

/-- The position begins with a tag whose length overflows. -/
def overflowsAt (b : Bytes) : Bool := decide (b.head? = some 0xA2) && overflows b

/-- The value of the tag that the position begins with. -/
def valueAt (b : Bytes) : Option Bytes := if b.head? = some 0xA2 then value? b else none

/-- The value of a tag is an OCTET STRING whose length overflows. -/
def stringOverflows (inner : Bytes) : Bool :=
  decide (2 ≤ inner.length) && decide (u8At inner 0 = 0x04) && overflows inner

/-- The message that the value of a tag, or an OCTET STRING in it, is. -/
def message? (inner : Bytes) : Option Bytes :=
  let whole := if isNTLMSSP inner then some inner else none
  if inner.length < 2 then none
  else if u8At inner 0 = 0x04 then (value? inner).filter isNTLMSSP <|> whole
  else whole

/-- What a scan does with a value, where it panics at `bad` ones and finds `found`. -/
def Makes (k : Bytes → Res Error (Option Bytes)) (bad : Bytes → Bool) (found : Bytes → Option Bytes) : Prop :=
  ∀ b, k b = if bad b then .panic else .ok (found b)

theorem octetString_makes : Makes octetString stringOverflows message? := by
  intro inner
  unfold octetString stringOverflows message?
  by_cases hlen : inner.length < 2
  · simp only [if_pos hlen, show ¬2 ≤ inner.length from not_le.2 hlen, decide_false, Bool.false_and,
      Bool.false_eq_true, if_false]
  · simp only [if_neg hlen, not_lt.1 hlen, decide_true, Bool.true_and]
    by_cases h4 : u8At inner 0 = 0x04
    · obtain ⟨e, he⟩ := parseContextTag_eq inner
      simp only [if_pos h4, decide_eq_true h4, Bool.true_and, he]
      cases overflows inner with
      | true => rfl
      | false =>
        cases value? inner with
        | none => rfl
        | some token =>
          by_cases htok : isNTLMSSP token = true
          · simp [Option.filter, htok]
          · simp [Option.filter, htok]
    · simp only [if_neg h4, decide_eq_false h4, Bool.false_and, Bool.false_eq_true, if_false]

theorem tagAt_makes
    (hk : Makes k bad found) :
    Makes (tagAt k) (fun b => overflowsAt b || (valueAt b).any bad) (fun b => (valueAt b).bind found) := by
  intro b
  unfold tagAt overflowsAt valueAt
  by_cases hhead : b.head? = some 0xA2
  · obtain ⟨e, he⟩ := parseContextTag_eq b
    simp only [hhead, ne_eq, not_true_eq_false, if_false, he, decide_true, Bool.true_and, if_true]
    cases overflows b with
    | true => rfl
    | false =>
      cases value? b with
      | none => rfl
      | some inner => exact hk inner
  · simp [hhead]

/-- **When a scan panics**: at the first position that overflows, unless an earlier one was found. -/
theorem scan_safe_iff
    (hk : Makes (tagAt k) bad found) (n : ℕ) (raw : Bytes) : (scan n k raw).Safe ↔
      ∀ i, i + n < raw.length → (∀ j < i, found (raw.drop j) = none) → bad (raw.drop i) = false := by
  induction raw with
  | nil => exact iff_of_true (.ok _) fun i hi => absurd hi (by simp)
  | cons x rest ih =>
    rw [scan]
    by_cases hn : rest.length < n
    · rw [if_pos hn]
      exact iff_of_true (.ok _) fun i hi => absurd hi (by rw [length_cons]; omega)
    rw [if_neg hn, hk]
    cases hbad : bad (x :: rest) with
    | true =>
      refine iff_of_false (fun h => h rfl) fun h => ?_
      have h0 := h 0 (by rw [length_cons]; omega) fun j hj => absurd hj (Nat.not_lt_zero j)
      exact absurd (hbad.symm.trans h0) (by decide)
    | false =>
      cases hfound : found (x :: rest) with
      | some m =>
        refine iff_of_true (.ok _) fun i hi hj => ?_
        cases i with
        | zero => exact hbad
        | succ i => exact absurd (hfound.symm.trans (hj 0 (Nat.succ_pos i))) (by simp)
      | none =>
        refine ih.trans ⟨fun h i hi hj => ?_, fun h i hi hj => ?_⟩
        · cases i with
          | zero => exact hbad
          | succ i =>
            refine h i (by rw [length_cons] at hi; omega) fun j hji => ?_
            exact hj (j + 1) (Nat.succ_lt_succ hji)
        · refine h (i + 1) (by rw [length_cons]; omega) fun j hji => ?_
          cases j with
          | zero => exact hfound
          | succ j => exact hj j (Nat.lt_of_succ_lt_succ hji)

theorem scan_eq_ok
    (hk : Makes (tagAt k) bad found) (n : ℕ) (hsafe : (scan n k raw).Safe) : ∃ r, scan n k raw = .ok r := by
  induction raw with
  | nil => exact ⟨none, rfl⟩
  | cons x rest ih =>
    rw [scan] at hsafe ⊢
    by_cases hn : rest.length < n
    · exact ⟨none, if_pos hn⟩
    rw [if_neg hn, hk] at hsafe ⊢
    cases hbad : bad (x :: rest) with
    | true =>
      rw [hbad] at hsafe
      exact absurd rfl hsafe
    | false =>
      rw [hbad] at hsafe
      cases hfound : found (x :: rest) with
      | some m => exact ⟨some m, rfl⟩
      | none =>
        rw [hfound] at hsafe
        exact ih hsafe

/-- When a scan that does not panic finds nothing. -/
theorem scan_eq_none_iff
    (hk : Makes (tagAt k) bad found) (n : ℕ) (hsafe : (scan n k raw).Safe) :
    scan n k raw = .ok none ↔ ∀ i, i + n < raw.length → found (raw.drop i) = none := by
  induction raw with
  | nil => exact iff_of_true rfl fun i hi => absurd hi (by simp)
  | cons x rest ih =>
    rw [scan] at hsafe ⊢
    by_cases hn : rest.length < n
    · rw [if_pos hn]
      exact iff_of_true rfl fun i hi => absurd hi (by rw [length_cons]; omega)
    rw [if_neg hn, hk] at hsafe ⊢
    cases hbad : bad (x :: rest) with
    | true =>
      rw [hbad] at hsafe
      exact absurd rfl hsafe
    | false =>
      rw [hbad] at hsafe
      cases hfound : found (x :: rest) with
      | some m =>
        refine iff_of_false (nofun) fun h => ?_
        have h0 := h 0 (by rw [length_cons]; omega)
        exact absurd (hfound.symm.trans h0) (by simp)
      | none =>
        rw [hfound] at hsafe
        refine (ih hsafe).trans ⟨fun h i hi => ?_, fun h i hi => ?_⟩
        · cases i with
          | zero => exact hfound
          | succ i => exact h i (by rw [length_cons] at hi; omega)
        · exact h (i + 1) (by rw [length_cons]; omega)

/-! ### Tokens -/

/-- In a NegTokenInit or a NegTokenResp: up to the first message found, no length overflows. -/
def ScanOk (raw : Bytes) : Prop :=
  ∀ i, i + 2 < raw.length → (∀ j < i, (valueAt (raw.drop j)).bind message? = none) →
    (overflowsAt (raw.drop i) || (valueAt (raw.drop i)).any stringOverflows) = false

/-- There is no message behind a tag. -/
def NoMessage (raw : Bytes) : Prop := ∀ i, i + 2 < raw.length → (valueAt (raw.drop i)).bind message? = none

/-- In a whole token: up to the first value found, no length overflows. -/
def FindOk (raw : Bytes) : Prop :=
  ∀ i, i + 1 < raw.length → (∀ j < i, valueAt (raw.drop j) = none) → overflowsAt (raw.drop i) = false

/-- The parts of an InitialContextToken. -/
def parts (asn : Asn1) (token : Bytes) : Option (Bytes × Bytes) :=
  if token.head? = some 0x60 then asn.contextToken (sequenceOf token) else none

/-- No length that the scans of a token come to overflows. -/
def TokenOk (asn : Asn1) (token : Bytes) : Prop :=
  isNTLMSSP token = true ∨
    (∀ p ∈ parts asn token, ScanOk p.1 ∧ (NoMessage p.1 → ScanOk p.2)) ∧
      ((∀ p ∈ parts asn token, NoMessage p.1 ∧ NoMessage p.2) → FindOk token)

theorem scanTag2OctetString_safe_iff (raw : Bytes) : (scanTag2OctetString raw).Safe ↔ ScanOk raw :=
  scan_safe_iff (tagAt_makes octetString_makes) 2 raw

theorem scanTag2OctetString_eq_none_iff (h : ScanOk raw) :
    scanTag2OctetString raw = .ok none ↔ NoMessage raw :=
  scan_eq_none_iff (tagAt_makes octetString_makes) 2 ((scanTag2OctetString_safe_iff raw).2 h)

theorem findContextTag2_safe_iff (raw : Bytes) : (findContextTag2 raw).Safe ↔ FindOk raw := by
  have hk : Makes (fun inner => .ok (some inner)) (fun _ => false) some := fun b => rfl
  have hscan := scan_safe_iff (tagAt_makes hk) 1 raw
  have hany : ∀ v : Option Bytes, v.any (fun _ => false) = false := fun v => by cases v <;> rfl
  have hbind : ∀ v : Option Bytes, v.bind some = v := fun v => by cases v <;> rfl
  simp only [hany, Bool.or_false, hbind] at hscan
  exact hscan

theorem mechToken_of_none {asn : Asn1} {token : Bytes} (h : parts asn token = none) : mechToken asn token = .ok none := by
  unfold parts at h
  unfold mechToken
  split_ifs at h ⊢
  · rw [h]
  · rfl

theorem mechToken_of_parts {asn : Asn1} {token init resp : Bytes} (h : parts asn token = some (init, resp)) :
    mechToken asn token = scanTag2OctetString init >>= fun r => r.elim (scanTag2OctetString resp) fun m => pure (some m) := by
  unfold parts at h
  unfold mechToken
  split_ifs at h with hhead
  rw [if_pos hhead, h]
  dsimp only
  cases scanTag2OctetString init with
  | panic => rfl
  | err e => rfl
  | ok r => cases r <;> rfl

theorem mechToken_iff (asn : Asn1) (token : Bytes) :
    ((mechToken asn token).Safe ↔ ∀ p ∈ parts asn token, ScanOk p.1 ∧ (NoMessage p.1 → ScanOk p.2)) ∧
      ((mechToken asn token).Safe → ∃ r, mechToken asn token = .ok r ∧
        (r = none ↔ ∀ p ∈ parts asn token, NoMessage p.1 ∧ NoMessage p.2)) := by
  cases hparts : parts asn token with
  | none =>
    rw [mechToken_of_none hparts]
    exact ⟨iff_of_true (.ok _) nofun, fun _ =>
      ⟨none, rfl, iff_of_true rfl nofun⟩⟩
  | some p =>
    obtain ⟨init, resp⟩ := p
    rw [mechToken_of_parts hparts]
    simp only [mem_def, some.injEq, forall_eq']
    have hmakes := tagAt_makes octetString_makes
    have hinit := scanTag2OctetString_safe_iff init
    have hresp := scanTag2OctetString_safe_iff resp
    by_cases hok : ScanOk init
    swap
    · have hpanic : scanTag2OctetString init = .panic := by
        by_contra h
        exact hok (hinit.1 h)
      rw [hpanic]
      exact ⟨iff_of_false (fun h => h rfl) fun h => hok h.1, fun h => absurd rfl h⟩
    have hnone := scanTag2OctetString_eq_none_iff hok
    obtain ⟨r, hr⟩ : ∃ r, scanTag2OctetString init = .ok r := scan_eq_ok hmakes 2 (hinit.2 hok)
    rw [hr] at hnone ⊢
    cases r with
    | none =>
      have hno := hnone.1 rfl
      refine ⟨hresp.trans ⟨fun h => ⟨hok, fun _ => h⟩, fun h => h.2 hno⟩, fun hsafe => ?_⟩
      obtain ⟨r, hr⟩ : ∃ r, scanTag2OctetString resp = .ok r := scan_eq_ok hmakes 2 hsafe
      have hnone := scanTag2OctetString_eq_none_iff (hresp.1 hsafe)
      rw [hr, Res.ok.injEq] at hnone
      exact ⟨r, hr, hnone.trans (and_iff_right hno).symm⟩
    | some m =>
      have hsome : ¬NoMessage init := fun h => by cases hnone.2 h
      exact ⟨iff_of_true (.ok _) ⟨hok, fun h => absurd h hsome⟩, fun _ =>
        ⟨some m, rfl, iff_of_false (by simp) fun h => hsome h.1⟩⟩

theorem responseToken_safe (asn : Asn1) (token : Bytes) : (responseToken asn token).Safe := by
  unfold responseToken
  split_ifs
  · cases asn.negTokenResp (sequenceOf token) with
    | none => exact .throw _
    | some m =>
      dsimp only
      split_ifs
      · exact .ok _
      · exact .throw _
  · exact .throw _

/-- **When a token is unwrapped without a panic.** -/
theorem unwrapSPNEGOToken_safe_iff (asn : Asn1) (token : Bytes) : (unwrapSPNEGOToken asn token).Safe ↔ TokenOk asn token := by
  unfold unwrapSPNEGOToken TokenOk
  by_cases hntlm : isNTLMSSP token = true
  · rw [if_pos hntlm]
    exact iff_of_true (.ok _) (.inl hntlm)
  rw [if_neg hntlm, or_iff_right hntlm]
  obtain ⟨hsafe, hnone⟩ := mechToken_iff asn token
  rw [← hsafe]
  by_cases hm : (mechToken asn token).Safe
  swap
  · have hpanic : mechToken asn token = .panic := not_not.1 hm
    refine iff_of_false (fun h => ?_) fun h => hm h.1
    rw [hpanic] at h
    exact h rfl
  obtain ⟨r, hr, hiff⟩ := hnone hm
  rw [and_iff_right hm, hr]
  cases r with
  | some m => exact iff_of_true (.ok _) fun h => absurd (hiff.2 h) (by simp)
  | none =>
    rw [← findContextTag2_safe_iff]
    refine Iff.trans ?_ (forall_prop_of_true (hiff.1 rfl)).symm
    rw [Res.ok_bind]
    dsimp only
    refine ⟨fun h hpanic => h ?_, fun h => .bind h fun r _ => ?_⟩
    · rw [hpanic]
      rfl
    · cases r with
      | none => exact responseToken_safe asn token
      | some m =>
        dsimp only
        split_ifs
        · exact .ok _
        · exact responseToken_safe asn token

/-- An authenticator returns from any token that is unwrapped without a panic, and only from those. -/
theorem accept_returns_iff (P : Primitives) (random : Arr 8) (token : Bytes) (s : ServerAuthenticator) :
    (accept P random token).Returns s ↔ TokenOk P.asn token := by
  rw [← unwrapSPNEGOToken_safe_iff]
  unfold accept
  cases unwrapSPNEGOToken P.asn token with
  | panic => exact iff_of_false (fun ⟨_, _, h⟩ => by cases h) fun h => h rfl
  | err e => exact iff_of_true ⟨_, _, rfl⟩ (.throw e)
  | ok msg =>
    refine iff_of_true (.get (.ite (fun _ => ?_) fun _ => .ite (fun _ => ?_) fun _ => .pure _)) (.ok msg)
    · have hsafe := parseNegotiateMessage_safe msg
      unfold handleNegotiate
      cases hp : parseNegotiateMessage msg with
      | panic => exact absurd hp hsafe
      | err e => exact .pure _
      | ok m => exact ⟨_, _, rfl⟩
    · have hsafe := parseAuthenticateMessage_safe msg
      unfold handleAuthenticate
      cases hp : parseAuthenticateMessage msg with
      | panic => exact absurd hp hsafe
      | err e => exact .pure _
      | ok am =>
        refine .bind ⟨_, _, rfl⟩ fun _ s1 _ => .get (.ite (fun _ => .pure _) fun _ => ?_)
        cases P.lookup s1.domain s1.user with
        | none => exact .pure _
        | some key => exact .ite (fun _ => .pure _) fun _ => ⟨_, _, rfl⟩

/-- **All `Accept`s of a sequence of tokens return**, with a result or an error, if and only if no length
that the scans of one of the tokens come to overflows. -/
theorem acceptAll_safe_iff (P : Primitives) (serverName : GoString) (tokens : List (Bytes × Arr 8)) :
    (acceptAll P (newServer serverName) tokens).length = tokens.length ↔ ∀ t ∈ tokens, TokenOk P.asn t.1 := by
  suffices h : ∀ s, (acceptAll P s tokens).length = tokens.length ↔ ∀ t ∈ tokens, TokenOk P.asn t.1 from h _
  induction tokens with
  | nil => exact fun s => iff_of_true rfl fun t ht => (by cases ht)
  | cons t tokens ih =>
    intro s
    rw [acceptAll, List.forall_mem_cons, ← accept_returns_iff P t.2 t.1 s]
    cases hrun : accept P t.2 t.1 s with
    | panic s' =>
      refine iff_of_false (by simp) fun h => ?_
      obtain ⟨_, _, hok⟩ := h.1
      rw [hrun] at hok
      cases hok
    | ok r s' =>
      rw [List.length_cons, List.length_cons, Nat.add_right_cancel_iff, ih s']
      exact (and_iff_right ⟨r, s', hrun⟩).symm

/-- The primitives of a lookup that knows no one. -/
def nobody : Primitives where
  asn := ⟨fun _ => none, fun _ => none, fun _ _ => []⟩
  lookup _ _ := none
  hmacMd5 _ _ := []
  rc4 _ _ := []

/-- **A tag with eight length bytes, the first of them `80`, makes the server panic.** -/
theorem negative_length_panics : ¬∀ (P : Primitives) (serverName : GoString) (tokens : List (Bytes × Arr 8)),
    (acceptAll P (newServer serverName) tokens).length = tokens.length := by
  intro h
  exact absurd (h nobody [] [([0xA2, 0x88, 0x80, 0, 0, 0, 0, 0, 0, 0], Arr.zero 8)]) (by decide +kernel)

end Ntlm
end SmbServer
