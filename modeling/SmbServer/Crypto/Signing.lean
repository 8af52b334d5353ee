/-
# Message signatures

`smb/signing/signing.go`: AES-128-CMAC over a whole message, with the signature
itself in bytes 48 to 63 of the header.  `Sign` zeroes those bytes, computes the
CMAC and stores it there; `Verify` remembers them, signs the message again and
compares, so it leaves its own signature in the buffer it was given.

The block cipher and the hash are those of the Go standard library.  Nothing
here depends on how they work, so they are the fields of `Crypto`, and only the
sizes of their results are fixed.
-/

import SmbServer.Lib.Bytes
import Mathlib.Data.List.OfFn

namespace SmbServer
open List Option

/-- A Go `[16]byte` as a function of its index: one AES block. -/
abbrev Block := Fin 16 → UInt8

/-- The primitives of `crypto/aes`, `crypto/hmac` with SHA-256, and `crypto/sha512`. -/
structure Crypto where
  aes : Bytes → Block → Block
  hmacSha256 : Bytes → Bytes → Fin 32 → UInt8
  sha512 : Bytes → Fin 64 → UInt8

/-- The first 16 bytes of `b`, missing ones zero. -/
def blockOf (b : Bytes) : Block := fun j => b.getD j 0

def xorBlock (x y : Block) : Block := fun j => x j ^^^ y j

/-- `constantEqual` and `constTimeEqual`. -/
def constantEqual (a b : Bytes) : Bool :=
  a.length == b.length && (List.zipWith (· ^^^ ·) a b).foldl (· ||| ·) 0 == 0

/-- `kdfCounter` of both packages. -/
def kdfCounter (cr : Crypto) (ki label context : Bytes) : Bytes :=
  (List.ofFn (cr.hmacSha256 ki
    ([0, 0, 0, 1] ++ label ++ [0] ++ context ++ [0, 0, 0, 0x80]))).take 16

namespace Signing

/-- `cmacShift`: multiplication by `x`, most significant byte first. -/
def cmacShift (k : Block) : Block := fun i =>
  let carry := if h : i.val + 1 < 16 then (k ⟨i.val + 1, h⟩ >>> 7) &&& 1 else 0
  let b := (k i <<< 1) ||| carry
  if i = 15 ∧ k 0 >>> 7 ≠ 0 then b ^^^ 0x87 else b

/-- `cmacPad`. -/
def cmacPad (b : Bytes) : Block := fun j =>
  if j.val < b.length then b.getD j 0 else if j.val = b.length then 0x80 else 0

/-- `Signer`: the key of its block cipher and the two CMAC subkeys. -/
structure Signer where
  key : Bytes
  cmacK1 : Block
  cmacK2 : Block

/-- `NewSigner`; `none` is its error. -/
def newSigner (cr : Crypto) (key : Bytes) : Option Signer :=
  if key.length ≠ 16 then none
  else
    let k1 := cmacShift (cr.aes key fun _ => 0)
    some { key, cmacK1 := k1, cmacK2 := cmacShift k1 }

/-- The CBC chain of `cmac` over the `n` blocks from block `i` on. -/
def cbcChain (E : Block → Block) (msg : Bytes) : ℕ → ℕ → Block → Block
  | 0, _, x => x
  | n + 1, i, x => cbcChain E msg n (i + 1) (E (xorBlock x (blockOf (slice msg (i * 16) 16))))

/-- `Signer.cmac`. -/
def Signer.cmac (cr : Crypto) (s : Signer) (msg : Bytes) : Block :=
  let n := max ((msg.length + 15) / 16) 1
  let x := cbcChain (cr.aes s.key) msg (n - 1) 0 fun _ => 0
  let remaining := msg.drop ((n - 1) * 16)
  let last :=
    if remaining.length = 16 then xorBlock (xorBlock (blockOf remaining) s.cmacK1) x
    else xorBlock (xorBlock (cmacPad remaining) s.cmacK2) x
  cr.aes s.key last

/-- The message with its signature field zeroed. -/
def unsigned (msg : Bytes) : Bytes := copyAt msg 48 (zeros 16)

/-- `Signer.Sign`: the message it leaves in the buffer, `none` when it is shorter
than a header. -/
def Signer.sign (cr : Crypto) (s : Signer) (msg : Bytes) : Option Bytes :=
  if msg.length < 64 then none
  else some (copyAt (unsigned msg) 48 (List.ofFn (s.cmac cr (unsigned msg))))

/-- `Signer.Verify`: its verdict, `none` for an error, and the buffer afterwards. -/
def Signer.verify (cr : Crypto) (s : Signer) (msg : Bytes) : Option Bool × Bytes :=
  match s.sign cr msg with
  | none => (none, msg)
  | some m => (some (constantEqual (slice msg 48 16) (slice m 48 16)), m)

/-- `DeriveSigningKey`: the label is `SMB2AESCMAC`, the context `SmbSign`. -/
def deriveSigningKey (cr : Crypto) (sessionKey : Bytes) : Bytes :=
  kdfCounter cr sessionKey
    [0x53, 0x4D, 0x42, 0x32, 0x41, 0x45, 0x53, 0x43, 0x4D, 0x41, 0x43, 0x00]
    [0x53, 0x6D, 0x62, 0x53, 0x69, 0x67, 0x6E, 0x00]

/-! ### Signing and checking -/

theorem foldl_or_eq_zero (l : Bytes) (a : UInt8) :
    l.foldl (· ||| ·) a = 0 ↔ a = 0 ∧ ∀ x ∈ l, x = 0 := by
  induction l generalizing a with
  | nil => simp
  | cons x l ih => simp [ih, UInt8.or_eq_zero_iff, and_assoc]

theorem zipWith_xor_eq_zero (a b : Bytes) (h : a.length = b.length) :
    (∀ x ∈ zipWith (· ^^^ ·) a b, x = 0) ↔ a = b := by
  induction a generalizing b with
  | nil => cases b <;> simp_all
  | cons x a ih =>
    cases b with
    | nil => simp at h
    | cons y b =>
      have h' : a.length = b.length := by simpa using h
      simp [ih b h']

/-- **The comparison that does not stop early is equality.** -/
theorem constantEqual_iff (a b : Bytes) : constantEqual a b = true ↔ a = b := by
  unfold constantEqual
  by_cases h : a.length = b.length
  · simp [h, foldl_or_eq_zero, zipWith_xor_eq_zero a b h]
  · simp only [Bool.and_eq_true, beq_iff_eq, h, false_and, false_iff]
    rintro rfl
    exact h rfl

theorem unsigned_length (msg : Bytes) : (unsigned msg).length = msg.length := length_copyAt ..

/-- Zeroing the signature forgets what was there. -/
theorem unsigned_copyAt {msg sig : Bytes} (h : 64 ≤ msg.length) (hs : sig.length = 16) :
    unsigned (copyAt msg 48 sig) = unsigned msg := by
  exact copyAt_copyAt (by simpa using h) (by simp [hs])

/-- **A message signed verifies, and verifying leaves it as it is.** -/
theorem Signer.verify_sign {cr : Crypto} {s : Signer} {msg m : Bytes}
    (h : s.sign cr msg = some m) : s.verify cr m = (some true, m) := by
  unfold Signer.sign at h
  split_ifs at h with hlen
  cases h
  have hu : unsigned (copyAt (unsigned msg) 48 (ofFn (s.cmac cr (unsigned msg)))) =
      unsigned msg := by
    rw [unsigned_copyAt (by rw [unsigned_length]; omega) (by simp),
      show unsigned (unsigned msg) = unsigned msg from unsigned_copyAt (by omega) (by simp)]
  have hsign : s.sign cr (copyAt (unsigned msg) 48 (ofFn (s.cmac cr (unsigned msg)))) =
      some (copyAt (unsigned msg) 48 (ofFn (s.cmac cr (unsigned msg)))) := by
    have hl : ¬ (copyAt (unsigned msg) 48 (ofFn (s.cmac cr (unsigned msg)))).length < 64 := by
      rw [length_copyAt, unsigned_length]; omega
    rw [Signer.sign, if_neg hl, hu]
  rw [Signer.verify, hsign]
  simp [constantEqual_iff]

/-- `Verify` leaves all but the signature of the message alone. -/
theorem Signer.verify_buffer (cr : Crypto) (s : Signer) (msg : Bytes) :
    (s.verify cr msg).2 = msg ∨ 64 ≤ msg.length ∧ (s.verify cr msg).2.length = msg.length ∧
      slice (s.verify cr msg).2 0 48 = slice msg 0 48 := by
  unfold Signer.verify Signer.sign
  split_ifs with h
  · exact .inl rfl
  · refine .inr ⟨by omega, by simp [unsigned_length], ?_⟩
    rw [slice_copyAt_before _ _ (by omega), unsigned, slice_copyAt_before _ _ (by omega)]

theorem Signer.length_verify (cr : Crypto) (s : Signer) (msg : Bytes) :
    (s.verify cr msg).2.length = msg.length := by
  rcases s.verify_buffer cr msg with h | ⟨-, h, -⟩
  · rw [h]
  · exact h

theorem Signer.slice_signature (cr : Crypto) (s : Signer) {msg : Bytes} (h : 64 ≤ msg.length) :
    slice (copyAt (unsigned msg) 48 (ofFn (s.cmac cr (unsigned msg)))) 48 16 =
      ofFn (s.cmac cr (unsigned msg)) := by
  let sig := ofFn (s.cmac cr (unsigned msg))
  have hlen : sig.length = 16 := length_ofFn
  have hself : slice (copyAt (unsigned msg) 48 sig) 48 sig.length = sig :=
    slice_copyAt_self (by rw [unsigned_length, hlen]; omega)
  rwa [hlen] at hself

theorem Signer.verify_eq (cr : Crypto) (s : Signer) {msg : Bytes} (h : 64 ≤ msg.length) :
    s.verify cr msg = (some (decide (slice msg 48 16 = ofFn (s.cmac cr (unsigned msg)))),
      copyAt (unsigned msg) 48 (ofFn (s.cmac cr (unsigned msg)))) := by
  unfold Signer.verify Signer.sign
  rw [if_neg (by omega)]
  dsimp only
  rw [s.slice_signature cr h, Bool.eq_iff_iff.2 ((constantEqual_iff ..).trans decide_eq_true_iff.symm)]

/-- `Verify` asks for the AES-CMAC of the message with its signature zeroed. -/
theorem Signer.verify_iff (cr : Crypto) (s : Signer) (msg : Bytes) : (s.verify cr msg).1 = some true ↔
    64 ≤ msg.length ∧ slice msg 48 16 = ofFn (s.cmac cr (unsigned msg)) := by
  by_cases h : 64 ≤ msg.length
  · rw [s.verify_eq cr h, some.injEq, decide_eq_true_iff]
    exact ⟨fun heq => ⟨h, heq⟩, fun heq => heq.2⟩
  · have hshort : s.verify cr msg = (none, msg) := by
      unfold Signer.verify Signer.sign
      rw [if_pos (by omega)]
    rw [hshort]
    exact ⟨nofun, fun hlen => absurd hlen.1 h⟩

/-- A message whose signature verifies is left as it was. -/
theorem Signer.verify_true {cr : Crypto} {s : Signer} {msg : Bytes}
    (h : (s.verify cr msg).1 = some true) : (s.verify cr msg).2 = msg := by
  obtain ⟨hlen, heq⟩ := (s.verify_iff cr msg).1 h
  rw [s.verify_eq cr hlen]
  calc copyAt (unsigned msg) 48 (ofFn (s.cmac cr (unsigned msg)))
      = copyAt msg 48 (ofFn (s.cmac cr (unsigned msg))) := copyAt_copyAt (by simpa using hlen) (by simp)
    _ = copyAt msg 48 (slice msg 48 16) := by rw [heq]
    _ = msg := copyAt_slice (by omega)

theorem newSigner_deriveSigningKey (cr : Crypto) (sessionKey : Bytes) :
    (newSigner cr (deriveSigningKey cr sessionKey)).isSome := by
  have hlen : (deriveSigningKey cr sessionKey).length = 16 := by simp [deriveSigningKey, kdfCounter]
  simp [newSigner, hlen]

theorem Signer.length_sign {cr : Crypto} {s : Signer} {msg m : Bytes}
    (h : s.sign cr msg = some m) : m.length = msg.length := by
  unfold Signer.sign at h
  split_ifs at h
  cases h
  rw [length_copyAt, unsigned_length]

end Signing

end SmbServer
