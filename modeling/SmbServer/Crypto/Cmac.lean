/-
# CMAC and what a check of it leaves behind

`Signer.cmac` against the definition of AES-CMAC (RFC 4493), over any block cipher `E`:

* a block is an element of `GF(2^128)`, the residues modulo `x^128 + x^7 + x^2 + x + 1`,
  its first bit the coefficient of `x^127` (`Block.residue`);
* the subkeys are `K1 = x · E(0)` and `K2 = x · K1`;
* the message is cut into blocks; a complete last one is combined with `K1`, and one that
  is incomplete or empty is padded with a bit `1` and zeros and combined with `K2`;
* the blocks are chained through `E` from zero on.

`IsCmac` says this, and `cmac_rfc4493` that the code computes it.

`Verify` calls `Sign` on the buffer it was given.  It leaves the right signature there, and
so the message is as it was exactly where its signature was right (`verify_pure_iff`).
-/

import Mathlib
import SmbServer.Crypto.Signing
import SmbServer.Lib.Blocks
import SmbServer.Lib.Residues

namespace SmbServer
open Nat

open Polynomial Function List

/-! ### Blocks as field elements -/

/-- A bit as a coefficient. -/
def coeffOf (b : Bool) : ZMod 2 := if b then 1 else 0

theorem coeffOf_xor (a b : Bool) : coeffOf (a ^^ b) = coeffOf a + coeffOf b := by
  cases a <;> cases b <;> decide

theorem coeffOf_and (a b : Bool) : coeffOf (a && b) = coeffOf a * coeffOf b := by
  cases a <;> cases b <;> decide

theorem coeffOf_injective : Injective coeffOf := by
  intro a b h
  cases a <;> cases b <;> first | rfl | exact absurd h (by decide)

/-- The coefficient of `x^i`, which the last byte starts with in its lowest bit. -/
def Block.coeffs (k : Block) : Fin (127 + 1) → ZMod 2 := fun i =>
  coeffOf ((k ⟨15 - i / 8, by omega⟩).toNat.testBit (i % 8))

/-- The block `const_Rb`. -/
def constRb : Block := fun j => if j.val = 15 then 0x87 else 0

/-- The field element a block stands for. -/
noncomputable def Block.residue (k : Block) : AdjoinRoot (modulus constRb.coeffs) :=
  SmbServer.residue constRb.coeffs k.coeffs

theorem Block.coeffs_injective : Injective Block.coeffs := by
  intro k k' h
  funext j
  rw [← UInt8.toNat_inj]
  refine eq_of_testBit_eq fun b => ?_
  by_cases hb : b < 8
  · have hi : (15 - j.val) * 8 + b < 127 + 1 := by omega
    have hbit := congrFun h ⟨(15 - j.val) * 8 + b, hi⟩
    have hbyte : (⟨15 - ((15 - j.val) * 8 + b) / 8, by omega⟩ : Fin 16) = j := Fin.ext (by dsimp only; omega)
    have hmod : ((15 - j.val) * 8 + b) % 8 = b := by omega
    unfold Block.coeffs at hbit
    dsimp only at hbit
    rw [hbyte, hmod] at hbit
    exact coeffOf_injective hbit
  · have hlarge : ∀ x : UInt8, x.toNat.testBit b = false := fun x =>
      testBit_lt_two_pow (lt_of_lt_of_le x.toNat_lt (Nat.pow_le_pow_right (by decide) (by omega)))
    rw [hlarge, hlarge]

/-- **A block is the field element it stands for.** -/
theorem Block.residue_injective : Injective Block.residue := fun _ _ h =>
  Block.coeffs_injective (SmbServer.residue_injective _ h)

theorem modulus_constRb : modulus constRb.coeffs = X ^ 128 + X ^ 7 + X ^ 2 + X + 1 := by
  have hcoeffs : ∀ i, constRb.coeffs i = if i.val = 7 ∨ i.val = 2 ∨ i.val = 1 ∨ i.val = 0 then 1 else 0 := by decide
  have hlow : ofFn (127 + 1) constRb.coeffs = X ^ 7 + X ^ 2 + X + 1 := by
    ext i
    rw [coeff_add, coeff_add, coeff_add, coeff_X_pow, coeff_X_pow, coeff_X, coeff_one]
    by_cases hi : i < 127 + 1
    · rw [ofFn_coeff_eq_val_of_lt _ hi, hcoeffs]
      dsimp only
      split_ifs <;> first | rfl | omega
    · rw [ofFn_coeff_eq_zero_of_ge _ (by omega), if_neg (by omega), if_neg (by omega), if_neg (by omega),
        if_neg (by omega)]
      rfl
  rw [modulus, CharTwo.sub_eq_add, hlow]
  ring

namespace Signing

/-! ### Doubling -/

/-- The bits of a byte that takes over a bit from the next one. -/
theorem testBit_shift (x y : UInt8) {b : ℕ} (hb : b < 8) :
    ((x <<< 1) ||| ((y >>> 7) &&& 1)).toNat.testBit b = if b = 0 then y.toNat.testBit 7 else x.toNat.testBit (b - 1) := by
  rw [UInt8.toNat_or, testBit_or]
  have hx : (x <<< 1).toNat.testBit b = (decide (1 ≤ b) && x.toNat.testBit (b - 1)) := by
    rw [UInt8.toNat_shiftLeft, testBit_mod_two_pow, decide_eq_true hb, Bool.true_and]
    exact testBit_shiftLeft ..
  have hy : ((y >>> 7) &&& 1).toNat.testBit b = (decide (b = 0) && y.toNat.testBit 7) := by
    rw [UInt8.toNat_and, testBit_and, UInt8.toNat_shiftRight]
    cases b with
    | zero => simp
    | succ b => simp [testBit_succ]
  rw [hx, hy]
  split_ifs with h
  · simp [h]
  · simp [h, one_le_iff_ne_zero]

theorem shiftRight_ne_zero (x : UInt8) : x >>> 7 ≠ 0 ↔ x.toNat.testBit 7 = true := by
  have hlt := x.toNat_lt
  have hdiv : (x >>> 7).toNat = x.toNat / 128 := by
    rw [UInt8.toNat_shiftRight]
    exact shiftRight_eq_div_pow ..
  rw [ne_eq, ← UInt8.toNat_inj, hdiv, testBit_eq_decide_div_mod_eq, decide_eq_true_eq]
  show ¬_ = 0 ↔ _
  omega

/-- The bit that comes into a byte from the next one. -/
def carryBit (k : Block) (j : Fin 16) : Bool := if h : j.val + 1 < 16 then (k ⟨j.val + 1, h⟩).toNat.testBit 7 else false

theorem testBit_cmacShift (k : Block) (j : Fin 16) {b : ℕ} (hb : b < 8) : (cmacShift k j).toNat.testBit b =
    ((if b = 0 then carryBit k j else (k j).toNat.testBit (b - 1)) ^^
      ((k 0).toNat.testBit 7 && (constRb j).toNat.testBit b)) := by
  have hshift : ((k j <<< 1) ||| if h : j.val + 1 < 16 then (k ⟨j.val + 1, h⟩ >>> 7) &&& 1 else 0).toNat.testBit b =
      if b = 0 then carryBit k j else (k j).toNat.testBit (b - 1) := by
    unfold carryBit
    by_cases hj : j.val + 1 < 16
    · rw [dif_pos hj, dif_pos hj]
      exact testBit_shift _ _ hb
    · rw [dif_neg hj, dif_neg hj]
      exact testBit_shift (k j) 0 hb
  unfold cmacShift constRb
  dsimp only
  rw [← hshift]
  by_cases hj : j.val = 15
  · by_cases htop : k 0 >>> 7 ≠ 0
    · rw [if_pos ⟨Fin.ext hj, htop⟩, if_pos hj, (shiftRight_ne_zero _).1 htop, UInt8.toNat_xor, testBit_xor,
        Bool.true_and]
    · rw [if_neg fun h => htop h.2, Bool.eq_false_iff.2 (fun h => htop ((shiftRight_ne_zero _).2 h)), Bool.false_and,
        Bool.xor_false]
  · rw [if_neg fun h => hj (congrArg Fin.val h.1), if_neg hj, UInt8.toNat_zero, zero_testBit, Bool.and_false,
      Bool.xor_false]

/-- The coefficients of a block that was shifted. -/
theorem coeffs_cmacShift (k : Block) : (cmacShift k).coeffs = shiftCoeffs constRb.coeffs k.coeffs := by
  have htop : k.coeffs (Fin.last 127) = coeffOf ((k 0).toNat.testBit 7) := rfl
  funext i
  unfold shiftCoeffs
  rw [Pi.add_apply, Pi.smul_apply, smul_eq_mul, htop]
  refine Fin.cases ?_ (fun i => ?_) i
  · show coeffOf ((cmacShift k 15).toNat.testBit 0) = 0 + coeffOf _ * coeffOf ((constRb 15).toNat.testBit 0)
    rw [testBit_cmacShift k 15 (by decide), coeffOf_xor, coeffOf_and]
    rfl
  · rw [Fin.cons_succ]
    -- The bit below is in the same byte, or the highest of the next one.
    have hbelow : (if (i.val + 1) % 8 = 0 then carryBit k ⟨15 - (i.val + 1) / 8, by omega⟩
        else (k ⟨15 - (i.val + 1) / 8, by omega⟩).toNat.testBit ((i.val + 1) % 8 - 1)) =
          (k ⟨15 - i.val / 8, by omega⟩).toNat.testBit (i.val % 8) := by
      split_ifs with hb
      · have hnext : 15 - (i.val + 1) / 8 + 1 = 15 - i.val / 8 := by omega
        unfold carryBit
        rw [dif_pos (show 15 - (i.val + 1) / 8 + 1 < 16 by omega), show i.val % 8 = 7 by omega]
        simp only [hnext]
      · have hsame : (i.val + 1) / 8 = i.val / 8 := by omega
        rw [show (i.val + 1) % 8 - 1 = i.val % 8 by omega]
        simp only [hsame]
    have hbit := testBit_cmacShift k ⟨15 - (i.val + 1) / 8, by omega⟩ (mod_lt (i.val + 1) (show 0 < 8 by decide))
    rw [hbelow] at hbit
    refine (congrArg coeffOf hbit).trans ?_
    rw [coeffOf_xor, coeffOf_and]
    rfl

/-- **`cmacShift` is multiplication by `x`.** -/
theorem residue_cmacShift (k : Block) : (cmacShift k).residue = AdjoinRoot.root (modulus constRb.coeffs) * k.residue := by
  rw [Block.residue, coeffs_cmacShift, residue_shift]
  rfl

/-! ### The code -/

/-- One step of a CBC chain. -/
def cbcStep (E : Block → Block) (x : Block) (b : Bytes) : Block := E (xorBlock x (blockOf b))

/-- The CMAC of a message by RFC 4493. -/
def IsCmac (E : Block → Block) (msg : Bytes) (tag : Block) : Prop :=
  ∃ (full : List Bytes) (last : Bytes) (k1 k2 : Block), Split 16 msg full last ∧
    k1.residue = AdjoinRoot.root _ * (E fun _ => 0).residue ∧ k2.residue = AdjoinRoot.root _ * k1.residue ∧
    tag = E (xorBlock
      (if last.length = 16 then xorBlock (blockOf last) k1
        else xorBlock (blockOf (last ++ 0x80 :: zeros (15 - last.length))) k2)
      (full.foldl (cbcStep E) fun _ => 0))

theorem cmacPad_eq (b : Bytes) : cmacPad b = blockOf (b ++ 0x80 :: zeros (15 - b.length)) := by
  funext j
  unfold cmacPad blockOf
  rcases lt_trichotomy j.val b.length with hlt | heq | hgt
  · rw [if_pos hlt, getD_append _ _ _ _ hlt]
  · rw [if_neg heq.not_lt, if_pos heq, heq, getD_append_right _ _ _ _ le_rfl, Nat.sub_self]
    rfl
  · rw [if_neg (by omega), if_neg (by omega), getD_append_right _ _ _ _ hgt.le]
    obtain ⟨i, hi⟩ : ∃ i, j.val - b.length = i + 1 := ⟨j.val - b.length - 1, by omega⟩
    rw [hi, getD_cons_succ, zeros, getD_eq_getElem?_getD, getElem?_getD_replicate_default_eq]

/-- The chain over the complete blocks of a message. -/
theorem cbcChain_flatten (E : Block → Block) (front : Bytes) (full : List Bytes) (last : Bytes) (i : ℕ) (x : Block)
    (hfront : front.length = i * 16) (hfull : ∀ b ∈ full, b.length = 16) :
    cbcChain E (front ++ (full.flatten ++ last)) full.length i x = full.foldl (cbcStep E) x := by
  induction full generalizing front i x with
  | nil => rfl
  | cons b full ih =>
    have hb : b.length = 16 := hfull b mem_cons_self
    have hslice : slice (front ++ ((b :: full).flatten ++ last)) (i * 16) 16 = b := by
      rw [slice_append_right _ _ hfront.le, hfront, Nat.sub_self, flatten_cons, append_assoc, slice_head _ hb]
    have hrest := ih (front ++ b) (i + 1) (cbcStep E x b)
      (by rw [length_append, hfront, hb, succ_mul]) fun b' hb' => hfull b' (mem_cons_of_mem _ hb')
    rw [length_cons, cbcChain, hslice, foldl_cons, ← hrest, flatten_cons]
    simp only [append_assoc]
    rfl

/-- **The CMAC of the code** on a message that is cut into its blocks. -/
theorem Signer.cmac_split (cr : Crypto) (s : Signer) {msg : Bytes} {full : List Bytes} {last : Bytes}
    (h : Split 16 msg full last) : s.cmac cr msg = cr.aes s.key (xorBlock
      (if last.length = 16 then xorBlock (blockOf last) s.cmacK1
        else xorBlock (blockOf (last ++ 0x80 :: zeros (15 - last.length))) s.cmacK2)
      (full.foldl (cbcStep (cr.aes s.key)) fun _ => 0)) := by
  have hn : max ((msg.length + 15) / 16) 1 - 1 = full.length := by
    rw [h.length_full (by decide)]
    rfl
  have hchain : cbcChain (cr.aes s.key) msg full.length 0 (fun _ => 0) = full.foldl (cbcStep (cr.aes s.key)) fun _ => 0 := by
    rw [← h.join]
    exact cbcChain_flatten (cr.aes s.key) [] full last 0 (fun _ => 0) rfl h.length
  have hremaining : msg.drop (full.length * 16) = last := by
    rw [← h.join, ← h.length_flatten, drop_left]
  unfold Signer.cmac
  dsimp only
  rw [hn, hchain, hremaining]
  split_ifs with hlast
  · rfl
  · rw [cmacPad_eq]

/-- **`Signer.cmac` is CMAC.**  A signer of a key computes the CMAC of every message, doubles
by multiplication with `x` in the field, and what it signs it verifies. -/
theorem cmac_rfc4493 (cr : Crypto) (key : Bytes) (s : Signer) (h : newSigner cr key = some s) :
    (∀ msg tag, s.cmac cr msg = tag ↔ IsCmac (cr.aes key) msg tag) ∧
      (modulus constRb.coeffs = X ^ 128 + X ^ 7 + X ^ 2 + X + 1 ∧ Function.Injective Block.residue ∧
        ∀ k : Block, (cmacShift k).residue = AdjoinRoot.root _ * k.residue) ∧
      ∀ msg : Bytes, 64 ≤ msg.length → ∃ m, s.sign cr msg = some m ∧ (s.verify cr m).1 = some true := by
  unfold newSigner at h
  split_ifs at h with hkey
  obtain rfl := Option.some.inj h
  refine ⟨fun msg tag => ⟨?_, ?_⟩, ⟨modulus_constRb, Block.residue_injective, residue_cmacShift⟩, fun msg hlen => ?_⟩
  · rintro rfl
    obtain ⟨full, last, hsplit⟩ := Split.exists_of_pos (show 0 < 16 by decide) msg
    exact ⟨full, last, _, _, hsplit, residue_cmacShift _, residue_cmacShift _, Signer.cmac_split cr _ hsplit⟩
  · rintro ⟨full, last, k1, k2, hsplit, hk1, hk2, rfl⟩
    obtain rfl : k1 = cmacShift (cr.aes key fun _ => 0) := Block.residue_injective (hk1.trans (residue_cmacShift _).symm)
    obtain rfl : k2 = _ := Block.residue_injective (hk2.trans (residue_cmacShift _).symm)
    exact Signer.cmac_split cr _ hsplit
  · let s : Signer := ⟨key, cmacShift (cr.aes key fun _ => 0), cmacShift (cmacShift (cr.aes key fun _ => 0))⟩
    have hsign : s.sign cr msg = some (copyAt (unsigned msg) 48 (List.ofFn (s.cmac cr (unsigned msg)))) :=
      if_neg (by omega)
    exact ⟨_, hsign, by rw [Signer.verify_sign hsign]⟩

/-- A cipher that flips the lowest bit of every byte. -/
def flipCrypto : Crypto where
  aes _ x := fun j => x j ^^^ 1
  hmacSha256 _ _ := fun _ => 0
  sha512 _ := fun _ => 0

/-- The CMAC of the empty message. -/
theorem cmac_rfc4493_nil : ∃ s, newSigner flipCrypto (zeros 16) = some s ∧
    IsCmac (flipCrypto.aes (zeros 16)) [] (s.cmac flipCrypto []) :=
  ⟨_, rfl, ((cmac_rfc4493 flipCrypto (zeros 16) _ rfl).1 [] _).1 rfl⟩

/-! ### Checking a signature -/

/-- `Verify` only looks at a message. -/
structure VerifyPure (cr : Crypto) (s : Signer) (msg : Bytes) : Prop where
  verdict : (s.verify cr msg).1 = some (decide (slice msg 48 16 = List.ofFn (s.cmac cr (unsigned msg))))
  buffer : (s.verify cr msg).2 = msg
  again : (s.verify cr (s.verify cr msg).2).1 = (s.verify cr msg).1

/-- **`Verify` only looks at a message exactly where the signature is right.**  Elsewhere it
leaves the signature it computed, and finds that one right the next time. -/
theorem verify_pure_iff (cr : Crypto) (s : Signer) (msg : Bytes) (h : 64 ≤ msg.length) :
    VerifyPure cr s msg ↔ slice msg 48 16 = List.ofFn (s.cmac cr (unsigned msg)) := by
  have hrun := s.verify_eq cr h
  constructor
  · intro hpure
    have hbuffer : copyAt (unsigned msg) 48 (List.ofFn (s.cmac cr (unsigned msg))) = msg :=
      (congrArg Prod.snd hrun).symm.trans hpure.buffer
    have hself := s.slice_signature cr h
    rwa [hbuffer] at hself
  · intro hsig
    have htrue : (s.verify cr msg).1 = some true := by rw [hrun, decide_eq_true hsig]
    have hbuffer := Signer.verify_true htrue
    exact ⟨by rw [hrun], hbuffer, by rw [hbuffer]⟩

/-- A message that was signed. -/
theorem verify_pure_signed : ∃ s msg, newSigner flipCrypto (zeros 16) = some s ∧ 64 ≤ msg.length ∧
    slice msg 48 16 = List.ofFn (s.cmac flipCrypto (unsigned msg)) ∧ VerifyPure flipCrypto s msg := by
  let k1 := cmacShift (flipCrypto.aes (zeros 16) fun _ => 0)
  let s : Signer := ⟨zeros 16, k1, cmacShift k1⟩
  let msg : Bytes := copyAt (zeros 64) 48 (List.ofFn (s.cmac flipCrypto (zeros 64)))
  have hsig : slice msg 48 16 = List.ofFn (s.cmac flipCrypto (unsigned msg)) := by decide +kernel
  exact ⟨s, msg, rfl, by decide +kernel, hsig, (verify_pure_iff flipCrypto s msg (by decide +kernel)).2 hsig⟩

/-- **A wrong signature is replaced by the right one**, and verifies the second time. -/
theorem verify_overwrites : ¬∀ (cr : Crypto) (key : Bytes) (s : Signer) (msg : Bytes), newSigner cr key = some s →
    64 ≤ msg.length → VerifyPure cr s msg := by
  intro hall
  have hpure := hall flipCrypto (zeros 16) _ (zeros 64) rfl (by decide)
  exact absurd hpure.again (by decide +kernel)

end Signing
end SmbServer
