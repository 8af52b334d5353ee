/-
# The TRANSFORM envelope is CCM

`Seal` and `Open` against the definition of CCM (RFC 3610) with a tag of `M = 16` bytes and
a length field of `L = 4` bytes, over any block cipher `E`:

* the blocks that are authenticated are `B_0`, which has the flags, the nonce and the length
  of the message, then the associated data behind its length, then the message, both padded
  with zeros (`Ccm.blocks`); they are chained through `E` (`Ccm.mac`);
* the message is combined with the key stream `S_1 S_2 …` and the chain with `S_0`, where
  `S_i` is `E` of the flags, the nonce and `i` (`Ccm.stream`).

The key stream combined twice is nothing (`ctrXor_ctrXor`), so `Open` undoes `Seal`, and what
it accepts is what `Seal` makes of the message it returns (`ccm_exact`).
-/

import SmbServer.Crypto.Encryption
import SmbServer.Lib.Blocks

namespace SmbServer
open Function List Nat

namespace Ccm

/-! ### The definition -/

/-- A block of one byte of flags, the nonce and a number in the last four bytes, most
significant first. -/
def block (flags : UInt8) (nonce : Bytes) (n : ℕ) : Block := fun j =>
  if j.val = 0 then flags else if j.val < 12 then nonce.getD (j.val - 1) 0 else UInt8.ofNat (n / 256 ^ (15 - j.val))

/-- `S_i`. -/
def stream (E : Block → Block) (nonce : Bytes) (i : ℕ) : Block := E (block 3 nonce i)

/-- `B_0`, `B_1`, …: the associated data has from 1 to `2^16 - 2^8 - 1` bytes. -/
def blocks (nonce aad msg : Bytes) : List Block :=
  block (64 * 1 + 8 * 7 + 3) nonce msg.length ::
    (paddedBlocks 16 0 (UInt8.ofNat (aad.length / 256) :: UInt8.ofNat aad.length :: aad) ++ paddedBlocks 16 0 msg)

/-- `X_1 = E(B_0)` and `X_{i+1} = E(X_i ⊕ B_i)`. -/
def mac (E : Block → Block) : List Block → Block
  | [] => fun _ => 0
  | b :: bs => bs.foldl (fun x b => E (xorBlock x b)) (E b)

/-- The tag `U` and the ciphertext. -/
def encrypt (E : Block → Block) (nonce aad msg : Bytes) : Block × Bytes :=
  (xorBlock (mac E (blocks nonce aad msg)) (stream E nonce 0),
    msg.mapIdx fun p b => b ^^^ stream E nonce (p / 16 + 1) ⟨p % 16, Nat.mod_lt p (by decide)⟩)

end Ccm

namespace Encryption

variable {E : Block → Block} {nonce : Bytes}

/-! ### Blocks -/

theorem getD_leBytes (w n i : ℕ) (h : i < w) : (leBytes w n).getD i 0 = UInt8.ofNat (n / 256 ^ i) := by
  induction w generalizing n i with
  | zero => exact absurd h (Nat.not_lt_zero i)
  | succ w ih =>
    cases i with
    | zero => simp [leBytes]
    | succ i =>
      rw [leBytes, getD_cons_succ, ih _ _ (lt_of_succ_lt_succ h), Nat.div_div_eq_div_mul, ← pow_succ']

theorem getD_beBytes (w n i : ℕ) (h : i < w) : (beBytes w n).getD i 0 = UInt8.ofNat (n / 256 ^ (w - 1 - i)) := by
  rw [← getD_leBytes w n (w - 1 - i) (by omega), beBytes, getD_eq_getElem?_getD, getD_eq_getElem?_getD,
    getElem?_reverse (by rw [length_leBytes]; exact h), length_leBytes]

/-- The code puts a block together from its three parts. -/
theorem blockOf_parts (flags : UInt8) (n : ℕ) (hnonce : nonce.length = 11) :
    blockOf ([flags] ++ nonce ++ beBytes 4 n) = Ccm.block flags nonce n := by
  funext j
  unfold blockOf Ccm.block
  rw [append_assoc, singleton_append]
  obtain ⟨j, hj⟩ := j
  dsimp only
  cases j with
  | zero => rfl
  | succ j =>
    rw [getD_cons_succ, if_neg (succ_ne_zero j), Nat.add_sub_cancel]
    split_ifs with hlt
    · exact getD_append _ _ _ _ (by omega)
    · rw [getD_append_right _ _ _ _ (by omega), getD_beBytes _ _ _ (by omega)]
      congr 3
      omega

theorem ctrBlock_eq (hnonce : nonce.length = 11) (n : ℕ) : ctrBlock nonce n = Ccm.block 3 nonce n := by
  unfold ctrBlock
  rw [hnonce]
  exact blockOf_parts 3 n hnonce

theorem macBlocks_eq (E : Block → Block) (fuel : ℕ) (x : Block) (buf : Bytes) (h : buf.length ≤ fuel) :
    macBlocks E fuel x buf = (paddedBlocks 16 0 buf).foldl (fun x b => E (xorBlock x b)) x := by
  induction fuel generalizing x buf with
  | zero =>
    obtain rfl := length_eq_zero_iff.1 (le_zero.1 h)
    rfl
  | succ fuel ih =>
    unfold macBlocks
    split_ifs with hnil
    · rw [hnil, paddedBlocks_nil (by decide), foldl_nil]
    · rw [ih _ _ (by rw [length_drop]; omega), paddedBlocks_of_ne_nil (by decide) 0 hnil, foldl_cons]
      rfl

/-- **`cbcMac` is the chain over the blocks of the definition.** -/
theorem cbcMac_eq (E : Block → Block) (hnonce : nonce.length = 11) {aad : Bytes} (hpos : 0 < aad.length)
    (haad : aad.length < 0xFF00) (msg : Bytes) : cbcMac E nonce aad msg = Ccm.mac E (Ccm.blocks nonce aad msg) := by
  have hlength : encodeAADLength aad = UInt8.ofNat (aad.length / 256) :: UInt8.ofNat aad.length :: aad := by
    rw [encodeAADLength, if_pos haad]
    rfl
  have hb0 := blockOf_parts (UInt8.ofNat (0x40 + 7 * 8 + 3)) msg.length hnonce
  unfold cbcMac
  dsimp only
  rw [hnonce, if_pos hpos, if_pos hpos, macBlocks_eq E _ _ _ le_rfl, macBlocks_eq E _ _ _ le_rfl, hlength, hb0, Ccm.blocks,
    Ccm.mac, foldl_append]
  rfl

/-! ### The key stream -/

/-- The key stream from `S_i` on, a byte at a time. -/
def keyByte (E : Block → Block) (nonce : Bytes) (i p : ℕ) : UInt8 :=
  Ccm.stream E nonce (p / 16 + i) ⟨p % 16, Nat.mod_lt p (by decide)⟩

/-- **`ctrXorInPlace` combines byte `p` with byte `p` of the key stream.** -/
theorem ctrXor_eq (E : Block → Block) (hnonce : nonce.length = 11) (fuel i : ℕ) (data : Bytes) (h : data.length ≤ fuel) :
    ctrXor E nonce fuel i data = data.mapIdx fun p b => b ^^^ keyByte E nonce i p := by
  induction fuel generalizing i data with
  | zero =>
    obtain rfl := length_eq_zero_iff.1 (le_zero.1 h)
    rfl
  | succ fuel ih =>
    have htake : zipWith (· ^^^ ·) (data.take 16) (ofFn (E (ctrBlock nonce i))) =
        (data.take 16).mapIdx fun p b => b ^^^ keyByte E nonce i p := by
      rw [ctrBlock_eq hnonce]
      refine ext_getElem ?_ fun p hp _ => ?_
      · rw [length_zipWith, length_mapIdx, length_ofFn, length_take]
        omega
      · have hlt : p < 16 := by
          rw [length_zipWith, length_ofFn] at hp
          omega
        rw [getElem_zipWith, getElem_mapIdx, List.getElem_ofFn, keyByte, Ccm.stream, div_eq_of_lt hlt,
          Nat.zero_add]
        simp only [mod_eq_of_lt hlt]
    have hdrop : ((data.drop 16).mapIdx fun p b => b ^^^ keyByte E nonce (i + 1) p) =
        (data.drop 16).mapIdx fun p b => b ^^^ keyByte E nonce i (p + (data.take 16).length) := by
      rcases Nat.lt_or_ge data.length 16 with hlt | hge
      · rw [drop_of_length_le hlt.le, mapIdx_nil, mapIdx_nil]
      · have hlen : (data.take 16).length = 16 := by
          rw [length_take]
          omega
        have hbyte : ∀ p, keyByte E nonce (i + 1) p = keyByte E nonce i (p + 16) := fun p => by
          unfold keyByte
          rw [add_div_right p (by decide), show p / 16 + (i + 1) = (p / 16).succ + i by omega]
          simp only [add_mod_right]
        simp only [hlen, hbyte]
    unfold ctrXor
    split_ifs with hnil
    · rw [hnil, mapIdx_nil]
    · rw [ih _ _ (by rw [length_drop]; omega), htake, hdrop, ← mapIdx_append, take_append_drop]

theorem ctrXor_ctrXor (E : Block → Block) (hnonce : nonce.length = 11) (data : Bytes) :
    ctrXor E nonce (ctrXor E nonce data.length 1 data).length 1 (ctrXor E nonce data.length 1 data) = data := by
  rw [ctrXor_eq E hnonce _ _ _ le_rfl, ctrXor_eq E hnonce _ _ _ le_rfl, mapIdx_mapIdx]
  refine ext_getElem (by rw [length_mapIdx]) fun p _ _ => ?_
  rw [getElem_mapIdx, comp_apply, UInt8.xor_assoc, UInt8.xor_self, UInt8.xor_zero]

/-! ### Encryption and decryption -/

/-- **`ccmEncryptInPlace` is CCM.** -/
theorem ccmEncrypt_eq (E : Block → Block) (hnonce : nonce.length = 11) {aad : Bytes} (hpos : 0 < aad.length)
    (haad : aad.length < 0xFF00) (msg : Bytes) : ccmEncrypt E nonce aad msg = Ccm.encrypt E nonce aad msg := by
  rw [ccmEncrypt, Ccm.encrypt, cbcMac_eq E hnonce hpos haad, ctrBlock_eq hnonce, ctrXor_eq E hnonce _ _ _ le_rfl]
  rfl

theorem xorBlock_xorBlock (x y : Block) : xorBlock (xorBlock x y) y = x := by
  funext j
  rw [xorBlock, xorBlock, UInt8.xor_assoc, UInt8.xor_self, UInt8.xor_zero]

theorem ofFn_blockOf {b : Bytes} (h : b.length = 16) : ofFn (blockOf b) = b := by
  refine ext_getElem (by rw [length_ofFn, h]) fun p _ hp => ?_
  rw [List.getElem_ofFn, blockOf, getD_eq_getElem _ _ hp]

theorem blockOf_ofFn (x : Block) : blockOf (ofFn x) = x := by
  funext j
  rw [blockOf, getD_eq_getElem _ _ (by rw [length_ofFn]; exact j.2), List.getElem_ofFn]

/-- **`ccmDecryptInPlace` accepts what `ccmEncryptInPlace` makes**, and nothing else. -/
theorem ccmDecrypt_iff (E : Block → Block) (hnonce : nonce.length = 11) {aad data tag msg : Bytes} (htag : tag.length = 16) :
    ccmDecrypt E nonce aad data tag = some msg ↔
      ofFn (ccmEncrypt E nonce aad msg).1 = tag ∧ (ccmEncrypt E nonce aad msg).2 = data := by
  unfold ccmDecrypt ccmEncrypt
  dsimp only
  constructor
  · intro h
    split_ifs at h with heq
    cases h
    have hmac := ofFn_injective ((Signing.constantEqual_iff _ _).1 heq)
    refine ⟨?_, ctrXor_ctrXor E hnonce data⟩
    rw [← hmac, xorBlock_xorBlock, ofFn_blockOf htag]
  · rintro ⟨rfl, rfl⟩
    rw [blockOf_ofFn, xorBlock_xorBlock, ctrXor_ctrXor E hnonce, if_pos ((Signing.constantEqual_iff _ _).2 rfl)]

/-! ### The envelope -/

/-- `t` is the envelope of `m`: its ciphertext and tag are those of CCM under its own nonce
and associated data. -/
structure Envelope (E : Block → Block) (t m : Bytes) : Prop where
  long : transformHeaderSize ≤ t.length
  protocolId : slice t 0 4 = transformProtocolId
  originalMessageSize : (u32At t 36).toNat = m.length
  tag : slice t 4 16 = List.ofFn (Ccm.encrypt E (slice t 20 11) (slice t 20 32) m).1
  ciphertext : t.drop transformHeaderSize = (Ccm.encrypt E (slice t 20 11) (slice t 20 32) m).2

/-- **`Open` accepts the envelopes**, and returns what they are of. -/
theorem AESCCM.open_iff (cr : Crypto) (c : AESCCM) (t m : Bytes) :
    c.open cr t = some m ↔ Envelope (cr.aes c.key) t m := by
  unfold AESCCM.open
  split_ifs with hshort hid hsize
  · exact ⟨nofun, fun h => absurd h.long (by omega)⟩
  · exact ⟨nofun, fun h => absurd h.protocolId hid⟩
  · refine ⟨nofun, fun h => absurd ?_ hsize⟩
    have hlen := congrArg List.length h.ciphertext
    rw [length_drop, Ccm.encrypt, length_mapIdx] at hlen
    rw [hlen, h.originalMessageSize]
  · have hlong : 52 ≤ t.length := Nat.le_of_not_lt hshort
    have hnonce : (slice t 20 11).length = 11 := by
      rw [length_slice]
      omega
    have haad : (slice t 20 32).length = 32 := by
      rw [length_slice]
      omega
    have hencrypt := ccmEncrypt_eq (cr.aes c.key) hnonce (by rw [haad]; decide) (by rw [haad]; decide) m
    rw [ccmDecrypt_iff (cr.aes c.key) hnonce (by rw [length_slice]; omega), hencrypt]
    constructor
    · rintro ⟨htag, hct⟩
      refine ⟨hlong, not_not.1 hid, ?_, htag.symm, hct.symm⟩
      have hlen := congrArg List.length hct
      rw [Ccm.encrypt, length_mapIdx, length_drop] at hlen
      rw [← not_not.1 hsize, hlen]
    · exact fun h => ⟨h.tag.symm, h.ciphertext.symm⟩

/-- The associated data of `Seal`. -/
def sealAAD (nonce : Fin 11 → UInt8) (msg : Bytes) (sessionID : UInt64) : Bytes :=
  List.ofFn nonce ++ zeros 5 ++ put32 (UInt32.ofNat msg.length) ++ zeros 2 ++ put16 1 ++ put64 sessionID

theorem length_sealAAD (nonce : Fin 11 → UInt8) (msg : Bytes) (sessionID : UInt64) :
    (sealAAD nonce msg sessionID).length = 32 := by
  simp [sealAAD]

theorem AESCCM.seal_parts (cr : Crypto) (c : AESCCM) (nonce : Fin 11 → UInt8) (msg : Bytes) (sessionID : UInt64) :
    slice (c.seal cr nonce msg sessionID) 20 11 = ofFn nonce ∧
      slice (c.seal cr nonce msg sessionID) 20 32 = sealAAD nonce msg sessionID ∧
      u32At (c.seal cr nonce msg sessionID) 36 = UInt32.ofNat msg.length ∧
      u64At (c.seal cr nonce msg sessionID) 44 = sessionID := by
  let aad := sealAAD nonce msg sessionID
  let tag := (ccmEncrypt (cr.aes c.key) (ofFn nonce) aad msg).1
  let ct := (ccmEncrypt (cr.aes c.key) (ofFn nonce) aad msg).2
  let front := transformProtocolId ++ ofFn tag
  have hseal : c.seal cr nonce msg sessionID = front ++ (aad ++ ct) := append_assoc front aad ct
  have hfront : front.length = 20 := by simp [front, transformProtocolId]
  have haad : aad.length = 32 := length_sealAAD ..
  have hslice : ∀ o n, o + n ≤ 32 → slice (c.seal cr nonce msg sessionID) (20 + o) n = slice aad o n := by
    intro o n ho
    rw [hseal, slice_append_right _ _ (by omega), hfront, Nat.add_sub_cancel_left, slice_append_left _ (by omega)]
  have hnonce : slice aad 0 11 = ofFn nonce := by
    simp only [aad, sealAAD, append_assoc]
    exact slice_head _ length_ofFn
  have hsize : slice aad 16 4 = put32 (UInt32.ofNat msg.length) := by
    have hsplit : aad = (ofFn nonce ++ zeros 5) ++ (put32 (UInt32.ofNat msg.length) ++
        (zeros 2 ++ put16 1 ++ put64 sessionID)) := by simp only [aad, sealAAD, append_assoc]
    rw [hsplit, slice_append_right _ _ (by simp), slice_append_left _ (by simp)]
    simp [slice, take_of_length_le]
  have hsession : slice aad 24 8 = put64 sessionID := by
    rw [show aad = _ ++ put64 sessionID from rfl, slice_append_right _ _ (by simp)]
    simp [slice, take_of_length_le]
  refine ⟨(hslice 0 11 (by decide)).trans hnonce, (hslice 0 32 (by decide)).trans ?_,
    u32At_of_slice ((hslice 16 4 (by decide)).trans hsize), u64At_of_slice ((hslice 24 8 (by decide)).trans hsession)⟩
  exact take_of_length_le haad.le

/-- **`Seal` makes an envelope of the message.** -/
theorem AESCCM.envelope_seal (cr : Crypto) (c : AESCCM) (nonce : Fin 11 → UInt8) {msg : Bytes} (sessionID : UInt64)
    (h : msg.length < 2 ^ 32) : Envelope (cr.aes c.key) (c.seal cr nonce msg sessionID) msg := by
  obtain ⟨hnonce, haad, hsize, -⟩ := c.seal_parts cr nonce msg sessionID
  let aad := sealAAD nonce msg sessionID
  have hlen : aad.length = 32 := length_sealAAD ..
  have hencrypt : ccmEncrypt (cr.aes c.key) (ofFn nonce) aad msg = Ccm.encrypt (cr.aes c.key) (ofFn nonce) aad msg :=
    ccmEncrypt_eq (cr.aes c.key) length_ofFn (by rw [hlen]; decide) (by rw [hlen]; decide) msg
  let tag := (Ccm.encrypt (cr.aes c.key) (ofFn nonce) aad msg).1
  let ct := (Ccm.encrypt (cr.aes c.key) (ofFn nonce) aad msg).2
  have hseal : c.seal cr nonce msg sessionID = transformProtocolId ++ (ofFn tag ++ (aad ++ ct)) := by
    have hparts : c.seal cr nonce msg sessionID =
        transformProtocolId ++ ofFn (ccmEncrypt (cr.aes c.key) (ofFn nonce) aad msg).1 ++ aad ++
          (ccmEncrypt (cr.aes c.key) (ofFn nonce) aad msg).2 := rfl
    rw [hparts, hencrypt]
    simp only [append_assoc]
    rfl
  have hid : transformProtocolId.length = 4 := rfl
  have htag : (ofFn tag).length = 16 := length_ofFn
  refine ⟨?_, ?_, ?_, ?_, ?_⟩
  · rw [hseal]
    simp only [length_append, hid, htag, hlen, transformHeaderSize]
    omega
  · rw [hseal]
    exact slice_head _ hid
  · rw [hsize]
    exact UInt32.toNat_ofNat_of_lt' h
  · rw [hnonce, haad, hseal, slice_append_right _ _ hid.le, hid]
    exact slice_head _ htag
  · rw [hnonce, haad, hseal, ← append_assoc, ← append_assoc]
    exact drop_left' (by simp only [length_append, hid, htag, hlen, transformHeaderSize])

/-- **The TRANSFORM envelope is CCM, in both directions.**  `Seal` makes an envelope of the
message, `Open` accepts the envelopes and returns what they are of, and anything else that
it is given has a tag that does not match. -/
theorem ccm_exact (cr : Crypto) (c : AESCCM) :
    (∀ (nonce : Fin 11 → UInt8) (msg : Bytes) (sessionID : UInt64), msg.length < 2 ^ 32 →
      Envelope (cr.aes c.key) (c.seal cr nonce msg sessionID) msg ∧
        slice (c.seal cr nonce msg sessionID) 20 11 = List.ofFn nonce ∧
        u64At (c.seal cr nonce msg sessionID) 44 = sessionID ∧
        c.open cr (c.seal cr nonce msg sessionID) = some msg) ∧
    (∀ t m, c.open cr t = some m → Envelope (cr.aes c.key) t m) ∧
    ∀ t, c.open cr t = none ∨ ∃ m, xorBlock (blockOf (slice t 4 16)) (Ccm.stream (cr.aes c.key) (slice t 20 11) 0) =
      Ccm.mac (cr.aes c.key) (Ccm.blocks (slice t 20 11) (slice t 20 32) m) := by
  refine ⟨fun nonce msg sessionID h => ?_, fun t m => (c.open_iff cr t m).1, fun t => ?_⟩
  · have henvelope := c.envelope_seal cr nonce sessionID h
    have hparts := c.seal_parts cr nonce msg sessionID
    exact ⟨henvelope, hparts.1, hparts.2.2.2, (c.open_iff cr _ _).2 henvelope⟩
  · cases hopen : c.open cr t with
    | none => exact .inl rfl
    | some m =>
      refine .inr ⟨m, ?_⟩
      rw [((c.open_iff cr t m).1 hopen).tag, blockOf_ofFn, Ccm.encrypt, xorBlock_xorBlock]

/-- Three bytes under a cipher that does nothing. -/
theorem ccm_exact_three : let cr : Crypto := ⟨fun _ x => x, fun _ _ _ => 0, fun _ _ => 0⟩
    [1, 2, 3].length < 2 ^ 32 ∧ Envelope (cr.aes (zeros 16)) ((⟨zeros 16⟩ : AESCCM).seal cr (fun _ => 0) [1, 2, 3] 7) [1, 2, 3] ∧
      (⟨zeros 16⟩ : AESCCM).open cr ((⟨zeros 16⟩ : AESCCM).seal cr (fun _ => 0) [1, 2, 3] 7) = some [1, 2, 3] := by
  intro cr
  have h := (ccm_exact cr ⟨zeros 16⟩).1 (fun _ => 0) [1, 2, 3] 7 (by decide)
  exact ⟨by decide, h.1, h.2.2.2⟩

end Encryption
end SmbServer
