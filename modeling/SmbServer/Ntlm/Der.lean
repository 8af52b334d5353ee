/-
# DER lengths

`wrapDER` of `smb/ntlmssp/spnego.go` puts a tag and a length before a content, and
`parseContextTag` takes them off again.  `derLength` writes a length below 128 as one
byte, and any other as its bytes without leading zeros, behind a byte that counts them.

Of the definite forms of a length (`DefiniteLength`) this is the shortest, and the only
one of its length (`derLength_minimal`).
-/

import SmbServer.Ntlm.Tokens
import Mathlib.Data.Nat.Digits.Lemmas

namespace SmbServer
open List Nat
namespace Ntlm

/-- `wrapDER`. -/
def wrapDER (tag : UInt8) (content : Bytes) : Bytes :=
  let out := [tag] ++ derLength content.length
  out ++ content

/-- The definite forms of a length. -/
inductive DefiniteLength : Bytes → ℕ → Prop where
  | short {n : ℕ} (hn : n < 128) : DefiniteLength [UInt8.ofNat n] n
  | long {b : Bytes} (hb : b ≠ []) (hcount : b.length < 127) :
      DefiniteLength (UInt8.ofNat (0x80 + b.length) :: b) (beNat b)

/-! ### Numbers, most significant byte first -/

theorem beNat_concat (b : Bytes) (x : UInt8) : beNat (b ++ [x]) = beNat b * 256 + x.toNat := by
  rw [beNat, foldl_append]
  rfl

theorem beNat_reverse (b : Bytes) : beNat b.reverse = leNat b := by
  induction b with
  | nil => rfl
  | cons x b ih =>
    rw [reverse_cons, beNat_concat, ih, leNat]
    omega

theorem beNat_lt (b : Bytes) : beNat b < 256 ^ b.length := by
  have h := leNat_lt b.reverse
  rwa [← beNat_reverse, reverse_reverse, length_reverse] at h

theorem eq_leBytes_of_beNat {b : Bytes} {n : ℕ} (h : beNat b = n) : b = (leBytes b.length n).reverse := by
  have hle := leBytes_leNat b.reverse
  rw [← beNat_reverse, reverse_reverse, h, length_reverse] at hle
  rw [hle, reverse_reverse]

/-- How many bytes a number has. -/
def octets (n : ℕ) : ℕ := (Nat.digits 256 n).length

theorem octets_le_iff {n k : ℕ} : octets n ≤ k ↔ n < 256 ^ k := digits_length_le_iff (by decide) n

theorem octets_pos {n : ℕ} (h : 0 < n) : 0 < octets n := by
  by_contra h0
  have := octets_le_iff.1 (le_zero.2 (Nat.eq_zero_of_not_pos h0))
  omega

theorem octets_div {n : ℕ} (h : 0 < n) : octets n = octets (n / 256) + 1 := by
  unfold octets
  rw [digits_def' (by decide) h, length_cons]

theorem lengthBytes_eq {fuel n : ℕ} (buf : Bytes) (h : n < 256 ^ fuel) :
    lengthBytes fuel n buf = (leBytes (octets n) n).reverse ++ buf := by
  induction fuel generalizing n buf with
  | zero =>
    obtain rfl : n = 0 := by simpa using h
    rfl
  | succ fuel ih =>
    unfold lengthBytes
    split_ifs with hn
    · rw [hn]
      rfl
    · have hdiv : n / 256 < 256 ^ fuel := by
        rw [pow_succ] at h
        exact Nat.div_lt_of_lt_mul (by rwa [mul_comm] at h)
      rw [ih _ hdiv, octets_div (n := n) (by omega), leBytes, reverse_cons, append_assoc]
      rfl

/-- `derLength` in numbers, for a length that is an `int`. -/
theorem derLength_eq {n : ℕ} (h : n < 2 ^ 63) : derLength n = if n < 128 then [UInt8.ofNat n]
    else UInt8.ofNat (0x80 + octets n) :: (leBytes (octets n) n).reverse := by
  unfold derLength
  dsimp only
  rw [lengthBytes_eq [] (h.trans (by decide)), append_nil, length_reverse, length_leBytes]

theorem beNat_leBytes (n : ℕ) : beNat (leBytes (octets n) n).reverse = n := by
  rw [beNat_reverse, leNat_leBytes, mod_eq_of_lt (octets_le_iff.1 le_rfl)]

/-! ### Minimal lengths -/

theorem definiteLength_derLength {n : ℕ} (h : n < 2 ^ 63) : DefiniteLength (derLength n) n := by
  rw [derLength_eq h]
  split_ifs with hn
  · exact .short hn
  · have h8 : octets n ≤ 8 := octets_le_iff.2 (h.trans (by decide))
    have hpos : 0 < octets n := octets_pos (by omega)
    have hlen : (leBytes (octets n) n).reverse.length = octets n := by rw [length_reverse, length_leBytes]
    have hlong := DefiniteLength.long (b := (leBytes (octets n) n).reverse)
      (ne_nil_of_length_pos (by omega)) (by omega)
    rwa [beNat_leBytes, hlen] at hlong

/-- No definite form is shorter, and none is another one of the same length. -/
theorem DefiniteLength.derLength_le {enc : Bytes} {n : ℕ} (he : DefiniteLength enc n) (h : n < 2 ^ 63) :
    (derLength n).length ≤ enc.length ∧ (enc.length = (derLength n).length → enc = derLength n) := by
  rw [derLength_eq h]
  cases he with
  | short hn => rw [if_pos hn]; exact ⟨le_rfl, fun _ => rfl⟩
  | @long b hb hcount =>
    have hpos := length_pos_of_ne_nil hb
    have hoct : octets (beNat b) ≤ b.length := octets_le_iff.2 (beNat_lt b)
    split_ifs with hn
    · refine ⟨by simp, fun hlen => ?_⟩
      have : b.length + 1 = 1 := hlen
      omega
    · have hlen' : (leBytes (octets (beNat b)) (beNat b)).reverse.length = octets (beNat b) := by
        rw [length_reverse, length_leBytes]
      rw [length_cons, length_cons, hlen']
      refine ⟨by omega, fun hlen => ?_⟩
      have hsame : b.length = octets (beNat b) := by omega
      rw [← hsame, ← eq_leBytes_of_beNat rfl]

/-! ### Tags -/

theorem wrapDER_append (tag : UInt8) (content trailing : Bytes) :
    wrapDER tag content ++ trailing = [tag] ++ derLength content.length ++ (content ++ trailing) :=
  append_assoc ..

theorem lengthField_wrapDER (tag : UInt8) {content : Bytes} (trailing : Bytes) (h : content.length < 2 ^ 63) :
    lengthField (wrapDER tag content ++ trailing) =
      some (1 + (derLength content.length).length, content.length) := by
  rw [wrapDER_append, derLength_eq h]
  split_ifs with hn
  · have hbyte : (UInt8.ofNat content.length).toNat = content.length := by
      rw [UInt8.toNat_ofNat']
      omega
    have hu8 : u8At ([tag] ++ [UInt8.ofNat content.length] ++ (content ++ trailing)) 1 = UInt8.ofNat content.length := rfl
    rw [lengthField, if_neg (by simp), hu8, hbyte, if_pos hn]
    rfl
  · have h8 : octets content.length ≤ 8 := octets_le_iff.2 (h.trans (by decide))
    have hlen : (leBytes (octets content.length) content.length).reverse.length = octets content.length := by
      rw [length_reverse, length_leBytes]
    have hnum := beNat_leBytes content.length
    generalize (leBytes (octets content.length) content.length).reverse = b at hlen hnum
    generalize octets content.length = k at h8 hlen
    have hbyte : (UInt8.ofNat (0x80 + k)).toNat = 128 + k := by
      rw [UInt8.toNat_ofNat']
      omega
    have hu8 : u8At ([tag] ++ UInt8.ofNat (0x80 + k) :: b ++ (content ++ trailing)) 1 = UInt8.ofNat (0x80 + k) := rfl
    have hslice : slice ([tag] ++ UInt8.ofNat (0x80 + k) :: b ++ (content ++ trailing)) 2 k = b := slice_head _ hlen
    have hroom : 2 + k ≤ ([tag] ++ UInt8.ofNat (0x80 + k) :: b ++ (content ++ trailing)).length := by
      simp only [length_append, length_cons, hlen]
      omega
    have hcount : 128 + k - 128 = k := by omega
    rw [lengthField, if_neg (by omega), hu8, hbyte, if_neg (by omega), hcount, if_neg (by omega), hslice, hnum,
      mod_eq_of_lt (h.trans (by decide)), length_cons, hlen]
    exact congrArg some (Prod.ext (by omega) rfl)

/-- **The DER codec.**  `parseContextTag` finds the content that `wrapDER` wraps, whatever follows, and
the length before it is minimal. -/
theorem derCodec (tag : UInt8) (content trailing : Bytes) (h : content.length < 2 ^ 31) :
    parseContextTag (wrapDER tag content ++ trailing) = .ok content ∧
      DefiniteLength (derLength content.length) content.length ∧
      ∀ enc, DefiniteLength enc content.length →
        (derLength content.length).length ≤ enc.length ∧
          (enc.length = (derLength content.length).length → enc = derLength content.length) := by
  have h63 : content.length < 2 ^ 63 := h.trans (by decide)
  refine ⟨?_, definiteLength_derLength h63, fun enc henc => henc.derLength_le h63⟩
  obtain ⟨hparse, hstart, hstart', hlen⟩ := parseContextTag_of_field (lengthField_wrapDER tag trailing h63)
  have hshort : (derLength content.length).length ≤ 9 := by
    have h8 : octets content.length ≤ 8 := octets_le_iff.2 (h63.trans (by decide))
    rw [derLength_eq h63]
    split_ifs
    · simp
    · rw [List.length_cons, List.length_reverse, length_leBytes]
      omega
  have hwrap : wrapDER tag content ++ trailing = ([tag] ++ derLength content.length) ++ (content ++ trailing) :=
    wrapDER_append ..
  have hpre : ([tag] ++ derLength content.length).length = 1 + (derLength content.length).length := by
    rw [List.length_append, List.length_singleton]
  have hroom : 1 + (derLength content.length).length + content.length ≤ (wrapDER tag content ++ trailing).length := by
    rw [hwrap, List.length_append, hpre, List.length_append]
    omega
  rw [hparse, tagValue_eq hstart hstart' hlen, if_neg (by omega), if_pos hroom, hwrap,
    slice_append_right _ _ hpre.le, hpre, Nat.sub_self, slice_zero_length]

/-- A content of 200 bytes, with a length of two, and one more byte behind it. -/
theorem derCodec_200 : (zeros 200).length < 2 ^ 31 ∧
    parseContextTag (wrapDER 0xA2 (zeros 200) ++ [7]) = .ok (zeros 200) := by
  have h : (zeros 200).length < 2 ^ 31 := by rw [length_zeros]; decide
  exact ⟨h, (derCodec 0xA2 (zeros 200) [7] h).1⟩

end Ntlm
end SmbServer
