/-
# Names through UTF-16

A Go string of a backend and the UTF-16 of a client both stand for a list of Unicode scalar
values, the `Char`s of Lean (`utf8`, `utf16le`).

| scalar value         | UTF-16             | `UTF16ToBytes` | `UTF16FromBytes`              |
|----------------------|--------------------|----------------|-------------------------------|
| below `U+10000`      | one unit           | the unit       | the character                 |
| from `U+10000` on    | two surrogates     | its low 16 bits | two replacement characters    |

`UTF16ToBytes` goes through the string a rune at a time and reads it right (`runes_utf8`), but
keeps 16 bits of each rune; `UTF16FromBytes` takes every unit for a rune.  So a name survives
exactly where it has no character from `U+10000` on (`names_lossless_iff`), and names that do
have one are taken for each other (`names_collide`).
-/

import SmbServer.Wire.Text

namespace SmbServer
open Function List Option
namespace Wire

variable {x : ℕ} {cs : List Char}

/-! ### The two encodings -/

/-- The UTF-8 of a list of scalar values. -/
def utf8 (cs : List Char) : GoString := cs.flatMap String.utf8EncodeChar

/-- The UTF-16 code units of a scalar value. -/
def utf16Units (c : Char) : List ℕ :=
  if c.toNat < 0x10000 then [c.toNat]
  else [0xD800 + (c.toNat - 0x10000) / 1024, 0xDC00 + (c.toNat - 0x10000) % 1024]

/-- The UTF-16LE of a list of scalar values. -/
def utf16le (cs : List Char) : Bytes := cs.flatMap fun c => (utf16Units c).flatMap (leBytes 2)

/-! ### Runes of a string -/

theorem toNat_ofNat {n : ℕ} (h : n < 256) : (UInt8.ofNat n).toNat = n := by
  rw [UInt8.toNat_ofNat']
  exact Nat.mod_eq_of_lt h

theorem contByte_ofNat (h : x < 64) : contByte (UInt8.ofNat (x + 128)) = some x := by
  have hall : ∀ x < 64, contByte (UInt8.ofNat (x + 128)) = some x := by decide
  exact hall x h

theorem leadByte_two (h : x < 30) : leadByte (UInt8.ofNat (x + 2 + 192)) = some (1, x + 2, 0x80, 0xBF) := by
  have hall : ∀ x < 30, leadByte (UInt8.ofNat (x + 2 + 192)) = some (1, x + 2, 0x80, 0xBF) := by decide
  exact hall x h

theorem leadByte_three (h : x < 16) : leadByte (UInt8.ofNat (x + 224)) =
    some (2, x, if x = 0 then 0xA0 else 0x80, if x = 13 then 0x9F else 0xBF) := by
  have hall : ∀ x < 16, leadByte (UInt8.ofNat (x + 224)) =
      some (2, x, if x = 0 then 0xA0 else 0x80, if x = 13 then 0x9F else 0xBF) := by decide
  exact hall x h

theorem leadByte_four (h : x < 5) : leadByte (UInt8.ofNat (x + 240)) =
    some (3, x, if x = 0 then 0x90 else 0x80, if x = 4 then 0x8F else 0xBF) := by
  have hall : ∀ x < 5, leadByte (UInt8.ofNat (x + 240)) =
      some (3, x, if x = 0 then 0x90 else 0x80, if x = 4 then 0x8F else 0xBF) := by decide
  exact hall x h

/-- A sequence with a lead byte and a second byte in its range. -/
theorem decodeRune_long {b lo hi : UInt8} {n acc r : ℕ} {bs : Bytes} (hlead : leadByte b = some (n, acc, lo, hi))
    (hx : x < 64) (hlo : lo.toNat ≤ x + 128) (hhi : x + 128 ≤ hi.toNat)
    (hr : contBytes n acc (UInt8.ofNat (x + 128) :: bs) = some r) :
    decodeRune b (UInt8.ofNat (x + 128) :: bs) = (r, n) := by
  have hascii : ¬b < 0x80 := by
    intro hb
    have hnone : ∀ n < 128, leadByte (UInt8.ofNat n) = none := by decide
    have := hnone b.toNat (UInt8.lt_iff_toNat_lt.1 hb)
    rw [UInt8.ofNat_toNat, hlead] at this
    cases this
  have hrange : lo ≤ UInt8.ofNat (x + 128) ∧ UInt8.ofNat (x + 128) ≤ hi := by
    rw [UInt8.le_iff_toNat_le, UInt8.le_iff_toNat_le, toNat_ofNat (by omega)]
    exact ⟨hlo, hhi⟩
  unfold decodeRune
  rw [if_neg hascii, hlead]
  dsimp only
  rw [if_pos hrange, hr]

/-- **A rune is read as it was written.** -/
theorem decodeRune_utf8 (c : Char) (rest : Bytes) : ∃ b bs, String.utf8EncodeChar c = b :: bs ∧
    decodeRune b (bs ++ rest) = (c.toNat, bs.length) := by
  have hvalid : c.toNat < 0xD800 ∨ 0xDFFF < c.toNat ∧ c.toNat < 0x110000 := c.valid
  have hv : c.val.toNat = c.toNat := rfl
  have hmod : ∀ n, n % 64 < 64 := fun n => Nat.mod_lt n (by decide)
  rw [String.utf8EncodeChar.eq_1, hv]
  generalize c.toNat = v at hvalid
  split_ifs with h1 h2 h3
  · refine ⟨_, _, rfl, ?_⟩
    have hascii : UInt8.ofNat v < 0x80 := by
      rw [UInt8.lt_iff_toNat_lt, toNat_ofNat (by omega)]
      exact Nat.lt_succ_of_le h1
    unfold decodeRune
    rw [if_pos hascii, toNat_ofNat (by omega)]
    rfl
  · refine ⟨_, _, rfl, ?_⟩
    obtain ⟨x, hx⟩ : ∃ x, v / 64 % 32 = x + 2 := ⟨v / 64 % 32 - 2, by omega⟩
    rw [hx]
    refine decodeRune_long (leadByte_two (by omega)) (hmod v) (Nat.le_add_left ..) ?_ ?_
    · show v % 64 + 128 ≤ 191
      omega
    · simp only [length_cons, length_nil, contBytes, contByte_ofNat (hmod v), bind_some, some.injEq]
      omega
  · refine ⟨_, _, rfl, ?_⟩
    refine decodeRune_long (leadByte_three (Nat.mod_lt _ (by decide))) (hmod _) ?_ ?_ ?_
    · split_ifs with h
      · show 160 ≤ v / 64 % 64 + 128
        omega
      · exact Nat.le_add_left ..
    · split_ifs with h
      · show v / 64 % 64 + 128 ≤ 159
        omega
      · show v / 64 % 64 + 128 ≤ 191
        omega
    · simp only [length_cons, length_nil, List.append_eq, cons_append, contBytes, contByte_ofNat (hmod _),
        bind_some, some.injEq]
      omega
  · refine ⟨_, _, rfl, ?_⟩
    refine decodeRune_long (leadByte_four (by omega)) (hmod _) ?_ ?_ ?_
    · split_ifs with h
      · show 144 ≤ v / 4096 % 64 + 128
        omega
      · exact Nat.le_add_left ..
    · split_ifs with h
      · show v / 4096 % 64 + 128 ≤ 143
        omega
      · show v / 4096 % 64 + 128 ≤ 191
        omega
    · simp only [length_cons, length_nil, List.append_eq, cons_append, contBytes, contByte_ofNat (hmod _),
        bind_some, some.injEq]
      omega

theorem runesAux_utf8 (cs : List Char) (fuel : ℕ) (h : (utf8 cs).length ≤ fuel) :
    runesAux fuel (utf8 cs) = cs.map Char.toNat := by
  induction cs generalizing fuel with
  | nil => cases fuel <;> rfl
  | cons c cs ih =>
    obtain ⟨b, bs, henc, hdec⟩ := decodeRune_utf8 c (utf8 cs)
    have hcons : utf8 (c :: cs) = b :: (bs ++ utf8 cs) := by rw [utf8, flatMap_cons, henc]; rfl
    rw [hcons, length_cons, length_append] at h
    obtain ⟨fuel, rfl⟩ : ∃ n, fuel = n + 1 := ⟨fuel - 1, by omega⟩
    rw [hcons, runesAux, hdec]
    dsimp only
    rw [drop_left, ih fuel (by omega), map_cons]

/-- **The runes of a string are its characters.** -/
theorem runes_utf8 (cs : List Char) : runes (utf8 cs) = cs.map Char.toNat := runesAux_utf8 cs _ le_rfl

theorem utf8_injective : Injective utf8 := by
  intro cs cs' h
  have hrunes := congrArg runes h
  rw [runes_utf8, runes_utf8] at hrunes
  exact map_injective_iff.2 (fun _ _ => Char.toNat_inj.1) hrunes

/-! ### There and back -/

theorem utf16ToBytes_utf8 (cs : List Char) : utf16ToBytes (utf8 cs) = cs.flatMap fun c => leBytes 2 c.toNat := by
  rw [utf16ToBytes, runes_utf8, flatMap_map]

theorem utf16le_low (h : ∀ c ∈ cs, c.toNat < 0x10000) :
    utf16le cs = cs.flatMap fun c => leBytes 2 c.toNat := by
  unfold utf16le
  refine flatMap_congr fun c hc => ?_
  rw [utf16Units, if_pos (h c hc), flatMap_singleton]

/-- `WriteRune` writes the UTF-8 of a character. -/
theorem encodeRune_low {c : Char} (h : c.toNat < 0x10000) : encodeRune c.toNat = String.utf8EncodeChar c := by
  have hvalid : c.toNat < 0xD800 ∨ 0xDFFF < c.toNat ∧ c.toNat < 0x110000 := c.valid
  have hv : c.val.toNat = c.toNat := rfl
  rw [String.utf8EncodeChar.eq_1, hv, encodeRune]
  generalize c.toNat = v at h hvalid
  by_cases h1 : v < 0x80
  · rw [if_pos h1, if_pos (show v ≤ 127 by omega)]
  · rw [if_neg h1, if_neg (show ¬v ≤ 127 by omega)]
    by_cases h2 : v < 0x800
    · rw [if_pos h2, if_pos (show v ≤ 2047 by omega), show 0xC0 + v / 64 = v / 64 % 32 + 192 by omega,
        show 0x80 + v % 64 = v % 64 + 128 by omega]
    · rw [if_neg h2, if_neg (show ¬(55296 ≤ v ∧ v < 57344) by omega), if_neg (show ¬v ≤ 2047 by omega),
        if_pos (show v ≤ 65535 by omega),
        show 0xE0 + v / 4096 = v / 4096 % 16 + 224 by omega, show 0x80 + v / 64 % 64 = v / 64 % 64 + 128 by omega,
        show 0x80 + v % 64 = v % 64 + 128 by omega]

theorem utf16FromBytes_low (h : ∀ c ∈ cs, c.toNat < 0x10000) : utf16FromBytes (utf16le cs) = utf8 cs := by
  rw [utf16le_low h]
  induction cs with
  | nil => rfl
  | cons c cs ih =>
    have hc := h c mem_cons_self
    have hunit : (UInt8.ofNat c.toNat).toNat + 256 * (UInt8.ofNat (c.toNat / 256)).toNat = c.toNat := by
      rw [UInt8.toNat_ofNat', UInt8.toNat_ofNat']
      omega
    rw [flatMap_cons, utf8, flatMap_cons, leBytes, leBytes, leBytes, cons_append, cons_append,
      nil_append, utf16FromBytes, hunit, encodeRune_low hc, ih fun c hc => h c (mem_cons_of_mem _ hc), utf8]

/-- Two bytes for each character, and two more from `U+10000` on. -/
theorem length_utf16le (cs : List Char) :
    (utf16le cs).length = 2 * cs.length + 2 * cs.countP fun c => decide (0x10000 ≤ c.toNat) := by
  induction cs with
  | nil => rfl
  | cons c cs ih =>
    have hcons : utf16le (c :: cs) = (utf16Units c).flatMap (leBytes 2) ++ utf16le cs := flatMap_cons ..
    rw [hcons, length_append, ih, countP_cons, length_cons]
    unfold utf16Units
    split_ifs with h1 h2 h2
    · exact absurd (of_decide_eq_true h2) (by omega)
    · simp
      omega
    · simp
      omega
    · exact absurd (decide_eq_true (by omega)) h2

/-! ### Names -/

/-- A name survives both ways. -/
structure Lossless (cs : List Char) : Prop where
  toBytes : utf16ToBytes (utf8 cs) = utf16le cs
  toBytes_fromBytes : utf16FromBytes (utf16ToBytes (utf8 cs)) = utf8 cs
  fromBytes_toBytes : utf16ToBytes (utf16FromBytes (utf16le cs)) = utf16le cs

/-- Two names are not taken for each other, when a client sends them or a directory lists
them. -/
structure Apart (cs cs' : List Char) : Prop where
  paths : utf16FromBytes (utf16le cs) = utf16FromBytes (utf16le cs') → cs = cs'
  listed : utf16ToBytes (utf8 cs) = utf16ToBytes (utf8 cs') → cs = cs'

theorem lossless_of_low (h : ∀ c ∈ cs, c.toNat < 0x10000) : Lossless cs := by
  have hto : utf16ToBytes (utf8 cs) = utf16le cs := by rw [utf16ToBytes_utf8, utf16le_low h]
  have hfrom := utf16FromBytes_low h
  exact ⟨hto, by rw [hto, hfrom], by rw [hfrom, hto]⟩

/-- `UTF16ToBytes` writes the UTF-16 of a name below `U+10000` only. -/
theorem low_of_utf16ToBytes (h : utf16ToBytes (utf8 cs) = utf16le cs) : ∀ c ∈ cs, c.toNat < 0x10000 := by
  have hlen := congrArg List.length h
  rw [length_utf16ToBytes, runes_utf8, length_map, length_utf16le] at hlen
  have hcount : cs.countP (fun c => decide (0x10000 ≤ c.toNat)) = 0 := by omega
  intro c hc
  have := countP_eq_zero.1 hcount c hc
  rw [decide_eq_true_eq] at this
  omega

/-- **Names survive, and are told apart, exactly below `U+10000`.** -/
theorem names_lossless_iff (cs cs' : List Char) :
    Lossless cs ∧ Lossless cs' ∧ Apart cs cs' ↔ ∀ c ∈ cs ++ cs', c.toNat < 0x10000 := by
  constructor
  · rintro ⟨h, h', -⟩ c hc
    rcases List.mem_append.1 hc with hc | hc
    · exact low_of_utf16ToBytes h.toBytes c hc
    · exact low_of_utf16ToBytes h'.toBytes c hc
  · intro hlow
    have h : ∀ c ∈ cs, c.toNat < 0x10000 := fun c hc => hlow c (List.mem_append_left _ hc)
    have h' : ∀ c ∈ cs', c.toNat < 0x10000 := fun c hc => hlow c (List.mem_append_right _ hc)
    have hl := lossless_of_low h
    have hl' := lossless_of_low h'
    refine ⟨hl, hl', fun heq => ?_, fun heq => ?_⟩
    · rw [utf16FromBytes_low h, utf16FromBytes_low h'] at heq
      exact utf8_injective heq
    · have hback := congrArg utf16FromBytes heq
      rw [hl.toBytes_fromBytes, hl'.toBytes_fromBytes] at hback
      exact utf8_injective hback

/-- **`U+1F600` and `U+1F601` are the same path.** -/
theorem names_collide : ¬∀ cs cs' : List Char, Lossless cs ∧ Lossless cs' ∧ Apart cs cs' := by
  intro h
  have hsame := (h [Char.ofNat 0x1F600] [Char.ofNat 0x1F601]).2.2.paths (by decide)
  exact absurd hsame (by decide)

end Wire
end SmbServer
