/-
# Byte strings

Slices, little-endian words and the two ways a Go program writes into a buffer
it already holds: `append`, which is `++`, and `copy` into a position, which is
`copyAt`.  A slice that runs past the end is short here and a run-time panic in
Go; the parsers of `SmbServer.Wire` check the bound first (`Res.slice`).

`copyAt` recurses on the buffer, never on the bytes copied in, so the length of
a buffer is known without evaluating what was written to it.
-/

import Mathlib.Data.List.Basic
import Mathlib.Data.List.GetD
import Mathlib.Tactic.Ring

namespace SmbServer
open List Option Nat

variable {a b src : Bytes} {n o : ℕ}

/-- A Go `[]byte`. -/
abbrev Bytes := List UInt8

/-- `b[o : o+n]`. -/
def slice (b : Bytes) (o n : ℕ) : Bytes := (b.drop o).take n

/-- `copy(b[o:], src)`: as many bytes as both sides have. -/
def copyAt : Bytes → ℕ → Bytes → Bytes
  | [], _, _ => []
  | b :: bs, 0, src => src.headD b :: copyAt bs 0 src.tail
  | b :: bs, o + 1, src => b :: copyAt bs o src

/-- `make([]byte, n)`. -/
def zeros (n : ℕ) : Bytes := List.replicate n 0

/-- The `w` low bytes of `n`, least significant first. -/
def leBytes : ℕ → ℕ → Bytes
  | 0, _ => []
  | w + 1, n => UInt8.ofNat n :: leBytes w (n / 256)

/-- The number whose little-endian bytes are given. -/
def leNat : Bytes → ℕ
  | [] => 0
  | b :: bs => b.toNat + 256 * leNat bs

/-- `put16`, `put32` and `put64`: the bytes of a little-endian word. -/
def put16 (v : UInt16) : Bytes := leBytes 2 v.toNat

@[inherit_doc put16] def put32 (v : UInt32) : Bytes := leBytes 4 v.toNat

@[inherit_doc put16] def put64 (v : UInt64) : Bytes := leBytes 8 v.toNat

/-- `binary.LittleEndian.Uint16(b[o:o+2])`, and its 32 and 64 bit siblings. -/
def u16At (b : Bytes) (o : ℕ) : UInt16 := UInt16.ofNat (leNat (slice b o 2))

@[inherit_doc u16At] def u32At (b : Bytes) (o : ℕ) : UInt32 := UInt32.ofNat (leNat (slice b o 4))

@[inherit_doc u16At] def u64At (b : Bytes) (o : ℕ) : UInt64 := UInt64.ofNat (leNat (slice b o 8))

/-- `b[o]`. -/
def u8At (b : Bytes) (o : ℕ) : UInt8 := b.getD o 0

/-! ### Lengths -/

@[simp] theorem length_leBytes (w n : ℕ) : (leBytes w n).length = w := by
  induction w generalizing n with
  | zero => rfl
  | succ w ih => simp only [leBytes, length_cons, ih]

@[simp] theorem length_put16 (v : UInt16) : (put16 v).length = 2 := length_leBytes _ _

@[simp] theorem length_put32 (v : UInt32) : (put32 v).length = 4 := length_leBytes _ _

@[simp] theorem length_put64 (v : UInt64) : (put64 v).length = 8 := length_leBytes _ _

@[simp] theorem length_zeros (n : ℕ) : (zeros n).length = n := length_replicate

@[simp] theorem length_copyAt (b : Bytes) (o : ℕ) (src : Bytes) :
    (copyAt b o src).length = b.length := by
  induction b generalizing o src with
  | nil => rfl
  | cons x b ih => cases o <;> simp only [copyAt, length_cons, ih]

@[simp] theorem length_slice (b : Bytes) (o n : ℕ) :
    (slice b o n).length = min n (b.length - o) := by
  simp [slice]

/-! ### Words -/

theorem leNat_leBytes (w n : ℕ) : leNat (leBytes w n) = n % 256 ^ w := by
  induction w generalizing n with
  | zero => simp [leBytes, leNat, mod_one]
  | succ w ih =>
    rw [leBytes, leNat, ih, pow_succ', mod_mul, UInt8.toNat_ofNat']

theorem leNat_lt (b : Bytes) : leNat b < 256 ^ b.length := by
  induction b with
  | nil => simp [leNat]
  | cons x b ih =>
    have hx : x.toNat < 256 := x.toNat_lt
    rw [leNat, length_cons, pow_succ]
    omega

theorem leBytes_leNat (b : Bytes) : leBytes b.length (leNat b) = b := by
  induction b with
  | nil => rfl
  | cons x b ih =>
    have hx : x.toNat < 256 := x.toNat_lt
    have hdiv : (x.toNat + 256 * leNat b) / 256 = leNat b := by omega
    have hmod : UInt8.ofNat (x.toNat + 256 * leNat b) = x := by
      rw [← UInt8.toNat_inj, UInt8.toNat_ofNat']
      omega
    rw [length_cons, leNat, leBytes, hdiv, hmod, ih]

theorem leBytes_leNat_slice (h : o + n ≤ b.length) :
    leNat (slice b o n) < 256 ^ n ∧ leBytes n (leNat (slice b o n)) = slice b o n := by
  have hlen : (slice b o n).length = n := by rw [length_slice]; omega
  have hlt := leNat_lt (slice b o n)
  have hb := leBytes_leNat (slice b o n)
  rw [hlen] at hlt hb
  exact ⟨hlt, hb⟩

/-- A word read and written again is the bytes it was read from. -/
theorem put16_u16At (h : o + 2 ≤ b.length) : put16 (u16At b o) = slice b o 2 := by
  obtain ⟨hlt, hb⟩ := leBytes_leNat_slice h
  rw [put16, u16At, UInt16.toNat_ofNat_of_lt' hlt, hb]

@[inherit_doc put16_u16At]
theorem put32_u32At (h : o + 4 ≤ b.length) : put32 (u32At b o) = slice b o 4 := by
  obtain ⟨hlt, hb⟩ := leBytes_leNat_slice h
  rw [put32, u32At, UInt32.toNat_ofNat_of_lt' hlt, hb]

@[inherit_doc put16_u16At]
theorem put64_u64At (h : o + 8 ≤ b.length) : put64 (u64At b o) = slice b o 8 := by
  obtain ⟨hlt, hb⟩ := leBytes_leNat_slice h
  rw [put64, u64At, UInt64.toNat_ofNat_of_lt' hlt, hb]

/-- A word read where it was written is the word. -/
theorem u16At_of_slice {v : UInt16} (h : slice b o 2 = put16 v) :
    u16At b o = v := by
  have hv : v.toNat < 256 ^ 2 := v.toNat_lt
  rw [u16At, h, put16, leNat_leBytes, mod_eq_of_lt hv, UInt16.ofNat_toNat]

@[inherit_doc u16At_of_slice]
theorem u32At_of_slice {v : UInt32} (h : slice b o 4 = put32 v) :
    u32At b o = v := by
  have hv : v.toNat < 256 ^ 4 := v.toNat_lt
  rw [u32At, h, put32, leNat_leBytes, mod_eq_of_lt hv, UInt32.ofNat_toNat]

@[inherit_doc u16At_of_slice]
theorem u64At_of_slice {v : UInt64} (h : slice b o 8 = put64 v) :
    u64At b o = v := by
  have hv : v.toNat < 256 ^ 8 := v.toNat_lt
  rw [u64At, h, put64, leNat_leBytes, mod_eq_of_lt hv, UInt64.ofNat_toNat]

theorem put32_inj {v v' : UInt32} (h : put32 v = put32 v') : v = v' := by
  have hself : ∀ v, slice (put32 v) 0 4 = put32 v := fun v => take_of_length_le (by simp)
  have hv : u32At (put32 v) 0 = v' := u32At_of_slice (by rw [h, hself])
  exact (u32At_of_slice (hself v)).symm.trans hv

theorem put64_inj {v v' : UInt64} (h : put64 v = put64 v') : v = v' := by
  have hself : ∀ v, slice (put64 v) 0 8 = put64 v := fun v => take_of_length_le (by simp)
  have hv : u64At (put64 v) 0 = v' := u64At_of_slice (by rw [h, hself])
  exact (u64At_of_slice (hself v)).symm.trans hv

/-! ### Slices of what was appended or copied -/

theorem slice_append_left (b : Bytes) (h : o + n ≤ a.length) :
    slice (a ++ b) o n = slice a o n := by
  rw [slice, slice, drop_append_of_le_length (by omega),
    take_append_of_le_length (by rw [length_drop]; omega)]

theorem slice_append_right (b : Bytes) (n : ℕ) (h : a.length ≤ o) :
    slice (a ++ b) o n = slice b (o - a.length) n := by
  obtain ⟨k, rfl⟩ := Nat.exists_eq_add_of_le h
  rw [slice, slice, Nat.add_sub_cancel_left, ← drop_drop, drop_left]

theorem slice_zero_length (a b : Bytes) : slice (a ++ b) 0 a.length = a := by
  rw [slice, drop_zero, take_left]

theorem slice_head (b : Bytes) (h : a.length = n) : slice (a ++ b) 0 n = a := by
  rw [← h, slice_zero_length]

theorem slice_add (b : Bytes) (o n m : ℕ) : slice b o n ++ slice b (o + n) m = slice b o (n + m) := by
  rw [slice, slice, slice, ← drop_drop, take_add]

theorem u16At_append_left (b : Bytes) (h : o + 2 ≤ a.length) :
    u16At (a ++ b) o = u16At a o := by
  rw [u16At, u16At, slice_append_left b h]

theorem u32At_append_left (b : Bytes) (h : o + 4 ≤ a.length) :
    u32At (a ++ b) o = u32At a o := by
  rw [u32At, u32At, slice_append_left b h]

theorem u64At_append_left (b : Bytes) (h : o + 8 ≤ a.length) :
    u64At (a ++ b) o = u64At a o := by
  rw [u64At, u64At, slice_append_left b h]

theorem u16At_append_right (b : Bytes) (h : a.length ≤ o) :
    u16At (a ++ b) o = u16At b (o - a.length) := by
  rw [u16At, u16At, slice_append_right b 2 h]

theorem u32At_append_right (b : Bytes) (h : a.length ≤ o) :
    u32At (a ++ b) o = u32At b (o - a.length) := by
  rw [u32At, u32At, slice_append_right b 4 h]

theorem u64At_append_right (b : Bytes) (h : a.length ≤ o) :
    u64At (a ++ b) o = u64At b (o - a.length) := by
  rw [u64At, u64At, slice_append_right b 8 h]

theorem u16At_drop (b : Bytes) (n o : ℕ) : u16At (b.drop n) o = u16At b (n + o) := by
  rw [u16At, u16At, slice, slice, drop_drop]

theorem u32At_drop (b : Bytes) (n o : ℕ) : u32At (b.drop n) o = u32At b (n + o) := by
  rw [u32At, u32At, slice, slice, drop_drop]

theorem u16At_put16 (v : UInt16) (b : Bytes) : u16At (put16 v ++ b) 0 = v :=
  u16At_of_slice (slice_head b (length_put16 v))

theorem u32At_put32 (v : UInt32) (b : Bytes) : u32At (put32 v ++ b) 0 = v :=
  u32At_of_slice (slice_head b (length_put32 v))

theorem u64At_put64 (v : UInt64) (b : Bytes) : u64At (put64 v ++ b) 0 = v :=
  u64At_of_slice (slice_head b (length_put64 v))

theorem slice_slice (b : Bytes) {m : ℕ} (h : o + n ≤ m) : slice (slice b 0 m) o n = slice b o n := by
  rw [slice, slice, slice, drop_zero, drop_take, take_take, min_eq_left (by omega)]

/-- `copy` of a source that fits replaces that stretch and nothing else. -/
theorem copyAt_eq {s : Bytes} (h : o + s.length ≤ b.length) :
    copyAt b o s = b.take o ++ s ++ b.drop (o + s.length) := by
  induction b generalizing o s with
  | nil =>
    obtain rfl : o = 0 := by simp only [length_nil] at h; omega
    obtain rfl : s = [] := length_eq_zero_iff.mp (by simp only [length_nil] at h; omega)
    rfl
  | cons x b ih =>
    cases o with
    | zero =>
      cases s with
      | nil =>
        have := ih (o := 0) (s := []) (by simp)
        simp only [take_zero, length_nil, drop_zero, nil_append,
          Nat.add_zero] at this ⊢
        rw [copyAt, headD_nil, tail_nil, this]
      | cons y s =>
        have := ih (o := 0) (s := s) (by simp only [length_cons] at h; omega)
        simp only [take_zero, nil_append, Nat.zero_add] at this ⊢
        rw [copyAt, headD_cons, tail_cons, this, length_cons, drop_succ_cons,
          cons_append]
    | succ o =>
      have := ih (o := o) (s := s) (by simp only [length_cons] at h; omega)
      rw [copyAt, this, take_succ_cons, succ_add, drop_succ_cons, cons_append,
        cons_append]

/-- `copy` behind a prefix leaves the prefix alone. -/
theorem copyAt_append_right (a b : Bytes) (o : ℕ) (src : Bytes) :
    copyAt (a ++ b) (a.length + o) src = a ++ copyAt b o src := by
  induction a with
  | nil => simp
  | cons x a ih => rw [length_cons, succ_add, cons_append, copyAt, ih, cons_append]

theorem copyAt_slice (h : o + n ≤ b.length) : copyAt b o (slice b o n) = b := by
  have hlen : (slice b o n).length = n := by rw [length_slice]; omega
  rw [copyAt_eq (by rw [hlen]; exact h), hlen, slice, append_assoc, ← drop_drop,
    take_append_drop, take_append_drop]

theorem take_copyAt (b : Bytes) (src : Bytes) (h : n ≤ o) :
    (copyAt b o src).take n = b.take n := by
  induction b generalizing o n with
  | nil => rfl
  | cons x b ih =>
    cases n with
    | zero => simp
    | succ n =>
      obtain ⟨o, rfl⟩ : ∃ k, o = k + 1 := ⟨o - 1, by omega⟩
      rw [copyAt, take_succ_cons, take_succ_cons, ih (by omega)]

theorem drop_copyAt_of_le (b : Bytes) (src : Bytes) (h : o + src.length ≤ n) :
    (copyAt b o src).drop n = b.drop n := by
  induction b generalizing o n src with
  | nil => rfl
  | cons x b ih =>
    cases o with
    | zero =>
      cases n with
      | zero =>
        obtain rfl : src = [] := length_eq_zero_iff.mp (by omega)
        have := ih (o := 0) (n := 0) [] (by simp)
        simp only [drop_zero] at this ⊢
        rw [copyAt, headD_nil, tail_nil, this]
      | succ n =>
        rw [copyAt, drop_succ_cons, drop_succ_cons]
        exact ih src.tail (by rw [length_tail]; omega)
    | succ o =>
      obtain ⟨n, rfl⟩ : ∃ k, n = k + 1 := ⟨n - 1, by omega⟩
      rw [copyAt, drop_succ_cons, drop_succ_cons, ih src (by omega)]

/-- `copy` at an offset past a prefix is `copy` into what follows the prefix. -/
theorem drop_copyAt (b : Bytes) (n o : ℕ) (src : Bytes) :
    (copyAt b (n + o) src).drop n = copyAt (b.drop n) o src := by
  induction n generalizing b with
  | zero => simp
  | succ n ih =>
    cases b with
    | nil => simp [copyAt]
    | cons x b =>
      rw [show n + 1 + o = (n + o) + 1 by omega, copyAt, drop_succ_cons,
        drop_succ_cons, ih]

/-- The second of two copies to one place is the one that stays. -/
theorem copyAt_copyAt {s s' : Bytes} (h : o + s'.length ≤ b.length) (hs : s.length = s'.length) :
    copyAt (copyAt b o s) o s' = copyAt b o s' := by
  rw [copyAt_eq (by rw [length_copyAt]; exact h), copyAt_eq h, take_copyAt _ _ le_rfl,
    drop_copyAt_of_le _ _ (by omega)]

theorem slice_copyAt_before (b : Bytes) {k : ℕ} (src : Bytes) (h : k + n ≤ o) :
    slice (copyAt b o src) k n = slice b k n := by
  have := congrArg (List.drop k) (take_copyAt b src h)
  rwa [drop_take, drop_take, Nat.add_sub_cancel_left] at this

theorem slice_copyAt_after (b : Bytes) {k : ℕ} (n : ℕ) (src : Bytes) (h : o + src.length ≤ k) :
    slice (copyAt b o src) k n = slice b k n := by
  rw [slice, slice, drop_copyAt_of_le b src h]

theorem slice_copyAt_self (h : o + src.length ≤ b.length) :
    slice (copyAt b o src) o src.length = src := by
  have ho : (b.take o).length = o := by rw [length_take]; omega
  rw [copyAt_eq h, append_assoc, slice_append_right _ _ (by omega), ho, Nat.sub_self,
    slice_zero_length]

/-! ### Byte by byte -/

theorem u8At_eq_slice (b : Bytes) (k : ℕ) : u8At b k = (slice b k 1).headD 0 := by
  rw [u8At, slice, getD_eq_getElem?_getD, ← head?_drop]
  cases b.drop k <;> rfl

theorem u8At_copyAt (h : o + src.length ≤ b.length) (k : ℕ) :
    u8At (copyAt b o src) k = if o ≤ k ∧ k < o + src.length then u8At src (k - o) else u8At b k := by
  have ho : (b.take o).length = o := by rw [length_take]; omega
  unfold u8At
  rw [copyAt_eq h, append_assoc]
  split_ifs with hk
  · rw [getD_append_right _ _ _ _ (by omega), ho, getD_append _ _ _ _ (by omega)]
  · rcases lt_or_ge k o with hlt | hge
    · rw [getD_append _ _ _ _ (by omega), getD_eq_getElem?_getD, getElem?_take_of_lt hlt,
        ← getD_eq_getElem?_getD]
    · rw [getD_append_right _ _ _ _ (by omega), ho, getD_append_right _ _ _ _ (by omega),
        getD_eq_getElem?_getD, getElem?_drop, ← getD_eq_getElem?_getD]
      congr 1
      omega

/-- Two slices of buffers of one length are the same byte for byte. -/
theorem slice_eq_slice_iff (hl : a.length = b.length) (h : o + n ≤ b.length) :
    slice a o n = slice b o n ↔ ∀ k, o ≤ k → k < o + n → u8At a k = u8At b k := by
  have hget : ∀ {c : Bytes} {i}, o + n ≤ c.length → i < n → (slice c o n)[i]? = some (u8At c (o + i)) := by
    intro c i hc hi
    rw [slice, getElem?_take_of_lt hi, getElem?_drop, u8At,
      getD_eq_getElem?_getD, getElem?_eq_getElem (by omega), getD_some]
  constructor
  · intro heq k hk hlt
    have := congrArg (·[k - o]?) heq
    simp only [hget (hl ▸ h) (show k - o < n by omega), hget h (show k - o < n by omega)] at this
    simpa [show o + (k - o) = k by omega] using this
  · intro hall
    refine ext_getElem? fun i => ?_
    rcases lt_or_ge i n with hi | hi
    · rw [hget (hl ▸ h) hi, hget h hi, hall _ (by omega) (by omega)]
    · rw [getElem?_eq_none (by rw [length_slice]; omega), getElem?_eq_none (by rw [length_slice]; omega)]

end SmbServer
