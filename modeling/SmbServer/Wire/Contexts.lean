/-
# The contexts of a NEGOTIATE response

`NegotiateResponse.Append` allocates a buffer and writes the fixed part, the security
buffer and, for SMB 3.1.1, the contexts into it.  Three formulas have to agree on where a
context stands: the size of the buffer adds up `alignUp(8+len, 8)`, the loop moves `off`
on to the next multiple of eight, and `parseContexts` takes `alignUp` of the end of the
last one.  They do, since the first context stands at a multiple of eight
(`next_context`), and the contexts come back as they were written
(`negotiateContexts_roundTrip`).
-/

import SmbServer.Wire.Decoding
import SmbServer.Wire.Responses

namespace SmbServer
open List
namespace Wire

variable {cs : List NegotiateContext} {n off : ℕ} {r : NegotiateResponse}

/-! ### The loop over the contexts -/

theorem length_writeContexts (cs : List NegotiateContext) (b : Bytes) (off : ℕ) :
    (writeContexts cs b off).length = b.length := by
  induction cs generalizing b off with
  | nil => rfl
  | cons c cs ih => rw [writeContexts, ih]; simp

/-- The contexts are written from their offset on. -/
theorem slice_writeContexts {b : Bytes} {k : ℕ} (h : k + n ≤ off) :
    slice (writeContexts cs b off) k n = slice b k n := by
  induction cs generalizing b off with
  | nil => rfl
  | cons c cs ih =>
    rw [writeContexts, ih (by omega), slice_copyAt_before _ _ (by omega), slice_copyAt_before _ _ (by omega),
      slice_copyAt_before _ _ h]

/-- The offsets that the loop of `Append` writes the contexts at, in a buffer of `len` bytes. -/
def contextOffsets (len : ℕ) : List NegotiateContext → ℕ → List (ℕ × NegotiateContext)
  | [], _ => []
  | c :: cs, off =>
    let next := off + 8 + min c.data.length (len - (off + 8))
    (off, c) :: contextOffsets len cs (next + pad8 next)

/-- What `Append` allocates for the contexts. -/
def contextsSize (cs : List NegotiateContext) : ℕ := (cs.map fun c => alignUp8 (8 + c.data.length)).sum

theorem contextsSize_cons (c : NegotiateContext) (cs : List NegotiateContext) :
    contextsSize (c :: cs) = alignUp8 (8 + c.data.length) + contextsSize cs := by
  rw [contextsSize, map_cons, sum_cons, contextsSize]

/-- The three formulas for the place of the next context. -/
theorem next_context (h : off % 8 = 0) :
    off + 8 + n + pad8 (off + 8 + n) = off + alignUp8 (8 + n) ∧
      alignUp8 (off + 8 + n) = off + alignUp8 (8 + n) ∧ (off + alignUp8 (8 + n)) % 8 = 0 ∧ 8 + n ≤ alignUp8 (8 + n) := by
  unfold pad8 alignUp8
  omega

/-- Each context is written where there is room for it, at a multiple of eight. -/
theorem contextOffsets_fit {len : ℕ} (halign : off % 8 = 0)
    (hroom : off + contextsSize cs ≤ len) {p : ℕ × NegotiateContext} (hp : p ∈ contextOffsets len cs off) :
    p.1 % 8 = 0 ∧ p.1 + 8 + p.2.data.length ≤ len := by
  induction cs generalizing off with
  | nil => cases hp
  | cons c cs ih =>
    rw [contextsSize_cons] at hroom
    obtain ⟨hnext, -, halign', hle⟩ := next_context (n := c.data.length) halign
    unfold contextOffsets at hp
    rcases mem_cons.1 hp with rfl | hp
    · exact ⟨halign, by dsimp only; omega⟩
    · rw [min_eq_left (by omega), hnext] at hp
      exact ih halign' (by omega) hp

/-- **The contexts come back** from a buffer that has room for them. -/
theorem parseContexts_writeContexts {b : Bytes} (halign : off % 8 = 0)
    (hroom : off + contextsSize cs ≤ b.length) (hdata : ∀ c ∈ cs, c.data.length < 2 ^ 16) :
    parseContexts (writeContexts cs b off) cs.length off = .ok cs := by
  induction cs generalizing b off with
  | nil => rfl
  | cons c cs ih =>
    rw [contextsSize_cons] at hroom
    obtain ⟨hnext, hnext', halign', hle⟩ := next_context (n := c.data.length) halign
    have hlen : (UInt16.ofNat c.data.length).toNat = c.data.length :=
      UInt16.toNat_ofNat_of_lt' (hdata c (mem_cons_self ..))
    unfold writeContexts
    simp only [length_copyAt]
    rw [min_eq_left (by omega), hnext]
    generalize hb : copyAt (copyAt (copyAt b off (put16 c.type)) (off + 2) (put16 (UInt16.ofNat c.data.length)))
      (off + 8) c.data = b'
    have hlen' : b'.length = b.length := by rw [← hb, length_copyAt, length_copyAt, length_copyAt]
    have hih := ih (b := b') halign' (by omega) fun c hc => hdata c (mem_cons_of_mem _ hc)
    have hw := length_writeContexts cs b' (off + alignUp8 (8 + c.data.length))
    have hslice : ∀ {k n : ℕ}, k + n ≤ off + 8 + c.data.length →
        slice (writeContexts cs b' (off + alignUp8 (8 + c.data.length))) k n = slice b' k n := fun h =>
      slice_writeContexts (by omega)
    generalize writeContexts cs b' (off + alignUp8 (8 + c.data.length)) = w at hih hw hslice
    have htype : u16At w off = c.type := by
      refine u16At_of_slice ((hslice (by omega)).trans ?_)
      rw [← hb, slice_copyAt_before _ _ (by omega), slice_copyAt_before _ _ (by omega)]
      exact slice_copyAt_self (by rw [length_put16]; omega)
    have hcount : u16At w (off + 2) = UInt16.ofNat c.data.length := by
      refine u16At_of_slice ((hslice (by omega)).trans ?_)
      rw [← hb, slice_copyAt_before _ _ (by omega)]
      exact slice_copyAt_self (by rw [length_put16, length_copyAt]; omega)
    have hd : slice w (off + 8) c.data.length = c.data := by
      rw [hslice le_rfl, ← hb]
      exact slice_copyAt_self (by rw [length_copyAt, length_copyAt]; omega)
    have hoff : ((off : ℤ)).toNat = off := rfl
    have hdslice : (Res.slice w (off + 8) c.data.length : Res Error Bytes) = .ok c.data := by
      rw [Res.slice, if_pos (by omega), hd]
    rw [length_cons, parseContexts, if_neg (by omega)]
    simp (disch := omega) only [hoff, Res.u16_bind, htype, hcount, hlen]
    rw [if_neg (by omega), hdslice, hnext', hih]
    rfl

/-! ### The response -/

/-- The fields of a response, where `Append` puts them. -/
structure NegotiateResponse.Written (r : NegotiateResponse) (b : Bytes) : Prop where
  securityMode : u16At b 2 = r.securityMode
  dialectRevision : u16At b 4 = r.dialectRevision
  contextCount : u16At b 6 = UInt16.ofNat r.contexts.length
  serverGuid : slice b 8 16 = r.serverGuid.1
  capabilities : u32At b 24 = r.capabilities
  securityBufferOffset : u16At b 56 = 128
  securityBufferLength : u16At b 58 = UInt16.ofNat r.securityBuffer.length
  contextOffset : r.dialectRevision = dialectSMB311 →
    u32At b 60 = UInt32.ofNat (128 + r.securityBuffer.length + pad8 (64 + r.securityBuffer.length))

/-- The fixed part of a response. -/
def NegotiateResponse.fixedPart (r : NegotiateResponse) : Bytes :=
  put16 65 ++ put16 r.securityMode ++ put16 r.dialectRevision ++
    put16 (UInt16.ofNat r.contexts.length) ++ r.serverGuid.1 ++ put32 r.capabilities ++
    put32 r.maxTransactSize ++ put32 r.maxReadSize ++ put32 r.maxWriteSize ++
    put64 r.systemTime ++ put64 r.serverStartTime ++ put16 128 ++ put16 (UInt16.ofNat r.securityBuffer.length) ++
    put32 (if r.dialectRevision = dialectSMB311 then
      UInt32.ofNat (128 + r.securityBuffer.length + pad8 (64 + r.securityBuffer.length)) else 0)

theorem NegotiateResponse.length_fixedPart (r : NegotiateResponse) : r.fixedPart.length = 64 := by
  simp [fixedPart, r.serverGuid.2]

theorem NegotiateResponse.written_fixedPart (r : NegotiateResponse) : r.Written r.fixedPart := by
  have hguid := r.serverGuid.2
  have hlast : ∀ v, u32At (put32 v) 0 = v := fun v => by simpa using u32At_put32 v []
  unfold fixedPart
  simp only [append_assoc]
  constructor <;> intros <;>
    simp [slice_head, slice_append_right, u16At_append_right, u32At_append_right, u16At_put16, u32At_put32, *]

/-- The response of SMB 3.1.1: the buffer, with the contexts written into it. -/
theorem NegotiateResponse.encode_311 (h311 : r.dialectRevision = dialectSMB311) :
    r.encode = writeContexts r.contexts (r.fixedPart ++ r.securityBuffer ++
        zeros (pad8 (64 + r.securityBuffer.length) + contextsSize r.contexts))
      (64 + r.securityBuffer.length + pad8 (64 + r.securityBuffer.length)) := by
  have hzeros : 64 + r.securityBuffer.length + pad8 (64 + r.securityBuffer.length) + contextsSize r.contexts -
      (64 + r.securityBuffer.length) = pad8 (64 + r.securityBuffer.length) + contextsSize r.contexts := by omega
  rw [← hzeros]
  unfold encode fixedPart contextsSize
  simp only [h311, if_true]

theorem NegotiateResponse.encode_other (h : r.dialectRevision ≠ dialectSMB311) :
    r.encode = r.fixedPart ++ r.securityBuffer := by
  unfold encode fixedPart
  simp [h, zeros]

theorem NegotiateResponse.slice_encode {k : ℕ} (h : k + n ≤ 64 + r.securityBuffer.length) :
    slice r.encode k n = slice (r.fixedPart ++ r.securityBuffer) k n := by
  by_cases h311 : r.dialectRevision = dialectSMB311
  · rw [encode_311 h311, slice_writeContexts (by omega), slice_append_left]
    rw [length_append, r.length_fixedPart]
    exact h
  · rw [encode_other h311]

theorem NegotiateResponse.written_encode (r : NegotiateResponse) : r.Written r.encode := by
  have hw := r.written_fixedPart
  have hslice : ∀ {k n : ℕ}, k + n ≤ 64 → slice r.encode k n = slice r.fixedPart k n := fun h => by
    rw [slice_encode (by omega), slice_append_left _ (by rw [r.length_fixedPart]; exact h)]
  have h16 : ∀ {k : ℕ}, k + 2 ≤ 64 → u16At r.encode k = u16At r.fixedPart k := fun h => by
    rw [u16At, hslice h, u16At]
  have h32 : ∀ {k : ℕ}, k + 4 ≤ 64 → u32At r.encode k = u32At r.fixedPart k := fun h => by
    rw [u32At, hslice h, u32At]
  exact
    { securityMode := (h16 (by decide)).trans hw.securityMode
      dialectRevision := (h16 (by decide)).trans hw.dialectRevision
      contextCount := (h16 (by decide)).trans hw.contextCount
      serverGuid := (hslice (by decide)).trans hw.serverGuid
      capabilities := (h32 (by decide)).trans hw.capabilities
      securityBufferOffset := (h16 (by decide)).trans hw.securityBufferOffset
      securityBufferLength := (h16 (by decide)).trans hw.securityBufferLength
      contextOffset := fun h311 => (h32 (by decide)).trans (hw.contextOffset h311) }

/-- **The contexts and the security buffer of a response come back from it.** -/
theorem negotiateContexts_roundTrip (r : NegotiateResponse) (h311 : r.dialectRevision = dialectSMB311)
    (hsec : r.securityBuffer.length < 2 ^ 16) (hcount : r.contexts.length < 2 ^ 16)
    (hdata : ∀ c ∈ r.contexts, c.data.length < 2 ^ 16) :
    (∀ p ∈ contextOffsets r.encode.length r.contexts (64 + r.securityBuffer.length + pad8 (64 + r.securityBuffer.length)),
      p.1 % 8 = 0 ∧ p.1 + 8 + p.2.data.length ≤ r.encode.length) ∧
    parseContexts r.encode (u16At r.encode 6).toNat ((u32At r.encode 60).toNat - headerSize) = .ok r.contexts ∧
    64 + r.securityBuffer.length ≤ r.encode.length ∧
    slice r.encode ((u16At r.encode 56).toNat - headerSize) (u16At r.encode 58).toNat = r.securityBuffer := by
  have hw := r.written_encode
  have h64 : headerSize = 64 := rfl
  have hpad : pad8 (64 + r.securityBuffer.length) < 8 := Nat.mod_lt _ (by decide)
  have halign : (64 + r.securityBuffer.length + pad8 (64 + r.securityBuffer.length)) % 8 = 0 := by
    unfold pad8
    omega
  have hlen : r.encode.length = 64 + r.securityBuffer.length + pad8 (64 + r.securityBuffer.length) +
      contextsSize r.contexts := by
    rw [NegotiateResponse.encode_311 h311, length_writeContexts]
    simp only [List.length_append, r.length_fixedPart, length_zeros]
    omega
  refine ⟨fun p hp => contextOffsets_fit halign hlen.ge hp, ?_, by omega, ?_⟩
  · have hn : (u16At r.encode 6).toNat = r.contexts.length := by
      rw [hw.contextCount, UInt16.toNat_ofNat_of_lt' hcount]
    have hoff : ((u32At r.encode 60).toNat : ℤ) - headerSize =
        (64 + r.securityBuffer.length + pad8 (64 + r.securityBuffer.length) : ℕ) := by
      rw [hw.contextOffset h311, UInt32.toNat_ofNat_of_lt' (show _ < 2 ^ 32 by omega)]
      omega
    rw [hn, hoff, NegotiateResponse.encode_311 h311]
    refine parseContexts_writeContexts halign ?_ hdata
    simp only [List.length_append, r.length_fixedPart, length_zeros]
    omega
  · have hn : (u16At r.encode 58).toNat = r.securityBuffer.length := by
      rw [hw.securityBufferLength, UInt16.toNat_ofNat_of_lt' hsec]
    have hoff : (u16At r.encode 56).toNat - headerSize = r.fixedPart.length := by
      rw [hw.securityBufferOffset, r.length_fixedPart]
      rfl
    rw [hn, hoff, NegotiateResponse.slice_encode (by rw [r.length_fixedPart]), slice_append_right _ _ le_rfl,
      Nat.sub_self]
    exact List.take_of_length_le (by simp)

/-- A response with a security buffer of three bytes and the contexts the server sends. -/
def response311 : NegotiateResponse where
  securityMode := 1
  dialectRevision := dialectSMB311
  serverGuid := Arr.zero 16
  capabilities := 0
  maxTransactSize := 65536
  maxReadSize := 65536
  maxWriteSize := 65536
  securityBuffer := [0x60, 0x01, 0x00]
  contexts := [⟨1, [0x01, 0x00, 0x00, 0x00, 0x01, 0x00]⟩, ⟨2, [0x01, 0x00, 0x01, 0x00]⟩]

theorem negotiateContexts_roundTrip_two :
    parseContexts response311.encode (u16At response311.encode 6).toNat ((u32At response311.encode 60).toNat - headerSize) =
      .ok response311.contexts :=
  (negotiateContexts_roundTrip response311 rfl (by decide) (by decide) (by decide)).2.1

end Wire
end SmbServer
