/-
# Encoders and decoders of `smb/wire`

`Header.Append`, `EncodeAt` and `Parse` agree on every field (`Header.codec`).

`TimeToFiletime` works in wrapping 64-bit arithmetic and is right for every time from
1601 on.  `FiletimeToTime` subtracts the epoch of 1970 in unsigned arithmetic and divides
what is left: a FILETIME from before 1970 wraps and comes back as a time some 58000 years
later (`filetime_roundTrip`).

`LockRequest.Parse` takes its elements from body offset 48, the StructureSize of a LOCK.
That size counts the first element, and the elements of a request follow its fixed part
at offset 24.  The parser asks for 24 bytes more than a request has
(`LockRequest.length_of_parse`).
-/

import SmbServer.Wire.Decoding
import SmbServer.Wire.Responses

namespace SmbServer
open List
namespace Wire

/-! ### Headers -/

/-- `Header.EncodeAt`, into a buffer that has room for a header. -/
def Header.encodeAt (h : Header) (dst : Bytes) : Bytes := copyAt dst 0 h.encode

/-- `Header.Append`. -/
def Header.append (h : Header) (dst : Bytes) : Bytes :=
  let start := dst.length
  let dst := dst ++ zeros headerSize
  dst.take start ++ h.encodeAt (dst.drop start)

theorem Header.encodeAt_eq (h : Header) {dst : Bytes} (hdst : dst.length = headerSize) : h.encodeAt dst = h.encode := by
  have hlen : 0 + h.encode.length = dst.length := by rw [h.length_encode, hdst]; rfl
  rw [encodeAt, copyAt_eq hlen.le, take_zero, nil_append, drop_eq_nil_of_le hlen.ge, append_nil]

theorem Header.append_eq (h : Header) (dst : Bytes) : h.append dst = dst ++ h.encode := by
  have hdrop : (dst ++ zeros headerSize).drop dst.length = zeros headerSize := drop_left
  show (dst ++ zeros headerSize).take dst.length ++ h.encodeAt ((dst ++ zeros headerSize).drop dst.length) = _
  rw [take_left, hdrop, h.encodeAt_eq (length_zeros _)]

/-- What comes back from the bytes of a header: all but the StructureSize, and of AsyncId and
TreeId the one the flags speak of. -/
theorem Header.parse_encode (h : Header) : Header.parse h.encode = .ok
    { h with
      structureSize := 64
      asyncId := if h.flags &&& flagAsyncCommand ≠ 0 then h.asyncId else 0
      treeId := if h.flags &&& flagAsyncCommand ≠ 0 then 0 else h.treeId } := by
  have hw := h.written_encode
  rw [Header.parse_ok h.length_encode.ge hw.protocolId]
  congr 1
  rw [Header.mk.injEq]
  refine ⟨hw.structureSize, hw.creditCharge, hw.status, hw.command, hw.credit, hw.flags, hw.nextCommand,
    hw.messageId, ?_, ?_, hw.sessionId, Subtype.ext hw.signature⟩
  · rw [hw.flags]
    split_ifs with hasync
    · exact hw.asyncId hasync
    · rfl
  · rw [hw.flags]
    split_ifs with hasync
    · rfl
    · exact hw.treeId (not_not.1 hasync)

/-- The bytes that come back from a parsed header, field by field. -/
theorem Header.slices_of_parse {b : Bytes} {h : Header} (hh : Header.parse b = .ok h) :
    slice h.encode 0 4 = slice b 0 4 ∧ slice h.encode 6 26 = slice b 6 26 ∧
      (h.flags &&& flagAsyncCommand ≠ 0 → slice h.encode 32 4 = slice b 32 4) ∧
      slice h.encode 36 28 = slice b 36 28 := by
  have hw := h.written_encode
  have hlen : 64 = h.encode.length := h.length_encode.symm
  obtain ⟨hb, hp⟩ := Header.parse_eq_ok hh
  rw [Header.parse_ok hb hp, Res.ok.injEq] at hh
  have h16 : ∀ {o : ℕ}, o + 2 ≤ 64 → u16At h.encode o = u16At b o → slice h.encode o 2 = slice b o 2 := fun ho heq => by
    rw [← put16_u16At (hlen ▸ ho), heq, put16_u16At (ho.trans hb)]
  have h32 : ∀ {o : ℕ}, o + 4 ≤ 64 → u32At h.encode o = u32At b o → slice h.encode o 4 = slice b o 4 := fun ho heq => by
    rw [← put32_u32At (hlen ▸ ho), heq, put32_u32At (ho.trans hb)]
  have h64 : ∀ {o : ℕ}, o + 8 ≤ 64 → u64At h.encode o = u64At b o → slice h.encode o 8 = slice b o 8 := fun ho heq => by
    rw [← put64_u64At (hlen ▸ ho), heq, put64_u64At (ho.trans hb)]
  have hwords : ∀ x : Bytes, slice x 6 26 = slice x 6 2 ++ slice x 8 4 ++ slice x 12 2 ++ slice x 14 2 ++
      slice x 16 4 ++ slice x 20 4 ++ slice x 24 8 := fun x => by
    rw [slice_add x 6 2 4, slice_add x 6 6 2, slice_add x 6 8 2, slice_add x 6 10 4, slice_add x 6 14 4, slice_add x 6 18 8]
  have hrest : ∀ x : Bytes, slice x 36 28 = slice x 36 4 ++ slice x 40 8 ++ slice x 48 16 := fun x => by
    rw [slice_add x 36 4 8, slice_add x 36 12 16]
  have hflags : h.flags = u32At b 16 := by rw [← hh]
  -- bytes 32 to 39 are an AsyncId, or four that are written as zeros and a TreeId
  have hid : (h.flags &&& flagAsyncCommand ≠ 0 → slice h.encode 32 4 = slice b 32 4) ∧
      slice h.encode 36 4 = slice b 36 4 := by
    by_cases hasync : h.flags &&& flagAsyncCommand = 0
    · refine ⟨fun h => absurd hasync h, h32 (by decide) ((hw.treeId hasync).trans ?_)⟩
      rw [hflags] at hasync
      rw [← hh]
      exact if_neg (not_not.2 hasync)
    · have hboth : slice h.encode 32 8 = slice b 32 8 := by
        refine h64 (by decide) ((hw.asyncId hasync).trans ?_)
        rw [hflags] at hasync
        rw [← hh]
        exact if_pos hasync
      have hsplit : ∀ x : Bytes, slice x 32 4 ++ slice x 36 4 = slice x 32 8 := fun x => slice_add ..
      rw [← hsplit, ← hsplit] at hboth
      obtain ⟨h1, h2⟩ := append_inj hboth (by rw [length_slice, length_slice]; omega)
      exact ⟨fun _ => h1, h2⟩
  refine ⟨hw.protocolId.trans hp.symm, ?_, hid.1, ?_⟩
  · rw [hwords, hwords, h16 (by decide) (hw.creditCharge.trans (by rw [← hh])),
      h32 (by decide) (hw.status.trans (by rw [← hh])), h16 (by decide) (hw.command.trans (by rw [← hh])),
      h16 (by decide) (hw.credit.trans (by rw [← hh])), h32 (by decide) (hw.flags.trans (by rw [← hh])),
      h32 (by decide) (hw.nextCommand.trans (by rw [← hh])), h64 (by decide) (hw.messageId.trans (by rw [← hh]))]
  · rw [hrest, hrest, hid.2, h64 (by decide) (hw.sessionId.trans (by rw [← hh])),
      hw.signature.trans (by rw [← hh])]

/-- **The header codec.**  Of a header that is written and parsed again, every field comes back, of
AsyncId and TreeId the one that FlagAsyncCommand says; of a header that is parsed and written
again, every byte, but for the StructureSize and the four reserved bytes before a TreeId. -/
theorem Header.codec :
    (∀ (h : Header) (dst : Bytes), ∃ h', Header.parse ((h.append dst).drop dst.length) = .ok h' ∧
      h'.creditCharge = h.creditCharge ∧ h'.status = h.status ∧ h'.command = h.command ∧
      h'.credit = h.credit ∧ h'.flags = h.flags ∧ h'.nextCommand = h.nextCommand ∧
      h'.messageId = h.messageId ∧ h'.sessionId = h.sessionId ∧ h'.signature = h.signature ∧
      (h.flags &&& flagAsyncCommand ≠ 0 → h'.asyncId = h.asyncId) ∧
      (h.flags &&& flagAsyncCommand = 0 → h'.treeId = h.treeId)) ∧
    ∀ (b dst : Bytes) (h : Header), b.length = headerSize → Header.parse b = .ok h → headerSize ≤ dst.length →
      ∀ i < headerSize, i ≠ 4 → i ≠ 5 → (h.flags &&& flagAsyncCommand = 0 → i < 32 ∨ 36 ≤ i) →
        u8At (h.encodeAt dst) i = u8At b i := by
  constructor
  · intro h dst
    rw [h.append_eq, List.drop_left, h.parse_encode]
    refine ⟨_, rfl, rfl, rfl, rfl, rfl, rfl, rfl, rfl, rfl, rfl, ?_, ?_⟩
    · intro hasync
      exact if_pos hasync
    · intro hsync
      exact if_neg (not_not.2 hsync)
  · intro b dst h hb hh hdst i hi h4 h5 hid
    have h64 : headerSize = 64 := rfl
    have hroom : 0 + h.encode.length ≤ dst.length := by rw [h.length_encode]; omega
    rw [Header.encodeAt, u8At_copyAt hroom, if_pos ⟨Nat.zero_le i, by rw [h.length_encode]; omega⟩, Nat.sub_zero]
    obtain ⟨h₁, h₂, h₃, h₄⟩ := Header.slices_of_parse hh
    have hlen : h.encode.length = b.length := h.length_encode.trans hb.symm
    have hbytes : ∀ {o n : ℕ}, slice h.encode o n = slice b o n → o + n ≤ b.length → o ≤ i → i < o + n →
        u8At h.encode i = u8At b i := fun heq hle hoi hin => (slice_eq_slice_iff hlen hle).1 heq i hoi hin
    rcases lt_or_ge i 32 with hlt | hge
    · rcases lt_or_ge i 4 with hlt' | hge'
      · exact hbytes h₁ (by omega) (by omega) (by omega)
      · exact hbytes h₂ (by omega) (by omega) (by omega)
    · rcases lt_or_ge i 36 with hlt' | hge'
      · by_cases hasync : h.flags &&& flagAsyncCommand = 0
        · have := hid hasync
          omega
        · exact hbytes (h₃ hasync) (by omega) hge (by omega)
      · exact hbytes h₄ (by omega) (by omega) (by omega)

/-- The header of a CREATE. -/
def createHeader : Header := { structureSize := 64, command := cmdCreate, messageId := 42, treeId := 7 }

theorem Header.codec_create : Header.parse createHeader.encode = .ok createHeader ∧
    u8At (createHeader.encodeAt (zeros headerSize)) 24 = u8At createHeader.encode 24 := by
  have hparse : Header.parse createHeader.encode = .ok createHeader := createHeader.parse_encode
  refine ⟨hparse, ?_⟩
  exact Header.codec.2 _ _ _ createHeader.length_encode hparse (length_zeros _).ge 24 (by decide) (by decide) (by decide)
    (fun _ => .inl (by decide))

/-! ### FILETIME -/

/-- The FILETIME of a time, as a number: the 100 ns since the beginning of 1601. -/
def Time.ticks (t : Time) : ℤ := (t.unix + 11644473600) * 10000000 + (t.nsec / 100 : ℕ)

/-- A time after the beginning of 1601 whose FILETIME fits in 64 bits. -/
structure Time.InRange (t : Time) : Prop where
  nsec : t.nsec < 1000000000
  after : -11644473600 < t.unix ∨ t.unix = -11644473600 ∧ 0 < t.nsec
  fits : t.ticks < 2 ^ 64

/-- A time without what is below 100 ns. -/
def Time.truncate (t : Time) : Time := ⟨t.unix, t.nsec / 100 * 100⟩

theorem toNat_ofInt (x : ℤ) : ((UInt64.ofInt x).toNat : ℤ) = x % 2 ^ 64 := by
  show ((UInt64.ofNat (x % 2 ^ 64).toNat).toNat : ℤ) = _
  rw [UInt64.toNat_ofNat']
  omega

/-- The wrapping arithmetic of `TimeToFiletime` gives the FILETIME, also before 1970. -/
theorem Time.InRange.toNat_timeToFiletime {t : Time} (h : t.InRange) :
    ((timeToFiletime t).toNat : ℤ) = t.ticks := by
  obtain ⟨hn, ha, hf⟩ := h
  have hzero : t ≠ Time.zero := by
    rintro rfl
    simp [Time.zero] at ha
  have hunix := toNat_ofInt t.unix
  have hepoch : epochFiletime.toNat = 116444736000000000 := rfl
  have hsecond : filetimeTicksPerSecond.toNat = 10000000 := rfl
  unfold Time.ticks at *
  rw [timeToFiletime, if_neg hzero, UInt64.toNat_add, UInt64.toNat_add, UInt64.toNat_mul, UInt64.toNat_ofNat', hepoch,
    hsecond]
  generalize (UInt64.ofInt t.unix).toNat = u at hunix
  omega

/-- What `FiletimeToTime` makes of a FILETIME, in numbers. -/
theorem filetimeToTime_eq {ft : UInt64} (h : ft ≠ 0) : filetimeToTime ft =
    ⟨((ft - epochFiletime).toNat / 10000000 : ℕ), (ft - epochFiletime).toNat % 10000000 * 100⟩ := by
  rw [filetimeToTime, if_neg h]
  simp [filetimeTicksPerSecond]

/-- The time of a FILETIME has it as its FILETIME again. -/
theorem timeToFiletime_filetimeToTime (ft : UInt64) : timeToFiletime (filetimeToTime ft) = ft := by
  by_cases hft : ft = 0
  · rw [hft]
    decide
  have hepoch : epochFiletime.toNat = 116444736000000000 := rfl
  have hadj := UInt64.toNat_sub ft epochFiletime
  rw [hepoch] at hadj
  have hlt := ft.toNat_lt
  rw [filetimeToTime_eq hft]
  generalize (ft - epochFiletime).toNat = adj at hadj
  have hunix := toNat_ofInt (adj / 10000000 : ℕ)
  have hzero : (⟨(adj / 10000000 : ℕ), adj % 10000000 * 100⟩ : Time) ≠ Time.zero := by
    intro h
    have := congrArg Time.unix h
    simp only [Time.zero] at this
    omega
  rw [timeToFiletime, if_neg hzero]
  refine UInt64.toNat_inj.1 ?_
  have hsecond : filetimeTicksPerSecond.toNat = 10000000 := rfl
  rw [UInt64.toNat_add, UInt64.toNat_add, UInt64.toNat_mul, UInt64.toNat_ofNat', hepoch, hsecond]
  dsimp only
  generalize (UInt64.ofInt (adj / 10000000 : ℕ)).toNat = u at hunix
  omega

/-- **A time comes back from its FILETIME exactly if it is not before 1970**, and a FILETIME
from its time always. -/
theorem filetime_roundTrip (t : Time) (ft : UInt64) (ht : t.InRange) :
    (filetimeToTime (timeToFiletime t) = t.truncate ↔ 0 ≤ t.unix) ∧ timeToFiletime (filetimeToTime ft) = ft := by
  refine ⟨?_, timeToFiletime_filetimeToTime ft⟩
  have hticks := ht.toNat_timeToFiletime
  obtain ⟨hn, ha, hf⟩ := ht
  generalize timeToFiletime t = ft at hticks
  have hepoch : epochFiletime.toNat = 116444736000000000 := rfl
  have hadj := UInt64.toNat_sub ft epochFiletime
  have hlt := ft.toNat_lt
  rw [hepoch] at hadj
  unfold Time.ticks at *
  by_cases hft : ft = 0
  · -- the first 100 ns of 1601
    have h0 : ft.toNat = 0 := by rw [hft]; rfl
    rw [hft]
    refine iff_of_false (fun h => ?_) (by omega)
    have := congrArg Time.unix h
    simp only [filetimeToTime, if_true, Time.zero, Time.truncate] at this
    omega
  rw [filetimeToTime_eq hft, Time.truncate, Time.mk.injEq]
  generalize (ft - epochFiletime).toNat = adj at hadj
  constructor
  · rintro ⟨hunix, -⟩
    omega
  · intro hunix
    have hexact : (adj : ℤ) = t.unix * 10000000 + (t.nsec / 100 : ℕ) := by omega
    constructor <;> omega

/-- A moment of July 1999 comes back. -/
theorem filetime_roundTrip_1999 :
    (⟨930787200, 123456789⟩ : Time).InRange ∧
      filetimeToTime (timeToFiletime ⟨930787200, 123456789⟩) = ⟨930787200, 123456700⟩ := by
  have hrange : (⟨930787200, 123456789⟩ : Time).InRange := ⟨by decide, by decide, by decide⟩
  exact ⟨hrange, (filetime_roundTrip _ 0 hrange).1.2 (by decide)⟩

/-- The last second of 1969 comes back as another, some 58000 years later. -/
theorem filetime_before_1970 : ¬∀ t : Time, t.InRange → filetimeToTime (timeToFiletime t) = t.truncate := by
  intro h
  have hrange : (⟨-1, 0⟩ : Time).InRange := ⟨by decide, by decide, by decide⟩
  exact absurd (h _ hrange) (by decide)

/-! ### LOCK -/

/-- An SMB2_LOCK_ELEMENT as a client sends it, with four reserved bytes. -/
def LockElement.encode (e : LockElement) : Bytes := put64 e.offset ++ put64 e.length ++ put32 e.flags ++ zeros 4

/-- A LOCK request behind its header: the fixed part of 24 bytes, and the elements. -/
def LockRequest.encode (req : LockRequest) (lockSequence : UInt32) : Bytes :=
  put16 48 ++ put16 (UInt16.ofNat req.locks.length) ++ put32 lockSequence ++ req.fileId.1 ++
    req.locks.flatMap LockElement.encode

theorem length_flatMap_lockElement (locks : List LockElement) :
    (locks.flatMap LockElement.encode).length = locks.length * 24 := by
  induction locks with
  | nil => rfl
  | cons e locks ih =>
    rw [flatMap_cons, length_append, ih, length_cons]
    simp [LockElement.encode]
    omega

theorem length_lockElements {b : Bytes} {n i : ℕ} {locks : List LockElement} (h : lockElements b n i = .ok locks) :
    locks.length = n := by
  induction n generalizing i locks with
  | zero =>
    obtain rfl := Res.ok.inj h
    rfl
  | succ n ih =>
    obtain ⟨_, -, h⟩ := Res.bind_eq_ok h
    obtain ⟨_, -, h⟩ := Res.bind_eq_ok h
    obtain ⟨_, -, h⟩ := Res.bind_eq_ok h
    obtain ⟨rest, hrest, h⟩ := Res.bind_eq_ok h
    obtain rfl := Res.ok.inj h
    rw [length_cons, ih hrest]

/-- The parser accepts no elements that it has not found from offset 48 on. -/
theorem LockRequest.length_of_parse {msg : Bytes} {req : LockRequest} (h : LockRequest.parse msg = .ok req) :
    createBody + (48 + req.locks.length * 24) ≤ msg.length := by
  obtain ⟨b, -, h⟩ := Res.bind_eq_ok h
  obtain ⟨count, -, h⟩ := Res.bind_eq_ok h
  obtain ⟨fileId, -, h⟩ := Res.bind_eq_ok h
  split_ifs at h with hlt
  · cases h
  · obtain ⟨locks, hlocks, h⟩ := Res.bind_eq_ok h
    obtain rfl := Res.ok.inj h
    have := length_lockElements hlocks
    dsimp only
    omega

/-- **No LOCK request comes back from its encoding**: the parser asks for 24 bytes more. -/
theorem lockRequest_not_roundTrip (hdr : Arr headerSize) (req : LockRequest) (lockSequence : UInt32) :
    LockRequest.parse (hdr.1 ++ req.encode lockSequence) ≠ .ok req := by
  intro h
  have hle := LockRequest.length_of_parse h
  have hlen : (req.encode lockSequence).length = 24 + req.locks.length * 24 := by
    unfold LockRequest.encode
    simp only [List.length_append, length_put16, length_put32, req.fileId.2, length_flatMap_lockElement]
  have h64 : createBody = headerSize := rfl
  rw [List.length_append, hdr.2, hlen] at hle
  omega

/-- The request for an exclusive lock on the first byte is refused. -/
theorem lockRequest_refused :
    ¬∀ (hdr : Arr headerSize) (req : LockRequest) (lockSequence : UInt32), req.locks ≠ [] →
      LockRequest.parse (hdr.1 ++ req.encode lockSequence) = .ok req := by
  intro h
  have hparse := h (Arr.zero headerSize) ⟨[⟨0, 1, 2⟩], Arr.zero 16⟩ 0 (by simp)
  have herr : LockRequest.parse ((Arr.zero headerSize).1 ++
      LockRequest.encode ⟨[⟨0, 1, 2⟩], Arr.zero 16⟩ 0) = .err .outOfRange := rfl
  rw [herr] at hparse
  cases hparse

end Wire
end SmbServer
