/-
# `CopyChunk` of the local backend

`LocalBackend.CopyChunk` of `smb/vfs/vfs.go` copies a stretch of a file to another place of the
same file: it opens the file twice, once to read and once to write, and copies chunks of 64 KiB
from the beginning of the stretch on.  If the target lies behind the source and overlaps it, a
chunk writes over bytes that a later chunk reads (`SmbServer.Lib.Copying`), so a stretch of
more than 64 KiB arrives with its beginning repeated (`overlapping_copy`).

The offsets are `int64`s, and the one after a chunk may wrap.
-/

import SmbServer.Lib.Copying
import SmbServer.Lib.Resolution
import SmbServer.Vfs.Local

namespace SmbServer
namespace Vfs

open FileTree Wire Copying List Option

variable {k len n off rem so : ℕ}

/-- `len(buf)`. -/
def chunkSize : ℕ := 65536

/-- A sum of two `int64`s. -/
def int64 (x : ℤ) : ℤ := (Int64.ofInt x).toInt

/-- `len(chunk)`. -/
def chunkLen (remaining : ℤ) : ℕ := if remaining < chunkSize then remaining.toNat else chunkSize

/-- The loop of `CopyChunk`. -/
def copyLoop (src dst : LocalHandle) (now : Time) (fs : Files) (srcOffset dstOffset remaining : ℤ) :
    Option OsError × Files :=
  if _hrem : 0 < remaining then
    let r := src.read srcOffset (chunkLen remaining) fs
    if _hnr : 0 < r.1.length then
      match dst.write dstOffset r.1 now fs with
      | (.error e, fs) => (some e, fs)
      | (.ok _, fs) =>
        match r.2 with
        | some e => (some e, fs)
        | none => copyLoop src dst now fs (int64 (srcOffset + r.1.length)) (int64 (dstOffset + r.1.length))
            (remaining - r.1.length)
    else (r.2, fs)
  else (none, fs)
termination_by remaining.toNat
decreasing_by
  show (remaining - (r.1.length : ℤ)).toNat < remaining.toNat
  omega

/-- `CopyChunk`. -/
def LocalBackend.copyChunk (b : LocalBackend) (srcPath : GoString) (srcOffset dstOffset length : ℤ) (now : Time)
    (fs : Files) : Option OsError × Files :=
  match b.fullPath fs srcPath with
  | .error e => (some e, fs)
  | .ok full =>
    match b.openAt full {} now fs with
    | (.error e, fs) => (some e, fs)
    | (.ok src, fs) =>
      match b.openAt full { write := true } now fs with
      | (.error e, fs) => (some e, fs)
      | (.ok dst, fs) => copyLoop src dst now fs srcOffset dstOffset length

/-! ### Reading and writing -/

theorem length_writeAt (c : Bytes) (off : ℕ) (data : Bytes) :
    (writeAt c off data).length = max (max c.length off) (off + data.length) := by
  unfold writeAt
  simp only [length_append, length_take, length_drop, length_zeros]
  omega

theorem u8At_zeros (c : Bytes) (n i : ℕ) : u8At (c ++ zeros n) i = u8At c i := by
  unfold u8At
  rcases lt_or_ge i c.length with hi | hi
  · rw [getD_append _ _ _ _ hi]
  · rw [getD_append_right _ _ _ _ hi, getD_eq_default c 0 hi]
    rcases lt_or_ge (i - c.length) n with hn | hn
    · rw [zeros, getD_eq_getElem _ _ (by rwa [length_replicate]), getElem_replicate]
    · exact getD_eq_default _ _ (by rwa [length_zeros])

/-- A write, as one into a file that reaches far enough. -/
theorem writeAt_eq_copyAt (c : Bytes) (off : ℕ) (data : Bytes) :
    writeAt c off data = copyAt (c ++ zeros (off + data.length - c.length)) off data := by
  have hlen : off + data.length ≤ (c ++ zeros (off + data.length - c.length)).length := by
    rw [length_append, length_zeros]
    omega
  rw [copyAt_eq hlen, writeAt]
  rcases le_total c.length off with hle | hle
  · have hsplit : zeros (off + data.length - c.length) = zeros (off - c.length) ++ zeros data.length := by
      rw [zeros, zeros, zeros, replicate_append_replicate]
      congr 1
      omega
    have hoff : (c ++ zeros (off - c.length)).length = off := by
      rw [length_append, length_zeros]
      omega
    rw [hsplit, ← append_assoc, take_append_of_le_length hoff.ge,
      drop_eq_nil_of_le (show (c ++ zeros (off - c.length)).length ≤ off + data.length by omega),
      drop_eq_nil_of_le (by rw [length_append, length_zeros]; omega)]
  · rw [Nat.sub_eq_zero_of_le hle, take_append_of_le_length hle, take_append_of_le_length hle]
    rcases le_total (off + data.length) c.length with hend | hend
    · rw [Nat.sub_eq_zero_of_le hend]
    · rw [drop_eq_nil_of_le (by rw [length_append, length_zeros]; omega),
        drop_eq_nil_of_le (by rw [length_append, length_zeros]; omega)]

theorem u8At_writeAt (c : Bytes) (off : ℕ) (data : Bytes) (i : ℕ) :
    u8At (writeAt c off data) i = if off ≤ i ∧ i < off + data.length then u8At data (i - off) else u8At c i := by
  have hlen : off + data.length ≤ (c ++ zeros (off + data.length - c.length)).length := by
    rw [length_append, length_zeros]
    omega
  rw [writeAt_eq_copyAt, u8At_copyAt hlen, u8At_zeros]

theorem u8At_slice {c : Bytes} (hk : k < n) : u8At (slice c off n) k = u8At c (off + k) := by
  unfold u8At slice
  rw [getD_eq_getElem?_getD, getElem?_take_of_lt hk, getElem?_drop, ← getD_eq_getElem?_getD]

/-- A chunk written where it was read from another place. -/
theorem u8At_move {c : Bytes} {src dst : ℕ} (h : src + n ≤ c.length) :
    u8At (writeAt c dst (slice c src n)) = move (u8At c) src dst n := by
  have hlen : (slice c src n).length = n := by rw [length_slice]; omega
  funext i
  rw [u8At_writeAt, hlen, move]
  split_ifs with hi
  · exact u8At_slice (by omega)
  · rfl

theorem int64_eq (h : n < 2 ^ 63) : int64 n = n := by
  have hsize : Int64.size = 2 ^ 64 := rfl
  rw [int64, Int64.toInt_ofInt, hsize]
  exact Int.bmod_eq_of_le (by omega) (by omega)

theorem int64_neg (h1 : 2 ^ 63 ≤ n) (h2 : n < 2 ^ 64) : int64 n < 0 := by
  have hsize : Int64.size = 2 ^ 64 := rfl
  rw [int64, Int64.toInt_ofInt, hsize, Int.bmod, if_neg (by omega)]
  omega

/-! ### The loop -/

section Loop

variable {src dst : LocalHandle} {fs : Files} {i : ℕ} {c : Bytes} (now : Time)

/-- The handles of a call: both of the one file, and the second one to write. -/
structure Handles (src dst : LocalHandle) (i : ℕ) : Prop where
  src_file : src.file = i
  src_open : src.closed = false
  dst_file : dst.file = i
  dst_open : dst.closed = false
  dst_writable : dst.writable = true

theorem copyLoop_done (srcOffset dstOffset : ℤ) : copyLoop src dst now fs srcOffset dstOffset 0 = (none, fs) := by
  unfold copyLoop
  rw [dif_neg (lt_irrefl 0)]

theorem read_eq (h : Handles src dst i) (hk : (fs.inode i).kind = .file c) (hn : 0 < n) (hle : off + n ≤ c.length) :
    src.read off n fs = (slice c off n, none) := by
  have hlen : (slice c off n).length = n := by rw [length_slice]; omega
  rw [LocalHandle.read, if_neg (by omega), if_neg (by omega), if_neg (by rw [h.src_open]; exact Bool.false_ne_true),
    h.src_file, hk]
  show (slice c off n, if (slice c off n).length < n then some OsError.eof else none) = _
  rw [if_neg (by omega)]

theorem copyLoop_chunk (h : Handles src dst i) (hk : (fs.inode i).kind = .file c) {dof : ℕ} (hrem : 0 < rem)
    (hle : so + rem ≤ c.length) :
    copyLoop src dst now fs so dof rem =
      copyLoop src dst now (dst.store (writeAt c dof (slice c so (min rem chunkSize))) now fs)
        (int64 (so + min rem chunkSize : ℕ)) (int64 (dof + min rem chunkSize : ℕ)) (rem - min rem chunkSize : ℕ) := by
  have hpos : 0 < min rem chunkSize := lt_min hrem (by decide)
  have hn : chunkLen rem = min rem chunkSize := by
    unfold chunkLen
    split_ifs <;> omega
  have hread := read_eq h hk hpos (show so + min rem chunkSize ≤ c.length by omega)
  have hlen : (slice c so (min rem chunkSize)).length = min rem chunkSize := by rw [length_slice]; omega
  have hwrite : dst.write dof (slice c so (min rem chunkSize)) now fs =
      (.ok (slice c so (min rem chunkSize)).length, dst.store (writeAt c dof (slice c so (min rem chunkSize))) now fs) := by
    rw [LocalHandle.write, if_neg (by omega), if_neg (ne_nil_of_length_pos (by omega)),
      if_neg (by rw [h.dst_open]; exact Bool.false_ne_true), if_neg (not_not.2 h.dst_writable), h.dst_file, hk]
    rfl
  rw [copyLoop, dif_pos (by omega), hn, hread]
  dsimp only
  rw [dif_pos (by omega), hwrite]
  dsimp only
  have hle' : min rem chunkSize ≤ rem := min_le_left ..
  generalize min rem chunkSize = n at hlen hle'
  rw [hlen, Nat.cast_sub hle', Nat.cast_add, Nat.cast_add]

theorem copyLoop_wrapped (h : Handles src dst i) (hk : (fs.inode i).kind = .file c) {dof : ℤ} (hdof : dof < 0)
    (hrem : 0 < rem) (hle : so + rem ≤ c.length) : (copyLoop src dst now fs so dof rem).1 ≠ none := by
  have hpos : 0 < min rem chunkSize := lt_min hrem (by decide)
  have hn : chunkLen rem = min rem chunkSize := by
    unfold chunkLen
    split_ifs <;> omega
  have hread := read_eq h hk hpos (show so + min rem chunkSize ≤ c.length by omega)
  have hlen : (slice c so (min rem chunkSize)).length = min rem chunkSize := by rw [length_slice]; omega
  rw [copyLoop, dif_pos (by omega), hn, hread]
  dsimp only
  rw [dif_pos (by omega), LocalHandle.write, if_pos hdof]
  exact some_ne_none _

theorem kind_store (h : Handles src dst i) (hk : (fs.inode i).kind = .file c) (content : Bytes) :
    ((dst.store content now fs).inode i).kind = .file content := by
  have hdir : (fs.inode i).kind.isDir = false := by rw [hk]; rfl
  rw [LocalHandle.store, h.dst_file, FS.kind_setAttrs, FS.kind_setContent _ hdir]

/-- The file reaches as far as the chunks that have been written. -/
theorem length_chunk {c0 : Bytes} {d : ℕ} (hin : off + n ≤ c.length)
    (hlen : c.length = if k = 0 then c0.length else max c0.length (d + k)) (hn : 0 < n) :
    (writeAt c (d + k) (slice c off n)).length = max c0.length (d + (k + n)) := by
  have hslice : (slice c off n).length = n := by rw [length_slice]; omega
  rw [length_writeAt, hslice]
  clear hin hslice
  split_ifs at hlen with hk <;> omega

theorem last_chunk {q : ℕ} (hsum : chunkSize * q + rem = len) (hrem : 0 < rem) :
    (rem ≤ chunkSize → (len - 1) / chunkSize * chunkSize = chunkSize * q) ∧
      (chunkSize < rem → chunkSize * q + chunkSize ≤ (len - 1) / chunkSize * chunkSize) := by
  unfold chunkSize at *
  omega

/-- **The loop from the chunk at `k` on**, against the content before the call. -/
theorem copyLoop_spec (h : Handles src dst i) (c0 : Bytes) (dof : ℕ) (hso : so + len < 2 ^ 63)
    (hin : so + len ≤ c0.length) (hsum : k + rem = len) (hrem : 0 < rem) (hchunk : chunkSize ∣ k)
    (hdof : dof + k < 2 ^ 63) (hk : (fs.inode i).kind = .file c) (hcop : Copied chunkSize (u8At c0) so dof k (u8At c))
    (hlen : c.length = if k = 0 then c0.length else max c0.length (dof + k)) :
    (dof + (len - 1) / chunkSize * chunkSize < 2 ^ 63 →
      (copyLoop src dst now fs (so + k : ℕ) (dof + k : ℕ) rem).1 = none ∧
      ∃ c', ((copyLoop src dst now fs (so + k : ℕ) (dof + k : ℕ) rem).2.inode i).kind = .file c' ∧
        Copied chunkSize (u8At c0) so dof len (u8At c') ∧ c'.length = max c0.length (dof + len)) ∧
    (2 ^ 63 ≤ dof + (len - 1) / chunkSize * chunkSize →
      (copyLoop src dst now fs (so + k : ℕ) (dof + k : ℕ) rem).1 ≠ none) := by
  induction rem using Nat.strongRecOn generalizing k fs c with
  | ind rem ih =>
    have hclen : c0.length ≤ c.length := by rw [hlen]; split_ifs <;> omega
    have hroom : so + k + rem ≤ c.length := by omega
    have hpos : 0 < min rem chunkSize := lt_min hrem (by decide)
    rw [copyLoop_chunk now h hk hrem hroom]
    generalize hc1 : writeAt c (dof + k) (slice c (so + k) (min rem chunkSize)) = c1
    have hcop1 : Copied chunkSize (u8At c0) so dof (k + min rem chunkSize) (u8At c1) := by
      rw [← hc1, u8At_move (by omega)]
      exact hcop.next hchunk (min_le_right ..)
    have hlen1 : c1.length = max c0.length (dof + (k + min rem chunkSize)) := by
      rw [← hc1]
      exact length_chunk (by omega) hlen hpos
    have hk1 := kind_store now h hk c1
    obtain ⟨q, rfl⟩ := hchunk
    have hlast_chunk := last_chunk hsum hrem
    have h65536 : chunkSize = 65536 := rfl
    rcases le_or_gt rem chunkSize with hlast | hmore
    · -- the last chunk
      have hmin : min rem chunkSize = rem := min_eq_left hlast
      rw [hmin] at hcop1 hlen1 ⊢
      rw [Nat.sub_self, Nat.cast_zero, copyLoop_done]
      rw [hsum] at hcop1 hlen1
      refine ⟨fun _ => ⟨rfl, c1, hk1, hcop1, hlen1⟩, fun hwrap => ?_⟩
      rw [hlast_chunk.1 hlast] at hwrap
      omega
    · have hmin : min rem chunkSize = chunkSize := min_eq_right hmore.le
      rw [hmin] at hcop1 hlen1 ⊢
      have hsrc : int64 (so + chunkSize * q + chunkSize : ℕ) = (so + (chunkSize * q + chunkSize) : ℕ) := by
        rw [Nat.add_assoc]
        exact int64_eq (by omega)
      rw [hsrc]
      have hboundary := hlast_chunk.2 hmore
      have hlen2 : c1.length = if chunkSize * q + chunkSize = 0 then c0.length
          else max c0.length (dof + (chunkSize * q + chunkSize)) := by
        rw [if_neg (by omega), hlen1]
      by_cases hwrap : dof + (chunkSize * q + chunkSize) < 2 ^ 63
      · have hdst : int64 (dof + chunkSize * q + chunkSize : ℕ) = (dof + (chunkSize * q + chunkSize) : ℕ) := by
          rw [Nat.add_assoc]
          exact int64_eq hwrap
        rw [hdst]
        exact ih (rem - chunkSize) (by omega) (by omega) (by omega) ⟨q + 1, by rw [Nat.mul_add, Nat.mul_one]⟩ hwrap
          hk1 hcop1 hlen2
      · have hneg : int64 (dof + chunkSize * q + chunkSize : ℕ) < 0 := int64_neg (by omega) (by omega)
        have hgrown : c0.length ≤ c1.length := by rw [hlen1]; exact le_max_left ..
        clear hlen hlen1 hlen2
        exact ⟨fun hle => by omega, fun _ => copyLoop_wrapped now h hk1 hneg (by omega) (by omega)⟩

end Loop

/-! ### The call -/

/-- The call has succeeded, and the bytes from `src` on stand from `dst` on; all others are as they were,
and zero in a gap behind the old end. -/
def Copies (result : Option OsError × Files) (i : ℕ) (c : Bytes) (src dst len : ℕ) : Prop :=
  result.1 = none ∧ ∃ c', (result.2.inode i).kind = .file c' ∧
    c'.length = (if len = 0 then c.length else max c.length (dst + len)) ∧
    ∀ j, u8At c' j = if dst ≤ j ∧ j < dst + len then u8At c (src + (j - dst)) else u8At c j

theorem openAt_file {b : LocalBackend} {fs : Files} {full : List GoString} {i : ℕ} {c : Bytes}
    (hstat : fs.stat true full = .ok i) (hk : (fs.inode i).kind = .file c) (write : Bool) (now : Time) :
    b.openAt full { write := write } now fs = (.ok ⟨b, i, write, full, full, base full, false⟩, fs) := by
  have hopen : fs.openFile full { write := write } ⟨now, now, 0o644⟩ = .ok (i, fs) := by
    obtain ⟨q, hq, hi⟩ := fs.stat_eq_ok_iff.1 hstat
    unfold FS.openFile
    rw [show (!(false && false)) = true from rfl, hq]
    dsimp only
    rw [hi]
    dsimp only
    rw [hk]
    rfl
  rw [LocalBackend.openAt, hopen]

theorem copyChunk_eq {b : LocalBackend} {fs : Files} {p : GoString} {full : List GoString} {i : ℕ} {c : Bytes}
    (now : Time) (hfull : b.fullPath fs p = .ok full) (hstat : fs.stat true full = .ok i) (hk : (fs.inode i).kind = .file c)
    (src dst len : ℤ) : ∃ hs hd, Handles hs hd i ∧ b.copyChunk p src dst len now fs = copyLoop hs hd now fs src dst len := by
  refine ⟨⟨b, i, false, full, full, base full, false⟩, ⟨b, i, true, full, full, base full, false⟩, ⟨rfl, rfl, rfl, rfl, rfl⟩, ?_⟩
  rw [LocalBackend.copyChunk, hfull]
  dsimp only
  rw [openAt_file hstat hk false now]
  dsimp only
  rw [openAt_file hstat hk true now]

theorem copyLoop_copies_iff {hs hd : LocalHandle} {now : Time} {fs : Files} {i : ℕ} {c : Bytes} {src dst : ℕ}
    (h : Handles hs hd i) (hk : (fs.inode i).kind = .file c) (hsize : c.length < 2 ^ 63) (hin : src + len ≤ c.length)
    (hdst : dst < 2 ^ 63) :
    Copies (copyLoop hs hd now fs src dst len) i c src dst len ↔
      dst + (len - 1) / chunkSize * chunkSize < 2 ^ 63 ∧
        ∀ j < len, Overwritten chunkSize src dst j → u8At c (src + j) = u8At c (src + j - (dst - src)) := by
  rcases Nat.eq_zero_or_pos len with rfl | hlen
  · rw [Nat.cast_zero, copyLoop_done]
    refine iff_of_true ⟨rfl, c, hk, rfl, fun j => ?_⟩ ⟨hdst, fun j hj => absurd hj (Nat.not_lt_zero j)⟩
    rw [if_neg (by omega)]
  have hspec := copyLoop_spec (k := 0) now h c dst (show src + len < 2 ^ 63 by omega) hin
    (Nat.zero_add len) hlen (Nat.dvd_zero _) hdst hk .zero rfl
  rw [Nat.add_zero, Nat.add_zero] at hspec
  obtain ⟨hfits, hwraps⟩ := hspec
  by_cases hwrap : dst + (len - 1) / chunkSize * chunkSize < 2 ^ 63
  · obtain ⟨hnone, c', hk', hcop, hlen'⟩ := hfits hwrap
    have hmove := hcop.eq_move_iff
    constructor
    · rintro ⟨-, c'', hk'', -, hbytes⟩
      rw [hk', Kind.file.injEq] at hk''
      subst hk''
      exact ⟨hwrap, hmove.1 (funext hbytes)⟩
    · rintro ⟨-, hsame⟩
      exact ⟨hnone, c', hk', by rw [hlen', if_neg (by omega)], congrFun (hmove.2 hsame)⟩
  · constructor
    · rintro ⟨hnone, -⟩
      exact absurd hnone (hwraps (not_lt.1 hwrap))
    · rintro ⟨hlt, -⟩
      exact absurd hlt hwrap

/-- **When `CopyChunk` copies.**  A stretch of the file is copied exactly if no chunk of it has a target
beyond the largest offset, and every byte that a chunk reads after an earlier one has written over
it was the same as the one written. -/
theorem copyChunk_copies_iff (b : LocalBackend) (fs : Files) (p : GoString) (now : Time) (full : List GoString) (i : ℕ)
    (c : Bytes) (src dst len : ℕ) (hfull : b.fullPath fs p = .ok full) (hstat : fs.stat true full = .ok i)
    (hk : (fs.inode i).kind = .file c) (hsize : c.length < 2 ^ 63) (hin : src + len ≤ c.length) (hdst : dst < 2 ^ 63) :
    Copies (b.copyChunk p src dst len now fs) i c src dst len ↔
      dst + (len - 1) / chunkSize * chunkSize < 2 ^ 63 ∧
        ∀ j < len, Overwritten chunkSize src dst j → u8At c (src + j) = u8At c (src + j - (dst - src)) := by
  obtain ⟨hs, hd, hhandles, hcall⟩ := copyChunk_eq now hfull hstat hk src dst len
  rw [hcall]
  exact copyLoop_copies_iff hhandles hk hsize hin hdst

/-- A machine with one file, `/f`. -/
def oneFile (c : Bytes) : Files :=
  (FS.blank ⟨Time.zero, Time.zero, 0o755⟩).add [[0x66]] ⟨.file c, ⟨Time.zero, Time.zero, 0o644⟩⟩

theorem oneFile_found (c : Bytes) : (LocalBackend.mk []).fullPath (oneFile c) [0x66] = .ok [[0x66]] ∧
    (oneFile c).stat true [[0x66]] = .ok 1 ∧ ((oneFile c).inode 1).kind = .file c := ⟨rfl, rfl, rfl⟩

/-- Overlapping stretches that are shorter than a chunk. -/
theorem copyChunk_copies_short :
    Copies ((LocalBackend.mk []).copyChunk [0x66] 0 1 3 Time.zero (oneFile [1, 2, 3, 4])) 1 [1, 2, 3, 4] 0 1 3 := by
  obtain ⟨hfull, hstat, hk⟩ := oneFile_found [1, 2, 3, 4]
  refine (copyChunk_copies_iff ⟨[]⟩ (oneFile [1, 2, 3, 4]) [0x66] Time.zero [[0x66]] 1 [1, 2, 3, 4] 0 1 3 hfull hstat hk
    (by decide) (by decide) (by decide)).2 ⟨by decide, fun j hj hover => ?_⟩
  have hzero : j / chunkSize = 0 := Nat.div_eq_of_lt (hj.trans (by decide))
  have := hover.2.2
  rw [hzero, Nat.zero_mul] at this
  exact absurd this (Nat.not_lt_zero _)

/-- The content of a file of a chunk of zeros and a one. -/
def chunkAndOne : Bytes := zeros chunkSize ++ [1]

theorem length_chunkAndOne : chunkAndOne.length = chunkSize + 1 := by
  rw [chunkAndOne, length_append, length_zeros, length_singleton]

theorem u8At_chunkAndOne : u8At chunkAndOne chunkSize = 1 ∧ u8At chunkAndOne (chunkSize - 1) = 0 := by
  have hlen : (zeros chunkSize).length = chunkSize := length_zeros _
  unfold u8At chunkAndOne
  constructor
  · rw [getD_append_right _ _ _ _ hlen.le, hlen, Nat.sub_self]
    rfl
  · rw [getD_append _ _ _ _ (by rw [hlen]; decide), zeros,
      getD_eq_getElem _ _ (by rw [length_replicate]; decide), getElem_replicate]

/-- Copied by one byte, the last byte of such a file is a zero. -/
theorem overlapping_copy :
    ¬∀ (b : LocalBackend) (fs : Files) (p : GoString) (now : Time) (full : List GoString) (i : ℕ) (c : Bytes) (src dst len : ℕ),
      b.fullPath fs p = .ok full → fs.stat true full = .ok i → (fs.inode i).kind = .file c → c.length < 2 ^ 63 →
      src + len ≤ c.length → dst < 2 ^ 63 → Copies (b.copyChunk p src dst len now fs) i c src dst len := by
  intro hall
  have hsize := length_chunkAndOne
  have h65536 : chunkSize = 65536 := rfl
  obtain ⟨hfull, hstat, hk⟩ := oneFile_found chunkAndOne
  have hcopies := hall ⟨[]⟩ (oneFile chunkAndOne) [0x66] Time.zero [[0x66]] 1 chunkAndOne 0 1 (chunkSize + 1) hfull hstat hk
    (by omega) (by omega) (by omega)
  obtain ⟨hs, hd, hhandles, hcall⟩ := copyChunk_eq Time.zero hfull hstat hk ((0 : ℕ) : ℤ) ((1 : ℕ) : ℤ)
    ((chunkSize + 1 : ℕ) : ℤ)
  rw [hcall, copyLoop_copies_iff hhandles hk (by omega) (by omega) (by omega)] at hcopies
  have hover : Overwritten chunkSize 0 1 chunkSize := by
    rw [Overwritten, Nat.div_self (by omega)]
    omega
  have hlast := hcopies.2 chunkSize (by omega) hover
  rw [Nat.zero_add, Nat.sub_zero, u8At_chunkAndOne.1, u8At_chunkAndOne.2] at hlast
  exact absurd hlast (by decide)

end Vfs
end SmbServer
