/-
# Directory listings as a client reads them

The answer to a QUERY_DIRECTORY is a chain of entries, each of which starts with
the distance to the next one, and the last with zero.  `readRecords` walks such a
chain the way a client does; `chain` is what the encoders `AppendFileDirInfo` and
`AppendFileIdBothDirInfo` and the links set by `SetNextEntryOffset` make of a list
of entries.  A chain is read back entry by entry (`readRecords_chain`), as long as
the names and the entries before the last are short enough for their 32 bit lengths.
-/

import SmbServer.Wire.Responses

namespace SmbServer
open List Option
namespace Wire

/-- An entry of a listing as a client reads it; the name is in UTF-16. -/
structure DirRecord where
  creationTime : UInt64
  lastAccessTime : UInt64
  lastWriteTime : UInt64
  changeTime : UInt64
  endOfFile : UInt64
  allocationSize : UInt64
  fileAttributes : UInt32
  name : Bytes
  deriving DecidableEq

/-- What a client is to read of an entry. -/
def DirEntry.record (fi : DirEntry) : DirRecord where
  creationTime := fi.creationTime
  lastAccessTime := fi.lastAccessTime
  lastWriteTime := fi.lastWriteTime
  changeTime := fi.changeTime
  endOfFile := fi.endOfFile
  allocationSize := fi.allocationSize
  fileAttributes := fi.fileAttributes
  name := utf16ToBytes fi.name

/-- The entry at the start of a buffer; its name starts at `nameAt`. -/
def readRecord (nameAt : ℕ) (b : Bytes) : Option DirRecord :=
  if b.length < nameAt + (u32At b 60).toNat then none
  else some
    { creationTime := u64At b 8
      lastAccessTime := u64At b 16
      lastWriteTime := u64At b 24
      changeTime := u64At b 32
      endOfFile := u64At b 40
      allocationSize := u64At b 48
      fileAttributes := u32At b 56
      name := slice b nameAt (u32At b 60).toNat }

/-- The entries of a chain, at most `fuel` of them. -/
def readRecords (nameAt : ℕ) : ℕ → Bytes → Option (List DirRecord)
  | 0, _ => none
  | fuel + 1, b =>
    (readRecord nameAt b).bind fun r =>
      if u32At b 0 = 0 then some [r]
      else (readRecords nameAt fuel (b.drop (u32At b 0).toNat)).map (r :: ·)

/-! ### What the encoders write -/

/-- The fixed fields of an entry after its link. -/
def DirEntry.fields (fi : DirEntry) : Bytes :=
  put32 0 ++ put64 fi.creationTime ++ put64 fi.lastAccessTime ++ put64 fi.lastWriteTime ++
    put64 fi.changeTime ++ put64 fi.endOfFile ++ put64 fi.allocationSize ++ put32 fi.fileAttributes ++
    put32 (UInt32.ofNat (utf16ToBytes fi.name).length)

/-- An entry whose link is set. -/
def DirEntry.linked (extra : ℕ) (next : UInt32) (fi : DirEntry) : Bytes :=
  put32 next ++ fi.fields ++ zeros extra ++ utf16ToBytes fi.name ++
    zeros (pad8 (64 + extra + (utf16ToBytes fi.name).length))

/-- A chain of entries. -/
def chain (extra : ℕ) : List DirEntry → Bytes
  | [] => []
  | [fi] => fi.linked extra 0
  | fi :: fi' :: rest =>
    fi.linked extra (UInt32.ofNat (fi.encode extra).length) ++ chain extra (fi' :: rest)

namespace DirEntry

variable (extra : ℕ) (fi : DirEntry)

@[simp] theorem length_fixed : fi.fixed.length = 64 := by simp [fixed]

@[simp] theorem length_fields : fi.fields.length = 60 := by simp [fields]

theorem length_encode : (fi.encode extra).length =
    64 + extra + (utf16ToBytes fi.name).length + pad8 (64 + extra + (utf16ToBytes fi.name).length) := by
  simp only [encode, length_append, length_fixed, length_zeros]

@[simp] theorem length_linked (next : UInt32) :
    (fi.linked extra next).length = (fi.encode extra).length := by
  simp only [length_encode, linked, length_append, length_put32, length_fields, length_zeros]

theorem linked_zero : fi.linked extra 0 = fi.encode extra := by
  have hlen : (fi.fixed ++ zeros extra ++ utf16ToBytes fi.name).length =
      64 + extra + (utf16ToBytes fi.name).length := by
    simp only [length_append, length_fixed, length_zeros]
  unfold encode
  simp only [hlen]
  simp only [linked, fixed, fields, append_assoc]

theorem copyAt_encode (next : UInt32) (rest : Bytes) :
    copyAt (fi.encode extra ++ rest) 0 (put32 next) = fi.linked extra next ++ rest := by
  rw [← linked_zero, copyAt_eq (by simp [length_encode]; omega), length_put32, take_zero,
    nil_append]
  simp only [linked, append_assoc, Nat.zero_add]
  rw [drop_left' (length_put32 0)]

end DirEntry

/-! ### Reading them back -/

theorem u32At_linked {extra : ℕ} {fi : DirEntry} (next : UInt32) (rest : Bytes) :
    u32At (fi.linked extra next ++ rest) 0 = next := by
  simp only [DirEntry.linked, append_assoc, u32At_put32]

/-- The length of the name, as far as it fits into its field. -/
theorem u32At_linked_name {extra : ℕ} {fi : DirEntry} (next : UInt32) (rest : Bytes) :
    u32At (fi.linked extra next ++ rest) 60 = UInt32.ofNat (utf16ToBytes fi.name).length := by
  simp (disch := simp) only [DirEntry.linked, DirEntry.fields, append_assoc, u32At_append_right,
    length_put32, length_put64, Nat.reduceSub, u32At_put32]

/-- The entry at the start of a buffer is read back, wherever its link points. -/
theorem readRecord_linked {extra : ℕ} {fi : DirEntry} (next : UInt32) (rest : Bytes)
    (h : (utf16ToBytes fi.name).length < 2 ^ 32) :
    readRecord (64 + extra) (fi.linked extra next ++ rest) = some fi.record := by
  have hn : (UInt32.ofNat (utf16ToBytes fi.name).length).toNat = (utf16ToBytes fi.name).length :=
    UInt32.toNat_ofNat_of_lt' h
  have hlen : ¬(fi.linked extra next ++ rest).length < 64 + extra + (utf16ToBytes fi.name).length := by
    rw [length_append, DirEntry.length_linked, DirEntry.length_encode]
    omega
  have hname : slice (fi.linked extra next ++ rest) (64 + extra) (utf16ToBytes fi.name).length =
      utf16ToBytes fi.name := by
    have hfixed : (put32 next ++ fi.fields ++ zeros extra).length = 64 + extra := by
      simp only [length_append, length_put32, DirEntry.length_fields, length_zeros]
    rw [DirEntry.linked, append_assoc, append_assoc, slice_append_right _ _ hfixed.le, hfixed,
      Nat.sub_self, slice_head _ rfl]
  rw [readRecord, u32At_linked_name, hn, if_neg hlen, hname]
  simp (disch := simp) only [DirEntry.linked, DirEntry.fields, append_assoc, u32At_append_right,
    u64At_append_right, length_put32, length_put64, Nat.reduceSub, u32At_put32, u64At_put64]
  rfl

theorem length_name_le {nameAt : ℕ} {b : Bytes} {r : DirRecord} (h : readRecord nameAt b = some r) :
    r.name.length ≤ (u32At b 60).toNat := by
  unfold readRecord at h
  split_ifs at h
  cases h
  rw [length_slice]
  exact min_le_left _ _

theorem length_chain (extra : ℕ) (l : List DirEntry) :
    (chain extra l).length = (l.map fun fi => (fi.encode extra).length).sum := by
  induction l with
  | nil => rfl
  | cons fi l ih =>
    cases l with
    | nil => simp [chain]
    | cons fi' l =>
      rw [chain, length_append, ih, DirEntry.length_linked, ← sum_cons]
      rfl

/-- **A chain is read back as the entries it was made of.** -/
theorem readRecords_chain {extra : ℕ} {l : List DirEntry} (hl : l ≠ [])
    (hname : ∀ fi ∈ l, (utf16ToBytes fi.name).length < 2 ^ 32)
    (hsize : ∀ fi ∈ l.dropLast, (fi.encode extra).length < 2 ^ 32) {fuel : ℕ} (hfuel : l.length ≤ fuel) :
    readRecords (64 + extra) fuel (chain extra l) = some (l.map DirEntry.record) := by
  induction l generalizing fuel with
  | nil => exact absurd rfl hl
  | cons fi l ih =>
    obtain ⟨fuel, rfl⟩ : ∃ k, fuel = k + 1 := ⟨fuel - 1, by simp only [length_cons] at hfuel; omega⟩
    have hfi := hname fi (mem_cons_self ..)
    cases l with
    | nil =>
      have hr : readRecord (64 + extra) (fi.linked extra 0 ++ []) = some fi.record :=
        readRecord_linked 0 [] hfi
      have h0 : u32At (fi.linked extra 0 ++ []) 0 = 0 := u32At_linked 0 []
      rw [append_nil] at hr h0
      simp only [readRecords, chain, hr, h0, bind_some, if_true, map_cons, map_nil]
    | cons fi' l =>
      -- The link leads past the entry to the rest of the chain.
      have hlt := hsize fi (mem_cons_self ..)
      have hto : (UInt32.ofNat (fi.encode extra).length).toNat = (fi.encode extra).length :=
        UInt32.toNat_ofNat_of_lt' hlt
      have hne : UInt32.ofNat (fi.encode extra).length ≠ 0 := by
        intro h0
        have hz := congrArg UInt32.toNat h0
        rw [hto, DirEntry.length_encode] at hz
        change _ = 0 at hz
        omega
      have hrest := ih (cons_ne_nil _ _) (fun x hx => hname x (mem_cons_of_mem _ hx))
        (fun x hx => hsize x (mem_cons_of_mem _ hx)) (Nat.le_of_succ_le_succ hfuel)
      rw [chain, readRecords, readRecord_linked _ _ hfi, u32At_linked, bind_some, if_neg hne, hto,
        drop_left' (DirEntry.length_linked ..), hrest]
      rfl

theorem length_le_length_chain (extra : ℕ) (l : List DirEntry) : l.length ≤ (chain extra l).length := by
  rw [length_chain]
  induction l with
  | nil => exact le_rfl
  | cons fi l ih =>
    rw [map_cons, sum_cons, length_cons, DirEntry.length_encode]
    omega

end Wire
end SmbServer
