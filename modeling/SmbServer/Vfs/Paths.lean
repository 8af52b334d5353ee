/-
# Client paths

`cleanPath` of `smb/vfs/vfs.go`: a client may separate names by `/` or `\`, repeat
the separator, write `.` and `..`; the backend takes `path.Clean` of what was sent,
from the root.  Such a path is the list of its names, and `cleanStep` is what
`path.Clean` does with the next name of a rooted path.
-/

import SmbServer.Wire.Text
import Mathlib.Data.List.Infix

namespace SmbServer
open List
namespace Vfs

/-- `/` and `\`. -/
def slash : UInt8 := 0x2F
def backslash : UInt8 := 0x5C

/-- `.` and `..`. -/
def dot : GoString := [0x2E]
def dotDot : GoString := [0x2E, 0x2E]

/-- One name of a rooted path in `path.Clean`. -/
def cleanStep (path : List GoString) (name : GoString) : List GoString :=
  if name = [] ∨ name = dot then path
  else if name = dotDot then path.dropLast
  else path ++ [name]

/-- `filepath.Join(root, s)` for a cleaned absolute `root`. -/
def join (root : List GoString) (s : GoString) : List GoString :=
  (s.splitOn slash).foldl cleanStep root

/-- The text of a path relative to the root. -/
def relText (path : List GoString) : GoString := [slash].intercalate path

/-- The names of a client path. -/
def clientNames (p : GoString) : List GoString :=
  join [] (p.map fun b => if b = backslash then slash else b)

/-- `cleanPath`. -/
def cleanPath (p : GoString) : GoString := relText (clientNames p)

/-- A name that `path.Clean` leaves alone. -/
structure Plain (name : GoString) : Prop where
  nonempty : name ≠ []
  notDot : name ≠ dot
  notDotDot : name ≠ dotDot
  noSlash : slash ∉ name

theorem cleanStep_plain {path : List GoString} {name : GoString} (h : Plain name) :
    cleanStep path name = path ++ [name] := by
  rw [cleanStep, if_neg (by rintro (rfl | rfl); exacts [h.nonempty rfl, h.notDot rfl]), if_neg h.notDotDot]

theorem cleanStep_keeps {path : List GoString} {name : GoString} (hpath : ∀ x ∈ path, Plain x)
    (hname : slash ∉ name) : ∀ x ∈ cleanStep path name, Plain x := by
  unfold cleanStep
  split_ifs with h1 h2
  · exact hpath
  · exact fun x hx => hpath x (mem_of_mem_dropLast hx)
  · intro x hx
    rcases mem_append.1 hx with hx | hx
    · exact hpath x hx
    · rw [mem_singleton.1 hx]
      exact ⟨fun h => h1 (.inl h), fun h => h1 (.inr h), h2, hname⟩

theorem slash_not_mem_of_mem_splitOn {s name : GoString} (h : name ∈ s.splitOn slash) :
    slash ∉ name := by
  induction s generalizing name with
  | nil => simp [splitOn_nil] at h; simp [h]
  | cons b s ih =>
    rw [splitOn_cons_eq_if_modifyHead] at h
    obtain ⟨first, rest, hs⟩ := exists_cons_of_ne_nil (splitOn_ne_nil slash s)
    split_ifs at h with hb
    · rcases mem_cons.1 h with rfl | h
      · exact not_mem_nil
      · exact ih h
    · rw [hs, modifyHead_cons] at h
      rcases mem_cons.1 h with rfl | h
      · rw [mem_cons, not_or]
        exact ⟨fun heq => hb (by simp [heq]), ih (hs ▸ mem_cons_self ..)⟩
      · exact ih (hs ▸ mem_cons_of_mem _ h)

theorem mem_of_mem_splitOn {s name : GoString} {b : UInt8} (h : name ∈ s.splitOn slash) (hb : b ∈ name) : b ∈ s := by
  induction s generalizing name with
  | nil => simp [splitOn_nil] at h; simp [h] at hb
  | cons c s ih =>
    rw [splitOn_cons_eq_if_modifyHead] at h
    obtain ⟨first, rest, hs⟩ := exists_cons_of_ne_nil (splitOn_ne_nil slash s)
    split_ifs at h with hc
    · rcases mem_cons.1 h with rfl | h
      · cases hb
      · exact mem_cons_of_mem _ (ih h hb)
    · rw [hs, modifyHead_cons] at h
      rcases mem_cons.1 h with rfl | h
      · rcases mem_cons.1 hb with rfl | hb
        · exact mem_cons_self ..
        · exact mem_cons_of_mem _ (ih (hs ▸ mem_cons_self ..) hb)
      · exact mem_cons_of_mem _ (ih (hs ▸ mem_cons_of_mem _ h) hb)

theorem foldl_cleanStep_subset {path names : List GoString} :
    ∀ x ∈ names.foldl cleanStep path, x ∈ path ∨ x ∈ names := by
  induction names generalizing path with
  | nil => exact fun x hx => .inl hx
  | cons name names ih =>
    intro x hx
    rcases ih x hx with hx | hx
    · unfold cleanStep at hx
      split_ifs at hx
      · exact .inl hx
      · exact .inl (mem_of_mem_dropLast hx)
      · rcases mem_append.1 hx with hx | hx
        · exact .inl hx
        · exact .inr (by rw [mem_singleton.1 hx]; exact mem_cons_self ..)
    · exact .inr (mem_cons_of_mem _ hx)

/-- The names of a client path have no separator of either kind in them. -/
theorem backslash_not_mem_clientNames {p name : GoString} (h : name ∈ clientNames p) : backslash ∉ name := by
  intro hb
  rcases foldl_cleanStep_subset name h with hx | hx
  · cases hx
  · obtain ⟨b, -, hb'⟩ := List.mem_map.1 (mem_of_mem_splitOn hx hb)
    split_ifs at hb' with hbs
    · cases hb'
    · exact hbs hb'

theorem foldl_cleanStep_keeps {path names : List GoString} (hpath : ∀ x ∈ path, Plain x)
    (hnames : ∀ x ∈ names, slash ∉ x) : ∀ x ∈ names.foldl cleanStep path, Plain x := by
  induction names generalizing path with
  | nil => exact hpath
  | cons name names ih =>
    exact ih (cleanStep_keeps hpath (hnames name (mem_cons_self ..)))
      fun x hx => hnames x (mem_cons_of_mem _ hx)

/-- The names of a client path are plain, whatever the client wrote. -/
theorem plain_clientNames (p : GoString) : ∀ x ∈ clientNames p, Plain x :=
  foldl_cleanStep_keeps (fun _ hx => absurd hx not_mem_nil) fun _ hx => slash_not_mem_of_mem_splitOn hx

theorem foldl_cleanStep_plain {root path : List GoString} (h : ∀ x ∈ path, Plain x) :
    path.foldl cleanStep root = root ++ path := by
  induction path generalizing root with
  | nil => simp
  | cons name path ih =>
    rw [foldl_cons, cleanStep_plain (h name (mem_cons_self ..)),
      ih fun x hx => h x (mem_cons_of_mem _ hx), append_assoc]
    rfl

/-- A text of plain names is read back as these names. -/
theorem join_relText {root path : List GoString} (h : ∀ x ∈ path, Plain x) :
    join root (relText path) = root ++ path := by
  unfold join relText
  by_cases hne : path = []
  · subst hne
    simp [splitOn_nil, cleanStep]
  · rw [splitOn_intercalate slash (fun x hx => (h x hx).noSlash) hne]
    exact foldl_cleanStep_plain h

/-- A client path joined to a root stays below it. -/
theorem join_cleanPath (root : List GoString) (p : GoString) :
    join root (cleanPath p) = root ++ clientNames p := join_relText (plain_clientNames p)

theorem mem_relText {path : List GoString} {b : UInt8} (h : b ∈ relText path) :
    b = slash ∨ ∃ x ∈ path, b ∈ x := by
  have hsub : ∀ path : List GoString, ∀ x ∈ path.intersperse [slash], x = [slash] ∨ x ∈ path := by
    intro path
    induction path with
    | nil => exact fun x hx => .inr hx
    | cons y path ih =>
      cases path with
      | nil => exact fun x hx => .inr hx
      | cons z path =>
        intro x hx
        rw [intersperse_cons_cons, mem_cons, mem_cons] at hx
        rcases hx with rfl | rfl | hx
        · exact .inr (mem_cons_self ..)
        · exact .inl rfl
        · exact (ih x hx).imp_right (mem_cons_of_mem _)
  obtain ⟨x, hx, hb⟩ := mem_flatten.1 h
  rcases hsub path x hx with rfl | hx
  · exact .inl (mem_singleton.1 hb)
  · exact .inr ⟨x, hx, hb⟩

/-- A path that has been cleaned is left alone. -/
theorem clientNames_cleanPath (p : GoString) : clientNames (cleanPath p) = clientNames p := by
  have hmap : (cleanPath p).map (fun b => if b = backslash then slash else b) = cleanPath p := by
    refine (map_congr_left fun b hb => if_neg ?_).trans (List.map_id _)
    rintro rfl
    rcases mem_relText hb with hslash | ⟨x, hx, hbx⟩
    · cases hslash
    · exact backslash_not_mem_clientNames hx hbx
  rw [clientNames, hmap, join_cleanPath, nil_append]

/-- Two spellings of `a/b`. -/
example : cleanPath [0x5C, 0x61, 0x5C, 0x2E, 0x5C, 0x62] = cleanPath [0x61, 0x2F, 0x2F, 0x62] := by
  decide +kernel

end Vfs
end SmbServer
