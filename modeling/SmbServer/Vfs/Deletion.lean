/-
# Deleting a file

`LocalBackend.Remove` of `smb/vfs/vfs.go`, with which a delete-on-close ends.  It is
`os.RemoveAll` of the full path: the object at the path goes with everything below it,
whatever it is.  Every spelling that `cleanPath` takes to the empty path names the share
itself.

`DeletesOne` is what a delete-on-close is for: the object that the client's path names
goes, if it is not the share and nothing is left in it.
-/

import SmbServer.Vfs.Local

namespace SmbServer
namespace Vfs

open FileTree Wire

namespace LocalBackend

variable (b : LocalBackend)

/-- The object a client path names, by `lstat`. -/
def Denotes (fs : Files) (p : GoString) (i : ℕ) : Prop := fs.stat false (join b.root (cleanPath p)) = .ok i

/-- The object of the share itself. -/
def IsRoot (fs : Files) (i : ℕ) : Prop := fs.stat true b.root = .ok i

/-- **Deletion removes at most the one object it names.** -/
structure DeletesOne (fs : Files) (p : GoString) : Prop where
  root : ∀ i, b.IsRoot fs i → ¬fs.Lost (b.remove p fs).2 i
  others : ∀ i, fs.Lost (b.remove p fs).2 i → b.Denotes fs p i
  refuses : ∀ i, b.Denotes fs p i → fs.Occupied i → ∃ e, b.remove p fs = (some e, fs)

/-- The path is refused, or what it names is empty and not the share.  The root of the
machine is no danger: the operating system keeps it. -/
def Deletable (fs : Files) (p : GoString) : Prop :=
  ∀ full i, b.fullPath fs p = .ok full → b.Denotes fs p i →
    ¬fs.Occupied i ∧ (b.IsRoot fs i → fs.names [] = some i)

variable {b} {fs : Files} {p : GoString}

theorem fullPath_eq {full : List GoString} (h : b.fullPath fs p = .ok full) :
    full = join b.root (cleanPath p) := by
  simp only [fullPath] at h
  split_ifs at h
  split at h
  · exact (Except.ok.inj h).symm
  · split_ifs at h
    · split at h
      · exact (Except.ok.inj h).symm
      · split_ifs at h
        exact (Except.ok.inj h).symm
    · exact (Except.ok.inj h).symm

/-- `Remove` of a path that names something takes it and all below it. -/
theorem remove_of_denotes {full q : List GoString} (hfull : b.fullPath fs p = .ok full)
    (hq : fs.locate false (join b.root (cleanPath p)) = .ok q) :
    b.remove p fs = (none, fs.remove q) := by
  rw [remove, hfull]
  simp only [FS.removeAll, fullPath_eq hfull, hq]

/-- `Remove` of a path that names nothing changes nothing. -/
theorem remove_of_not_denotes (h : ∀ i, ¬b.Denotes fs p i) : (b.remove p fs).2 = fs := by
  unfold remove
  cases hfull : b.fullPath fs p with
  | error e => rfl
  | ok full =>
    have hq : ∀ q, fs.locate false full = .ok q → fs.remove q = fs := by
      intro q hq
      refine fs.remove_of_absent (Option.eq_none_iff_forall_ne_some.2 fun i hi => h i ?_)
      rw [Denotes, ← fullPath_eq hfull]
      exact fs.stat_eq_ok_iff.2 ⟨q, hq, hi⟩
    simp only [FS.removeAll]
    cases hloc : fs.locate false full with
    | error e => cases e <;> rfl
    | ok q => exact hq q hloc

/-- A path that is refused leaves the files alone. -/
theorem remove_of_error {e : OsError} (h : b.fullPath fs p = .error e) : b.remove p fs = (some e, fs) := by
  rw [remove, h]

/-- **When a delete-on-close removes just what it names**: exactly when the path is refused
or names something empty that is not the share. -/
theorem deletesOne_iff (b : LocalBackend) (fs : Files) (p : GoString) :
    b.DeletesOne fs p ↔ b.Deletable fs p := by
  constructor
  · intro h full i hfull hi
    obtain ⟨q, hq, hqi⟩ := fs.stat_eq_ok_iff.1 hi
    have hrm := remove_of_denotes hfull hq
    refine ⟨fun hocc => ?_, fun hroot => ?_⟩
    · obtain ⟨e, he⟩ := h.refuses i hi hocc
      rw [hrm] at he
      cases he
    · by_contra hne
      refine h.root i hroot ?_
      rw [hrm]
      refine fs.lost_remove_iff.2 ⟨q, hqi, List.prefix_refl q, ?_⟩
      rintro rfl
      exact hne hqi
  · intro h
    by_cases hden : ∃ i, b.Denotes fs p i
    · obtain ⟨i, hi⟩ := hden
      cases hfull : b.fullPath fs p with
      | error e =>
        have hrm := remove_of_error hfull
        refine ⟨fun j _ hj => ?_, fun j hj => ?_, fun _ _ _ => ⟨e, hrm⟩⟩
        · rw [hrm] at hj
          exact fs.not_lost_self j hj
        · rw [hrm] at hj
          exact absurd hj (fs.not_lost_self j)
      | ok full =>
        obtain ⟨hocc, hroot⟩ := h full i hfull hi
        obtain ⟨q, hq, hqi⟩ := fs.stat_eq_ok_iff.1 hi
        have hlost : ∀ j, fs.Lost (b.remove p fs).2 j → j = i ∧ q ≠ [] := by
          intro j hj
          rw [remove_of_denotes hfull hq] at hj
          obtain ⟨q', hq', hpre, hne⟩ := fs.lost_remove_iff.1 hj
          by_cases heq : q = q'
          · subst heq
            exact ⟨Option.some.inj (hq'.symm.trans hqi), hne⟩
          · exact absurd (fs.occupied_of_prefix hqi (by rw [hq']; rfl) hpre heq) hocc
        refine ⟨fun j hj hl => ?_, fun j hj => (hlost j hj).1 ▸ hi, fun j hj hoj => ?_⟩
        · obtain ⟨rfl, hne⟩ := hlost j hl
          exact hne (fs.unique q [] j hqi (hroot hj))
        · obtain rfl : i = j := by
            rw [Denotes, hi] at hj
            exact Except.ok.inj hj
          exact absurd hoj hocc
    · have hsame := remove_of_not_denotes fun i hi => hden ⟨i, hi⟩
      refine ⟨fun j _ hj => ?_, fun j hj => ?_, fun j hj => absurd ⟨j, hj⟩ hden⟩
      · rw [hsame] at hj
        exact fs.not_lost_self j hj
      · rw [hsame] at hj
        exact absurd hj (fs.not_lost_self j)

/-! ### The empty path -/

/-- A machine with a file `f` in a directory `d`. -/
def oneFile : Files :=
  ((FS.blank ⟨Time.zero, Time.zero, 0o755⟩).add [[0x64]] ⟨.dir, ⟨Time.zero, Time.zero, 0o755⟩⟩).add [[0x64], [0x66]]
    ⟨.file [], ⟨Time.zero, Time.zero, 0o644⟩⟩

/-- **`\` deletes the share.**  With `d` as the share, a delete-on-close of the path `\`
takes the directory and the file in it. -/
theorem not_deletesOne_backslash : ¬∀ (b : LocalBackend) (fs : Files) (p : GoString), b.DeletesOne fs p := by
  intro h
  have hone := h ⟨[[0x64]]⟩ oneFile [backslash]
  have hroot : IsRoot ⟨[[0x64]]⟩ oneFile 1 := rfl
  refine hone.root 1 hroot ?_
  have hfull : fullPath ⟨[[0x64]]⟩ oneFile [backslash] = .ok [[0x64]] := rfl
  rw [remove_of_denotes hfull rfl]
  exact oneFile.lost_remove_iff.2 ⟨[[0x64]], rfl, List.prefix_refl _, by decide⟩

end LocalBackend

end Vfs
end SmbServer
