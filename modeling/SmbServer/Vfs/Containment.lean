/-
# Staying inside the share

`fullPath` of `smb/vfs/vfs.go` is meant to keep every path of a client inside the root of
its share.  It compares texts, and looks at the last name of the path: if that is a link
whose destination is there, the destination has to lie in the share.  The operating
system follows links in every name, and creates a file where a dangling link points.

`Confined` says that nothing reached by a path lies outside, and that `Open`, `Remove`,
`Mkdir` and `Rename` leave alone what does.  `Sheltered` is when that is so: the directory
in which the path ends, or in which it breaks off, is one of the share, and so is the
place a dangling last link points to.
-/

import SmbServer.Lib.Resolution
import SmbServer.Vfs.Deletion

namespace SmbServer
namespace Vfs

open FileTree Wire List Option

namespace LocalBackend

variable (b : LocalBackend)
variable {full q : List GoString}

/-- **Share containment.** -/
structure Confined (fs : Files) (p : GoString) : Prop where
  reach : ∀ full, b.fullPath fs p = .ok full → ∀ follow q, fs.locate follow full = .ok q → b.root <+: q
  openFile : ∀ opts now, opts.path = p → FS.Apart b.root fs (b.openFile opts now fs).2 ∧
    ∀ h, (b.openFile opts now fs).1 = .ok h →
      ∃ q, (b.openFile opts now fs).2.names q = some h.file ∧ b.root <+: q
  remove : FS.Apart b.root fs (b.remove p fs).2
  mkdir : ∀ now, FS.Apart b.root fs (b.mkdir p now fs).2
  rename : ∀ h : LocalHandle, h.backend = b → (∀ q, fs.locate false h.path = .ok q → b.root <+: q) →
    ∀ replace, FS.Apart b.root fs (h.rename p replace fs).2.2

/-- The names of the path that the operating system looks up last are looked up in the
share. -/
structure Sheltered (fs : Files) (p : GoString) : Prop where
  /-- The last name, and the first that is not there. -/
  directory : ∀ full, b.fullPath fs p = .ok full → ∀ r n d, b.root <+: r → r ++ [n] <+: full →
    fs.locate true r = .ok d → fs.isDir d = true → (r ++ [n] = full ∨ fs.names (d ++ [n]) = none) →
    b.root <+: d ++ [n]
  dangling : ∀ full, b.fullPath fs p = .ok full → ∀ q, fs.locate true full = .ok q → fs.names q = none →
    b.root <+: q

variable {b} {fs : Files} {p : GoString}

theorem fullPath_eq_append (h : b.fullPath fs p = .ok full) :
    full = b.root ++ clientNames p := by
  rw [fullPath_eq h, join_cleanPath]

theorem fullPath_cleanPath (b : LocalBackend) (fs : Files) (p : GoString) :
    b.fullPath fs (cleanPath p) = b.fullPath fs p := by
  have hjoin : join b.root (cleanPath (cleanPath p)) = join b.root (cleanPath p) := by
    rw [join_cleanPath, join_cleanPath, clientNames_cleanPath]
  simp only [fullPath, hjoin]

/-- A last link whose destination is there was checked. -/
theorem checked_of_fullPath {i : ℕ} {t : Target GoString}
    (h : b.fullPath fs p = .ok full) (hi : fs.stat false full = .ok i) (ht : (fs.inode i).kind = .link t)
    (hq : fs.locate true full = .ok q) (hsome : (fs.names q).isSome) : b.root <+: q := by
  have heval : fs.evalSymlinks 255 full = .ok q := by
    rw [FS.evalSymlinks, fs.resolve_mono (by decide : FS.maxLinks ≤ 255) hq]
    simp only [hsome, if_true]
  have hfull := fullPath_eq h
  simp only [fullPath, ← hfull, hi, ht, Kind.isLink, heval, if_true] at h
  split_ifs at h with h1 h2
  exact h2

/-! ### What a sheltered path reaches -/

/-- The last name of a sheltered path is in the share. -/
theorem Sheltered.reach_last (h : b.Sheltered fs p) (hroot : fs.isDir b.root = true)
    (hfull : b.fullPath fs p = .ok full) (hq : fs.locate false full = .ok q) : b.root <+: q := by
  have happ := fullPath_eq_append hfull
  by_cases hne : clientNames p = []
  · rw [hne, append_nil] at happ
    have hself := fs.locate_of_isDir hroot
    have hlink : ∀ r, r <+: b.root → ∀ t, fs.kindAt r ≠ some (.link t) := by
      intro r hr t ht
      have hd : fs.isDir r = true := by
        by_cases heq : r = b.root
        · rwa [heq]
        · obtain ⟨i, hi, -⟩ := fs.isDir_iff.1 hroot
          exact fs.isDir_of_prefix (by rw [hi]; rfl) hr heq
      rw [fs.isDir_eq_of_kindAt ht] at hd
      cases hd
    rw [happ] at hq
    rw [fs.locate_plain hlink hq]
  · have hlast : full = (b.root ++ (clientNames p).dropLast) ++ [(clientNames p).getLast hne] := by
      rw [append_assoc, dropLast_append_getLast, happ]
    rw [hlast] at hq
    obtain ⟨d, hd, hdir, rfl⟩ := fs.locate_concat.1 hq
    exact h.directory full hfull _ _ d (prefix_append ..) (by rw [← hlast]) hd hdir (.inl hlast.symm)

theorem Sheltered.reach (h : b.Sheltered fs p) (hroot : fs.isDir b.root = true)
    (hfull : b.fullPath fs p = .ok full) (follow : Bool) (hq : fs.locate follow full = .ok q) :
    b.root <+: q := by
  cases follow with
  | false => exact h.reach_last hroot hfull hq
  | true =>
    cases hnames : fs.names q with
    | none => exact h.dangling full hfull q hq hnames
    | some j =>
      cases hl : fs.locate false full with
      | error e => exact absurd (hq.symm.trans ((fs.resolve_follow _ _ _).2 e hl)) (by simp)
      | ok q0 =>
        by_cases hlink : ∃ t, fs.kindAt q0 = some (.link t)
        · obtain ⟨t, ht⟩ := hlink
          obtain ⟨i, hi, hkind⟩ := map_eq_some_iff.1 ht
          exact checked_of_fullPath hfull (fs.stat_eq_ok_iff.2 ⟨q0, hl, hi⟩) hkind hq (by rw [hnames]; rfl)
        · have hsame := (fs.resolve_follow _ _ _).1 q0 hl fun t ht => hlink ⟨t, ht⟩
          rw [Except.ok.inj (hq.symm.trans hsame)]
          exact h.reach_last hroot hfull hl

/-! ### What the calls change -/

/-- `os.OpenFile` of a path that leads into the share. -/
theorem openAt_apart {flags : FS.OpenFlags} {now : Time}
    (hin : ∀ follow q, fs.locate follow full = .ok q → b.root <+: q) :
    FS.Apart b.root fs (b.openAt full flags now fs).2 ∧
      ∀ h, (b.openAt full flags now fs).1 = .ok h →
        ∃ q, (b.openAt full flags now fs).2.names q = some h.file ∧ b.root <+: q := by
  unfold openAt
  cases ho : fs.openFile full flags ⟨now, now, 0o644⟩ with
  | error e => exact ⟨.refl _ fs, nofun⟩
  | ok r =>
    obtain ⟨i, fs'⟩ := r
    obtain ⟨hap, q, hq, hin'⟩ := fs.openFile_apart hin ho
    refine ⟨hap, fun h hh => ⟨q, ?_, hin'⟩⟩
    cases hh
    exact hq

theorem Sheltered.openFile (h : b.Sheltered fs p) (hroot : fs.isDir b.root = true) (opts : OpenOptions) (now : Time)
    (hp : opts.path = p) : FS.Apart b.root fs (b.openFile opts now fs).2 ∧
      ∀ h, (b.openFile opts now fs).1 = .ok h →
        ∃ q, (b.openFile opts now fs).2.names q = some h.file ∧ b.root <+: q := by
  unfold LocalBackend.openFile
  rw [hp]
  cases hfull : b.fullPath fs p with
  | error e => exact ⟨.refl _ fs, nofun⟩
  | ok full =>
    have hin : ∀ follow q, fs.locate follow full = .ok q → b.root <+: q := fun follow q hq =>
      h.reach hroot hfull follow hq
    dsimp only
    split_ifs
    · cases hmk : fs.mkdir full ⟨now, now, 0o755⟩ with
      | error e =>
        cases e with
        | exist => exact openAt_apart hin
        | _ => exact ⟨.refl _ fs, nofun⟩
      | ok fs' =>
        simp only [FS.mkdir] at hmk
        cases hl : fs.locate false full with
        | error e => rw [hl] at hmk; cases hmk
        | ok q =>
          rw [hl] at hmk
          dsimp only at hmk
          split_ifs at hmk with hfree
          have hnone : fs.names q = none := not_isSome_iff_eq_none.1 hfree
          obtain rfl := Except.ok.inj hmk
          have hin' : ∀ follow q', (fs.add q ⟨.dir, ⟨now, now, 0o755⟩⟩).locate follow full = .ok q' →
              b.root <+: q' := by
            intro follow q' hq'
            rw [fs.locate_add hl hnone rfl follow] at hq'
            rw [← Except.ok.inj hq']
            exact hin false q hl
          obtain ⟨hap, hfile⟩ := openAt_apart hin'
          exact ⟨(FS.Apart.add _ (hin false q hl)).trans hap, hfile⟩
    · exact openAt_apart hin

theorem Sheltered.remove (h : b.Sheltered fs p) (hroot : fs.isDir b.root = true) :
    FS.Apart b.root fs (b.remove p fs).2 := by
  unfold LocalBackend.remove
  cases hfull : b.fullPath fs p with
  | error e => exact .refl _ fs
  | ok full =>
    simp only [FS.removeAll]
    cases hl : fs.locate false full with
    | error e => cases e <;> exact .refl _ fs
    | ok q => exact .remove (h.reach hroot hfull false hl)

theorem Sheltered.mkdir (h : b.Sheltered fs p) (hroot : fs.isDir b.root = true) (now : Time) :
    FS.Apart b.root fs (b.mkdir p now fs).2 := by
  unfold LocalBackend.mkdir
  cases hfull : b.fullPath fs p with
  | error e => exact .refl _ fs
  | ok full =>
    dsimp only
    cases hmk : FS.mkdirAll ⟨now, now, 0o755⟩ full.reverse fs with
    | error e => exact .refl _ fs
    | ok fs' =>
      refine (fs.mkdirAll_apart _ hroot ?_ (fun r n d hr hrn hd hdir hnone => ?_) hmk).1
      · rw [fullPath_eq_append hfull]
        exact prefix_append ..
      · exact h.directory full hfull r n d hr hrn hd hdir (.inr hnone)

theorem Sheltered.rename (h : b.Sheltered fs p) (hroot : fs.isDir b.root = true) {hd : LocalHandle}
    (hb : hd.backend = b) (hold : ∀ q, fs.locate false hd.path = .ok q → b.root <+: q) (replace : Bool) :
    FS.Apart b.root fs (hd.rename p replace fs).2.2 := by
  unfold LocalHandle.rename
  dsimp only
  rw [hb, fullPath_cleanPath]
  split_ifs
  · exact .refl _ fs
  · exact .refl _ fs
  · cases hfull : b.fullPath fs p with
    | error e => exact .refl _ fs
    | ok full =>
      dsimp only
      split_ifs
      · exact .refl _ fs
      · cases hrn : fs.rename hd.path full with
        | error e => exact .refl _ fs
        | ok fs' =>
          obtain ⟨qo, qn, hqo, hqn, -, ⟨-, rfl⟩ | ⟨-, -, -, rfl⟩⟩ := fs.rename_eq_ok hrn
          · exact .refl _ fs'
          · exact .move (hold qo hqo) (h.reach hroot hfull false hqn)

/-! ### When the share is contained -/

/-- **When a path stays in its share**: exactly when the names that the operating system
looks up last are looked up in directories of the share. -/
theorem confined_iff (b : LocalBackend) (fs : Files) (hroot : fs.isDir b.root = true) (p : GoString) :
    b.Confined fs p ↔ b.Sheltered fs p := by
  constructor
  · intro h
    refine ⟨fun full hfull r n d hr hrn hd hdir hend => ?_, fun full hfull q hq _ => h.reach full hfull true q hq⟩
    rcases hend with rfl | hnone
    · exact h.reach _ hfull false _ (fs.locate_concat.2 ⟨d, hd, hdir, rfl⟩)
    · -- `Mkdir` would make the name.
      obtain ⟨t, rfl⟩ := hrn
      obtain ⟨fs', hmk, hsome, -⟩ := fs.mkdirAll_creates ⟨Time.zero, Time.zero, 0o755⟩ hd hdir hnone t
      have hap := h.mkdir Time.zero
      simp only [LocalBackend.mkdir, hfull, hmk] at hap
      by_contra hout
      rw [hap.names _ hout, hnone] at hsome
      cases hsome
  · intro h
    exact ⟨fun full hfull follow q hq => h.reach hroot hfull follow hq, h.openFile hroot, h.remove hroot,
      h.mkdir hroot, fun hd hb hold => h.rename hroot hb hold⟩

theorem sheltered_of_plain
    (h : ∀ r, r <+: b.root ++ clientNames p → ∀ t, fs.kindAt r ≠ some (.link t)) : b.Sheltered fs p := by
  refine ⟨fun full hfull r n d hr hrn hd _ _ => ?_, fun full hfull q hq _ => ?_⟩
  · rw [fullPath_eq_append hfull] at hrn
    rw [fs.locate_plain (fun r' hr' => h r' (hr'.trans ((prefix_append ..).trans hrn))) hd]
    exact hr.trans (prefix_append ..)
  · rw [fullPath_eq_append hfull] at hq
    rw [fs.locate_plain h hq]
    exact prefix_append ..

/-- The file `f` of the share `d` stays in it. -/
theorem confined_oneFile : Confined ⟨[[0x64]]⟩ oneFile [0x66] := by
  have hplain : ∀ r ∈ ([[0x64]] ++ clientNames [0x66]).inits, (oneFile.kindAt r).any Kind.isLink = false := by
    decide +kernel
  refine (confined_iff ⟨[[0x64]]⟩ oneFile (by decide +kernel) [0x66]).2 (sheltered_of_plain fun r hr t ht => ?_)
  have hlink := hplain r (List.mem_inits r _ |>.2 hr)
  rw [ht] at hlink
  cases hlink

/-! ### A link in the middle of a path -/

/-- A machine with a share `s`, in it a link `l` to the directory `o` beside it, and a file
`f` in `o`. -/
def linkOut : Files :=
  let dir : Attrs := ⟨Time.zero, Time.zero, 0o755⟩
  ((((FS.blank dir).add [[0x73]] ⟨.dir, dir⟩).add [[0x6F]] ⟨.dir, dir⟩).add [[0x6F], [0x66]] ⟨.file [], dir⟩).add
    [[0x73], [0x6C]] ⟨.link ⟨true, [.down [0x6F]]⟩, dir⟩

/-- **`l/f` is outside.**  `fullPath` sees that the last name is no link, and the operating
system follows the one before it. -/
theorem not_confined_link :
    ¬∀ (b : LocalBackend) (fs : Files), fs.isDir b.root = true → ∀ p, b.Confined fs p := by
  intro h
  have hc := h ⟨[[0x73]]⟩ linkOut (by decide +kernel) [0x6C, slash, 0x66]
  have hreach := hc.reach [[0x73], [0x6C], [0x66]] rfl true [[0x6F], [0x66]] rfl
  exact absurd hreach (by decide)

end LocalBackend

end Vfs
end SmbServer
