/-
# Where a path leads

What following a path depends on: the directory that all names but the last lead to, and
what stands under the last name there (`locate_concat`).  A path without links leads to
itself (`locate_plain`), and a name that is added to the file system where a path led to
nothing is where the path leads from then on (`locate_add`).

`Apart dir fs fs'` says that `fs'` is `fs` outside a directory; each change of a file
system is of that kind for every directory it is made in.
-/

import SmbServer.Lib.FileTree

namespace SmbServer
open Function List Option
namespace FileTree
namespace FS

variable {ν α : Type} (fs : FS ν α)
variable {p q : List ν} {k : Kind ν} {n : ν} {fs' : FS ν α} {i : ℕ}

theorem isDir_dropLast (h : fs.isDir p = true) : fs.isDir p.dropLast = true := by
  by_cases hne : p.dropLast = p
  · rwa [hne]
  · obtain ⟨i, hi, -⟩ := fs.isDir_iff.1 h
    exact fs.isDir_of_prefix (by rw [hi]; rfl) ( dropLast_prefix p) hne

theorem isDir_eq_of_kindAt (h : fs.kindAt p = some k) : fs.isDir p = k.isDir := by
  rw [isDir, h]
  rfl

theorem isDir_eq_false_of_kindAt (h : fs.kindAt p = none) : fs.isDir p = false := by
  rw [isDir, h]
  rfl

section Unfold

variable {fs} {follow : Bool} {links : ℕ} {cur : List ν} {steps : List (Step ν)}

theorem resolve_failed {e : Errno} (h : fs.walk follow cur steps = .failed e) :
    fs.resolve follow links cur steps = .error e := by
  rw [resolve, h]

theorem resolve_link_zero {dir : List ν} {t : Target ν} {rest : List (Step ν)}
    (h : fs.walk follow cur steps = .link dir t rest) : fs.resolve follow 0 cur steps = .error .loop := by
  rw [resolve, h]

theorem resolve_link_succ {dir : List ν} {t : Target ν} {rest : List (Step ν)}
    (h : fs.walk follow cur steps = .link dir t rest) :
    fs.resolve follow (links + 1) cur steps =
      fs.resolve follow links (if t.absolute then [] else dir) (t.steps ++ rest) := by
  rw [resolve, h]

end Unfold

/-! ### One name more -/

/-- **Following a path and then some more steps.**  The steps go on from the directory the
path leads to; where it leads to something else, they cannot. -/
theorem walk_append (follow : Bool) {cur : List ν} (steps : List (Step ν)) {tail : List (Step ν)} (hcur : fs.isDir cur = true)
    (htail : tail ≠ []) :
    (∀ d, fs.walk true cur steps = .reached d → fs.isDir d = true →
      fs.walk follow cur (steps ++ tail) = fs.walk follow d tail) ∧
    (∀ d, fs.walk true cur steps = .reached d → fs.isDir d = false →
      ∃ e, fs.walk follow cur (steps ++ tail) = .failed e) ∧
    (∀ e, fs.walk true cur steps = .failed e → fs.walk follow cur (steps ++ tail) = .failed e) ∧
    ∀ dir t rest, fs.walk true cur steps = .link dir t rest →
      fs.isDir dir = true ∧ fs.walk follow cur (steps ++ tail) = .link dir t (rest ++ tail) := by
  induction steps generalizing cur with
  | nil =>
    refine ⟨fun d h _ => ?_, fun d h hd => ?_, fun e h => ?_, fun dir t rest h => ?_⟩ <;> cases h
    · rfl
    · rw [hcur] at hd
      cases hd
  | cons step steps ih =>
    cases step with
    | up => exact ih (fs.isDir_dropLast hcur)
    | down n =>
      have hrest : (steps ++ tail).isEmpty = false := by
        cases steps <;> cases tail <;> simp_all
      rw [cons_append]
      simp only [walk, hrest]
      cases hk : fs.kindAt (cur ++ [n]) with
      | none =>
        have hnot := fs.isDir_eq_false_of_kindAt hk
        dsimp only
        refine ⟨fun d h hd => ?_, fun d h _ => ⟨_, rfl⟩, fun e h => ?_, fun dir t rest h => ?_⟩ <;>
          split_ifs at h <;> cases h
        · rw [hnot] at hd
          cases hd
        · rfl
      | some k =>
        cases k with
        | dir => exact ih (by rw [fs.isDir_eq_of_kindAt hk]; rfl)
        | file b =>
          have hnot : fs.isDir (cur ++ [n]) = false := by rw [fs.isDir_eq_of_kindAt hk]; rfl
          dsimp only
          refine ⟨fun d h hd => ?_, fun d h _ => ⟨_, rfl⟩, fun e h => ?_, fun dir t rest h => ?_⟩ <;>
            split_ifs at h <;> cases h
          · rw [hnot] at hd
            cases hd
          · rfl
        | link t =>
          simp only [Bool.not_true, Bool.and_false]
          refine ⟨fun d h => ?_, fun d h => ?_, fun e h => ?_, fun dir t' rest h => ?_⟩ <;> cases h
          exact ⟨hcur, rfl⟩

/-- The last name is looked up without following it. -/
theorem walk_last (d : List ν) (n : ν) : fs.walk false d [.down n] = .reached (d ++ [n]) := by
  simp only [walk]
  cases fs.kindAt (d ++ [n]) with
  | none => rfl
  | some k => cases k <;> rfl

/-- **A path leads to a name in the directory that its other names lead to.** -/
theorem resolve_concat {links : ℕ} {cur : List ν} {steps : List (Step ν)}
    (hcur : fs.isDir cur = true) :
    fs.resolve false links cur (steps ++ [.down n]) = .ok q ↔
      ∃ d, fs.resolve true links cur steps = .ok d ∧ fs.isDir d = true ∧ q = d ++ [n] := by
  obtain ⟨hdir, hfile, hfail, hlink⟩ := fs.walk_append false steps hcur (cons_ne_nil (.down n) [])
  fun_induction fs.resolve true links cur steps with
  | case1 links cur steps d hw =>
    cases hd : fs.isDir d with
    | true =>
      rw [resolve_reached ((hdir d hw hd).trans (fs.walk_last d n))]
      constructor
      · intro h
        exact ⟨d, rfl, hd, (Except.ok.inj h).symm⟩
      · rintro ⟨d', h, -, rfl⟩
        rw [Except.ok.inj h]
    | false =>
      obtain ⟨e, he⟩ := hfile d hw hd
      rw [resolve_failed he]
      refine ⟨nofun, ?_⟩
      rintro ⟨d', h, hd', -⟩
      rw [← Except.ok.inj h, hd] at hd'
      cases hd'
  | case2 links cur steps e hw =>
    rw [resolve_failed (hfail e hw)]
    exact ⟨nofun, fun ⟨_, h, _⟩ => (by cases h)⟩
  | case3 cur steps dir t rest hw =>
    rw [resolve_link_zero (hlink dir t rest hw).2]
    exact ⟨nofun, fun ⟨_, h, _⟩ => (by cases h)⟩
  | case4 cur steps dir t rest hw links ih =>
    have hstart : fs.isDir (if t.absolute = true then [] else dir) = true := by
      split_ifs
      · exact fs.isDir_nil
      · exact (hlink dir t rest hw).1
    rw [resolve_link_succ (hlink dir t rest hw).2, ← append_assoc]
    obtain ⟨hdir', hfile', hfail', hlink'⟩ := fs.walk_append false (t.steps ++ rest) hstart
      (cons_ne_nil (.down n) [])
    exact ih hstart hdir' hfile' hfail' hlink'

theorem locate_concat :
    fs.locate false (p ++ [n]) = .ok q ↔ ∃ d, fs.locate true p = .ok d ∧ fs.isDir d = true ∧ q = d ++ [n] := by
  unfold locate
  rw [map_append]
  exact fs.resolve_concat fs.isDir_nil

/-! ### Following the last name or not -/

theorem walk_follow {cur : List ν} {steps : List (Step ν)} :
    (∀ q, fs.walk false cur steps = .reached q → (∀ t, fs.kindAt q ≠ some (.link t)) →
      fs.walk true cur steps = .reached q) ∧
    (∀ e, fs.walk false cur steps = .failed e → fs.walk true cur steps = .failed e) ∧
    ∀ dir t rest, fs.walk false cur steps = .link dir t rest → fs.walk true cur steps = .link dir t rest := by
  induction steps generalizing cur with
  | nil => exact ⟨fun _ h _ => h, fun _ h => h, fun _ _ _ h => h⟩
  | cons step steps ih =>
    cases step with
    | up => exact ih
    | down n =>
      simp only [walk]
      cases hk : fs.kindAt (cur ++ [n]) with
      | none => exact ⟨fun _ h _ => h, fun _ h => h, fun _ _ _ h => h⟩
      | some k =>
        cases k with
        | dir => exact ih
        | file b => exact ⟨fun _ h _ => h, fun _ h => h, fun _ _ _ h => h⟩
        | link t =>
          dsimp only
          refine ⟨fun q h hq => ?_, fun e h => ?_, fun dir t' rest h => ?_⟩ <;> split_ifs at h with hr
          · cases h
            exact absurd hk (hq t)
          · rw [if_neg (by simp)]
            exact h

/-- What no link stands for is reached in both ways. -/
theorem resolve_follow (links : ℕ) (cur : List ν) (steps : List (Step ν)) :
    (∀ q, fs.resolve false links cur steps = .ok q → (∀ t, fs.kindAt q ≠ some (.link t)) →
      fs.resolve true links cur steps = .ok q) ∧
    ∀ e, fs.resolve false links cur steps = .error e → fs.resolve true links cur steps = .error e := by
  fun_induction fs.resolve false links cur steps with
  | case1 links cur steps p hw =>
    refine ⟨fun q h hq => ?_, nofun⟩
    cases h
    exact resolve_reached (fs.walk_follow.1 p hw hq)
  | case2 links cur steps e hw =>
    rw [resolve_failed (fs.walk_follow.2.1 e hw)]
    exact ⟨fun _ h _ => h, fun _ h => h⟩
  | case3 cur steps dir t rest hw =>
    rw [resolve_link_zero (fs.walk_follow.2.2 dir t rest hw)]
    exact ⟨fun _ h _ => h, fun _ h => h⟩
  | case4 cur steps dir t rest hw links ih =>
    rw [resolve_link_succ (fs.walk_follow.2.2 dir t rest hw)]
    exact ih

/-- More links than were needed make no difference. -/
theorem resolve_mono {follow : Bool} {links links' : ℕ} (hle : links ≤ links') {cur : List ν} {steps : List (Step ν)}
    (h : fs.resolve follow links cur steps = .ok q) : fs.resolve follow links' cur steps = .ok q := by
  fun_induction fs.resolve follow links cur steps generalizing links' with
  | case1 links cur steps p hw => rwa [resolve_reached hw]
  | case2 links cur steps e hw => cases h
  | case3 cur steps dir t rest hw => cases h
  | case4 cur steps dir t rest hw links ih =>
    obtain ⟨k, rfl⟩ : ∃ k, links' = k + 1 := ⟨links' - 1, by omega⟩
    rw [resolve_link_succ hw]
    exact ih (by omega) h

/-- **A path without links leads to itself.** -/
theorem locate_plain {follow : Bool} (hp : ∀ r, r <+: p → ∀ t, fs.kindAt r ≠ some (.link t))
    (h : fs.locate follow p = .ok q) : q = p := by
  have hwalk : ∀ (names cur : List ν), cur ++ names = p →
      fs.walk follow cur (names.map .down) = .reached p ∨ ∃ e, fs.walk follow cur (names.map .down) = .failed e := by
    intro names
    induction names with
    | nil =>
      intro cur hcur
      rw [append_nil] at hcur
      exact .inl (by rw [hcur]; rfl)
    | cons n names ih =>
      intro cur hcur
      have hnext : (cur ++ [n]) ++ names = p := by rw [← hcur, append_assoc]; rfl
      have hend : names.map (Step.down) = [] → cur ++ [n] = p := by
        intro hnil
        rw [← hnext, map_eq_nil_iff.1 hnil, append_nil]
      simp only [map_cons, walk]
      cases hk : fs.kindAt (cur ++ [n]) with
      | none =>
        dsimp only
        split_ifs with he
        · exact .inl (by rw [hend (List.isEmpty_iff.1 he)])
        · exact .inr ⟨_, rfl⟩
      | some k =>
        cases k with
        | dir => exact ih _ hnext
        | file b =>
          dsimp only
          split_ifs with he
          · exact .inl (by rw [hend (List.isEmpty_iff.1 he)])
          · exact .inr ⟨_, rfl⟩
        | link t => exact absurd hk (hp _ ⟨names, hnext⟩ t)
  unfold locate at h
  rw [resolve] at h
  rcases hwalk p [] rfl with hw | ⟨e, hw⟩ <;> rw [hw] at h <;> cases h
  rfl

theorem locate_of_isDir (h : fs.isDir p = true) : fs.locate true p = .ok p := by
  induction p using reverseRecOn with
  | nil => exact resolve_reached rfl
  | append_singleton p n ih =>
    have hdir : fs.isDir p = true := by
      have hd := fs.isDir_dropLast h
      rwa [dropLast_concat] at hd
    refine (fs.resolve_follow _ _ _).1 _ (fs.locate_concat.2 ⟨p, ih hdir, hdir, rfl⟩) fun t ht => ?_
    rw [fs.isDir_eq_of_kindAt ht] at h
    cases h

/-! ### A new name where a path led to nothing -/

theorem walk_add (hsame : ∀ r, r ≠ q → fs'.kindAt r = fs.kindAt r)
    (hnone : fs.kindAt q = none) (hk : fs'.kindAt q = some k) (hlink : k.isLink = false) (follow : Bool)
    {cur : List ν} {steps : List (Step ν)} :
    (fs.walk false cur steps = .reached q → fs'.walk follow cur steps = .reached q) ∧
    ∀ dir t rest, fs.walk false cur steps = .link dir t rest → fs'.walk follow cur steps = .link dir t rest := by
  induction steps generalizing cur with
  | nil => exact ⟨fun h => h, fun _ _ _ h => h⟩
  | cons step steps ih =>
    cases step with
    | up => exact ih
    | down n =>
      simp only [walk]
      by_cases heq : cur ++ [n] = q
      · rw [heq, hnone, hk]
        dsimp only
        refine ⟨fun h => ?_, fun dir t rest h => ?_⟩ <;> split_ifs at h with he
        rw [List.isEmpty_iff.1 he]
        cases k with
        | dir => rfl
        | file b => rfl
        | link t => cases hlink
      · rw [hsame _ heq]
        cases hkc : fs.kindAt (cur ++ [n]) with
        | none =>
          dsimp only
          refine ⟨fun h => ?_, fun dir t rest h => ?_⟩ <;> split_ifs at h with he
          exact absurd (by cases h; rfl) heq
        | some kc =>
          cases kc with
          | dir => exact ih
          | file b =>
            dsimp only
            refine ⟨fun h => ?_, fun dir t rest h => ?_⟩ <;> split_ifs at h with he
            exact absurd (by cases h; rfl) heq
          | link t =>
            dsimp only
            refine ⟨fun h => ?_, fun dir t' rest h => ?_⟩ <;> split_ifs at h with he
            · exact absurd (by cases h; rfl) heq
            · rw [if_neg]
              · exact h
              · intro hboth
                apply he
                simp only [Bool.and_eq_true, Bool.not_eq_true'] at hboth ⊢
                exact ⟨hboth.1, trivial⟩

/-- **A name that is added where a path led to nothing is where it leads.** -/
theorem resolve_add (hsame : ∀ r, r ≠ q → fs'.kindAt r = fs.kindAt r)
    (hnone : fs.kindAt q = none) (hk : fs'.kindAt q = some k) (hlink : k.isLink = false) (follow : Bool) {links : ℕ}
    {cur : List ν} {steps : List (Step ν)} (h : fs.resolve false links cur steps = .ok q) :
    fs'.resolve follow links cur steps = .ok q := by
  fun_induction fs.resolve false links cur steps with
  | case1 links cur steps p hw =>
    cases h
    exact resolve_reached ((fs.walk_add hsame hnone hk hlink follow).1 hw)
  | case2 links cur steps e hw => cases h
  | case3 cur steps dir t rest hw => cases h
  | case4 cur steps dir t rest hw links ih =>
    rw [resolve_link_succ ((fs.walk_add hsame hnone hk hlink follow).2 dir t rest hw)]
    exact ih h

section Changes

variable [DecidableEq ν]

theorem add_apply (node : Inode ν α) (hp : p ≠ []) (hdir : fs.isDir p.dropLast = true)
    (hfree : fs.names p = none) :
    (fs.add p node).names = Function.update fs.names p (some fs.next) ∧
      (fs.add p node).inode = Function.update fs.inode fs.next node := by
  unfold add
  rw [dif_pos ⟨hp, hdir, hfree⟩]
  exact ⟨rfl, rfl⟩

theorem kindAt_add_self (node : Inode ν α) (hp : p ≠ []) (hdir : fs.isDir p.dropLast = true)
    (hfree : fs.names p = none) : (fs.add p node).kindAt p = some node.kind := by
  obtain ⟨hnames, hinode⟩ := fs.add_apply node hp hdir hfree
  rw [kindAt, hnames, hinode, update_self, map_some, update_self]

theorem kindAt_add_of_ne (node : Inode ν α) (hp : p ≠ []) (hdir : fs.isDir p.dropLast = true)
    (hfree : fs.names p = none) (hq : q ≠ p) : (fs.add p node).kindAt q = fs.kindAt q := by
  obtain ⟨hnames, hinode⟩ := fs.add_apply node hp hdir hfree
  rw [kindAt, hnames, hinode, update_of_ne hq, kindAt]
  cases hi : fs.names q with
  | none => rfl
  | some i => rw [map_some, update_of_ne (fs.fresh q i hi).ne, map_some]

omit [DecidableEq ν] in
theorem kindAt_eq_none_iff : fs.kindAt p = none ↔ fs.names p = none := by
  rw [kindAt, map_eq_none_iff]

omit [DecidableEq ν] in
theorem isDir_of_resolve {follow : Bool} {links : ℕ} {cur : List ν} {steps : List (Step ν)}
    (hcur : fs.isDir cur = true) (h : fs.resolve follow links cur steps = .ok q) : fs.isDir q.dropLast = true := by
  have hwalk : ∀ (steps : List (Step ν)) (cur : List ν), fs.isDir cur = true →
      (∀ q, fs.walk follow cur steps = .reached q → fs.isDir q.dropLast = true) ∧
      ∀ dir t rest, fs.walk follow cur steps = .link dir t rest → fs.isDir dir = true := by
    intro steps
    induction steps with
    | nil =>
      refine fun cur hcur => ⟨fun q h => ?_, fun dir t rest h => ?_⟩ <;> cases h
      exact fs.isDir_dropLast hcur
    | cons step steps ih =>
      intro cur hcur
      have hlast : ∀ n, fs.isDir (cur ++ [n]).dropLast = true := fun n => by rwa [dropLast_concat]
      cases step with
      | up => exact ih _ (fs.isDir_dropLast hcur)
      | down n =>
        simp only [walk]
        cases hk : fs.kindAt (cur ++ [n]) with
        | none =>
          dsimp only
          refine ⟨fun q h => ?_, fun dir t rest h => ?_⟩ <;> split_ifs at h
          cases h
          exact hlast n
        | some k =>
          cases k with
          | dir => exact ih _ (by rw [fs.isDir_eq_of_kindAt hk]; rfl)
          | file b =>
            dsimp only
            refine ⟨fun q h => ?_, fun dir t rest h => ?_⟩ <;> split_ifs at h
            cases h
            exact hlast n
          | link t =>
            dsimp only
            refine ⟨fun q h => ?_, fun dir t rest h => ?_⟩ <;> split_ifs at h <;> cases h
            · exact hlast n
            · exact hcur
  fun_induction fs.resolve follow links cur steps with
  | case1 links cur steps p hw =>
    cases h
    exact (hwalk steps cur hcur).1 _ hw
  | case2 links cur steps e hw => cases h
  | case3 cur steps dir t rest hw => cases h
  | case4 cur steps dir t rest hw links ih =>
    refine ih ?_ h
    split_ifs
    · exact fs.isDir_nil
    · exact (hwalk steps cur hcur).2 dir t rest hw

omit [DecidableEq ν] in
/-- Something can be added where a path leads to nothing. -/
theorem free_of_locate {follow : Bool} (h : fs.locate follow p = .ok q) (hfree : fs.names q = none) :
    q ≠ [] ∧ fs.isDir q.dropLast = true := by
  refine ⟨?_, fs.isDir_of_resolve fs.isDir_nil h⟩
  rintro rfl
  obtain ⟨i, hi, -⟩ := fs.root
  rw [hfree] at hi
  cases hi

/-- **A new directory or file is where its path leads.** -/
theorem locate_add {node : Inode ν α} (h : fs.locate false p = .ok q) (hfree : fs.names q = none)
    (hlink : node.kind.isLink = false) (follow : Bool) :
    (fs.add q node).locate follow p = .ok q := by
  obtain ⟨hq, hdir⟩ := fs.free_of_locate h hfree
  exact fs.resolve_add (fun r hr => fs.kindAt_add_of_ne node hq hdir hfree hr) (fs.kindAt_eq_none_iff.2 hfree)
    (fs.kindAt_add_self node hq hdir hfree) hlink follow h

/-! ### Changes inside a directory -/

omit [DecidableEq ν] in
/-- `fs'` is `fs` outside the directory `dir`. -/
structure Apart (dir : List ν) (fs fs' : FS ν α) : Prop where
  names : ∀ q, ¬dir <+: q → fs'.names q = fs.names q
  inode : ∀ q i, ¬dir <+: q → fs.names q = some i → fs'.inode i = fs.inode i

namespace Apart

variable {fs} {dir : List ν}

omit [DecidableEq ν] in
theorem refl (dir : List ν) (fs : FS ν α) : Apart dir fs fs := ⟨fun _ _ => rfl, fun _ _ _ _ => rfl⟩

omit [DecidableEq ν] in
theorem trans {fs1 fs2 fs3 : FS ν α} (h1 : Apart dir fs1 fs2) (h2 : Apart dir fs2 fs3) : Apart dir fs1 fs3 where
  names q hq := (h2.names q hq).trans (h1.names q hq)
  inode q i hq hi := (h2.inode q i hq (by rw [h1.names q hq, hi])).trans (h1.inode q i hq hi)

theorem add (node : Inode ν α) (hp : dir <+: p) : Apart dir fs (fs.add p node) := by
  by_cases h : p ≠ [] ∧ fs.isDir p.dropLast = true ∧ fs.names p = none
  · obtain ⟨hnames, hinode⟩ := fs.add_apply node h.1 h.2.1 h.2.2
    refine ⟨fun q hq => ?_, fun q i _ hi => ?_⟩
    · rw [hnames, update_of_ne (by rintro rfl; exact hq hp)]
    · rw [hinode, update_of_ne (fs.fresh q i hi).ne]
  · unfold FS.add
    rw [dif_neg h]
    exact .refl dir fs

omit [DecidableEq ν] in
theorem setInode {node : Inode ν α} {h : node.kind.isDir = (fs.inode i).kind.isDir}
    (hi : fs.names p = some i) (hp : dir <+: p) : Apart dir fs (fs.setInode i node h) := by
  refine ⟨fun _ _ => rfl, fun q j hq hj => update_of_ne ?_ _ _⟩
  rintro rfl
  rw [fs.unique p q j hi hj] at hp
  exact hq hp

omit [DecidableEq ν] in
theorem setContent (b : List UInt8) (hi : fs.names p = some i) (hp : dir <+: p) :
    Apart dir fs (fs.setContent i b) := by
  unfold FS.setContent
  split_ifs
  · exact .setInode hi hp
  · exact .refl dir fs

theorem remove (hp : dir <+: p) : Apart dir fs (fs.remove p) := by
  refine ⟨fun q hq => ?_, fun _ _ _ _ => rfl⟩
  rw [names_remove, if_neg fun h => hq (hp.trans h.1)]

theorem move {old new : List ν} (ho : dir <+: old) (hn : dir <+: new) : Apart dir fs (fs.move old new) := by
  unfold FS.move
  split_ifs with h
  · refine ⟨fun q hq => ?_, fun _ _ _ _ => rfl⟩
    show fs.moved old new q = fs.names q
    rw [moved, if_neg fun h => hq (hn.trans h), if_neg fun h => hq (ho.trans h)]
  · exact .refl dir fs

end Apart

/-- `open` of a path that leads into a directory: the object is there, and nothing changes
elsewhere. -/
theorem openFile_apart {dir : List ν} {flags : OpenFlags} {a : α}
    (hin : ∀ follow q, fs.locate follow p = .ok q → dir <+: q) (h : fs.openFile p flags a = .ok (i, fs')) :
    Apart dir fs fs' ∧ ∃ q, fs'.names q = some i ∧ dir <+: q := by
  unfold openFile at h
  cases hl : fs.locate (!(flags.create && flags.excl)) p with
  | error e => rw [hl] at h; cases h
  | ok q =>
    have hq := hin _ q hl
    rw [hl] at h
    dsimp only at h
    cases hn : fs.names q with
    | none =>
      obtain ⟨hne, hdir⟩ := fs.free_of_locate hl hn
      rw [hn] at h
      dsimp only at h
      split_ifs at h
      cases h
      exact ⟨.add _ hq, q, by rw [(fs.add_apply _ hne hdir hn).1, update_self], hq⟩
    | some j =>
      have hset : (fs.setContent j []).names q = some j := by
        unfold setContent
        split_ifs <;> exact hn
      rw [hn] at h
      dsimp only at h
      cases hexcl : flags.create && flags.excl with
      | true => rw [hexcl] at h; cases h
      | false =>
        rw [hexcl] at h
        simp only [Bool.false_eq_true, if_false] at h
        cases hk : (fs.inode j).kind with
        | dir =>
          rw [hk] at h
          dsimp only at h
          split_ifs at h
          cases h
          exact ⟨.refl dir fs, q, hn, hq⟩
        | file c =>
          rw [hk] at h
          cases h
          split_ifs
          · exact ⟨.setContent _ hn hq, q, hset, hq⟩
          · exact ⟨.refl dir fs, q, hn, hq⟩
        | link t => rw [hk] at h; cases h

/-! ### A file opened by a path that ends in no link -/

omit [DecidableEq ν] in
theorem locate_unlinked (h : fs.locate false p = .ok q) (hq : ∀ t, fs.kindAt q ≠ some (.link t))
    (follow : Bool) : fs.locate follow p = .ok q := by
  cases follow with
  | false => exact h
  | true => exact (fs.resolve_follow _ _ _).1 q h hq

omit [DecidableEq ν] in
theorem names_setContent (i : ℕ) (b : List UInt8) : (fs.setContent i b).names = fs.names := by
  unfold setContent
  split_ifs <;> rfl

omit [DecidableEq ν] in
theorem kind_setContent (h : (fs.inode i).kind.isDir = false) (b : List UInt8) :
    ((fs.setContent i b).inode i).kind = .file b := by
  rw [setContent, dif_pos h]
  show (Function.update fs.inode i _ i).kind = _
  rw [update_self]

omit [DecidableEq ν] in
theorem kind_setAttrs (i : ℕ) (a : α) : ((fs.setAttrs i a).inode i).kind = (fs.inode i).kind := by
  show (Function.update fs.inode i { fs.inode i with attrs := a } i).kind = _
  rw [update_self]

theorem openFile_absent (h : fs.locate false p = .ok q) (hfree : fs.names q = none) (flags : OpenFlags) (a : α) :
    fs.openFile p flags a = if flags.create then .ok (fs.next, fs.add q ⟨.file [], a⟩) else .error .notExist := by
  have hkind : fs.kindAt q = none := fs.kindAt_eq_none_iff.2 hfree
  rw [openFile, fs.locate_unlinked h fun t ht => by rw [hkind] at ht; cases ht]
  dsimp only
  rw [hfree]

theorem openFile_file (h : fs.locate false p = .ok q) (hi : fs.names q = some i) {content : List UInt8}
    (hk : (fs.inode i).kind = .file content) (flags : OpenFlags) (a : α) :
    fs.openFile p flags a = if flags.create && flags.excl then .error .exist
      else .ok (i, if flags.trunc then fs.setContent i [] else fs) := by
  have hkind : fs.kindAt q = some (.file content) := by rw [kindAt, hi, map_some, hk]
  rw [openFile, fs.locate_unlinked h fun t ht => by rw [hkind] at ht; cases ht]
  dsimp only
  rw [hi]
  dsimp only
  rw [hk]

/-! ### Directories made with those above them -/

omit [DecidableEq ν] in
/-- A path that leads to nothing cannot be followed further. -/
theorem locate_beyond {t : List ν} (hp : ∀ d, fs.locate true p = .ok d → fs.isDir d = false) (ht : t ≠ []) :
    fs.locate true (p ++ t) ≠ .ok q := by
  induction t using reverseRecOn generalizing q with
  | nil => exact absurd rfl ht
  | append_singleton t m ih =>
    intro h
    cases hf : fs.locate false (p ++ (t ++ [m])) with
    | error e => exact absurd (h.symm.trans ((fs.resolve_follow _ _ _).2 e hf)) (by simp)
    | ok q' =>
      rw [← append_assoc] at hf
      obtain ⟨d, hd, hdir, -⟩ := fs.locate_concat.1 hf
      by_cases hnil : t = []
      · subst hnil
        rw [append_nil] at hd
        rw [hp d hd] at hdir
        cases hdir
      · exact ih hnil hd

theorem mkdirAll_of_isDir (a : α) {d : List ν} (hp : fs.locate true p = .ok d) (hd : fs.isDir d = true) :
    mkdirAll a p.reverse fs = .ok fs := by
  cases hr : p.reverse with
  | nil => rfl
  | cons n above =>
    obtain ⟨i, hi, hdir⟩ := fs.isDir_iff.1 hd
    have hstat : fs.stat true (n :: above).reverse = .ok i := by
      rw [← hr, reverse_reverse]
      exact fs.stat_eq_ok_iff.2 ⟨d, hp, hi⟩
    simp only [mkdirAll, hstat, hdir, if_true]

/-- **`mkdirAll` makes what is missing**, from the last directory of the path that is there. -/
theorem mkdirAll_creates (a : α) {r d : List ν} (hr : fs.locate true r = .ok d) (hd : fs.isDir d = true)
    (hn : fs.names (d ++ [n]) = none) (t : List ν) :
    ∃ fs', mkdirAll a (r ++ [n] ++ t).reverse fs = .ok fs' ∧ (fs'.names (d ++ [n])).isSome ∧
      fs'.locate true (r ++ [n] ++ t) = .ok (d ++ [n] ++ t) ∧ fs'.isDir (d ++ [n] ++ t) = true ∧
      ∀ m, fs'.names (d ++ [n] ++ t ++ [m]) = none := by
  have hloc : fs.locate false (r ++ [n]) = .ok (d ++ [n]) := fs.locate_concat.2 ⟨d, hr, hd, rfl⟩
  have hkind : fs.kindAt (d ++ [n]) = none := fs.kindAt_eq_none_iff.2 hn
  have hfollow : fs.locate true (r ++ [n]) = .ok (d ++ [n]) :=
    (fs.resolve_follow _ _ _).1 _ hloc fun t => by rw [hkind]; simp
  have hmissing : ∀ t, ∃ e, fs.stat true (r ++ [n] ++ t) = .error e := by
    intro t
    cases hs : fs.stat true (r ++ [n] ++ t) with
    | error e => exact ⟨e, rfl⟩
    | ok i =>
      obtain ⟨q, hq, hqi⟩ := fs.stat_eq_ok_iff.1 hs
      by_cases ht : t = []
      · subst ht
        rw [append_nil, hfollow] at hq
        rw [← Except.ok.inj hq, hn] at hqi
        cases hqi
      · refine absurd hq (fs.locate_beyond (fun d' hd' => ?_) ht)
        rw [hfollow] at hd'
        rw [← Except.ok.inj hd']
        exact fs.isDir_eq_false_of_kindAt hkind
  -- One more directory below a path that leads to one.
  have hadd : ∀ (fs' : FS ν α) {p q : List ν} {m : ν}, fs'.locate true p = .ok q → fs'.isDir q = true →
      fs'.names (q ++ [m]) = none → fs'.mkdir (p ++ [m]) a = .ok (fs'.add (q ++ [m]) ⟨.dir, a⟩) ∧
        (fs'.add (q ++ [m]) ⟨.dir, a⟩).locate true (p ++ [m]) = .ok (q ++ [m]) ∧
        (fs'.add (q ++ [m]) ⟨.dir, a⟩).isDir (q ++ [m]) = true ∧
        (∀ m', (fs'.add (q ++ [m]) ⟨.dir, a⟩).names (q ++ [m] ++ [m']) = none) ∧
        (fs'.add (q ++ [m]) ⟨.dir, a⟩).names (q ++ [m]) = some fs'.next ∧
        ∀ q', q' ≠ q ++ [m] → (fs'.add (q ++ [m]) ⟨.dir, a⟩).names q' = fs'.names q' := by
    intro fs' p q m hp hq hfree
    have hl : fs'.locate false (p ++ [m]) = .ok (q ++ [m]) := fs'.locate_concat.2 ⟨q, hp, hq, rfl⟩
    obtain ⟨hne, hpar⟩ := fs'.free_of_locate hl hfree
    obtain ⟨hnames, -⟩ := fs'.add_apply ⟨.dir, a⟩ hne hpar hfree
    have hother : ∀ q', q' ≠ q ++ [m] → (fs'.add (q ++ [m]) ⟨.dir, a⟩).names q' = fs'.names q' := fun q' hq' => by
      rw [hnames, update_of_ne hq']
    refine ⟨?_, fs'.locate_add hl hfree rfl true, ?_, fun m' => ?_, ?_, hother⟩
    · simp only [mkdir, hl, hfree, isSome_none]
      rfl
    · rw [isDir, fs'.kindAt_add_self ⟨.dir, a⟩ hne hpar hfree]
      rfl
    · rw [hother _ (by simp)]
      exact fs'.names_eq_none_of_prefix hfree (prefix_append ..)
    · rw [hnames, update_self]
  induction t using reverseRecOn with
  | nil =>
    obtain ⟨hmk, hl, hdir, hbelow, hself, -⟩ := hadd fs hr hd hn
    obtain ⟨e, he⟩ := hmissing []
    simp only [append_nil] at he ⊢
    refine ⟨_, ?_, by rw [hself]; rfl, hl, hdir, hbelow⟩
    rw [reverse_append, reverse_singleton, singleton_append]
    simp only [mkdirAll, reverse_cons, reverse_reverse, he, fs.mkdirAll_of_isDir a hr hd, hmk]
  | append_singleton t m ih =>
    obtain ⟨fs', hall, hsome, hl, hdir, hbelow⟩ := ih
    obtain ⟨hmk, hl', hdir', hbelow', -, hother⟩ := hadd fs' hl hdir (hbelow m)
    obtain ⟨e, he⟩ := hmissing (t ++ [m])
    simp only [← append_assoc] at he ⊢
    refine ⟨_, ?_, ?_, hl', hdir', hbelow'⟩
    · rw [@List.reverse_append _ (r ++ [n] ++ t), reverse_singleton, singleton_append]
      simp only [mkdirAll, reverse_cons, reverse_reverse, he, hall, hmk]
    · rw [hother _ fun h => ?_]
      · exact hsome
      · have := congrArg List.length h
        simp at this

/-- `mkdirAll` stays in a directory that is there, when the first name it makes is in it. -/
theorem mkdirAll_apart (a : α) {dir : List ν} (hdir : fs.isDir dir = true) (hp : dir <+: p)
    (h : ∀ r n d, dir <+: r → r ++ [n] <+: p → fs.locate true r = .ok d → fs.isDir d = true →
      fs.names (d ++ [n]) = none → dir <+: d ++ [n])
    (hrun : mkdirAll a p.reverse fs = .ok fs') :
    Apart dir fs fs' ∧ (fs' = fs ∨ ∃ e, fs'.locate true p = .ok e ∧ dir <+: e) := by
  induction p using reverseRecOn generalizing fs' with
  | nil =>
    cases hrun
    exact ⟨.refl dir fs, .inl rfl⟩
  | append_singleton p n ih =>
    rw [reverse_append, reverse_singleton, singleton_append] at hrun
    simp only [mkdirAll, reverse_cons, reverse_reverse] at hrun
    cases hs : fs.stat true (p ++ [n]) with
    | ok i =>
      rw [hs] at hrun
      dsimp only at hrun
      split_ifs at hrun
      cases hrun
      exact ⟨.refl dir fs, .inl rfl⟩
    | error e =>
      have hpre : dir <+: p := by
        rcases prefix_concat_iff.1 hp with heq | hpre
        · obtain ⟨i, hi, -⟩ := fs.isDir_iff.1 hdir
          have hok := fs.stat_eq_ok_iff.2 ⟨dir, fs.locate_of_isDir hdir, hi⟩
          rw [heq, hs] at hok
          cases hok
        · exact hpre
      rw [hs] at hrun
      dsimp only at hrun
      cases hall : mkdirAll a p.reverse fs with
      | error e => rw [hall] at hrun; cases hrun
      | ok fs1 =>
        rw [hall] at hrun
        dsimp only at hrun
        obtain ⟨hap, hcase⟩ := ih hpre
          (fun r m d hr hrm => h r m d hr (hrm.trans (prefix_append ..))) hall
        -- Where the last name is, with all above it made.
        have hplace : ∀ q, fs1.locate false (p ++ [n]) = .ok q → (fs1 = fs → fs.names q = none) → dir <+: q := by
          intro q hq hfree
          obtain ⟨d, hd, hdd, rfl⟩ := fs1.locate_concat.1 hq
          rcases hcase with rfl | ⟨e', he', hpe⟩
          · exact h p n d hpre (prefix_refl _) hd hdd (hfree rfl)
          · rw [hd] at he'
            rw [Except.ok.inj he']
            exact hpe.trans (prefix_append ..)
        cases hmk : fs1.mkdir (p ++ [n]) a with
        | ok fs2 =>
          rw [hmk] at hrun
          cases hrun
          simp only [mkdir] at hmk
          cases hl : fs1.locate false (p ++ [n]) with
          | error e => rw [hl] at hmk; cases hmk
          | ok q =>
            rw [hl] at hmk
            dsimp only at hmk
            split_ifs at hmk with hfree
            cases hmk
            have hnone : fs1.names q = none := not_isSome_iff_eq_none.1 hfree
            have hin := hplace q hl fun heq => heq ▸ hnone
            exact ⟨hap.trans (.add _ hin), .inr ⟨q, fs1.locate_add hl hnone rfl true, hin⟩⟩
        | error e =>
          rw [hmk] at hrun
          dsimp only at hrun
          cases hst : fs1.stat false (p ++ [n]) with
          | error e => rw [hst] at hrun; cases hrun
          | ok i =>
            rw [hst] at hrun
            dsimp only at hrun
            split_ifs at hrun with hi
            obtain rfl := Except.ok.inj hrun
            refine ⟨hap, ?_⟩
            by_cases heq : fs1 = fs
            · exact .inl heq
            · obtain ⟨q, hq, hqi⟩ := fs1.stat_eq_ok_iff.1 hst
              refine .inr ⟨q, (fs1.resolve_follow _ _ _).1 q hq fun t ht => ?_,
                hplace q hq fun h => absurd h heq⟩
              rw [kindAt, hqi, map_some] at ht
              rw [some.inj ht] at hi
              cases hi

end Changes

end FS
end FileTree
end SmbServer
