/-
# A file system

Directories, files and symbolic links as an operating system shows them.  A path is
a list of names from the root; `names` says which object stands there.  An object is a
number: its `inode` keeps kind, content and attributes while the name moves or goes.

A path is followed one step at a time (`walk`).  Where a symbolic link is met, its
target takes the place of what has been walked (`resolve`), at most a given number of
times.  The calls below are those of the Unix systems a program knows them from; what
they say about permissions is left out.
-/

import Mathlib.Data.List.Infix
import Mathlib.Logic.Function.Basic

namespace SmbServer
open List Option
namespace FileTree

/-- One step along a path. -/
inductive Step (ν : Type) where
  | up
  | down (name : ν)

/-- What a symbolic link holds. -/
structure Target (ν : Type) where
  absolute : Bool
  steps : List (Step ν)

inductive Kind (ν : Type) where
  | dir
  | file (content : List UInt8)
  | link (target : Target ν)

def Kind.isDir {ν : Type} : Kind ν → Bool
  | .dir => true
  | _ => false

def Kind.isLink {ν : Type} : Kind ν → Bool
  | .link _ => true
  | _ => false

structure Inode (ν α : Type) where
  kind : Kind ν
  attrs : α

inductive Errno where
  | notExist
  | exist
  | notDir
  | isDir
  | loop
  | invalid
  deriving DecidableEq

/-- A file system with names of type `ν` and attributes of type `α`.  What has a name
stands in a directory, and under one name only; `dom` lists at least the paths in use. -/
structure FS (ν α : Type) where
  names : List ν → Option ℕ
  inode : ℕ → Inode ν α
  next : ℕ
  dom : List (List ν)
  root : ∃ i, names [] = some i ∧ (inode i).kind.isDir = true
  parent : ∀ p n, (names (p ++ [n])).isSome → ∃ i, names p = some i ∧ (inode i).kind.isDir = true
  unique : ∀ p q i, names p = some i → names q = some i → p = q
  fresh : ∀ p i, names p = some i → i < next
  listed : ∀ p, (names p).isSome → p ∈ dom

namespace FS

variable {ν α : Type} (fs : FS ν α)
variable {p q : List ν} {i : ℕ}

/-- The kind of the object at a path. -/
def kindAt (p : List ν) : Option (Kind ν) := (fs.names p).map fun i => (fs.inode i).kind

def isDir (p : List ν) : Bool := (fs.kindAt p).any Kind.isDir

theorem isDir_iff :
    fs.isDir p = true ↔ ∃ i, fs.names p = some i ∧ (fs.inode i).kind.isDir = true := by
  unfold isDir kindAt
  cases fs.names p <;> simp

theorem isDir_nil : fs.isDir [] = true := fs.isDir_iff.2 fs.root

/-- Whatever stands above an object is a directory. -/
theorem isDir_of_prefix (hq : (fs.names q).isSome) (hp : p <+: q) (hne : p ≠ q) :
    fs.isDir p = true := by
  induction q using reverseRecOn with
  | nil => exact absurd (prefix_nil.1 hp) hne
  | append_singleton q n ih =>
    have hdir := fs.parent q n hq
    rcases prefix_concat_iff.1 hp with rfl | hp
    · exact absurd rfl hne
    · by_cases heq : p = q
      · subst heq
        exact fs.isDir_iff.2 hdir
      · obtain ⟨i, hi, -⟩ := hdir
        exact ih (by rw [hi]; rfl) hp heq

/-- The root directory and nothing in it. -/
def blank (a : α) : FS ν α where
  names
    | [] => some 0
    | _ => none
  inode _ := ⟨.dir, a⟩
  next := 1
  dom := [[]]
  root := ⟨0, rfl, rfl⟩
  parent p n h := by cases p <;> cases h
  unique := by
    rintro (_ | ⟨_, _⟩) (_ | ⟨_, _⟩) i hp hq
    · rfl
    · cases hq
    · cases hp
    · cases hp
  fresh := by
    rintro (_ | ⟨_, _⟩) i h
    · cases h
      exact Nat.one_pos
    · cases h
  listed := by
    rintro (_ | ⟨_, _⟩) h
    · exact List.mem_singleton.2 rfl
    · cases h

/-! ### Changes -/

variable [DecidableEq ν]

/-- Another content or other attributes for an object that is no directory, or other
attributes for a directory. -/
def setInode (i : ℕ) (node : Inode ν α) (h : node.kind.isDir = (fs.inode i).kind.isDir) : FS ν α :=
  have hdir : ∀ j, (Function.update fs.inode i node j).kind.isDir = (fs.inode j).kind.isDir := by
    intro j
    by_cases hj : j = i
    · subst hj; simpa using h
    · rw [Function.update_of_ne hj]
  { fs with
    inode := Function.update fs.inode i node
    root := by simpa only [hdir] using fs.root
    parent := by simpa only [hdir] using fs.parent }

def setAttrs (i : ℕ) (a : α) : FS ν α := fs.setInode i { fs.inode i with attrs := a } rfl

/-- Another content for a file. -/
def setContent (i : ℕ) (b : List UInt8) : FS ν α :=
  if h : (fs.inode i).kind.isDir = false then
    fs.setInode i { fs.inode i with kind := .file b } (by rw [h]; rfl)
  else fs

/-- A new object, where its directory is there and the name is free. -/
def add (p : List ν) (node : Inode ν α) : FS ν α :=
  if h : p ≠ [] ∧ fs.isDir p.dropLast = true ∧ fs.names p = none then
    have hkeep : ∀ {q i}, fs.names q = some i → Function.update fs.inode fs.next node i = fs.inode i :=
      fun hi => Function.update_of_ne (fs.fresh _ _ hi).ne _ _
    have hold : ∀ {q}, (fs.names q).isSome → Function.update fs.names p (some fs.next) q = fs.names q :=
      fun hq => Function.update_of_ne (by rintro rfl; simp [h.2.2] at hq) _ _
    { names := Function.update fs.names p (some fs.next)
      inode := Function.update fs.inode fs.next node
      next := fs.next + 1
      dom := p :: fs.dom
      root := by
        obtain ⟨i, hi, hd⟩ := fs.root
        exact ⟨i, by rw [hold (by rw [hi]; rfl), hi], by rw [hkeep hi]; exact hd⟩
      parent := by
        intro q n hq
        have hdir : ∃ i, fs.names q = some i ∧ (fs.inode i).kind.isDir = true := by
          by_cases heq : q ++ [n] = p
          · have hd : p.dropLast = q := by rw [← heq, List.dropLast_concat]
            exact fs.isDir_iff.1 (hd ▸ h.2.1)
          · rw [Function.update_of_ne heq] at hq
            exact fs.parent q n hq
        obtain ⟨i, hi, hd⟩ := hdir
        exact ⟨i, by rw [hold (by rw [hi]; rfl), hi], by rw [hkeep hi]; exact hd⟩
      unique := by
        intro q q' i hq hq'
        by_cases h₁ : q = p <;> by_cases h₂ : q' = p
        · rw [h₁, h₂]
        · subst h₁
          rw [Function.update_self, Option.some.injEq] at hq
          rw [Function.update_of_ne h₂] at hq'
          exact absurd (fs.fresh _ _ hq') (by omega)
        · subst h₂
          rw [Function.update_self, Option.some.injEq] at hq'
          rw [Function.update_of_ne h₁] at hq
          exact absurd (fs.fresh _ _ hq) (by omega)
        · rw [Function.update_of_ne h₁] at hq
          rw [Function.update_of_ne h₂] at hq'
          exact fs.unique q q' i hq hq'
      fresh := by
        intro q i hq
        by_cases heq : q = p
        · subst heq
          rw [Function.update_self, Option.some.injEq] at hq
          omega
        · rw [Function.update_of_ne heq] at hq
          exact (fs.fresh q i hq).trans (Nat.lt_succ_self _)
      listed := by
        intro q hq
        by_cases heq : q = p
        · exact heq ▸ List.mem_cons_self ..
        · rw [Function.update_of_ne heq] at hq
          exact List.mem_cons_of_mem _ (fs.listed q hq) }
  else fs

/-- An object goes, with everything below it.  The root stays. -/
def remove (p : List ν) : FS ν α :=
  have hnames : ∀ {q i}, (if p <+: q ∧ q ≠ [] then none else fs.names q) = some i →
      fs.names q = some i := by
    intro q i hq
    split_ifs at hq
    exact hq
  { fs with
    names := fun q => if p <+: q ∧ q ≠ [] then none else fs.names q
    root := by simpa using fs.root
    parent := by
      intro q n hq
      split_ifs at hq with hp
      · cases hq
      · obtain ⟨i, hi, hd⟩ := fs.parent q n hq
        refine ⟨i, ?_, hd⟩
        rw [if_neg fun hpq => hp ⟨hpq.1.trans (List.prefix_append ..), by simp⟩]
        exact hi
    unique := fun q q' i hq hq' => fs.unique q q' i (hnames hq) (hnames hq')
    fresh := fun q i hq => fs.fresh q i (hnames hq)
    listed := by
      intro q hq
      obtain ⟨i, hi⟩ := Option.isSome_iff_exists.1 hq
      exact fs.listed q (by rw [hnames hi]; rfl) }

/-- What an object is called once everything at `old` is called `new`. -/
def moved (old new q : List ν) : Option ℕ :=
  if new <+: q then fs.names (old ++ q.drop new.length)
  else if old <+: q then none
  else fs.names q

/-- An object goes to another place, with everything below it. -/
def move (old new : List ν) : FS ν α :=
  if h : ¬old <+: new ∧ fs.isDir new.dropLast = true ∧ fs.isDir new = false then
    have hnew : new ≠ [] := by
      rintro rfl
      simp [fs.isDir_nil] at h
    have hdirs : ∀ {q}, ¬new <+: q → ¬old <+: q → fs.moved old new q = fs.names q := by
      intro q h₁ h₂
      rw [moved, if_neg h₁, if_neg h₂]
    { names := fs.moved old new
      inode := fs.inode
      next := fs.next
      dom := fs.dom ++ fs.dom.map fun q => new ++ q.drop old.length
      root := by
        rw [hdirs (fun hp => hnew (List.prefix_nil.1 hp))
          fun hp => h.1 (by rw [List.prefix_nil.1 hp]; exact List.nil_prefix)]
        exact fs.root
      parent := by
        intro q n hq
        unfold moved at hq
        split_ifs at hq with h₁ h₂
        · rcases List.prefix_concat_iff.1 h₁ with heq | hpre
          · -- The new name itself: its directory has stayed where it is.
            have hd : new.dropLast = q := by rw [heq, List.dropLast_concat]
            rw [hdirs (fun hp => ?_) fun hp => h.1 (hp.trans (by rw [heq]; exact List.prefix_append ..))]
            · exact fs.isDir_iff.1 (hd ▸ h.2.1)
            · have := hp.length_le
              rw [heq, List.length_append, List.length_singleton] at this
              omega
          · have hdrop : (q ++ [n]).drop new.length = q.drop new.length ++ [n] :=
              List.drop_append_of_le_length hpre.length_le
            rw [hdrop, ← List.append_assoc] at hq
            rw [moved, if_pos hpre]
            exact fs.parent _ n hq
        · cases hq
        · rw [hdirs (fun hp => h₁ (hp.trans (List.prefix_append ..)))
            fun hp => h₂ (hp.trans (List.prefix_append ..))]
          exact fs.parent q n hq
      unique := by
        intro q q' i hq hq'
        unfold moved at hq hq'
        split_ifs at hq hq' with h₁ h₁' h₂' h₂ h₁' h₂'
        · have heq := fs.unique _ _ i hq hq'
          obtain ⟨t, rfl⟩ := h₁
          obtain ⟨t', rfl⟩ := h₁'
          simpa using heq
        · exact absurd (fs.unique _ _ i hq hq') fun heq => h₂' (heq ▸ List.prefix_append ..)
        · exact absurd (fs.unique _ _ i hq hq') fun heq => h₂ (heq ▸ List.prefix_append ..)
        · exact fs.unique q q' i hq hq'
      fresh := by
        intro q i hq
        unfold moved at hq
        split_ifs at hq
        · exact fs.fresh _ i hq
        · exact fs.fresh q i hq
      listed := by
        intro q hq
        unfold moved at hq
        split_ifs at hq with h₁
        · obtain ⟨t, rfl⟩ := h₁
          rw [List.drop_left] at hq
          refine List.mem_append_right _ (List.mem_map.2 ⟨old ++ t, fs.listed _ hq, ?_⟩)
          rw [List.drop_left]
        · cases hq
        · exact List.mem_append_left _ (fs.listed q hq) }
  else fs

/-! ### Following a path -/

/-- How far a path can be followed without following a link. -/
inductive Walk (ν : Type) where
  | reached (p : List ν)
  | failed (e : Errno)
  | link (dir : List ν) (target : Target ν) (rest : List (Step ν))

omit [DecidableEq ν] in
/-- Follow steps from a directory.  The last name need not be there; if it is a link, it
is followed only with `follow`. -/
def walk (follow : Bool) : List ν → List (Step ν) → Walk ν
  | cur, [] => .reached cur
  | cur, .up :: rest => walk follow cur.dropLast rest
  | cur, .down n :: rest =>
    match fs.kindAt (cur ++ [n]) with
    | none => if rest.isEmpty then .reached (cur ++ [n]) else .failed .notExist
    | some .dir => walk follow (cur ++ [n]) rest
    | some (.file _) => if rest.isEmpty then .reached (cur ++ [n]) else .failed .notDir
    | some (.link t) =>
      if rest.isEmpty && !follow then .reached (cur ++ [n]) else .link cur t rest

omit [DecidableEq ν] in
/-- Follow steps from a directory, through at most `links` links. -/
def resolve (follow : Bool) : ℕ → List ν → List (Step ν) → Except Errno (List ν)
  | links, cur, steps =>
    match fs.walk follow cur steps with
    | .reached p => .ok p
    | .failed e => .error e
    | .link dir t rest =>
      match links with
      | 0 => .error .loop
      | links + 1 => resolve follow links (if t.absolute then [] else dir) (t.steps ++ rest)

omit [DecidableEq ν] in
variable {fs} in
theorem resolve_reached {follow : Bool} {links : ℕ} {cur : List ν} {steps : List (Step ν)}
    (h : fs.walk follow cur steps = .reached p) : fs.resolve follow links cur steps = .ok p := by
  rw [resolve, h]

/-- The links an operating system follows before it gives up. -/
def maxLinks : ℕ := 40

omit [DecidableEq ν] in
/-- Where a path from the root leads. -/
def locate (follow : Bool) (p : List ν) : Except Errno (List ν) :=
  fs.resolve follow maxLinks [] (p.map .down)

/-! ### Calls -/

omit [DecidableEq ν] in
/-- The object a path leads to: `stat` with `follow`, `lstat` without. -/
def stat (follow : Bool) (p : List ν) : Except Errno ℕ :=
  match fs.locate follow p with
  | .error e => .error e
  | .ok q =>
    match fs.names q with
    | none => .error .notExist
    | some i => .ok i

omit [DecidableEq ν] in
/-- The path without links of an object, as a program finds it that reads the links itself
and gives up after `links` of them. -/
def evalSymlinks (links : ℕ) (p : List ν) : Except Errno (List ν) :=
  match fs.resolve true links [] (p.map .down) with
  | .error e => .error e
  | .ok q => if (fs.names q).isSome then .ok q else .error .notExist

/-- `mkdir`, with the attributes of the new directory. -/
def mkdir (p : List ν) (a : α) : Except Errno (FS ν α) :=
  match fs.locate false p with
  | .error e => .error e
  | .ok q => if (fs.names q).isSome then .error .exist else .ok (fs.add q ⟨.dir, a⟩)

/-- `mkdir` with the missing directories above; the path is given from its end. -/
def mkdirAll (a : α) : List ν → FS ν α → Except Errno (FS ν α)
  | [], fs => .ok fs
  | n :: above, fs =>
    let p := (n :: above).reverse
    match fs.stat true p with
    | .ok i => if (fs.inode i).kind.isDir then .ok fs else .error .notDir
    | .error _ =>
      match mkdirAll a above fs with
      | .error e => .error e
      | .ok fs' =>
        match fs'.mkdir p a with
        | .ok fs'' => .ok fs''
        | .error e =>
          match fs'.stat false p with
          | .ok i => if (fs'.inode i).kind.isDir then .ok fs' else .error e
          | .error _ => .error e

/-- The flags of `open`. -/
structure OpenFlags where
  create : Bool := false
  excl : Bool := false
  trunc : Bool := false
  write : Bool := false

/-- `open`: the object, and the file system after it.  A file is created where the path
leads, which for a dangling link is the target of the link. -/
def openFile (p : List ν) (flags : OpenFlags) (a : α) : Except Errno (ℕ × FS ν α) :=
  match fs.locate (!(flags.create && flags.excl)) p with
  | .error e => .error e
  | .ok q =>
    match fs.names q with
    | none => if flags.create then .ok (fs.next, fs.add q ⟨.file [], a⟩) else .error .notExist
    | some i =>
      if flags.create && flags.excl then .error .exist
      else
        match (fs.inode i).kind with
        | .dir => if flags.create || flags.trunc || flags.write then .error .isDir else .ok (i, fs)
        | .file _ => .ok (i, if flags.trunc then fs.setContent i [] else fs)
        | .link _ => .error .loop

/-- Removal of an object and all below it; it is no error if there is none. -/
def removeAll (p : List ν) : Except Errno (FS ν α) :=
  match fs.locate false p with
  | .error .notExist => .ok fs
  | .error e => .error e
  | .ok q => .ok (fs.remove q)

/-- `rename`, which replaces a file but never a directory. -/
def rename (old new : List ν) : Except Errno (FS ν α) :=
  match fs.locate false old, fs.locate false new with
  | .error e, _ => .error e
  | .ok _, .error e => .error e
  | .ok qo, .ok qn =>
    match fs.kindAt qo with
    | none => .error .notExist
    | some k =>
      if qo = qn then if k.isDir && decide (old = new) then .error .exist else .ok fs
      else if fs.isDir qn then .error .exist
      else if k.isDir && (fs.names qn).isSome then .error .notDir
      else if qo <+: qn then .error .invalid
      else .ok (fs.move qo qn)

/-- The paths of what stands in a directory. -/
def children (p : List ν) : List (List ν) :=
  (fs.dom.filter fun q => decide (q ≠ [] ∧ q.dropLast = p) && (fs.names q).isSome).dedup

/-- `readdir`: the names in a directory with their objects. -/
def readDir (p : List ν) : Except Errno (List (ν × ℕ)) :=
  match fs.locate true p with
  | .error e => .error e
  | .ok q =>
    if fs.isDir q then
      .ok ((fs.children q).filterMap fun r =>
        r.getLast?.bind fun n => (fs.names r).map fun i => (n, i))
    else if (fs.names q).isSome then .error .notDir
    else .error .notExist

/-! ### What a removal takes away -/

omit [DecidableEq ν] in
/-- An object that has a name in `fs` and none in `fs'`. -/
def Lost (fs fs' : FS ν α) (i : ℕ) : Prop := (∃ p, fs.names p = some i) ∧ ∀ p, fs'.names p ≠ some i

omit [DecidableEq ν] in
/-- A directory with something in it. -/
def Occupied (i : ℕ) : Prop := ∃ p n, fs.names p = some i ∧ (fs.names (p ++ [n])).isSome

theorem names_remove (p q : List ν) :
    (fs.remove p).names q = if p <+: q ∧ q ≠ [] then none else fs.names q := rfl

omit [DecidableEq ν] in
theorem not_lost_self (i : ℕ) : ¬fs.Lost fs i := fun ⟨⟨p, hp⟩, h⟩ => h p hp

omit [DecidableEq ν] in
/-- Nothing stands below a place where nothing stands. -/
theorem names_eq_none_of_prefix (hp : fs.names p = none) (h : p <+: q) :
    fs.names q = none := by
  by_contra hq
  by_cases heq : p = q
  · exact hq (heq ▸ hp)
  · obtain ⟨i, hi, -⟩ := fs.isDir_iff.1 (fs.isDir_of_prefix (isSome_iff_ne_none.2 hq) h heq)
    rw [hp] at hi
    cases hi

/-- Removing what is not there changes nothing. -/
theorem remove_of_absent (h : fs.names p = none) : fs.remove p = fs := by
  have hnames : (fs.remove p).names = fs.names := by
    funext q
    rw [names_remove]
    split_ifs with hq
    · exact (fs.names_eq_none_of_prefix h hq.1).symm
    · rfl
  cases fs
  simpa only [remove, FS.mk.injEq, and_true] using hnames

/-- **What a removal loses**: the object itself, unless it is the root, and all below it. -/
theorem lost_remove_iff :
    fs.Lost (fs.remove p) i ↔ ∃ q, fs.names q = some i ∧ p <+: q ∧ q ≠ [] := by
  constructor
  · rintro ⟨⟨q, hq⟩, h⟩
    refine ⟨q, hq, by_contra fun hne => h q ?_⟩
    rw [names_remove, if_neg hne, hq]
  · rintro ⟨q, hq, hpre⟩
    refine ⟨⟨q, hq⟩, fun q' hq' => ?_⟩
    rw [names_remove] at hq'
    split_ifs at hq' with hpre'
    rw [fs.unique q q' i hq hq'] at hpre
    exact hpre' hpre

omit [DecidableEq ν] in
/-- The object at the beginning of a longer path that is there has something in it. -/
theorem occupied_of_prefix (hp : fs.names p = some i) (hq : (fs.names q).isSome)
    (h : p <+: q) (hne : p ≠ q) : fs.Occupied i := by
  obtain ⟨t, rfl⟩ := h
  cases t with
  | nil => exact absurd (append_nil p).symm hne
  | cons n t =>
    refine ⟨p, n, hp, ?_⟩
    by_contra hn
    have hnone := fs.names_eq_none_of_prefix (q := p ++ n :: t)
      (not_isSome_iff_eq_none.1 hn) ⟨t, by simp⟩
    rw [hnone] at hq
    cases hq

omit [DecidableEq ν] in
theorem stat_eq_ok_iff {follow : Bool} :
    fs.stat follow p = .ok i ↔ ∃ q, fs.locate follow p = .ok q ∧ fs.names q = some i := by
  unfold stat
  cases fs.locate follow p with
  | error e => simp
  | ok q =>
    cases hq : fs.names q with
    | none => simp [hq]
    | some j => simp [hq]

/-- A `rename` that succeeds moves what is at the old path to where the new one leads, or
finds it there already. -/
theorem rename_eq_ok {old new : List ν} {fs' : FS ν α} (h : fs.rename old new = .ok fs') :
    ∃ qo qn, fs.locate false old = .ok qo ∧ fs.locate false new = .ok qn ∧ (fs.names qo).isSome ∧
      (qo = qn ∧ fs' = fs ∨ qo ≠ qn ∧ fs.isDir qn = false ∧ ¬qo <+: qn ∧ fs' = fs.move qo qn) := by
  unfold rename at h
  cases ho : fs.locate false old with
  | error e => rw [ho] at h; cases h
  | ok qo =>
    cases hn : fs.locate false new with
    | error e => rw [ho, hn] at h; cases h
    | ok qn =>
      rw [ho, hn] at h
      dsimp only at h
      cases hk : fs.kindAt qo with
      | none => rw [hk] at h; cases h
      | some k =>
        have hsome : (fs.names qo).isSome := by
          obtain ⟨i, hi, -⟩ := map_eq_some_iff.1 hk
          rw [hi]
          rfl
        rw [hk] at h
        dsimp only at h
        split_ifs at h with h1 h2 h3 h4 h5
        · exact ⟨qo, qn, rfl, rfl, hsome, .inl ⟨h1, (Except.ok.inj h).symm⟩⟩
        · exact ⟨qo, qn, rfl, rfl, hsome,
            .inr ⟨h1, by simpa using h3, h5, (Except.ok.inj h).symm⟩⟩

end FS
end FileTree
end SmbServer
