/-
# Locks on sets of points

A lock table by its meaning: each lock has an owner, a set of points and a mode, and
nothing is said of how the sets are stored.  A lock is refused if one of its points is
covered by a lock of another owner and one of the two is exclusive, or by a lock of
the same owner in the other mode.  A request is a list of demands that are met in
turn; if one cannot be met, the locks the request has taken are given back.

`Step` is what can happen to a family of tables.  No step lets an exclusive lock and a
lock of another owner meet (`Step.exclusion`).
-/

import Mathlib.Data.Set.Basic
import Mathlib.Logic.Function.Basic
import Mathlib.Logic.Relation

namespace SmbServer
open Function List
namespace SetLocks

variable {ω β κ : Type}

structure Lock (ω β : Type) where
  owner : ω
  points : Set β
  exclusive : Bool

/-- The locks held, oldest first. -/
abbrev Table (ω β : Type) := List (Lock ω β)

/-- The lock keeps `owner` from locking a point of it in the given mode. -/
def Lock.Bars (l : Lock ω β) (owner : ω) (exclusive : Bool) : Prop :=
  l.owner ≠ owner ∧ (l.exclusive = true ∨ exclusive = true) ∨
    l.owner = owner ∧ l.exclusive ≠ exclusive

/-- Some point of the lock is barred. -/
def Refuses (T : Table ω β) (l : Lock ω β) : Prop :=
  ∃ b ∈ l.points, ∃ l' ∈ T, b ∈ l'.points ∧ l'.Bars l.owner l.exclusive

/-- Some of the points are locked by another owner: exclusively, or in any mode for one
who wants to write. -/
def Shuts (T : Table ω β) (owner : ω) (points : Set β) (write : Bool) : Prop :=
  ∃ b ∈ points, ∃ l ∈ T, b ∈ l.points ∧ l.owner ≠ owner ∧ (l.exclusive = true ∨ write = true)

/-- No point is covered by an exclusive lock of one owner and a lock of another. -/
def Exclusion (T : Table ω β) : Prop :=
  ∀ b, ∀ l ∈ T, ∀ l' ∈ T, b ∈ l.points → b ∈ l'.points → l.owner ≠ l'.owner →
    l.exclusive = false ∧ l'.exclusive = false

/-! ### What happens to a table -/

/-- What a request demands.  A malformed demand ends it, with or without giving back what
it has taken. -/
inductive Demand (β : Type) where
  | lock (points : Set β) (exclusive : Bool)
  | unlock (points : Set β)
  | malformed (undo : Bool)

inductive Verdict where
  | granted
  | malformed
  | refused

open Classical in
/-- The first lock of the owner on exactly these points goes. -/
noncomputable def unlock (owner : ω) (T : Table ω β) (points : Set β) : Table ω β :=
  T.eraseP fun l => decide (l.owner = owner ∧ l.points = points)

open Classical in
/-- All locks of the owner go. -/
noncomputable def release (owner : ω) (T : Table ω β) : Table ω β :=
  T.filter fun l => decide (l.owner ≠ owner)

open Classical in
/-- The demands of a request in turn; `taken` is what it has locked so far. -/
noncomputable def perform (owner : ω) :
    Table ω β → List (Set β) → List (Demand β) → Verdict × Table ω β
  | T, _, [] => (.granted, T)
  | T, taken, .malformed undo :: _ =>
    (.malformed, if undo then taken.foldl (unlock owner) T else T)
  | T, taken, .unlock points :: ds => perform owner (unlock owner T points) taken ds
  | T, taken, .lock points exclusive :: ds =>
    if Refuses T ⟨owner, points, exclusive⟩ then (.refused, taken.foldl (unlock owner) T)
    else perform owner (T ++ [⟨owner, points, exclusive⟩]) (taken ++ [points]) ds

/-- What can happen to a family of tables: a request is performed on one of them, or one
of them loses the locks of an owner. -/
inductive Step [DecidableEq κ] (F : κ → Table ω β) : (κ → Table ω β) → Prop where
  | request (key : κ) (owner : ω) (ds : List (Demand β)) :
      Step F (Function.update F key (perform owner (F key) [] ds).2)
  | release (key : κ) (owner : ω) : Step F (Function.update F key (release owner (F key)))

/-! ### Tables that are stored some other way -/

section

variable {α : Type} {f : α → Lock ω β} {l : List α} {p : α → Bool} {owner : ω}

/-- `unlock` on a table that is the meaning of a list. -/
theorem unlock_map {points : Set β}
    (h : ∀ x ∈ l, p x = true ↔ (f x).owner = owner ∧ (f x).points = points) :
    unlock owner (l.map f) points = (l.eraseP p).map f := by
  induction l with
  | nil => rfl
  | cons x l ih =>
    have hx := h x (mem_cons_self ..)
    have ih := ih fun y hy => h y (mem_cons_of_mem _ hy)
    unfold unlock at ih ⊢
    by_cases hp : p x = true
    · rw [map_cons, eraseP_cons_of_pos (by simpa using hx.1 hp), eraseP_cons_of_pos hp]
    · have hn : ¬((f x).owner = owner ∧ (f x).points = points) := fun hq => hp (hx.2 hq)
      rw [map_cons, eraseP_cons_of_neg (by simpa using hn), eraseP_cons_of_neg hp,
        map_cons, ih]

/-- `release` on a table that is the meaning of a list. -/
theorem release_map (h : ∀ x ∈ l, p x = true ↔ (f x).owner ≠ owner) :
    release owner (l.map f) = (l.filter p).map f := by
  classical
  rw [release, List.filter_map]
  refine congrArg (List.map f) (filter_congr fun x hx => ?_)
  rw [comp_apply, Bool.eq_iff_iff, h x hx, decide_eq_true_eq]

end

/-! ### Exclusion -/

namespace Exclusion

variable {T T' : Table ω β}

theorem nil : Exclusion ([] : Table ω β) := fun _ _ h => nomatch h

theorem sublist (h : Exclusion T) (hs : Sublist T' T) : Exclusion T' :=
  fun b l hl l' hl' => h b l (hs.subset hl) l' (hs.subset hl')

theorem concat {l : Lock ω β} (h : Exclusion T) (hl : ¬Refuses T l) : Exclusion (T ++ [l]) := by
  have hnew : ∀ b, ∀ l' ∈ T, b ∈ l.points → b ∈ l'.points → l'.owner ≠ l.owner →
      l'.exclusive = false ∧ l.exclusive = false := by
    intro b l' hm hb hb' hne
    by_contra hx
    refine hl ⟨b, hb, l', hm, hb', .inl ⟨hne, ?_⟩⟩
    cases h1 : l'.exclusive <;> cases h2 : l.exclusive <;> simp_all
  intro b l1 h1 l2 h2 hb1 hb2 hne
  rcases mem_append.1 h1 with old1 | new1 <;> rcases mem_append.1 h2 with old2 | new2
  · exact h b l1 old1 l2 old2 hb1 hb2 hne
  · obtain rfl := mem_singleton.1 new2
    exact hnew b l1 old1 hb2 hb1 hne
  · obtain rfl := mem_singleton.1 new1
    exact (hnew b l2 old2 hb1 hb2 hne.symm).symm
  · obtain rfl := mem_singleton.1 new1
    exact absurd (mem_singleton.1 new2 ▸ rfl) hne

end Exclusion

theorem foldl_unlock_sublist (owner : ω) (taken : List (Set β)) (T : Table ω β) :
    Sublist (taken.foldl (unlock owner) T) T := by
  induction taken generalizing T with
  | nil => exact Sublist.refl T
  | cons p taken ih => exact (ih _).trans (eraseP_sublist ..)

theorem Exclusion.perform (owner : ω) {T : Table ω β} (h : Exclusion T) (taken : List (Set β))
    (ds : List (Demand β)) : Exclusion (perform owner T taken ds).2 := by
  induction ds generalizing T taken with
  | nil => exact h
  | cons d ds ih =>
    cases d with
    | malformed undo =>
      rw [SetLocks.perform]
      split_ifs
      · exact h.sublist (foldl_unlock_sublist owner taken T)
      · exact h
    | unlock points => exact ih (h.sublist (eraseP_sublist ..)) taken
    | lock points exclusive =>
      rw [SetLocks.perform]
      split_ifs with hr
      · exact h.sublist (foldl_unlock_sublist owner taken T)
      · exact ih (h.concat hr) _

section

variable [DecidableEq κ]

theorem Step.exclusion {F F' : κ → Table ω β} (hs : Step F F') (h : ∀ key, Exclusion (F key)) :
    ∀ key, Exclusion (F' key) := by
  intro key'
  cases hs with
  | request key owner ds =>
    by_cases hk : key' = key
    · subst hk
      rw [update_self]
      exact (h key').perform owner [] ds
    · rw [update_of_ne hk]
      exact h key'
  | release key owner =>
    by_cases hk : key' = key
    · subst hk
      rw [update_self]
      exact (h key').sublist filter_sublist
    · rw [update_of_ne hk]
      exact h key'

/-- **Exclusion along a run.** -/
theorem Step.exclusion_run {F F' : κ → Table ω β} (hs : Relation.ReflTransGen Step F F')
    (h : ∀ key, Exclusion (F key)) : ∀ key, Exclusion (F' key) := by
  induction hs with
  | refl => exact h
  | tail _ hst ih => exact hst.exclusion ih

open Classical in
/-- Losing the locks of several owners, each on one table. -/
theorem Step.release_run (F : κ → Table ω β) (gone : List (κ × ω)) :
    Relation.ReflTransGen Step F fun key =>
      (F key).filter fun l => decide (∀ x ∈ gone, x.1 = key → l.owner ≠ x.2) := by
  induction gone generalizing F with
  | nil =>
    refine cast (congrArg _ (funext fun key => ?_)) (Relation.ReflTransGen.refl (a := F))
    exact (filter_eq_self.2 (by simp)).symm
  | cons x gone ih =>
    refine .head (.release x.1 x.2) ?_
    have hrun := ih (Function.update F x.1 (SetLocks.release x.2 (F x.1)))
    refine cast (congrArg _ (funext fun key => ?_)) hrun
    by_cases hk : key = x.1
    · subst hk
      rw [update_self, SetLocks.release, List.filter_filter]
      refine filter_congr fun l _ => ?_
      simp [Bool.and_comm]
    · rw [update_of_ne hk]
      refine filter_congr fun l _ => ?_
      simp [Ne.symm hk]

end

end SetLocks
end SmbServer
