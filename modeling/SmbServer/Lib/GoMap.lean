/-
# Maps

A Go map is a finite list of entries with distinct keys: Mathlib's `AList`.
`mapAt` is an update through a pointer stored in the map, `m[k].f = …`, which
does nothing where there is no entry; the last section is about maps of maps,
which is how sessions hold trees and trees hold opens.
-/

import Mathlib.Data.List.AList

namespace SmbServer

/-- A Go `map[K]V`. -/
abbrev GoMap (K V : Type) := AList fun _ : K => V

namespace GoMap

variable {K V : Type} [DecidableEq K]

/-- Update the value at `k` where there is one. -/
def mapAt (m : GoMap K V) (k : K) (f : V → V) : GoMap K V :=
  match m.lookup k with
  | none => m
  | some v => m.insert k (f v)

/-- The values of the map, in no particular order. -/
def values (m : GoMap K V) : List V := m.entries.map fun e => e.2

theorem lookup_insert' (m : GoMap K V) (k k' : K) (v : V) :
    (m.insert k v).lookup k' = if k' = k then some v else m.lookup k' := by
  by_cases h : k' = k
  · subst h; simp
  · rw [AList.lookup_insert_ne h, if_neg h]

theorem lookup_erase' (m : GoMap K V) (k k' : K) :
    (m.erase k).lookup k' = if k' = k then none else m.lookup k' := by
  by_cases h : k' = k
  · subst h; simp
  · rw [AList.lookup_erase_ne h, if_neg h]

theorem lookup_mapAt (m : GoMap K V) (k k' : K) (f : V → V) :
    (mapAt m k f).lookup k' = if k' = k then (m.lookup k').map f else m.lookup k' := by
  unfold mapAt
  by_cases h : k' = k
  · subst h
    cases hm : m.lookup k' <;> simp [hm]
  · cases hm : m.lookup k with
    | none => simp [h]
    | some v => simp [h, AList.lookup_insert_ne h]

theorem mem_values {m : GoMap K V} {v : V} : v ∈ values m ↔ ∃ k, m.lookup k = some v := by
  unfold values
  rw [List.mem_map]
  constructor
  · rintro ⟨⟨k, v⟩, h, rfl⟩
    exact ⟨k, AList.mem_lookup_iff.mpr h⟩
  · rintro ⟨k, h⟩
    exact ⟨⟨k, v⟩, AList.mem_lookup_iff.mp h, rfl⟩

end GoMap

end SmbServer
