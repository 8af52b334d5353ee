/-
# Messages cut into blocks

A mode of operation of a block cipher treats a message block by block, and says what
becomes of a last block that is too short.  Two ways are here.

| | the last block |
| --- | --- |
| `Split n l full last` | is kept apart; it is empty for the empty message only |
| `paddedBlocks n z l` | is filled up with `z` |

Both are about the list as a whole; `paddedBlocks_of_ne_nil` and `Split.cons` are the steps
of a loop that takes one block after the other.
-/

import Mathlib.Data.List.GetD
import Mathlib.Data.List.OfFn

namespace SmbServer
open Function List Nat

variable {α : Type} {n : ℕ}

/-! ### A last block -/

/-- `l` is `full` blocks of `n` elements and a last one, which is complete or not. -/
structure Split (n : ℕ) (l : List α) (full : List (List α)) (last : List α) : Prop where
  join : full.flatten ++ last = l
  length : ∀ b ∈ full, b.length = n
  short : last.length ≤ n
  nonempty : last = [] → full = []

namespace Split

variable {l : List α} {full : List (List α)} {last : List α}

theorem cons {b : List α} (h : Split n l full last) (hb : b.length = n) (hne : l ≠ []) :
    Split n (b ++ l) (b :: full) last where
  join := by rw [flatten_cons, append_assoc, h.join]
  length b' hb' := by
    rcases mem_cons.1 hb' with rfl | hb'
    · exact hb
    · exact h.length b' hb'
  short := h.short
  nonempty hlast := by
    refine absurd ?_ hne
    rw [← h.join, hlast, h.nonempty hlast]
    rfl

theorem exists_of_pos (hn : 0 < n) (l : List α) : ∃ full last, Split n l full last := by
  by_cases hl : l.length ≤ n
  · exact ⟨[], l, rfl, fun b hb => absurd hb not_mem_nil, hl, fun _ => rfl⟩
  · obtain ⟨full, last, h⟩ := exists_of_pos hn (l.drop n)
    have hlen : (l.drop n).length = l.length - n := length_drop
    have hne : l.drop n ≠ [] := by
      intro h
      rw [h, length_nil] at hlen
      omega
    have htake : (l.take n).length = n := by
      rw [length_take]
      omega
    have := h.cons htake hne
    rw [take_append_drop] at this
    exact ⟨_, _, this⟩
termination_by l.length

theorem length_flatten (h : Split n l full last) : full.flatten.length = full.length * n := by
  rw [List.length_flatten, map_congr_left h.length, map_const', sum_replicate_nat]

/-- Their number, rounded up with the last one. -/
theorem length_full (h : Split n l full last) (hn : 0 < n) : max ((l.length + (n - 1)) / n) 1 = full.length + 1 := by
  have hlen : l.length = full.length * n + last.length := by
    rw [← h.join, length_append, h.length_flatten]
  rcases Nat.eq_zero_or_pos last.length with hz | hpos
  · have hnil := length_eq_zero_iff.1 hz
    rw [hlen, h.nonempty hnil, hnil]
    have : (n - 1) / n = 0 := div_eq_of_lt (by omega)
    simp [this]
  · have hdiv : (last.length + (n - 1)) / n = 1 := by
      refine Nat.div_eq_of_lt_le (by omega) ?_
      have := h.short
      omega
    rw [hlen, Nat.add_assoc, Nat.add_comm, add_mul_div_right _ _ hn, hdiv]
    omega

end Split

/-! ### A padded block -/

/-- The blocks of `l`, the last one filled up with `z`. -/
def paddedBlocks (n : ℕ) (z : α) (l : List α) : List (Fin n → α) :=
  (List.range ((l.length + (n - 1)) / n)).map fun i j => l.getD (i * n + j) z

theorem paddedBlocks_nil (hn : 0 < n) (z : α) : paddedBlocks n z [] = [] := by
  have : (n - 1) / n = 0 := div_eq_of_lt (by omega)
  simp [paddedBlocks, this]

/-- The first block, and the blocks of the rest. -/
theorem paddedBlocks_of_ne_nil (hn : 0 < n) (z : α) {l : List α} (hl : l ≠ []) :
    paddedBlocks n z l = (fun j : Fin n => (l.take n).getD j z) :: paddedBlocks n z (l.drop n) := by
  have hpos : 0 < l.length := length_pos_iff.2 hl
  have hcount : (l.length + (n - 1)) / n = ((l.drop n).length + (n - 1)) / n + 1 := by
    rw [length_drop]
    rcases Nat.le_total l.length n with hle | hle
    · have hone : (l.length + (n - 1)) / n = 1 := Nat.div_eq_of_lt_le (by omega) (by omega)
      have hzero : (l.length - n + (n - 1)) / n = 0 := div_eq_of_lt (by omega)
      rw [hone, hzero]
    · rw [show l.length + (n - 1) = l.length - n + (n - 1) + n by omega, add_div_right _ hn]
  unfold paddedBlocks
  rw [hcount, range_succ_eq_map, map_cons, List.map_map]
  refine congrArg₂ List.cons ?_ (map_congr_left fun i _ => ?_)
  · funext j
    rw [Nat.zero_mul, Nat.zero_add, getD_eq_getElem?_getD, getD_eq_getElem?_getD, getElem?_take_of_lt j.2]
  · funext j
    rw [comp_apply, getD_eq_getElem?_getD, getD_eq_getElem?_getD, getElem?_drop]
    refine congrArg (fun k => (l[k]?).getD z) ?_
    rw [succ_mul]
    omega

end SmbServer
