/-
# Copies in chunks

A stretch of an array is copied to another place of the same array, chunk after chunk from its
beginning, each chunk read before it is written.  Where the two stretches overlap and the
target lies behind the source, a chunk may read what an earlier one has written: `seen` is
what is read for each index.

The copy is the move of the whole stretch (`move`) exactly if the array has, at every index
where this happens, the same value as at the index that the value was copied from
(`Copied.eq_move_iff`).
-/

import Mathlib.Data.Nat.Notation
import Mathlib.Order.Basic
import Mathlib.Tactic.SplitIfs

namespace SmbServer
namespace Copying

variable {α : Type}

/-- The array with the `n` values from `src` on also from `dst` on. -/
def move (f : ℕ → α) (src dst n : ℕ) : ℕ → α :=
  fun i => if dst ≤ i ∧ i < dst + n then f (src + (i - dst)) else f i

/-- Whether an earlier chunk has written the value with index `j` of the source when its chunk is read. -/
def Overwritten (chunk src dst j : ℕ) : Prop :=
  src < dst ∧ dst - src ≤ j ∧ j - (dst - src) < j / chunk * chunk

instance (chunk src dst j : ℕ) : Decidable (Overwritten chunk src dst j) := inferInstanceAs (Decidable (_ ∧ _ ∧ _))

/-- What is read for the index `j` of the source. -/
def seen (chunk : ℕ) (f : ℕ → α) (src dst j : ℕ) : α :=
  if _h : Overwritten chunk src dst j then seen chunk f src dst (j - (dst - src)) else f (src + j)
termination_by j
decreasing_by
  obtain ⟨h₁, h₂, -⟩ := _h
  omega

theorem seen_of_overwritten {chunk src dst j : ℕ} (f : ℕ → α) (h : Overwritten chunk src dst j) :
    seen chunk f src dst j = seen chunk f src dst (j - (dst - src)) := by
  rw [seen, dif_pos h]

theorem seen_of_not {chunk src dst j : ℕ} (f : ℕ → α) (h : ¬Overwritten chunk src dst j) :
    seen chunk f src dst j = f (src + j) := by
  rw [seen, dif_neg h]

/-- The array after the first `c` values have been copied. -/
def Copied (chunk : ℕ) (f : ℕ → α) (src dst c : ℕ) (g : ℕ → α) : Prop :=
  ∀ i, g i = if dst ≤ i ∧ i < dst + c then seen chunk f src dst (i - dst) else f i

namespace Copied

variable {chunk src dst c n : ℕ} {f g : ℕ → α}

theorem zero : Copied chunk f src dst 0 f := by
  intro i
  rw [if_neg (by omega)]

/-- **The next chunk.** -/
theorem next (h : Copied chunk f src dst c g) (hc : chunk ∣ c) (hn : n ≤ chunk) :
    Copied chunk f src dst (c + n) (move g (src + c) (dst + c) n) := by
  intro i
  unfold move
  by_cases hi : dst + c ≤ i ∧ i < dst + c + n
  · obtain ⟨k, rfl⟩ := Nat.exists_eq_add_of_le hi.1
    have hk : k < n := by omega
    -- the indices of this chunk begin at `c`
    have hdiv : (c + k) / chunk * chunk = c := by
      obtain ⟨q, rfl⟩ := hc
      rw [Nat.mul_add_div (by omega), Nat.div_eq_of_lt (by omega), Nat.add_zero, Nat.mul_comm]
    rw [if_pos hi, if_pos (by omega), show dst + c + k - dst = c + k by omega, show dst + c + k - (dst + c) = k by omega, h]
    by_cases hover : Overwritten chunk src dst (c + k)
    · have hover' := hover
      obtain ⟨h1, h2, h3⟩ := hover'
      rw [hdiv] at h3
      rw [seen_of_overwritten f hover, if_pos (by omega)]
      congr 1
      omega
    · have hnot : ¬(dst ≤ src + c + k ∧ src + c + k < dst + c) := by
        intro hle
        exact hover ⟨by omega, by omega, by rw [hdiv]; omega⟩
      rw [seen_of_not f hover, if_neg hnot, Nat.add_assoc]
  · rw [if_neg hi, h]
    by_cases hi' : dst ≤ i ∧ i < dst + c
    · rw [if_pos hi', if_pos (by omega)]
    · rw [if_neg hi', if_neg (by omega)]

/-- **When the copy is the move of the whole stretch.** -/
theorem eq_move_iff {len : ℕ} (h : Copied chunk f src dst len g) :
    g = move f src dst len ↔ ∀ j < len, Overwritten chunk src dst j → f (src + j) = f (src + j - (dst - src)) := by
  have hseen : g = move f src dst len ↔ ∀ j < len, seen chunk f src dst j = f (src + j) := by
    constructor
    · intro heq j hj
      have := congrFun heq (dst + j)
      rwa [h, move, if_pos (by omega), if_pos (by omega), show dst + j - dst = j by omega] at this
    · intro hall
      funext i
      rw [h, move]
      split_ifs with hi
      · exact hall _ (by omega)
      · rfl
  rw [hseen]
  constructor
  · intro hall j hj hover
    have hj' := hall j hj
    obtain ⟨h1, h2, -⟩ := id hover
    rw [seen_of_overwritten f hover, hall _ (by omega)] at hj'
    rw [← hj']
    congr 1
    omega
  · intro hall j hj
    induction j using Nat.strongRecOn with
    | ind j ih =>
      by_cases hover : Overwritten chunk src dst j
      · obtain ⟨h1, h2, -⟩ := id hover
        rw [seen_of_overwritten f hover, ih _ (by omega) (by omega), hall j hj hover]
        congr 1
        omega
      · exact seen_of_not f hover

end Copied

end Copying
end SmbServer
