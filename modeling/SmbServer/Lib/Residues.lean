/-
# Multiplication by `x` modulo a monic polynomial

`modulus r` is the monic polynomial `X^(m+1) - (r_0 + r_1 X + … + r_m X^m)`, and
`residue r` reads `m + 1` coefficients as an element of the quotient by it.  Every element
has its coefficients (`residue_injective`), and multiplying by `x` is a shift of the
coefficients with a multiple of `r` for the one that falls off (`residue_shift`).
-/

import Mathlib.Algebra.Polynomial.OfFn
import Mathlib.Data.Fin.Tuple.Basic
import Mathlib.RingTheory.AdjoinRoot

namespace SmbServer

open Polynomial

variable {R : Type*} [CommRing R] [DecidableEq R] {m : ℕ}

/-- The modulus with `X^(m+1) = r_0 + r_1 X + … + r_m X^m`. -/
noncomputable def modulus (r : Fin (m + 1) → R) : R[X] := X ^ (m + 1) - ofFn (m + 1) r

/-- The residue with the given coefficients. -/
noncomputable def residue (r a : Fin (m + 1) → R) : AdjoinRoot (modulus r) :=
  AdjoinRoot.mk (modulus r) (ofFn (m + 1) a)

/-- The coefficients of `x` times a residue. -/
def shiftCoeffs (r a : Fin (m + 1) → R) : Fin (m + 1) → R :=
  Fin.cons 0 (Fin.init a) + a (Fin.last m) • r

theorem modulus_monic (r : Fin (m + 1) → R) : (modulus r).Monic :=
  monic_X_pow_sub (ofFn_degree_lt r)

theorem degree_modulus [Nontrivial R] (r : Fin (m + 1) → R) : (modulus r).degree = (m + 1 : ℕ) := by
  have hlt : (ofFn (m + 1) r).degree < (X ^ (m + 1) : R[X]).degree := by
    rw [degree_X_pow]
    exact ofFn_degree_lt r
  rw [modulus, degree_sub_eq_left_of_degree_lt hlt, degree_X_pow]

/-- **A residue is its coefficients.** -/
theorem residue_injective [Nontrivial R] (r : Fin (m + 1) → R) : Function.Injective (residue r) := by
  intro a b hab
  have hself : ∀ a : Fin (m + 1) → R, ofFn (m + 1) a %ₘ modulus r = ofFn (m + 1) a := by
    intro a
    rw [modByMonic_eq_self_iff (modulus_monic r), degree_modulus]
    exact ofFn_degree_lt a
  have hmod : ofFn (m + 1) a %ₘ modulus r = ofFn (m + 1) b %ₘ modulus r := by
    have h := congrArg (AdjoinRoot.modByMonicHom (modulus_monic r)) hab
    rwa [residue, residue, AdjoinRoot.modByMonicHom_mk, AdjoinRoot.modByMonicHom_mk] at h
  rw [hself, hself] at hmod
  exact injective_ofFn (m + 1) hmod

theorem X_mul_ofFn (a : Fin (m + 1) → R) :
    X * ofFn (m + 1) a = ofFn (m + 1) (Fin.cons 0 (Fin.init a) : Fin (m + 1) → R) + C (a (Fin.last m)) * X ^ (m + 1) := by
  ext i
  rw [coeff_add, coeff_C_mul, coeff_X_pow]
  cases i with
  | zero =>
    rw [coeff_X_mul_zero, ofFn_coeff_eq_val_of_lt _ (Nat.succ_pos m), if_neg (Nat.succ_ne_zero m).symm]
    simp
  | succ i =>
    rw [coeff_X_mul]
    rcases lt_trichotomy i m with hlt | rfl | hgt
    · rw [ofFn_coeff_eq_val_of_lt _ (Nat.lt_succ_of_lt hlt), ofFn_coeff_eq_val_of_lt _ (Nat.succ_lt_succ hlt),
        if_neg (by omega), mul_zero, add_zero]
      rfl
    · rw [ofFn_coeff_eq_val_of_lt _ (Nat.lt_succ_self i), ofFn_coeff_eq_zero_of_ge _ le_rfl, if_pos rfl, mul_one,
        zero_add]
      rfl
    · rw [ofFn_coeff_eq_zero_of_ge _ hgt, ofFn_coeff_eq_zero_of_ge _ (by omega), if_neg (by omega), mul_zero, add_zero]

/-- **A shift of the coefficients is multiplication by `x`.** -/
theorem residue_shift (r a : Fin (m + 1) → R) :
    residue r (shiftCoeffs r a) = AdjoinRoot.root (modulus r) * residue r a := by
  have hpow : AdjoinRoot.mk (modulus r) (X ^ (m + 1)) = AdjoinRoot.mk (modulus r) (ofFn (m + 1) r) := by
    rw [AdjoinRoot.mk_eq_mk]
    exact dvd_refl _
  calc residue r (shiftCoeffs r a)
      = AdjoinRoot.mk (modulus r) (ofFn (m + 1) (Fin.cons 0 (Fin.init a) : Fin (m + 1) → R) +
          C (a (Fin.last m)) * ofFn (m + 1) r) := by
        rw [residue, shiftCoeffs, map_add, map_smul, smul_eq_C_mul]
    _ = AdjoinRoot.mk (modulus r) (X * ofFn (m + 1) a) := by
        rw [X_mul_ofFn, map_add, map_add, map_mul, map_mul, hpow]
    _ = AdjoinRoot.root (modulus r) * residue r a := by
        rw [map_mul, AdjoinRoot.mk_X, residue]

end SmbServer
