import Mathlib

namespace XKern.ByteField

open Polynomial Function Fin

/-!
# Bytes as field elements

The bits of a byte are the coefficients of a polynomial over the field with two
elements, taken modulo x^8 + x^4 + x^3 + x + 1.  Exclusive or is the sum, and a
shift with a correction is the product with the class of x.
-/

/-- The polynomial x^8 + x^4 + x^3 + x + 1. -/
noncomputable def modulus : (ZMod 2)[X] :=
  X ^ 8 + (X ^ 4 + X ^ 3 + X + 1)

/-- Polynomials modulo `modulus`. -/
abbrev Gf256 :=
  AdjoinRoot modulus

noncomputable def root : Gf256 :=
  AdjoinRoot.root modulus

/-- The polynomial with the bits of a byte as coefficients. -/
noncomputable def poly (b : BitVec 8) : (ZMod 2)[X] :=
  ∑ i : Fin 8, if b.getLsbD i then X ^ i.val else 0

/-- A byte as an element of the field. -/
noncomputable def elem (b : BitVec 8) : Gf256 :=
  AdjoinRoot.mk modulus (poly b)

theorem add_self (x : Gf256) : x + x = 0 := by
  have twice : (1 + 1 : Gf256) = 0 := by
    rw [← map_one (AdjoinRoot.of modulus), ← map_add]
    exact (congrArg _ (by decide : (1 + 1 : ZMod 2) = 0)).trans (map_zero _)
  rw [← one_mul x, ← add_mul, twice, zero_mul]

theorem two_eq_zero : (2 : Gf256) = 0 := by
  rw [← one_add_one_eq_two, add_self]

theorem neg_eq (x : Gf256) : -x = x :=
  neg_eq_of_add_eq_zero_left (add_self x)

theorem elem_eq_sum (b : BitVec 8) :
    elem b = ∑ i : Fin 8, if b.getLsbD i then root ^ i.val else 0 := by
  rw [elem, poly, map_sum]
  refine Finset.sum_congr rfl fun i _ => ?_
  rw [apply_ite (AdjoinRoot.mk modulus), map_zero, map_pow, AdjoinRoot.mk_X, root]

theorem elem_zero : elem 0 = 0 := by
  rw [elem_eq_sum]
  exact Finset.sum_eq_zero fun i _ => by simp

theorem elem_one : elem 1 = 1 := by
  rw [elem_eq_sum]
  simp

theorem elem_xor (a b : BitVec 8) : elem (a ^^^ b) = elem a + elem b := by
  rw [elem_eq_sum, elem_eq_sum, elem_eq_sum, ← Finset.sum_add_distrib]
  refine Finset.sum_congr rfl fun i _ => ?_
  rw [BitVec.getLsbD_xor]
  cases a.getLsbD i <;> cases b.getLsbD i <;> simp [add_self]

theorem root_pow_eight : root ^ 8 = root ^ 4 + root ^ 3 + root + 1 := by
  have vanishes : AdjoinRoot.mk modulus modulus = 0 := AdjoinRoot.mk_self
  conv_lhs at vanishes => arg 2; rw [modulus]
  simp only [map_add, map_pow, AdjoinRoot.mk_X, map_one] at vanishes
  rw [root, eq_neg_of_add_eq_zero_left vanishes, neg_eq]

theorem elem_halve (b : BitVec 8) :
    elem b = (if b.getLsbD 0 then 1 else 0) + root * elem (b >>> 1) := by
  rw [elem_eq_sum, elem_eq_sum, Finset.mul_sum]
  conv_lhs => rw [sum_univ_succ]
  conv_rhs => rw [sum_univ_castSucc]
  have shifted (i : Fin 7) : (if b.getLsbD i.succ then root ^ i.succ.val else 0) =
      root * if (b >>> 1).getLsbD i.castSucc then root ^ i.castSucc.val else 0 := by
    rw [BitVec.getLsbD_ushiftRight, Fin.val_succ, Fin.val_castSucc, add_comm 1, mul_ite,
      mul_zero, pow_succ']
  rw [Finset.sum_congr rfl fun i _ => shifted i]
  simp

theorem elem_top : elem 0x80 = root ^ 7 := by
  rw [elem_eq_sum]
  simp [sum_univ_eight]

theorem elem_correction : elem 0x1b = root ^ 8 := by
  rw [elem_eq_sum, root_pow_eight]
  simp [sum_univ_eight]
  ring

theorem topBit_xor : ∀ b : BitVec 8, b = (b &&& 0x7f) ^^^ if b.getLsbD 7 then 0x80 else 0 := by
  decide

/-- The shift to the left with the correction by `modulus` is the product with x. -/
theorem elem_double (b : BitVec 8) :
    elem ((b <<< 1) ^^^ (if b.getLsbD 7 then 0x1b else 0)) = root * elem b := by
  have shifted : elem (b <<< 1) = root * elem (b &&& 0x7f) := by
    have low : (b <<< 1).getLsbD 0 = false := by simp
    have back : (b <<< 1) >>> 1 = b &&& 0x7f := by
      revert b
      decide
    rw [elem_halve, low, back]
    simp
  have split : elem b = elem (b &&& 0x7f) + if b.getLsbD 7 then root ^ 7 else 0 := by
    conv_lhs => rw [topBit_xor b, elem_xor, apply_ite elem, elem_top, elem_zero]
  rw [elem_xor, shifted, split, apply_ite elem, elem_correction, elem_zero, mul_add, mul_ite,
    mul_zero, ← pow_succ']

theorem monic_modulus : modulus.Monic := by
  rw [modulus]
  monicity!

theorem natDegree_modulus : modulus.natDegree = 8 := by
  rw [modulus]
  compute_degree!

theorem coeff_poly (b : BitVec 8) (i : Fin 8) :
    (poly b).coeff i.val = if b.getLsbD i then 1 else 0 := by
  rw [poly, finsetSum_coeff, Finset.sum_eq_single i]
  · split_ifs
    · rw [coeff_X_pow_self]
    · rw [coeff_zero]
  · intro j _ other
    split_ifs
    · rw [coeff_X_pow, if_neg fun same => other (Fin.ext same.symm)]
    · rw [coeff_zero]
  · intro absent
    exact absurd (Finset.mem_univ i) absent

theorem natDegree_poly_lt (b : BitVec 8) : (poly b).natDegree < 8 := by
  refine lt_of_le_of_lt (natDegree_sum_le_of_forall_le _ _ (n := 7) fun i _ => ?_) (by decide)
  split_ifs
  · exact (natDegree_X_pow_le _).trans (by omega)
  · simp

theorem elem_injective : Function.Injective elem := by
  intro a b same
  have divides : modulus ∣ poly a - poly b := AdjoinRoot.mk_eq_mk.mp same
  have small : (poly a - poly b).natDegree < modulus.natDegree := by
    rw [natDegree_modulus]
    exact (natDegree_sub_le _ _).trans_lt (max_lt (natDegree_poly_lt a) (natDegree_poly_lt b))
  have equal : poly a = poly b := by
    rw [← sub_eq_zero]
    by_contra nonzero
    exact monic_modulus.not_dvd_of_natDegree_lt nonzero small divides
  refine BitVec.eq_of_getLsbD_eq fun i index => ?_
  have coefficient := congrArg (fun p => p.coeff i) equal
  rw [coeff_poly a ⟨i, index⟩, coeff_poly b ⟨i, index⟩] at coefficient
  dsimp only at coefficient
  have apart : (0 : ZMod 2) ≠ 1 := by decide
  revert coefficient
  cases a.getLsbD i <;> cases b.getLsbD i <;> simp [apart, apart.symm]

instance instNontrivialGf256 : Nontrivial Gf256 :=
  ⟨0, 1, fun same => absurd
    (elem_injective (elem_zero.trans (same.trans elem_one.symm))) (by decide)⟩

/-- The byte of an element. -/
noncomputable def byteOf : Gf256 → BitVec 8 :=
  invFun elem

theorem byteOf_elem (b : BitVec 8) : byteOf (elem b) = b :=
  leftInverse_invFun elem_injective b

end XKern.ByteField
