import Mathlib.Analysis.SpecialFunctions.Trigonometric.Inverse
import Mathlib.LinearAlgebra.Matrix.DotProduct
import Mathlib.LinearAlgebra.UnitaryGroup
import Teetest.Src.ImuAlg

/-!
The matrix of a calibration, over the real numbers.

The axes of the robot are made of two measured directions, and only one of them is normalized again.
-/

namespace Teetest

open Matrix

/-- `Qri`, whose columns are the axes of the robot, as `calibration` computes them. -/
noncomputable def axes (lib : XMatrix ℝ) (wc ac : V3 ℝ) : DCM ℝ :=
  let rYimu := lib.normalize wc
  let rXimu := cross (lib.normalize ac) rYimu
  let rZimu := cross rXimu rYimu
  Matrix.of fun i j => ![rXimu, rYimu, rZimu] j i

/-- `calibration` inverts the matrix of the axes. -/
theorem calibrated_eq (lib : XMatrix ℝ) (wc ac : V3 ℝ) :
    calibrated lib wc ac = lib.inverse (axes lib wc ac) := rfl

/-- What the calibration relies on in the vector library. -/
structure XMatrix.Exact (lib : XMatrix ℝ) : Prop where
  scales : ∀ v, ∃ c : ℝ, lib.normalize v = c • v
  unit : ∀ v, v ≠ 0 → norma2 (lib.normalize v) = 1
  transposes : ∀ M, lib.inverse M = Mᵀ

/-- The calibration is a rotation, and what balancing makes of it. -/
structure Calibrates (lib : XMatrix ℝ) (wc ac : V3 ℝ) : Prop where
  rotation : axes lib wc ac ∈ specialOrthogonalGroup (Fin 3) ℝ
  inverse : calibrated lib wc ac * axes lib wc ac = 1
  lengths : ∀ v, norma2 ((calibrated lib wc ac).mulVec v) = norma2 v
  -- the argument of `asin` in `imuAlgFeed`
  range : ∀ a, |(calibrated lib wc ac).mulVec (lib.normalize a) 0| ≤ 1

/-- `sp`, the scalar product. -/
def sp (a b : V3 ℝ) : ℝ := a 0 * b 0 + a 1 * b 1 + a 2 * b 2

/-- The matrix of the axes that two vectors make. -/
noncomputable def axesOf (a w : V3 ℝ) : DCM ℝ := Matrix.of fun i j => ![cross a w, w, cross (cross a w) w] j i

/-- The columns are perpendicular, whatever the two vectors are. -/
theorem axesOf_gram (a w : V3 ℝ) : (axesOf a w)ᵀ * axesOf a w =
    Matrix.diagonal ![norma2 (cross a w), norma2 w, norma2 (cross a w) * norma2 w] := by
  -- Entry by entry, both sides are polynomials in the coordinates.
  ext i j
  fin_cases i <;> fin_cases j <;>
    simp [axesOf, cross, norma2, Matrix.mul_apply, Fin.sum_univ_three] <;> ring

/-- The determinant is the product of the squares of the two lengths. -/
theorem axesOf_det (a w : V3 ℝ) : (axesOf a w).det = norma2 (cross a w) * norma2 w := by
  -- Expanded by the first row, this is the same polynomial.
  simp [axesOf, cross, norma2, Matrix.det_fin_three]
  ring

/-- The square of the length of a vector product. -/
theorem norma2_cross (a w : V3 ℝ) : norma2 (cross a w) = norma2 a * norma2 w - sp a w * sp a w := by
  simp [cross, norma2, sp]
  ring

/-- The square of a length is the scalar product of the vector with itself. -/
theorem norma2_eq (v : V3 ℝ) : norma2 v = v ⬝ᵥ v := by
  simp [norma2, dotProduct, Fin.sum_univ_three]

/-- Only the vector without length is zero. -/
theorem norma2_eq_zero {v : V3 ℝ} : norma2 v = 0 ↔ v = 0 := by
  rw [norma2_eq, dotProduct_self_eq_zero]

/-- A scaling multiplies the square of a length by the square of its factor. -/
theorem norma2_smul (c : ℝ) (v : V3 ℝ) : norma2 (c • v) = c * c * norma2 v := by
  simp [norma2]
  ring

/-- Scalings multiply a scalar product by both factors. -/
theorem sp_smul (c d : ℝ) (a w : V3 ℝ) : sp (c • a) (d • w) = c * d * sp a w := by
  simp [sp]
  ring

/-- The axes are a rotation exactly when the second and the first of them have length 1. -/
theorem axesOf_rotation_iff (a w : V3 ℝ) :
    axesOf a w ∈ specialOrthogonalGroup (Fin 3) ℝ ↔ norma2 w = 1 ∧ norma2 (cross a w) = 1 := by
  -- By the products of the columns, orthogonality is about the three lengths.
  rw [mem_specialOrthogonalGroup_iff, mem_orthogonalGroup_iff', axesOf_gram, axesOf_det]
  constructor
  · rintro ⟨unit, -⟩
    -- The lengths stand on the diagonal.
    have entry (i : Fin 3) := congrFun (congrFun unit i) i
    exact ⟨by simpa using entry 1, by simpa using entry 0⟩
  · rintro ⟨second, first⟩
    -- With two lengths of 1 the third one is 1, and so is the determinant.
    refine ⟨?_, by rw [first, second, one_mul]⟩
    rw [first, second, one_mul, ← diagonal_one]
    congr 1
    ext i
    fin_cases i <;> rfl

section

variable {lib : XMatrix ℝ} {wc ac : V3 ℝ}

/-- A vector that is normalized has length 1, or it was zero and still is. -/
theorem XMatrix.Exact.norma2_normalize (exact : lib.Exact) (v : V3 ℝ) :
    norma2 (lib.normalize v) = if v = 0 then 0 else 1 := by
  split_ifs with zero
  · -- Zero has no direction, and stays zero.
    obtain ⟨c, scaled⟩ := exact.scales v
    rw [scaled, zero, smul_zero]
    simp [norma2]
  · exact exact.unit v zero

/-- Normalizing keeps two vectors perpendicular, and makes none so. -/
theorem XMatrix.Exact.sp_normalize (exact : lib.Exact) (nonzero : ac ≠ 0) (nonzero' : wc ≠ 0) :
    sp (lib.normalize ac) (lib.normalize wc) = 0 ↔ sp ac wc = 0 := by
  -- Both vectors are scaled, and the square of a length takes the factor twice.
  obtain ⟨c, scaled⟩ := exact.scales ac
  obtain ⟨d, scaled'⟩ := exact.scales wc
  have unit := exact.unit ac nonzero
  have unit' := exact.unit wc nonzero'
  rw [scaled, norma2_smul] at unit
  rw [scaled', norma2_smul] at unit'
  -- A factor that makes a length 1 is not zero.
  have factor : c ≠ 0 := by rintro rfl; simp at unit
  have factor' : d ≠ 0 := by rintro rfl; simp at unit'
  rw [scaled, scaled', sp_smul]
  simp [factor, factor']

/-- The axes of a calibration are a rotation exactly when the two means are perpendicular. -/
theorem XMatrix.Exact.rotation_iff (exact : lib.Exact) :
    axes lib wc ac ∈ specialOrthogonalGroup (Fin 3) ℝ ↔ wc ≠ 0 ∧ ac ≠ 0 ∧ sp ac wc = 0 := by
  show axesOf _ _ ∈ _ ↔ _
  rw [axesOf_rotation_iff, norma2_cross, exact.norma2_normalize, exact.norma2_normalize]
  by_cases zero : wc = 0
  · simp [zero]
  by_cases zero' : ac = 0
  · -- The first axis is shorter than 1.
    rw [if_pos zero', zero_mul, zero_sub]
    have short := mul_self_nonneg (sp (lib.normalize ac) (lib.normalize wc))
    constructor
    · rintro ⟨-, unit⟩
      linarith
    · rintro ⟨-, nonzero, -⟩
      exact absurd zero' nonzero
  · rw [if_neg zero, if_neg zero', one_mul, sub_eq_self, mul_self_eq_zero,
      exact.sp_normalize zero' zero]
    simp [zero, zero']

/-- A transposed rotation preserves lengths. -/
theorem norma2_mulVec {Q : DCM ℝ} (rotation : Q ∈ specialOrthogonalGroup (Fin 3) ℝ) (v : V3 ℝ) :
    norma2 (Qᵀ.mulVec v) = norma2 v := by
  have unit := (mem_orthogonalGroup_iff _ _).mp (mem_specialOrthogonalGroup_iff.mp rotation).1
  rw [norma2_eq, norma2_eq, dotProduct_mulVec, vecMul_transpose, mulVec_mulVec, unit, one_mulVec]

/-- A component is no longer than the vector. -/
theorem sq_le_norma2 (v : V3 ℝ) : v 0 * v 0 ≤ norma2 v := by
  unfold norma2
  nlinarith [mul_self_nonneg (v 1), mul_self_nonneg (v 2)]

/-- The calibration yields a rotation exactly when both means are vectors and perpendicular. -/
theorem calibrates_iff (exact : lib.Exact) (wc ac : V3 ℝ) :
    Calibrates lib wc ac ↔ wc ≠ 0 ∧ ac ≠ 0 ∧ sp ac wc = 0 := by
  rw [← exact.rotation_iff]
  refine ⟨Calibrates.rotation, fun rotation => ?_⟩
  have unit := (mem_orthogonalGroup_iff' _ _).mp (mem_specialOrthogonalGroup_iff.mp rotation).1
  have lengths (v : V3 ℝ) : norma2 ((calibrated lib wc ac).mulVec v) = norma2 v := by
    rw [calibrated_eq, exact.transposes]
    exact norma2_mulVec rotation v
  refine ⟨rotation, by rw [calibrated_eq, exact.transposes, unit], lengths, fun a => ?_⟩
  -- What is turned was at most of length 1.
  have short : norma2 (lib.normalize a) ≤ 1 := by
    rw [exact.norma2_normalize]
    split_ifs <;> norm_num
  have component := sq_le_norma2 ((calibrated lib wc ac).mulVec (lib.normalize a))
  rw [lengths] at component
  rw [← sq_le_one_iff_abs_le_one, sq]
  exact component.trans short

end

/-- A vector library of exact arithmetic. -/
noncomputable def exactLib : XMatrix ℝ where
  normalize v := (√(norma2 v))⁻¹ • v
  inverse := Matrix.transpose
  asin := Real.arcsin

/-- It does what the calibration relies on. -/
theorem exactLib_exact : exactLib.Exact where
  scales v := ⟨_, rfl⟩
  unit v nonzero := by
    have positive : 0 < norma2 v := by
      refine lt_of_le_of_ne ?_ fun zero => nonzero (norma2_eq_zero.mp zero.symm)
      unfold norma2
      nlinarith [mul_self_nonneg (v 0), mul_self_nonneg (v 1), mul_self_nonneg (v 2)]
    show norma2 ((√(norma2 v))⁻¹ • v) = 1
    rw [norma2_smul, ← mul_inv, Real.mul_self_sqrt positive.le, inv_mul_cancel₀ positive.ne']
  transposes _ := rfl

/-- A robot that was turned about its axis and stood upright. -/
theorem calibrates_upright : Calibrates exactLib ![0, 1, 0] ![0, 0, 1] := by
  refine (calibrates_iff exactLib_exact _ _).mpr ⟨?_, ?_, by simp [sp]⟩
  · exact fun zero => by simpa using congrFun zero 1
  · exact fun zero => by simpa using congrFun zero 2

/-- The mean of vectors that are all the same. -/
theorem mean_replicate {n : ℕ} (positive : 0 < n) (v : V3 ℝ) : mean (List.replicate n v) = v := by
  have nonzero : (n : ℝ) ≠ 0 := by positivity
  ext i
  simp [mean, ddiv, nonzero]

/-- A robot that was turned about the direction of its weight is not calibrated to a rotation. -/
theorem calibrates_not_always : ¬ ∀ lib : XMatrix ℝ, lib.Exact → ∀ ws as : List (V3 ℝ),
    ws.length = 101 → (∀ w ∈ ws, wrBound ≤ norma2 w) → as.length = 101 →
      Calibrates lib (mean ws) (mean as) := by
  intro all
  have calibrates := all exactLib exactLib_exact (List.replicate 101 ![0, 0, 1])
    (List.replicate 101 ![0, 0, 10]) (by simp) ?_ (by simp)
  · rw [mean_replicate (by norm_num), mean_replicate (by norm_num)] at calibrates
    -- The two means are parallel.
    have perpendicular := (exactLib_exact.rotation_iff.mp calibrates.rotation).2.2
    simp [sp] at perpendicular
  · intro w member
    rw [List.eq_of_mem_replicate member]
    simp only [norma2, wrBound, cons_val]
    norm_num

end Teetest
