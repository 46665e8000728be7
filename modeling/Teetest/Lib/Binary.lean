import Mathlib.Data.Int.Log
import Teetest.Lib.Fixed

/-!
Binary floating-point numbers, and rounding to the nearest one.

Exponents have no upper limit here, so no number overflows.
-/

namespace Teetest.Lib

/-- A rounding to a nearest element of a set. -/
structure RoundsTo (grid : Set ℚ) (round : ℚ → ℚ) : Prop where
  mem : ∀ x, round x ∈ grid
  nearest : ∀ x, ∀ y ∈ grid, |round x - x| ≤ |y - x|

/-- The numbers with a significand of so many bits, and an exponent from the lowest one on. -/
def binary (precision : ℕ) (lowest : ℤ) : Set ℚ :=
  {x | ∃ m e : ℤ, |m| < 2 ^ precision ∧ lowest ≤ e ∧ x = m * 2 ^ e}

/-- The exponent with which a number is written in so many bits. -/
def binaryExponent (precision : ℕ) (lowest : ℤ) (x : ℚ) : ℤ :=
  max lowest (Int.log 2 |x| + 1 - precision)

/-- A number rounded to so many bits; of two that are equally near, to the even one. -/
def roundBinary (precision : ℕ) (lowest : ℤ) (x : ℚ) : ℚ :=
  roundHalfEven (x / 2 ^ binaryExponent precision lowest x) * 2 ^ binaryExponent precision lowest x

section

variable {grid : Set ℚ} {round : ℚ → ℚ}

/-- A number near an element of the set is rounded to one near that element. -/
theorem RoundsTo.near (rounds : RoundsTo grid round) {y : ℚ} (member : y ∈ grid) (x : ℚ) :
    |round x - y| ≤ 2 * |x - y| := by
  have near := rounds.nearest x y member
  have triangle := abs_sub_le (round x) x y
  rw [abs_sub_comm y x] at near
  linarith

end

section

variable {precision precision' : ℕ} {lowest lowest' : ℤ} {x y : ℚ}

/-- A wider format has all numbers of a narrower one. -/
theorem binary_subset (wider : precision ≤ precision') (lower : lowest' ≤ lowest) :
    binary precision lowest ⊆ binary precision' lowest' := by
  rintro x ⟨m, e, bits, low, rfl⟩
  exact ⟨m, e, bits.trans_le (pow_le_pow_right₀ (by norm_num) wider), lower.trans low, rfl⟩

/-- The size of a number, by its exponent. -/
theorem abs_significand_lt {m e : ℤ} (bits : |m| < 2 ^ precision) :
    |(m : ℚ) * 2 ^ e| < 2 ^ (precision + e) := by
  have positive : (0 : ℚ) < 2 ^ e := by positivity
  have small : |(m : ℚ)| < 2 ^ precision := by exact_mod_cast bits
  rw [abs_mul, abs_of_pos positive, zpow_add₀ (by norm_num), zpow_natCast]
  exact mul_lt_mul_of_pos_right small positive

/-- A multiple of a power of two is one of every smaller power. -/
theorem exists_multiple {k e : ℤ} (higher : k ≤ e) (m : ℤ) : ∃ n : ℤ, (m : ℚ) * 2 ^ e = n * 2 ^ k := by
  refine ⟨m * 2 ^ (e - k).toNat, ?_⟩
  have exponent : e = ((e - k).toNat : ℤ) + k := by omega
  nth_rewrite 1 [exponent]
  rw [zpow_add₀ (by norm_num), zpow_natCast]
  push_cast
  ring

/-- Two numbers are apart by the size of one of them, divided by what the bits can tell apart. -/
theorem binary_apart (some_ : 0 < precision) (hx : x ∈ binary precision lowest)
    (hy : y ∈ binary precision lowest) (differ : x ≠ y) {k : ℤ} (large : 2 ^ k ≤ |x|) :
    (2 : ℚ) ^ (k - precision) ≤ |x - y| := by
  obtain ⟨m, e, bits, -, rfl⟩ := hx
  obtain ⟨m', e', bits', -, rfl⟩ := hy
  have two : (1 : ℚ) < 2 := by norm_num
  have high : k - precision < e := by
    have exponent := (zpow_lt_zpow_iff_right₀ two).mp (large.trans_lt (abs_significand_lt bits))
    omega
  rcases le_or_gt (k - precision) e' with multiple | below
  · -- The difference is a multiple of the power, and not zero.
    obtain ⟨n, first⟩ := exists_multiple high.le m
    obtain ⟨n', second⟩ := exists_multiple multiple m'
    rw [first, second] at differ ⊢
    have positive : (0 : ℚ) < 2 ^ (k - precision : ℤ) := by positivity
    have one : (1 : ℚ) ≤ |((n - n' : ℤ) : ℚ)| := by
      have apart : n - n' ≠ 0 := fun zero => differ (by rw [sub_eq_zero.mp zero])
      exact_mod_cast Int.one_le_abs apart
    rw [← sub_mul, abs_mul, abs_of_pos positive]
    push_cast at one
    exact le_mul_of_one_le_left positive.le one
  · -- The other number is less than half as large.
    have small : |(m' : ℚ) * 2 ^ e'| < 2 ^ (k - 1) :=
      (abs_significand_lt bits').trans_le (zpow_le_zpow_right₀ two.le (by omega))
    have half : (2 : ℚ) ^ k = 2 ^ (k - 1) + 2 ^ (k - 1) := by
      rw [← two_mul, ← zpow_one_add₀ (by norm_num)]
      congr 1
      ring
    have lower : (2 : ℚ) ^ (k - precision) ≤ 2 ^ (k - 1) := zpow_le_zpow_right₀ two.le (by omega)
    have triangle := abs_sub_abs_le_abs_sub ((m : ℚ) * 2 ^ e) (m' * 2 ^ e')
    linarith

/-- No integer is nearer than the one that a number is rounded to. -/
theorem abs_roundHalfEven_sub_le_abs (x : ℚ) (k : ℤ) : |(roundHalfEven x : ℚ) - x| ≤ |k - x| := by
  have near := abs_roundHalfEven_sub_le x
  by_cases same : roundHalfEven x = k
  · rw [same]
  · -- Another integer is at least one away.
    have one : (1 : ℚ) ≤ |(k : ℚ) - roundHalfEven x| := by
      have apart : k - roundHalfEven x ≠ 0 := fun zero => same (sub_eq_zero.mp zero).symm
      exact_mod_cast Int.one_le_abs apart
    have triangle := abs_sub_le (k : ℚ) x (roundHalfEven x)
    rw [abs_sub_comm x] at triangle
    linarith

/-- No multiple of the power is nearer than the one that a number is rounded to. -/
theorem abs_roundMultiple_sub_le (e : ℤ) (x : ℚ) (n : ℤ) :
    |(roundHalfEven (x / 2 ^ e) : ℚ) * 2 ^ e - x| ≤ |n * 2 ^ e - x| := by
  have positive : (0 : ℚ) < 2 ^ e := by positivity
  have scaled (r : ℚ) : |r * 2 ^ e - x| = |r - x / 2 ^ e| * 2 ^ e := by
    rw [← abs_of_pos positive, ← abs_mul, abs_of_pos positive, sub_mul, div_mul_cancel₀ _ positive.ne']
  rw [scaled, scaled]
  exact mul_le_mul_of_nonneg_right (abs_roundHalfEven_sub_le_abs _ n) positive.le

/-- A carry out of the highest bit is one more in the exponent. -/
theorem mem_binary_of_le (some_ : 0 < precision) {m e : ℤ} (bits : |m| ≤ 2 ^ precision)
    (low : lowest ≤ e) : (m : ℚ) * 2 ^ e ∈ binary precision lowest := by
  rcases bits.lt_or_eq with less | full
  · exact ⟨m, e, less, low, rfl⟩
  obtain ⟨p, rfl⟩ := Nat.exists_eq_succ_of_ne_zero some_.ne'
  have shift (n : ℤ) : ((n * 2 : ℤ) : ℚ) * 2 ^ e = n * 2 ^ (e + 1) := by
    rw [zpow_add_one₀ (by norm_num)]
    push_cast
    ring
  have fits : |(2 : ℤ) ^ p| < 2 ^ (p + 1) := by
    rw [abs_of_pos (by positivity)]
    exact pow_lt_pow_right₀ (by norm_num) p.lt_succ_self
  rcases eq_or_eq_neg_of_abs_eq full with rfl | rfl
  · exact ⟨2 ^ p, e + 1, fits, by omega, by rw [pow_succ, shift]⟩
  · exact ⟨-2 ^ p, e + 1, by rwa [abs_neg], by omega, by rw [pow_succ, ← neg_mul, shift]⟩

/-- A rounded number has as many bits as it was rounded to. -/
theorem roundBinary_mem (some_ : 0 < precision) (lowest : ℤ) (x : ℚ) :
    roundBinary precision lowest x ∈ binary precision lowest := by
  unfold roundBinary
  set e := binaryExponent precision lowest x with e_eq
  have positive : (0 : ℚ) < 2 ^ e := by positivity
  have high : Int.log 2 |x| + 1 ≤ precision + e := by
    rw [e_eq, binaryExponent]
    omega
  -- What is rounded is smaller than the bits can hold, and rounding adds one half at most.
  have small : |x / 2 ^ e| < 2 ^ precision := by
    rw [abs_div, abs_of_pos positive, div_lt_iff₀ positive, ← zpow_natCast, ← zpow_add₀ (by norm_num)]
    have below : |x| < 2 ^ (Int.log 2 |x| + 1) := by
      exact_mod_cast Int.lt_zpow_succ_log_self (b := 2) (by norm_num) |x|
    exact below.trans_le (zpow_le_zpow_right₀ (by norm_num) high)
  have near := abs_roundHalfEven_sub_le (x / 2 ^ e)
  have triangle := abs_sub_abs_le_abs_sub (roundHalfEven (x / 2 ^ e) : ℚ) (x / 2 ^ e)
  have below : |(roundHalfEven (x / 2 ^ e) : ℚ)| < 2 ^ precision + 1 := by linarith
  have bits : |roundHalfEven (x / 2 ^ e)| < 2 ^ precision + 1 := by exact_mod_cast below
  exact mem_binary_of_le some_ (Int.lt_add_one_iff.mp bits) (le_max_left _ _)

/-- No number of the format is nearer. -/
theorem roundBinary_nearest (some_ : 0 < precision) {lowest : ℤ} (x : ℚ)
    (member : y ∈ binary precision lowest) :
    |roundBinary precision lowest x - x| ≤ |y - x| := by
  obtain ⟨m, e', bits, low, rfl⟩ := member
  by_cases zero : x = 0
  · have exact_ : roundBinary precision lowest 0 = 0 := by simp [roundBinary, roundHalfEven]
    rw [zero, exact_, sub_zero, abs_zero]
    exact abs_nonneg _
  unfold roundBinary
  set e := binaryExponent precision lowest x with e_eq
  rcases le_or_gt e e' with multiple | below
  · obtain ⟨n, same⟩ := exists_multiple multiple m
    rw [same]
    exact abs_roundMultiple_sub_le e x n
  · -- A power of two, which is no larger than what is rounded, is nearer.
    rw [e_eq, binaryExponent] at below
    have multiple : e ≤ Int.log 2 |x| := by
      rw [e_eq, binaryExponent]
      omega
    have power : (2 : ℚ) ^ Int.log 2 |x| ≤ |x| :=
      Int.zpow_log_le_self (by norm_num) (abs_pos.mpr zero)
    have smaller : |(m : ℚ) * 2 ^ e'| < 2 ^ Int.log 2 |x| :=
      (abs_significand_lt bits).trans_le (zpow_le_zpow_right₀ (by norm_num) (by omega))
    have triangle := abs_sub_abs_le_abs_sub x (m * 2 ^ e')
    rw [abs_sub_comm x] at triangle
    obtain ⟨n, same⟩ := exists_multiple multiple 1
    rw [Int.cast_one, one_mul] at same
    rcases abs_cases x with ⟨size, -⟩ | ⟨size, -⟩
    · refine (abs_roundMultiple_sub_le e x n).trans ?_
      rw [← same, abs_sub_comm, abs_of_nonneg (by linarith)]
      linarith
    · refine (abs_roundMultiple_sub_le e x (-n)).trans ?_
      push_cast
      rw [neg_mul, ← same, abs_of_nonneg (by linarith)]
      linarith

/-- It is a rounding to the nearest number. -/
theorem roundsTo_roundBinary (some_ : 0 < precision) (lowest : ℤ) :
    RoundsTo (binary precision lowest) (roundBinary precision lowest) where
  mem := roundBinary_mem some_ lowest
  nearest x _ member := roundBinary_nearest some_ x member

end

end Teetest.Lib
