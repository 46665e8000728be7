import Teetest.Lib.Decimal

/-!
Numbers with a fixed count of decimal places: how `printf` prints them, and how `sscanf` reads them back.

What is printed are exact numbers. What is read is rounded to the format in which it is stored, by a
function that is a parameter.
-/

namespace Teetest

open Lib

/-- The nearest integer, and the even one of two that are equally near. -/
def roundHalfEven (x : ℚ) : ℤ :=
  let rest := x - ⌊x⌋
  if rest < 1 / 2 then ⌊x⌋
  else if 1 / 2 < rest then ⌊x⌋ + 1
  else if ⌊x⌋ % 2 = 0 then ⌊x⌋ else ⌊x⌋ + 1

/-- A number rounded to so many decimal places. -/
def roundedTo (places : ℕ) (x : ℚ) : ℚ := roundHalfEven (x * 10 ^ places) / 10 ^ places

/-- The last digits of a number, with leading zeros. -/
def padded : ℕ → ℕ → List UInt8
  | 0, _ => []
  | k + 1, n => padded k (n / 10) ++ [UInt8.ofNat (0x30 + n % 10)]

/--
What `%.*f` prints for one place or more.

A negative number has a sign even if it is rounded to zero.
-/
def fixedText (places : ℕ) (x : ℚ) : List UInt8 :=
  let n := (roundHalfEven (x * 10 ^ places)).natAbs
  (if x < 0 then [0x2D] else []) ++ decimal (n / 10 ^ places) ++ 0x2E :: padded places (n % 10 ^ places)

/-- White space of the C library. -/
def isSpace (c : UInt8) : Bool := c = 0x20 || (0x09 ≤ c && c ≤ 0x0D)

/-- A sign at the head of a text. -/
def scanSign : List UInt8 → Bool × List UInt8
  | 0x2D :: rest => (true, rest)
  | 0x2B :: rest => (false, rest)
  | s => (false, s)

/-- An exponent at the head of a text; without a digit in it there is none. -/
def scanExponent (s : List UInt8) : ℤ × List UInt8 :=
  match s with
  | c :: rest =>
    if c = 0x65 ∨ c = 0x45 then
      let (negative, rest) := scanSign rest
      let digits := scanDigits rest
      if digits = [] then (0, s)
      else (if negative then -digitsValue digits else digitsValue digits, rest.drop digits.length)
    else (0, s)
  | [] => (0, s)

/-- `%f` of `sscanf`: white space, a sign, digits with a point among them, and an exponent. -/
def scanFloat (store : ℚ → ℚ) (s : List UInt8) : Option (ℚ × List UInt8) :=
  let (negative, s) := scanSign (s.dropWhile isSpace)
  let whole := scanDigits s
  let s := s.drop whole.length
  let (fraction, s) := match s with
    | 0x2E :: rest => (scanDigits rest, rest.drop (scanDigits rest).length)
    | _ => ([], s)
  if whole = [] ∧ fraction = [] then none
  else
    let (e, s) := scanExponent s
    let m : ℚ := digitsValue (whole ++ fraction) / 10 ^ fraction.length
    some (store ((if negative then -m else m) * 10 ^ e), s)

/-- The numbers that `sscanf` reads with so many `%f`, up to the first that does not match. -/
def scanFloats (store : ℚ → ℚ) : ℕ → List UInt8 → List ℚ
  | 0, _ => []
  | k + 1, s =>
    match scanFloat store s with
    | none => []
    | some (x, rest) => x :: scanFloats store k rest

/-- Rounding moves a number by one half at most. -/
theorem abs_roundHalfEven_sub_le (x : ℚ) : |(roundHalfEven x : ℚ) - x| ≤ 1 / 2 := by
  have low := Int.floor_le x
  have high := Int.lt_floor_add_one x
  unfold roundHalfEven
  dsimp only
  rw [abs_le]
  -- Up or down, the rest of the number decides.
  split_ifs with below above even <;> push_cast <;> constructor <;> linarith

/-- Rounding does not cross zero. -/
theorem roundHalfEven_nonneg {x : ℚ} (nonneg : 0 ≤ x) : 0 ≤ roundHalfEven x := by
  have floor := Int.floor_nonneg.mpr nonneg
  unfold roundHalfEven
  dsimp only
  split_ifs <;> omega

theorem roundHalfEven_nonpos {x : ℚ} (negative : x < 0) : roundHalfEven x ≤ 0 := by
  have floor : ⌊x⌋ + 1 ≤ 0 := by
    have := Int.floor_lt.mpr (show x < (0 : ℤ) by exact_mod_cast negative)
    omega
  unfold roundHalfEven
  dsimp only
  split_ifs <;> omega

/-- A rounded number is off by half of the last place at most. -/
theorem abs_roundedTo_sub_le (places : ℕ) (x : ℚ) :
    |roundedTo places x - x| ≤ 1 / 2 / 10 ^ places := by
  have positive : (0 : ℚ) < 10 ^ places := by positivity
  have near := abs_roundHalfEven_sub_le (x * 10 ^ places)
  have scaled : roundedTo places x - x =
      ((roundHalfEven (x * 10 ^ places) : ℚ) - x * 10 ^ places) / 10 ^ places := by
    rw [roundedTo]
    field_simp
  rw [scaled, abs_div, abs_of_pos positive]
  exact div_le_div_of_nonneg_right near positive.le

/-- Padding gives as many digits as it is asked for. -/
@[simp] theorem padded_length (k n : ℕ) : (padded k n).length = k := by
  induction k generalizing n with
  | zero => rfl
  | succ k ih => rw [padded, List.length_append, ih, List.length_singleton]

/-- The byte of a decimal digit. -/
theorem digit_toNat (n : ℕ) : (UInt8.ofNat (0x30 + n % 10)).toNat = 0x30 + n % 10 := by
  rw [UInt8.toNat_ofNat']
  omega

/-- Only digits are padded. -/
theorem isDigit_of_mem_padded {k n : ℕ} {b : UInt8} (member : b ∈ padded k n) : IsDigit b := by
  induction k generalizing n with
  | zero => exact absurd member List.not_mem_nil
  | succ k ih =>
    rcases List.mem_append.mp member with before | last
    · exact ih before
    · rw [List.mem_singleton.mp last]
      constructor <;> rw [UInt8.le_iff_toNat_le, digit_toNat]
      · exact Nat.le_add_right _ _
      · show 0x30 + n % 10 ≤ 0x39
        omega

/-- Padded digits behind others. -/
theorem digitsValue_padded (ds : List UInt8) (k n : ℕ) :
    digitsValue (ds ++ padded k n) = digitsValue ds * 10 ^ k + (n % 10 ^ k : ℕ) := by
  induction k generalizing n with
  | zero => simp [padded, Nat.mod_one]
  | succ k ih =>
    have last : n % 10 ^ (k + 1) = n % 10 + 10 * (n / 10 % 10 ^ k) := by
      rw [Nat.pow_succ', Nat.mod_mul]
    rw [padded, ← List.append_assoc, digitsValue_concat, ih, digit_toNat, last]
    push_cast
    ring

/-- A digit is no white space and no sign. -/
theorem IsDigit.plain {b : UInt8} (digit : IsDigit b) :
    isSpace b = false ∧ b ≠ 0x2D ∧ b ≠ 0x2B := by
  obtain ⟨low, high⟩ := digit
  refine ⟨?_, ?_, ?_⟩
  · have := UInt8.le_iff_toNat_le.mp low
    simp only [UInt8.reduceToNat] at this
    rw [isSpace, Bool.or_eq_false_iff, Bool.and_eq_false_iff]
    constructor
    · rw [decide_eq_false_iff_not]
      rintro rfl
      exact absurd low (by decide)
    · right
      rw [decide_eq_false_iff_not, UInt8.le_iff_toNat_le]
      simp only [UInt8.reduceToNat]
      omega
  · rintro rfl
    exact absurd low (by decide)
  · rintro rfl
    exact absurd low (by decide)

/-- Without a sign nothing is taken. -/
theorem scanSign_digit {b : UInt8} (digit : IsDigit b) (rest : List UInt8) :
    scanSign (b :: rest) = (false, b :: rest) := by
  obtain ⟨-, minus, plus⟩ := digit.plain
  unfold scanSign
  split
  · rename_i same
    exact absurd (List.cons.inj same).1 minus
  · rename_i same
    exact absurd (List.cons.inj same).1 plus
  · rfl

/-- A byte that ends a number that was printed. -/
def EndsNumber (b : UInt8) : Prop := ¬IsDigit b ∧ b ≠ 0x65 ∧ b ≠ 0x45

/-- Without its letter there is no exponent. -/
theorem scanExponent_none {rest : List UInt8} (ends : ∀ b ∈ rest.head?, EndsNumber b) :
    scanExponent rest = (0, rest) := by
  cases rest with
  | nil => rfl
  | cons c rest =>
    obtain ⟨-, small, large⟩ := ends c rfl
    exact if_neg fun letter => letter.elim small large

/-- `sscanf` reads a printed number back as it was rounded, and stores that. -/
theorem scanFloat_fixedText (store : ℚ → ℚ) (places : ℕ) (x : ℚ) {lead rest : List UInt8}
    (spaces : ∀ b ∈ lead, isSpace b = true) (ends : ∀ b ∈ rest.head?, EndsNumber b) :
    scanFloat store (lead ++ (fixedText places x ++ rest)) =
      some (store (roundedTo places x), rest) := by
  set n := (roundHalfEven (x * 10 ^ places)).natAbs with n_eq
  set whole := decimal (n / 10 ^ places) with whole_eq
  set fraction := padded places (n % 10 ^ places) with fraction_eq
  have digits : ∀ b ∈ whole, IsDigit b := fun b member => isDigit_of_mem_decimal member
  have places_ : ∀ b ∈ fraction, IsDigit b := fun b member => isDigit_of_mem_padded member
  obtain ⟨d, ds, first⟩ := List.exists_cons_of_ne_nil (decimal_ne_nil (n / 10 ^ places))
  rw [← whole_eq] at first
  have digit : IsDigit d := digits d (by rw [first]; exact List.mem_cons_self)
  -- The sign, if any, and the digits behind it.
  have sign : scanSign ((lead ++ (fixedText places x ++ rest)).dropWhile isSpace) =
      (decide (x < 0), whole ++ 0x2E :: (fraction ++ rest)) := by
    rw [List.dropWhile_append_of_pos spaces]
    unfold fixedText
    simp only [← n_eq, ← whole_eq, ← fraction_eq]
    by_cases negative : x < 0
    · rw [if_pos negative, decide_eq_true negative]
      simp [scanSign, isSpace]
    · rw [if_neg negative, decide_eq_false negative, List.nil_append, first]
      simp only [List.cons_append, List.append_assoc]
      rw [List.dropWhile_cons_of_neg (by rw [digit.plain.1]; exact Bool.false_ne_true),
        scanSign_digit digit]
  have wholes : scanDigits (whole ++ 0x2E :: (fraction ++ rest)) = whole := by
    refine scanDigits_append digits fun b member => ?_
    rw [← Option.some.inj member]
    exact fun point => absurd point.1 (by decide)
  have fractions : scanDigits (fraction ++ rest) = fraction :=
    scanDigits_append places_ fun b member => (ends b member).1
  -- All digits together make the rounded number, up to its sign.
  have value : digitsValue (whole ++ fraction) = n := by
    rw [digitsValue_padded, whole_eq, digitsValue_decimal, Nat.mod_mod]
    exact_mod_cast Nat.div_add_mod' n (10 ^ places)
  have signed : (if x < 0 then -((n : ℤ) : ℚ) else (n : ℤ)) = roundHalfEven (x * 10 ^ places) := by
    have positive : (0 : ℚ) < 10 ^ places := by positivity
    split_ifs with negative
    · have low := roundHalfEven_nonpos (mul_neg_of_neg_of_pos negative positive)
      rw [n_eq, Int.ofNat_natAbs_of_nonpos low]
      push_cast
      ring
    · have low := roundHalfEven_nonneg (mul_nonneg (not_lt.mp negative) positive.le)
      rw [n_eq, Int.natAbs_of_nonneg low]
  unfold scanFloat
  simp only [sign, wholes, List.drop_left, fractions, scanExponent_none ends, value,
    decide_eq_true_eq, zpow_zero, mul_one]
  rw [if_neg fun none_ => absurd none_.1 (by rw [first]; exact List.cons_ne_nil _ _),
    fraction_eq, padded_length]
  -- The sign stands in front of the quotient, or in front of its numerator.
  congr 3
  rw [roundedTo, ← signed]
  split_ifs
  · rw [neg_div]
  · rfl

/-- `sscanf` reads numbers back that were printed with a blank behind each. -/
theorem scanFloats_fixedText (store : ℚ → ℚ) (places : ℕ) (xs : List ℚ) {lead : List UInt8}
    (spaces : ∀ b ∈ lead, isSpace b = true) (tail : List UInt8) :
    scanFloats store xs.length
        (lead ++ (xs.flatMap (fun x => fixedText places x ++ [0x20]) ++ tail)) =
      xs.map fun x => store (roundedTo places x) := by
  induction xs generalizing lead with
  | nil => rfl
  | cons x xs ih =>
    have blank : ∀ b ∈ (0x20 :: (xs.flatMap (fun x => fixedText places x ++ [0x20]) ++ tail)).head?,
        EndsNumber b := by
      intro b member
      rw [← Option.some.inj member]
      exact ⟨fun digit => absurd digit.1 (by decide), by decide, by decide⟩
    have head := scanFloat_fixedText store places x spaces blank
    have whole : (x :: xs).flatMap (fun x => fixedText places x ++ [0x20]) ++ tail =
        fixedText places x ++ 0x20 :: (xs.flatMap (fun x => fixedText places x ++ [0x20]) ++ tail) := by
      rw [List.flatMap_cons]
      simp only [List.append_assoc, List.cons_append, List.nil_append]
    rw [whole, List.length_cons, scanFloats, head, List.map_cons]
    -- The blank behind a number is skipped before the next one.
    have space : ∀ b ∈ [(0x20 : UInt8)], isSpace b = true := by
      intro b member
      rw [List.mem_singleton.mp member]
      rfl
    exact congrArg _ (ih space)

/-- What is printed are digits, a point and a sign. -/
theorem mem_fixedText {places : ℕ} {x : ℚ} {b : UInt8} (member : b ∈ fixedText places x) :
    IsDigit b ∨ b = 0x2E ∨ b = 0x2D := by
  unfold fixedText at member
  rcases List.mem_append.mp member with front | behind
  · rcases List.mem_append.mp front with sign | whole
    · split at sign
      · exact .inr (.inr (List.mem_singleton.mp sign))
      · exact absurd sign List.not_mem_nil
    · exact .inl (isDigit_of_mem_decimal whole)
  · rcases List.mem_cons.mp behind with point | fraction
    · exact .inr (.inl point)
    · exact .inl (isDigit_of_mem_padded fraction)

/-- The length of what is printed, by the digits in front of the point. -/
theorem fixedText_length_le {places k : ℕ} {x : ℚ} (some_ : 0 < k) (small : |x| < 10 ^ k - 1) :
    (fixedText places x).length ≤ k + places + 2 := by
  have positive : (0 : ℚ) < 10 ^ places := by positivity
  set z := roundHalfEven (x * 10 ^ places) with z_eq
  -- Rounding adds one half at most, which does not reach the next power of ten.
  have near := abs_roundHalfEven_sub_le (x * 10 ^ places)
  have scaled : |x * 10 ^ places| = |x| * 10 ^ places := by rw [abs_mul, abs_of_pos positive]
  have bound : |(z : ℚ)| < 10 ^ k * 10 ^ places := by
    have one : (1 : ℚ) ≤ 10 ^ places := one_le_pow₀ (by norm_num)
    have triangle := abs_sub_abs_le_abs_sub (z : ℚ) (x * 10 ^ places)
    have product := mul_lt_mul_of_pos_right small positive
    rw [sub_mul, one_mul] at product
    rw [scaled] at triangle
    linarith
  have below : z.natAbs < 10 ^ k * 10 ^ places := by
    have cast : ((z.natAbs : ℕ) : ℚ) = |(z : ℚ)| := by rw [Nat.cast_natAbs, Int.cast_abs]
    rw [← cast] at bound
    exact_mod_cast bound
  have whole : (decimal (z.natAbs / 10 ^ places)).length ≤ k :=
    decimal_length_le some_ (Nat.div_lt_of_lt_mul (by rwa [Nat.mul_comm] at below))
  have sign : (if x < 0 then [(0x2D : UInt8)] else []).length ≤ 1 := by split <;> decide
  unfold fixedText
  simp only [List.length_append, List.length_cons, padded_length, ← z_eq]
  omega

end Teetest
