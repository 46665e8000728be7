import Teetest.Lib.Bytes

/-! Decimal numbers in byte strings: how `sscanf` reads them, and that it reads back what was printed. -/

namespace Teetest

open Lib

/-- The digits at the head of a text, as `sscanf` reads them. -/
def scanDigits (s : List UInt8) : List UInt8 := s.takeWhile fun c => 0x30 ≤ c && c ≤ 0x39

/-- `sscanf(s, "%d", &k)`: white space, a sign and digits. -/
def scanInt (s : List UInt8) : Option Int :=
  let s := s.dropWhile fun c => c = 0x20 || (0x09 ≤ c && c ≤ 0x0D)
  let (negative, s) := match s with
    | 0x2D :: rest => (true, rest)
    | 0x2B :: rest => (false, rest)
    | _ => (false, s)
  match scanDigits s with
  | [] => none
  | digits =>
    let n : Int := digits.foldl (fun n c => 10 * n + (c.toNat - 0x30)) 0
    some (wrap32 (if negative then -n else n))

/-- The digits of a number, as `%d` prints them. -/
def decimal (n : Nat) : List UInt8 := ascii (toString n)

/-- A byte that is a decimal digit. -/
def IsDigit (b : UInt8) : Prop := 0x30 ≤ b ∧ b ≤ 0x39

theorem decimal_eq (n : Nat) :
    decimal n = (Nat.toDigits 10 n).map fun c => UInt8.ofNat c.toNat := by
  rw [decimal, ascii, Nat.toString_eq_repr, Nat.toList_repr]

/-- A digit character is one of the bytes from 0x30 to 0x39. -/
theorem digit_range {c : Char} (digit : c.isDigit = true) : 0x30 ≤ c.toNat ∧ c.toNat ≤ 0x39 := by
  simp only [Char.isDigit, Bool.and_eq_true, decide_eq_true_eq, ge_iff_le, UInt32.le_iff_toNat_le]
    at digit
  exact digit

/-- Only digits are printed. -/
theorem isDigit_of_mem_decimal {n : Nat} {b : UInt8} (member : b ∈ decimal n) : IsDigit b := by
  rw [decimal_eq] at member
  obtain ⟨c, printed, rfl⟩ := List.mem_map.mp member
  have range := digit_range (Nat.isDigit_of_mem_toDigits (by decide) (by decide) printed)
  -- The code of a digit character fits into a byte.
  have small : (UInt8.ofNat c.toNat).toNat = c.toNat := by
    rw [UInt8.toNat_ofNat']
    omega
  constructor
  · rw [UInt8.le_iff_toNat_le, small]
    exact range.1
  · rw [UInt8.le_iff_toNat_le, small]
    exact range.2

/-- At least one digit is printed. -/
theorem decimal_ne_nil (n : Nat) : decimal n ≠ [] := by
  rw [decimal_eq]
  simp [Nat.toDigits_ne_nil]

/-- A number below a power of ten has at most as many digits. -/
theorem decimal_length_le {n k : Nat} (some : 0 < k) (below : n < 10 ^ k) :
    (decimal n).length ≤ k := by
  rw [decimal_eq, List.length_map]
  exact (Nat.length_toDigits_le_iff (by decide) some).mpr below

/-- The value of printed digits, read from the left. -/
theorem decimal_value (n : Nat) :
    (decimal n).foldl (fun (n : Int) c => 10 * n + ((c.toNat : Int) - 0x30)) 0 = n := by
  -- The sum over characters that Lean knows of, character by character.
  have same : ∀ (cs : List Char) (m : Nat), (∀ c ∈ cs, c.isDigit = true) →
      (cs.map fun c => UInt8.ofNat c.toNat).foldl
        (fun (n : Int) c => 10 * n + ((c.toNat : Int) - 0x30)) (m : Int) =
      (Nat.ofDigitChars 10 cs m : Nat) := by
    intro cs
    induction cs with
    | nil => intro m _; rfl
    | cons c cs ih =>
      intro m digits
      have range := digit_range (digits c (by simp))
      have byte : (UInt8.ofNat c.toNat).toNat = c.toNat := by
        rw [UInt8.toNat_ofNat']
        omega
      have step : 10 * (m : Int) + (((UInt8.ofNat c.toNat).toNat : Int) - 0x30) =
          (10 * m + (c.toNat - 0x30) : Nat) := by
        rw [byte]
        omega
      rw [List.map_cons, List.foldl_cons, step]
      exact ih _ fun d later => digits d (by simp [later])
  rw [decimal_eq]
  have read := same (Nat.toDigits 10 n) 0 fun c =>
    Nat.isDigit_of_mem_toDigits (by decide) (by decide)
  rw [Nat.ofDigitChars_ten_toDigits] at read
  exact read

/-- Two numbers that print alike are the same. -/
theorem decimal_injective {m n : Nat} (same : decimal m = decimal n) : m = n := by
  have value := decimal_value m
  rw [same, decimal_value n] at value
  exact Int.ofNat.inj value.symm

/-- The digits at the head of a text are read up to the first byte that is none. -/
theorem scanDigits_append {ds rest : List UInt8} (digits : ∀ b ∈ ds, IsDigit b)
    (ends : ∀ b ∈ rest.head?, ¬IsDigit b) : scanDigits (ds ++ rest) = ds := by
  have taken : ∀ b ∈ ds, (decide (0x30 ≤ b) && decide (b ≤ 0x39)) = true := by
    intro b member
    simpa [IsDigit] using digits b member
  rw [scanDigits, List.takeWhile_append_of_pos taken]
  -- Nothing of the rest is taken.
  cases rest with
  | nil => simp
  | cons b rest =>
    have stops : ¬IsDigit b := ends b rfl
    rw [List.takeWhile_cons_of_neg (by simpa [IsDigit] using stops), List.append_nil]

/-- The value of a run of digits. -/
def digitsValue (ds : List UInt8) : Int :=
  ds.foldl (fun (n : Int) c => 10 * n + ((c.toNat : Int) - 0x30)) 0

/-- The digits of a printed number have its value. -/
theorem digitsValue_decimal (n : Nat) : digitsValue (decimal n) = n := decimal_value n

/-- One more digit makes the value ten times as large, and more. -/
theorem digitsValue_concat (ds : List UInt8) (d : UInt8) :
    digitsValue (ds ++ [d]) = 10 * digitsValue ds + ((d.toNat : Int) - 0x30) := by
  simp [digitsValue]

/-- The value of digits is not negative, and the digits behind a run of them make it ten times as large. -/
theorem digitsValue_append {ds more : List UInt8} (digits : ∀ b ∈ ds, IsDigit b)
    (behind : ∀ b ∈ more, IsDigit b) :
    0 ≤ digitsValue ds ∧ digitsValue ds ≤ digitsValue (ds ++ more) ∧
      (more ≠ [] → 10 * digitsValue ds ≤ digitsValue (ds ++ more)) := by
  have nonneg : ∀ ds : List UInt8, (∀ b ∈ ds, IsDigit b) → 0 ≤ digitsValue ds := by
    intro ds
    induction ds using List.reverseRecOn with
    | nil => exact fun _ => le_refl _
    | append_singleton ds d ih =>
      intro all
      have low := UInt8.le_iff_toNat_le.mp (all d (by simp)).1
      have before := ih fun b member => all b (by simp [member])
      rw [digitsValue_concat]
      simp only [UInt8.reduceToNat] at low
      omega
  refine ⟨nonneg ds digits, ?_⟩
  induction more using List.reverseRecOn with
  | nil => simp
  | append_singleton more d ih =>
    have low := UInt8.le_iff_toNat_le.mp (behind d (by simp)).1
    have first := nonneg ds digits
    have grown := (ih fun b member => behind b (by simp [member])).1
    rw [← List.append_assoc, digitsValue_concat]
    simp only [UInt8.reduceToNat] at low
    exact ⟨by omega, fun _ => by omega⟩

/-- `sscanf` takes the digits it finds at once. -/
theorem scanInt_digits {ds rest : List UInt8} (digits : ∀ b ∈ ds, IsDigit b) (some_ : ds ≠ [])
    (ends : ∀ b ∈ rest.head?, ¬IsDigit b) :
    scanInt (ds ++ rest) = some (wrap32 (digitsValue ds)) := by
  have run := scanDigits_append digits ends
  obtain ⟨d, ds, rfl⟩ := List.exists_cons_of_ne_nil some_
  obtain ⟨low, high⟩ : IsDigit d := digits d (by simp)
  -- The first byte is a digit, so neither white space nor a sign.
  have noSpace : (decide (d = 0x20) || (decide (0x09 ≤ d) && decide (d ≤ 0x0D))) = false := by
    have := UInt8.le_iff_toNat_le.mp low
    simp only [Bool.or_eq_false_iff, decide_eq_false_iff_not, Bool.and_eq_false_iff]
    refine ⟨?_, .inr ?_⟩
    · rintro rfl
      exact absurd low (by decide)
    · rw [UInt8.le_iff_toNat_le]
      simp only [UInt8.reduceToNat] at this ⊢
      omega
  have noMinus : d ≠ 0x2D := by
    rintro rfl
    exact absurd low (by decide)
  have noPlus : d ≠ 0x2B := by
    rintro rfl
    exact absurd low (by decide)
  have unsigned : (match d :: (ds ++ rest) with
      | 0x2D :: tail => (true, tail)
      | 0x2B :: tail => (false, tail)
      | _ => (false, d :: (ds ++ rest))) = (false, d :: (ds ++ rest)) := by
    split
    · rename_i same
      exact absurd (List.cons.inj same).1 noMinus
    · rename_i same
      exact absurd (List.cons.inj same).1 noPlus
    · rfl
  rw [List.cons_append] at run
  simp only [scanInt, List.cons_append, List.dropWhile_cons, noSpace, Bool.false_eq_true, if_false,
    unsigned, run]
  rfl

/-- What `sscanf` reads is an `int`. -/
theorem scanInt_lt {s : List UInt8} {k : Int} (read : scanInt s = some k) : k < 2 ^ 31 := by
  unfold scanInt at read
  dsimp only at read
  split at read
  · simp at read
  · rw [← Option.some.inj read]
    exact (wrap32_range _).2

/-- `sscanf` reads a printed number back, whatever follows its digits. -/
theorem scanInt_decimal {n : Nat} (small : n < 2 ^ 31) {rest : List UInt8}
    (ends : ∀ b ∈ rest.head?, ¬IsDigit b) : scanInt (decimal n ++ rest) = some (n : Int) := by
  rw [scanInt_digits (fun _ member => isDigit_of_mem_decimal member) (decimal_ne_nil n) ends,
    digitsValue_decimal, wrap32_of_range (by omega) (by omega)]

/-- An integer, as `%d` prints it. -/
def intText (z : Int) : List UInt8 := ascii (toString z)

theorem intText_natCast (n : Nat) : intText n = decimal n := rfl

/--
A positive number that was printed as an `int`, and cut somewhere, is read back exactly if it is one and
no digit was cut off.
-/
theorem scanInt_cut_iff {n : Nat} (positive : 0 < n) {d tail : List UInt8}
    (cut : d <+: intText (wrap32 n) ++ 0x0D :: tail) :
    scanInt d = some (n : Int) ↔ n < 2 ^ 31 ∧ (decimal n).length ≤ d.length := by
  constructor
  · intro read
    have int := scanInt_lt read
    refine ⟨by omega, ?_⟩
    rw [wrap32_of_range (by omega) int, intText_natCast] at cut
    by_contra short
    -- The digits that are left make a number at most a tenth as large.
    have front : d <+: decimal n :=
      List.prefix_of_prefix_length_le cut (List.prefix_append _ _) (by omega)
    obtain ⟨more, whole⟩ := front
    have lost : more ≠ [] := by
      rintro rfl
      rw [List.append_nil] at whole
      rw [whole] at short
      exact short (le_refl _)
    have digits : ∀ b ∈ d ++ more, IsDigit b := by
      rw [whole]
      exact fun _ member => isDigit_of_mem_decimal member
    have left : ∀ b ∈ d, IsDigit b := fun b member => digits b (List.mem_append_left _ member)
    obtain ⟨nonneg, -, tenfold⟩ :=
      digitsValue_append left fun b member => digits b (List.mem_append_right _ member)
    rw [whole, digitsValue_decimal] at tenfold
    have tenth := tenfold lost
    by_cases none_ : d = []
    · simp [none_, scanInt, scanDigits] at read
    · have value := scanInt_digits left none_ (show ∀ b ∈ ([] : List UInt8).head?, ¬IsDigit b by simp)
      rw [List.append_nil, read, wrap32_of_range (by omega) (by omega)] at value
      have := Option.some.inj value
      omega
  · rintro ⟨small, whole⟩
    rw [wrap32_of_range (by omega) (by omega), intText_natCast] at cut
    have front : decimal n <+: d :=
      List.prefix_of_prefix_length_le (List.prefix_append _ _) cut whole
    obtain ⟨rest, rfl⟩ := front
    refine scanInt_decimal small fun b member => ?_
    -- The byte behind the digits is the carriage return.
    obtain ⟨more, behind⟩ := (List.prefix_append_right_inj _).mp cut
    cases rest with
    | nil => simp at member
    | cons c rest =>
      have same : c = 0x0D := by simpa using congrArg List.head? behind
      obtain rfl : b = c := by simpa using member.symm
      rw [same]
      exact fun digit => absurd digit.1 (by decide)

end Teetest
