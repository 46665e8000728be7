import Mathlib.Tactic

/-! Fields of byte strings: little-endian integers and C strings. -/

namespace Teetest.Lib

/-- The four bytes of a 32-bit integer, lowest byte first and in two's complement. -/
def le32 (z : Int) : List UInt8 :=
  let n := (z % 2 ^ 32).toNat
  [UInt8.ofNat n, UInt8.ofNat (n / 2 ^ 8), UInt8.ofNat (n / 2 ^ 16), UInt8.ofNat (n / 2 ^ 24)]

/-- The two bytes of a 16-bit integer, lowest byte first. -/
def le16 (n : Nat) : List UInt8 := [UInt8.ofNat n, UInt8.ofNat (n / 2 ^ 8)]

/-- The unsigned 32-bit integer at the head of a byte string. -/
def u32 : List UInt8 → Nat
  | a :: b :: c :: d :: _ =>
    a.toNat + 2 ^ 8 * b.toNat + 2 ^ 16 * c.toNat + 2 ^ 24 * d.toNat
  | _ => 0

/-- The unsigned 16-bit integer at the head of a byte string. -/
def u16 : List UInt8 → Nat
  | a :: b :: _ => a.toNat + 2 ^ 8 * b.toNat
  | _ => 0

/-- The value an integer takes when it is stored in a signed 32-bit variable. -/
def wrap32 (z : Int) : Int := z % 2 ^ 32 - 2 ^ 32 * (z % 2 ^ 32 / 2 ^ 31)

/-- The signed 32-bit integer at the head of a byte string. -/
def i32 (bs : List UInt8) : Int := wrap32 (u32 bs)

/-- The characters of a byte string up to its first NUL, as C functions read them. -/
def cstr (bs : List UInt8) : List UInt8 := bs.takeWhile (· ≠ 0)

/-- The bytes of an ASCII text. -/
def ascii (s : String) : List UInt8 := s.toList.map fun c => UInt8.ofNat c.toNat

/-- The bytes of a text stand behind those of the text in front of it. -/
theorem ascii_append (s t : String) : ascii (s ++ t) = ascii s ++ ascii t := by
  rw [ascii, String.toList_append, List.map_append]
  rfl

@[simp] theorem le32_length (z : Int) : (le32 z).length = 4 := rfl

@[simp] theorem le16_length (n : Nat) : (le16 n).length = 2 := rfl

/-- Reading back an unsigned field yields the value modulo 2^32. -/
theorem u32_le32 (z : Int) (rest : List UInt8) :
    u32 (le32 z ++ rest) = (z % 2 ^ 32).toNat := by
  -- The four bytes are the base-256 digits of a number below 2^32.
  have below : (z % 2 ^ 32).toNat < 2 ^ 32 := by omega
  simp only [le32, u32, List.cons_append, UInt8.toNat_ofNat']
  omega

/-- What a signed variable holds is in its range. -/
theorem wrap32_range (z : Int) : -2 ^ 31 ≤ wrap32 z ∧ wrap32 z < 2 ^ 31 := by
  unfold wrap32
  omega

/-- A value in the signed range survives being stored in a signed variable. -/
theorem wrap32_of_range {z : Int} (low : -2 ^ 31 ≤ z) (high : z < 2 ^ 31) : wrap32 z = z := by
  unfold wrap32
  omega

/-- Only the residue modulo 2^32 matters to a signed variable. -/
theorem wrap32_emod (z : Int) : wrap32 (z % 2 ^ 32) = wrap32 z := by
  simp [wrap32]

/-- What is added to a signed variable may be added before it is stored there. -/
theorem wrap32_wrap32_add (a b : Int) : wrap32 (wrap32 a + b) = wrap32 (a + b) := by
  unfold wrap32
  omega

/-- Reading back a signed field yields what a signed variable holds of the value. -/
theorem i32_le32_wrap (z : Int) (rest : List UInt8) : i32 (le32 z ++ rest) = wrap32 z := by
  have positive : 0 ≤ z % 2 ^ 32 := Int.emod_nonneg _ (by decide)
  rw [i32, u32_le32, Int.toNat_of_nonneg positive, wrap32_emod]

/-- Reading back a signed field yields the value that was written. -/
theorem i32_le32 {z : Int} (low : -2 ^ 31 ≤ z) (high : z < 2 ^ 31) (rest : List UInt8) :
    i32 (le32 z ++ rest) = z := by
  rw [i32_le32_wrap, wrap32_of_range low high]

/-- Only the residue modulo 2^32 is written. -/
theorem le32_emod (z : Int) : le32 (z % 2 ^ 32) = le32 z := by
  simp [le32]

/-- A field that is read and written again is the same field. -/
theorem le32_i32 {bs : List UInt8} (four : bs.length = 4) : le32 (i32 bs) = bs := by
  obtain ⟨a, b, c, d, rfl⟩ : ∃ a b c d, bs = [a, b, c, d] := by
    match bs, four with
    | [a, b, c, d], _ => exact ⟨a, b, c, d, rfl⟩
  have range (x : UInt8) : x.toNat < 2 ^ 8 := x.toNat_lt
  have := range a
  have := range b
  have := range c
  have := range d
  -- The bytes are the digits of the value, whatever its sign.
  simp only [i32, wrap32, u32, le32, List.cons.injEq, and_true, ← UInt8.toNat_inj,
    UInt8.toNat_ofNat']
  refine ⟨?_, ?_, ?_, ?_⟩ <;> omega

/-- A 16-bit field that is read and written again is the same field. -/
theorem le16_u16 {bs : List UInt8} (two : bs.length = 2) : le16 (u16 bs) = bs := by
  obtain ⟨a, b, rfl⟩ : ∃ a b, bs = [a, b] := by
    match bs, two with
    | [a, b], _ => exact ⟨a, b, rfl⟩
  have := a.toNat_lt
  have := b.toNat_lt
  simp only [u16, le16, List.cons.injEq, and_true, ← UInt8.toNat_inj, UInt8.toNat_ofNat']
  refine ⟨?_, ?_⟩ <;> omega

/-- Reading back a 16-bit field yields the value modulo 2^16. -/
theorem u16_le16 (n : Nat) (rest : List UInt8) : u16 (le16 n ++ rest) = n % 2 ^ 16 := by
  simp only [le16, u16, List.cons_append, UInt8.toNat_ofNat']
  omega

/-- A field lies in the first four bytes. -/
theorem u32_take (bs : List UInt8) : u32 (bs.take 4) = u32 bs := by
  match bs with
  | [] | [_] | [_, _] | [_, _, _] | _ :: _ :: _ :: _ :: _ => rfl

/-- A 16-bit field lies in the first two bytes. -/
theorem u16_take (bs : List UInt8) : u16 (bs.take 2) = u16 bs := by
  match bs with
  | [] | [_] | _ :: _ :: _ => rfl

/-- A signed field lies in the first four bytes. -/
theorem i32_take (bs : List UInt8) : i32 (bs.take 4) = i32 bs := by
  rw [i32, i32, u32_take]

/-- A C string goes on through a text without NUL. -/
theorem cstr_append {s : List UInt8} (text : 0 ∉ s) (rest : List UInt8) :
    cstr (s ++ rest) = s ++ cstr rest := by
  rw [cstr, List.takeWhile_append_of_pos, cstr]
  intro b member
  simp only [ne_eq, decide_not, Bool.not_eq_eq_eq_not, Bool.not_true, decide_eq_false_iff_not]
  exact fun zero => text (zero ▸ member)

/-- A text without NUL is its own C string. -/
theorem cstr_of_text {s : List UInt8} (text : 0 ∉ s) : cstr s = s := by
  simpa [cstr] using cstr_append text []

/-- A C string ends at the first NUL. -/
theorem cstr_closed {s : List UInt8} (text : 0 ∉ s) (rest : List UInt8) :
    cstr (s ++ 0 :: rest) = s := by
  rw [cstr_append text]
  simp [cstr]

/-- What is behind a byte string with a NUL does not change its C string. -/
theorem cstr_append_of_mem {s : List UInt8} (closed : 0 ∈ s) (rest : List UInt8) :
    cstr (s ++ rest) = cstr s := by
  induction s with
  | nil => simp at closed
  | cons b s ih =>
    by_cases zero : b = 0
    · simp [cstr, zero]
    · have later : 0 ∈ s := by simpa [Ne.symm zero] using closed
      simpa [cstr, zero] using ih later

/-- A C string is not longer than the bytes it is read from. -/
theorem cstr_length_le (bs : List UInt8) : (cstr bs).length ≤ bs.length :=
  (List.takeWhile_prefix _).length_le

end Teetest.Lib
