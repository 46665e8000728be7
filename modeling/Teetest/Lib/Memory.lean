import Mathlib.Tactic

/-! Byte memory: an array in memory, read and written in ranges. -/

namespace Teetest.Lib

/-- A byte array, indexed from its start. -/
abbrev Mem := Nat → UInt8

/-- The bytes of a range. -/
def Mem.read (m : Mem) (off n : Nat) : List UInt8 := (List.range n).map fun i => m (off + i)

/-- The memory after a string of bytes was copied to an offset. -/
def Mem.write (m : Mem) (off : Nat) (bs : List UInt8) : Mem := fun i =>
  if off ≤ i then bs[i - off]?.getD (m i) else m i

@[simp] theorem Mem.read_length (m : Mem) (off n : Nat) : (m.read off n).length = n := by
  simp [Mem.read]

theorem Mem.getElem?_read (m : Mem) (off n i : Nat) :
    (m.read off n)[i]? = if i < n then some (m (off + i)) else none := by
  by_cases inside : i < n <;> simp [Mem.read, inside]

/-- A range is its first part followed by its second. -/
theorem Mem.read_append (m : Mem) (off a b : Nat) :
    m.read off (a + b) = m.read off a ++ m.read (off + a) b := by
  simp [Mem.read, List.range_add, Nat.add_assoc]

/-- The first bytes of a range are a shorter range. -/
theorem Mem.take_read (m : Mem) (off : Nat) {k n : Nat} (short : k ≤ n) :
    (m.read off n).take k = m.read off k := by
  obtain ⟨rest, rfl⟩ := Nat.exists_eq_add_of_le short
  rw [Mem.read_append, List.take_left' (by simp)]

/-- The last bytes of a range are a range that starts later. -/
theorem Mem.drop_read (m : Mem) (off k n : Nat) :
    (m.read off n).drop k = m.read (off + k) (n - k) := by
  rcases Nat.le_total k n with short | long
  · obtain ⟨rest, rfl⟩ := Nat.exists_eq_add_of_le short
    rw [Mem.read_append, List.drop_left' (by simp)]
    simp
  · rw [List.drop_eq_nil_of_le (by simpa using long)]
    simp [Mem.read, Nat.sub_eq_zero_of_le long]

/-- A field inside a range is a piece of what the range reads. -/
theorem Mem.read_field (m : Mem) {off k n : Nat} (inside : off + k ≤ n) :
    m.read off k = ((m.read 0 n).drop off).take k := by
  rw [Mem.drop_read, Nat.zero_add, Mem.take_read _ _ (by omega)]

/-- What was written is read back. -/
theorem Mem.read_write_same (m : Mem) (off : Nat) (bs : List UInt8) :
    (m.write off bs).read off bs.length = bs := by
  -- Every index of the range lies inside the copied string.
  apply List.ext_getElem?
  intro i
  rw [Mem.getElem?_read]
  by_cases inside : i < bs.length
  · simp [Mem.write, inside]
  · rw [if_neg inside, List.getElem?_eq_none (by omega)]

/-- A write changes nothing outside its range. -/
theorem Mem.write_outside (m : Mem) {off i : Nat} {bs : List UInt8}
    (outside : i < off ∨ off + bs.length ≤ i) : m.write off bs i = m i := by
  unfold Mem.write
  split
  · rw [List.getElem?_eq_none (by omega), Option.getD_none]
  · rfl

/-- A range that ends before the copied string, or starts behind it, keeps its bytes. -/
theorem Mem.read_write_disjoint (m : Mem) {off : Nat} {bs : List UInt8} {at_ n : Nat}
    (apart : at_ + n ≤ off ∨ off + bs.length ≤ at_) :
    (m.write off bs).read at_ n = m.read at_ n := by
  apply List.map_congr_left
  intro i inside
  have inside : i < n := List.mem_range.mp inside
  simp only [Mem.write]
  split
  · rw [List.getElem?_eq_none (by omega), Option.getD_none]
  · rfl

/-- Copying a string behind bytes already in place leaves the two in order. -/
theorem Mem.read_write_behind (m : Mem) (off k : Nat) (bs : List UInt8) :
    (m.write (off + k) bs).read off (k + bs.length) = m.read off k ++ bs := by
  rw [Mem.read_append, Mem.read_write_same, Mem.read_write_disjoint m (.inl (le_refl _))]

end Teetest.Lib
