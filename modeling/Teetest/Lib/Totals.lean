import Mathlib

/-!
The running totals of a list.

A counter to which the numbers of a list are added one after the other takes these values.
-/

namespace Teetest.Lib

section

variable {M N : Type*} [AddMonoid M] [AddMonoid N]

/-- The first total is that of nothing. -/
theorem partialSums_eq_cons (l : List M) : l.partialSums = 0 :: l.partialSums.tail := by
  cases l with
  | nil => simp
  | cons a l => rw [List.partialSums_cons, List.tail_cons]

/-- Behind the first number, the totals are those of the rest and that number. -/
theorem tail_partialSums_cons (a : M) (l : List M) :
    (a :: l).partialSums.tail = a :: l.partialSums.tail.map (a + ·) := by
  rw [List.partialSums_cons, List.tail_cons, partialSums_eq_cons l, List.map_cons, add_zero,
    List.tail_cons]

/-- Images add up to the images of the totals. -/
theorem partialSums_map (f : M →+ N) (l : List M) :
    (l.map f).partialSums = l.partialSums.map f := by
  induction l with
  | nil => simp
  | cons a l ih =>
    rw [List.map_cons, List.partialSums_cons, List.partialSums_cons, ih, List.map_cons, map_zero,
      List.map_map, List.map_map]
    -- The first number is added before or behind the image.
    congr 1
    exact List.map_congr_left fun t _ => (map_add f a t).symm

/-- The numbers up to one of them add up to a total. -/
theorem sum_take_mem_partialSums {l : List M} {k : Nat} (within : k < l.length) :
    (l.take (k + 1)).sum ∈ l.partialSums.tail := by
  refine List.mem_of_getElem? (i := k) ?_
  -- The total of nothing is in front of them.
  rw [List.getElem?_tail, List.getElem?_partialSums, if_pos (Nat.succ_le_of_lt within)]

/-- Where there is a number, the sum is the last total. -/
theorem sum_mem_partialSums {l : List M} (some_ : l ≠ []) : l.sum ∈ l.partialSums.tail := by
  have positive := List.length_pos_iff.mpr some_
  have last := sum_take_mem_partialSums (l := l) (k := l.length - 1) (by omega)
  rwa [Nat.sub_add_cancel positive, List.take_length] at last

end

section

variable {M : Type*} [AddCommMonoid M] [PartialOrder M] [CanonicallyOrderedAdd M] [IsOrderedAddMonoid M]

/-- No total is above the sum. -/
theorem le_sum_of_mem_partialSums {t : M} {l : List M} (mem : t ∈ l.partialSums) : t ≤ l.sum := by
  induction l generalizing t with
  | nil => simpa using mem
  | cons a l ih =>
    rw [List.partialSums_cons, List.mem_cons, List.mem_map] at mem
    rw [List.sum_cons]
    rcases mem with rfl | ⟨t, later, rfl⟩
    · -- The total of nothing.
      exact zero_le
    · exact add_le_add_right (ih later) a

/-- The totals never fall. -/
theorem partialSums_pairwise (l : List M) : l.partialSums.Pairwise (· ≤ ·) := by
  induction l with
  | nil => simp
  | cons a l ih =>
    rw [List.partialSums_cons, List.pairwise_cons]
    refine ⟨fun _ _ => zero_le, List.pairwise_map.mpr (ih.imp fun le => ?_)⟩
    exact add_le_add_right le a

end

end Teetest.Lib
