import Mathlib.Tactic

/-!
Delta queues: lists of entries that are waiting, each with its delay behind the entry in front of it.

A clock has to count down the delay of the first entry only.
-/

namespace Teetest.Lib

section

variable {ι : Type*} {x t : ι} {m d : ℕ} {xs : List (ι × ℕ)}

/-- An entry comes behind those that are not due later, and the next one then waits for it. -/
def deltaInsert (x : ι) : ℕ → List (ι × ℕ) → List (ι × ℕ)
  | m, [] => [(x, m)]
  | m, (y, d) :: ys => if m < d then (x, m) :: (y, d - m) :: ys else (y, d) :: deltaInsert x (m - d) ys

/-- The first entry waits longer. -/
def postpone (d : ℕ) : List (ι × ℕ) → List (ι × ℕ)
  | [] => []
  | (y, e) :: ys => (y, e + d) :: ys

/-- The number of entries that are due now. -/
def ripe : List (ι × ℕ) → ℕ
  | (_, 0) :: xs => ripe xs + 1
  | _ => 0

/-- Entries that are due now are at the front. -/
theorem ripe_le_length : ripe xs ≤ xs.length := by
  induction xs with
  | nil => exact le_refl _
  | cons e xs ih =>
    obtain ⟨y, d⟩ := e
    cases d with
    | zero => exact Nat.succ_le_succ ih
    | succ d => exact Nat.zero_le _

/-- Only the entry itself is added. -/
theorem map_fst_insert (x : ι) (m : ℕ) (xs : List (ι × ℕ)) :
    ((deltaInsert x m xs).map Prod.fst).Perm (x :: xs.map Prod.fst) := by
  induction xs generalizing m with
  | nil => exact List.Perm.refl _
  | cons e xs ih =>
    rw [deltaInsert]
    split
    · exact List.Perm.refl _
    · exact ((ih _).cons e.1).trans (List.Perm.swap x e.1 _)

/-- An entry that is not due now makes no other one due. -/
theorem ripe_insert (x : ι) (later : 0 < m) : ripe (deltaInsert x m xs) = ripe xs := by
  induction xs with
  | nil =>
    obtain ⟨m, rfl⟩ := Nat.exists_eq_succ_of_ne_zero later.ne'
    rfl
  | cons e xs ih =>
    obtain ⟨y, d⟩ := e
    cases d with
    | zero =>
      rw [deltaInsert, if_neg (Nat.not_lt_zero m), ripe, ripe, Nat.sub_zero, ih]
    | succ d =>
      rw [deltaInsert]
      split
      · obtain ⟨m, rfl⟩ := Nat.exists_eq_succ_of_ne_zero later.ne'
        rfl
      · rfl

@[simp] theorem map_fst_postpone (d : ℕ) (xs : List (ι × ℕ)) :
    (postpone d xs).map Prod.fst = xs.map Prod.fst := by
  cases xs <;> rfl

variable [DecidableEq ι]

/-- The time until an entry is due: the delays up to it, its own included. -/
def due : List (ι × ℕ) → ι → Option ℕ
  | [], _ => none
  | (x, d) :: xs, t => if x = t then some d else (due xs t).map (d + ·)

/-- An entry is taken out, and the next one has its delay too. -/
def deltaRemove (x : ι) : List (ι × ℕ) → List (ι × ℕ)
  | [] => []
  | (y, d) :: ys => if y = x then postpone d ys else (y, d) :: deltaRemove x ys

/-- Exactly the entries of the queue are due at some time. -/
theorem due_eq_none : due xs t = none ↔ t ∉ xs.map Prod.fst := by
  induction xs with
  | nil => simp [due]
  | cons e xs ih =>
    obtain ⟨y, d⟩ := e
    rw [due, List.map_cons, List.mem_cons, not_or]
    split
    · next here => simp [here]
    · next other => simp [ih, Ne.symm other]

/-- What is due at some time is in the queue. -/
theorem mem_of_due (entry : due xs t = some d) : t ∈ xs.map Prod.fst := by
  by_contra absent
  rw [due_eq_none.mpr absent] at entry
  cases entry

/-- An entry that is inserted is due at its own time. -/
theorem due_insert_self (fresh : x ∉ xs.map Prod.fst) (m : ℕ) :
    due (deltaInsert x m xs) x = some m := by
  induction xs generalizing m with
  | nil => exact if_pos rfl
  | cons e xs ih =>
    obtain ⟨y, d⟩ := e
    have apart : y ≠ x := fun same => fresh (by simp [same])
    have later : x ∉ xs.map Prod.fst := fun member => fresh (List.mem_cons_of_mem y member)
    rw [deltaInsert]
    split
    · exact if_pos rfl
    · next behind =>
      rw [due, if_neg apart, ih later, Option.map_some]
      congr 1
      omega

/-- The others are due when they were. -/
theorem due_insert_of_ne (other : x ≠ t) (m : ℕ) : due (deltaInsert x m xs) t = due xs t := by
  induction xs generalizing m with
  | nil => exact if_neg other
  | cons e xs ih =>
    obtain ⟨y, d⟩ := e
    rw [deltaInsert]
    split
    · next ahead =>
      -- The entry behind it waits for it, and so much less for itself.
      rw [due, if_neg other, due, due]
      split
      · rw [Option.map_some]
        congr 1
        omega
      · rw [Option.map_map]
        congr 1
        funext n
        simp only [Function.comp_apply]
        omega
    · rw [due, due, ih]

/-- With the first entry, all of them wait longer. -/
theorem due_postpone (d : ℕ) (xs : List (ι × ℕ)) (t : ι) :
    due (postpone d xs) t = (due xs t).map (d + ·) := by
  cases xs with
  | nil => rfl
  | cons e xs =>
    obtain ⟨y, e⟩ := e
    rw [postpone, due, due]
    split
    · rw [Option.map_some, Nat.add_comm]
    · rw [Option.map_map]
      congr 1
      funext n
      simp only [Function.comp_apply]
      omega

/-- Without an entry, the others are due when they were. -/
theorem due_remove_of_ne (other : x ≠ t) (xs : List (ι × ℕ)) : due (deltaRemove x xs) t = due xs t := by
  induction xs with
  | nil => rfl
  | cons e xs ih =>
    obtain ⟨y, d⟩ := e
    rw [deltaRemove]
    split
    · next here => rw [due_postpone, due, if_neg (here ▸ other)]
    · rw [due, due, ih]

/-- Only the entry is taken out. -/
theorem map_fst_remove (x : ι) (xs : List (ι × ℕ)) :
    (deltaRemove x xs).map Prod.fst = (xs.map Prod.fst).erase x := by
  induction xs with
  | nil => rfl
  | cons e xs ih =>
    rw [deltaRemove, List.map_cons, List.erase_cons]
    split
    · next here => rw [map_fst_postpone, if_pos (by simpa using here)]
    · next other => rw [List.map_cons, ih, if_neg (by simpa using other)]

/-- One step of the clock for the first entry is one step for all. -/
theorem due_tick (x : ι) (d : ℕ) (xs : List (ι × ℕ)) (t : ι) :
    due ((x, d + 1) :: xs) t = (due ((x, d) :: xs) t).map (· + 1) := by
  rw [due, due]
  split
  · rfl
  · rw [Option.map_map]
    congr 1
    funext n
    simp only [Function.comp_apply]
    omega

/-- An entry is taken out where it is. -/
theorem deltaRemove_append {front rest : List (ι × ℕ)} (fresh : x ∉ front.map Prod.fst) :
    deltaRemove x (front ++ (x, d) :: rest) = front ++ postpone d rest := by
  induction front with
  | nil => exact if_pos rfl
  | cons e front ih =>
    rw [List.map_cons, List.mem_cons, not_or] at fresh
    obtain ⟨other, later⟩ := fresh
    rw [List.cons_append, deltaRemove, if_neg (Ne.symm other), ih later, List.cons_append]

/-- An entry is not due before its own delay is over. -/
theorem le_due (distinct : (xs.map Prod.fst).Nodup) (member : (x, d) ∈ xs) :
    ∃ n, due xs x = some n ∧ d ≤ n := by
  induction xs with
  | nil => exact absurd member List.not_mem_nil
  | cons e xs ih =>
    obtain ⟨y, m⟩ := e
    obtain ⟨fresh, later⟩ := List.nodup_cons.mp distinct
    rcases List.mem_cons.mp member with here | member
    · obtain ⟨rfl, rfl⟩ := Prod.mk.injEq .. ▸ here
      exact ⟨d, if_pos rfl, le_refl _⟩
    · obtain ⟨n, entry, le⟩ := ih later member
      have inside : x ∈ xs.map Prod.fst := List.mem_map_of_mem member
      have other : y ≠ x := fun same => fresh (same ▸ inside)
      exact ⟨m + n, by rw [due, if_neg other, entry, Option.map_some], by omega⟩

end

end Teetest.Lib
