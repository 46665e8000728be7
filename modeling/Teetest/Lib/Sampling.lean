import Mathlib.Tactic

/-! Signals that hold one value after another, and what samples at regular times see of them. -/

namespace Teetest.Lib

section

variable {α : Type*}

/-- Runs of values, written out. -/
def expand (runs : List (α × ℕ)) : List α := runs.flatMap fun run => List.replicate run.2 run.1

/-- The first run comes first. -/
theorem expand_cons (a : α) (n : ℕ) (runs : List (α × ℕ)) :
    expand ((a, n) :: runs) = List.replicate n a ++ expand runs := by
  rw [expand, List.flatMap_cons]
  rfl

/-- The value of a signal at a time: each value is held for its duration, and `rest` ever after. -/
def levelAt (rest : α) : List (α × ℕ) → ℕ → α
  | [], _ => rest
  | (a, d) :: signal, time => if time < d then a else levelAt rest signal (time - d)

/-- The values at the times `phase`, `phase + period`, and so on. -/
def sampled (rest : α) (signal : List (α × ℕ)) (period phase n : ℕ) : List α :=
  (List.range n).map fun k => levelAt rest signal (phase + period * k)

/-- A run of samples that is less than a period shorter or longer than a duration. -/
def Lasts (period : ℕ) (held : α × ℕ) (n : ℕ) : Prop :=
  held.2 < period * n + period ∧ period * n < held.2 + period

variable {rest : α} {period phase : ℕ}

/-- While the first value is held, every sample sees it. -/
theorem sampled_cons (a : α) {d c : ℕ} (signal : List (α × ℕ)) (within : period * c < d + (period - phase))
    (early : phase < period) (past : d ≤ phase + period * c) (n : ℕ) :
    sampled rest ((a, d) :: signal) period phase (c + n) =
      List.replicate c a ++ sampled rest signal period (phase + period * c - d) n := by
  unfold sampled
  rw [List.range_add, List.map_append, List.map_map]
  congr 1
  · -- The last of these samples is still in time.
    refine List.eq_replicate_iff.mpr ⟨by rw [List.length_map, List.length_range], ?_⟩
    intro v member
    obtain ⟨k, inside, rfl⟩ := List.mem_map.mp member
    have before : period * (k + 1) ≤ period * c := Nat.mul_le_mul_left _ (List.mem_range.mp inside)
    rw [Nat.mul_succ] at before
    rw [levelAt, if_pos (by omega)]
  · refine List.map_congr_left fun k _ => ?_
    rw [Function.comp_apply, levelAt, Nat.mul_add, if_neg (by omega)]
    congr 1
    omega

/--
The samples of a signal are a run for each value, of about its duration, and then its rest.

Together the runs last as long as the signal.
-/
theorem sampled_eq_expand (rest : α) (signal : List (α × ℕ)) (early : phase < period) :
    ∃ ns, List.Forall₂ (Lasts period) signal ns ∧
      phase + period * ns.sum < (signal.map Prod.snd).sum + period ∧
      ∀ m, sampled rest signal period phase (ns.sum + m) =
        expand ((signal.map Prod.fst).zip ns) ++ List.replicate m rest := by
  induction signal generalizing phase with
  | nil =>
    refine ⟨[], .nil, by simpa using early, fun m => ?_⟩
    rw [List.sum_nil, Nat.zero_add]
    refine List.eq_replicate_iff.mpr ⟨by rw [sampled, List.length_map, List.length_range], ?_⟩
    intro v member
    obtain ⟨k, -, rfl⟩ := List.mem_map.mp member
    rfl
  | cons held signal ih =>
    obtain ⟨a, d⟩ := held
    -- The number of samples before the end of the first value.
    obtain ⟨c, within, past⟩ : ∃ c, period * c < d + (period - phase) ∧ d ≤ phase + period * c := by
      have whole := Nat.div_add_mod (d + (period - 1 - phase)) period
      have part := Nat.mod_lt (d + (period - 1 - phase)) (by omega : 0 < period)
      exact ⟨(d + (period - 1 - phase)) / period, by omega, by omega⟩
    have next : phase + period * c - d < period := by omega
    obtain ⟨ns, lasts, total, runs⟩ := ih next
    refine ⟨c :: ns, .cons ⟨by dsimp only; omega, by dsimp only; omega⟩ lasts, ?_, fun m => ?_⟩
    · rw [List.map_cons, List.sum_cons, List.sum_cons, Nat.mul_add]
      dsimp only
      omega
    · rw [List.sum_cons, Nat.add_assoc, sampled_cons a signal within early past, runs, List.map_cons,
        List.zip_cons_cons, expand_cons, List.append_assoc]

end

end Teetest.Lib
