import Teetest.Src.MotorControl

/-!
What the regulator returns, call by call.

The integral follows the errors of the calls, but the proportional term takes the error of the call before.
-/

namespace Teetest

section

variable {K : Type}

/-- The arguments of a call of `u`. -/
structure PidCall (K : Type) where
  error : K
  speed : K
  ms : UInt32

variable [Field K] [LinearOrder K]

/-- The regulator after some calls. -/
def PID.run (p : PID K) (calls : List (PidCall K)) : PID K :=
  calls.foldl (fun p c => p.u c.error c.speed c.ms) p

/-- The calls from the last one with a small error on, or all calls if there is none. -/
def sinceSmall (small : K) : List (PidCall K) → List (PidCall K)
  | [] => []
  | c :: calls => if ∃ d ∈ calls, |d.error| ≤ small then sinceSmall small calls else c :: calls

/-- The trapezoidal integral of the error over calls, without the steps to an error that is not medium. -/
def errorIntegral (medium : K) : List (PidCall K) → K
  | c :: d :: calls =>
    (if |d.error| ≤ medium then
        0.5 * (c.error + d.error) * (((d.ms.toNat - c.ms.toNat : ℕ) : K) / 1000.0)
      else 0) + errorIntegral medium (d :: calls)
  | _ => 0

/-- The error of the last call, or zero before the first. -/
def lastError (calls : List (PidCall K)) : K := (calls.getLast?.map PidCall.error).getD 0

/-- The value that the law of the regulator gives for the last of some calls. -/
def PID.law (p : PID K) (past : List (PidCall K)) (c : PidCall K) : K :=
  if |c.error| ≤ p.smallError then 0
  else
    p.P * c.error + p.I * errorIntegral p.mediumError (sinceSmall p.smallError (past ++ [c])) -
      p.D * c.speed

/-- The times of calls are positive and do not decrease. -/
structure Timed (calls : List (PidCall K)) : Prop where
  positive : ∀ c ∈ calls, 0 < c.ms
  order : calls.IsChain fun c d => c.ms ≤ d.ms

omit [Field K] [LinearOrder K] in
/-- The first of some timed calls are timed. -/
theorem Timed.upTo {calls past : List (PidCall K)} (timed : Timed calls) (upTo : past <+: calls) :
    Timed past where
  positive c member := timed.positive c (upTo.subset member)
  order := timed.order.prefix upTo

/-- One more call either is the one with the last small error, or it comes behind that. -/
theorem sinceSmall_concat (small : K) (calls : List (PidCall K)) (c : PidCall K) :
    sinceSmall small (calls ++ [c]) =
      if |c.error| ≤ small then [c] else sinceSmall small calls ++ [c] := by
  induction calls with
  | nil => simp [sinceSmall]
  | cons d calls ih =>
    rw [List.cons_append, sinceSmall, ih, sinceSmall]
    by_cases last : |c.error| ≤ small
    · -- If it is the one with the last small error, all earlier calls go.
      rw [if_pos last, if_pos last]
      exact if_pos ⟨c, by simp, last⟩
    · -- A small error is one of the earlier calls.
      have same : (∃ e ∈ calls ++ [c], |e.error| ≤ small) ↔ ∃ e ∈ calls, |e.error| ≤ small := by
        simp [or_and_right, exists_or, last]
      rw [if_neg last]
      simp only [same]
      split_ifs <;> simp

/-- The last calls end with the last call. -/
theorem sinceSmall_getLast? (small : K) (calls : List (PidCall K)) :
    (sinceSmall small calls).getLast? = calls.getLast? := by
  induction calls using List.reverseRecOn with
  | nil => rfl
  | append_singleton calls c _ =>
    rw [sinceSmall_concat]
    split_ifs <;> simp

/-- One more call adds one step to the integral. -/
theorem errorIntegral_concat (medium : K) {calls : List (PidCall K)} {c : PidCall K}
    (last : calls.getLast? = some c) (d : PidCall K) :
    errorIntegral medium (calls ++ [d]) = errorIntegral medium calls +
      if |d.error| ≤ medium then
        0.5 * (c.error + d.error) * (((d.ms.toNat - c.ms.toNat : ℕ) : K) / 1000.0)
      else 0 := by
  -- The step is found at the end of the list.
  induction calls with
  | nil => simp at last
  | cons e calls ih =>
    cases calls with
    | nil =>
      obtain rfl : e = c := by simpa using last
      simp [errorIntegral]
    | cons f calls =>
      have later := ih (by simpa using last)
      simp only [List.cons_append, errorIntegral] at later ⊢
      rw [later, add_assoc]

variable {p : PID K} {calls past : List (PidCall K)} {c : PidCall K}

/-- A call leaves the constants of the regulator alone. -/
theorem PID.u_constants (e v : K) (ms : UInt32) :
    (p.u e v ms).P = p.P ∧ (p.u e v ms).I = p.I ∧ (p.u e v ms).D = p.D ∧
      (p.u e v ms).smallError = p.smallError ∧ (p.u e v ms).mediumError = p.mediumError := by
  -- In every branch only the integral, the output, the error and the time change.
  unfold u
  dsimp only
  split_ifs <;> exact ⟨rfl, rfl, rfl, rfl, rfl⟩

/-- The members of the regulator after some calls. -/
structure PID.Follows (p : PID K) (calls : List (PidCall K)) (q : PID K) : Prop where
  constants : q.P = p.P ∧ q.I = p.I ∧ q.D = p.D ∧ q.smallError = p.smallError ∧
    q.mediumError = p.mediumError
  error : q.error = lastError calls
  ms : q.ms = (calls.getLast?.map PidCall.ms).getD 0
  eInt : calls ≠ [] → q.eInt = errorIntegral p.mediumError (sinceSmall p.smallError calls)

/-- The integral of the errors is what a call makes of the accumulator. -/
theorem PID.Follows.eInt_u {q : PID K} (follows : p.Follows past q) (timed : Timed (past ++ [c])) :
    (q.u c.error c.speed c.ms).eInt =
      errorIntegral p.mediumError (sinceSmall p.smallError (past ++ [c])) := by
  obtain ⟨-, -, -, small_eq, medium_eq⟩ := follows.constants
  rw [sinceSmall_concat]
  unfold u
  dsimp only
  rw [small_eq, medium_eq]
  by_cases small : |c.error| ≤ p.smallError
  · -- A small error clears the accumulator, and the integral begins anew.
    rw [if_pos small, if_pos small]
    rfl
  rw [if_neg small, if_neg small]
  cases last : past.getLast? with
  | none =>
    -- The first call clears the accumulator too.
    have first : q.ms = 0 := by rw [follows.ms, last]; rfl
    obtain rfl := List.getLast?_eq_none_iff.mp last
    rw [if_pos first]
    rfl
  | some d =>
    -- The members still hold the error and the time of the call before.
    have stamp : q.ms = d.ms := by rw [follows.ms, last]; rfl
    have error : q.error = d.error := by rw [follows.error, lastError, last]; rfl
    have some_ : past ≠ [] := by rintro rfl; simp at last
    have positive : d.ms ≠ 0 := by
      have above := timed.positive d (by simp [List.mem_of_getLast? last])
      intro zero
      rw [zero] at above
      exact absurd above (by decide)
    have order : d.ms ≤ c.ms := by
      have chain := timed.order
      rw [List.isChain_append] at chain
      exact chain.2.2 d last c rfl
    -- The times are ordered, so their difference does not wrap.
    have step : (c.ms - d.ms).toNat = c.ms.toNat - d.ms.toNat := UInt32.toNat_sub_of_le _ _ order
    rw [stamp, if_neg positive, errorIntegral_concat p.mediumError
      ((sinceSmall_getLast? _ _).trans last) c, ← follows.eInt some_, error, step]
    -- A medium error adds one trapezoid, and a large one nothing.
    split_ifs
    · show q.eInt + _ = q.eInt + _
      ring
    · exact (add_zero _).symm

/-- The members of the regulator follow the calls. -/
theorem PID.run_follows (fresh : p.ms = 0) (start : p.error = 0) (timed : Timed calls) :
    p.Follows calls (p.run calls) := by
  -- The history grows at its end, by the call that is made.
  induction calls using List.reverseRecOn with
  | nil => exact ⟨⟨rfl, rfl, rfl, rfl, rfl⟩, start, fresh, fun none => absurd rfl none⟩
  | append_singleton past c ih =>
    have follows := ih (timed.upTo (List.prefix_append past [c]))
    obtain ⟨P, I, D, small, medium⟩ := follows.constants
    obtain ⟨P', I', D', small', medium'⟩ := @PID.u_constants K _ _ (p.run past) c.error c.speed c.ms
    have members : p.run (past ++ [c]) = (p.run past).u c.error c.speed c.ms := List.foldl_concat ..
    rw [members]
    -- The call stores its error and its time.
    refine ⟨⟨P'.trans P, I'.trans I, D'.trans D, small'.trans small, medium'.trans medium⟩, ?_, ?_,
      fun _ => follows.eInt_u timed⟩
    · rw [lastError, List.getLast?_concat]
      rfl
    · rw [List.getLast?_concat]
      rfl

/-- What a call returns: the proportional term takes the error of the call before. -/
theorem PID.ret_u {q : PID K} (follows : p.Follows past q) (timed : Timed (past ++ [c])) :
    (q.u c.error c.speed c.ms).ret =
      if |c.error| ≤ p.smallError then 0
      else
        p.P * lastError past + p.I * errorIntegral p.mediumError (sinceSmall p.smallError (past ++ [c])) -
          p.D * c.speed := by
  rw [← follows.eInt_u timed]
  obtain ⟨P, I, D, small, -⟩ := follows.constants
  rw [← follows.error, ← P, ← I, ← D, ← small, mul_comm q.D]
  -- Every branch returns what it has made of the accumulator.
  unfold u
  dsimp only
  split_ifs <;> rfl

/--
A call returns what the law of the regulator says exactly if its error is small, or the proportional
term does not tell it from the error of the call before.
-/
theorem pid_law_iff (fresh : p.ms = 0) (start : p.error = 0) (timed : Timed calls) :
    ∀ past c, past ++ [c] <+: calls →
      ((p.run (past ++ [c])).ret = p.law past c ↔
        |c.error| ≤ p.smallError ∨ p.P = 0 ∨ c.error = lastError past) := by
  intro past c upTo
  have timed' : Timed (past ++ [c]) := timed.upTo upTo
  -- What holds of all calls holds of those up to this one.
  have earlier : Timed past := timed'.upTo (List.prefix_append past [c])
  have members : p.run (past ++ [c]) = (p.run past).u c.error c.speed c.ms := List.foldl_concat ..
  rw [members, PID.ret_u (PID.run_follows fresh start earlier) timed', PID.law]
  by_cases small : |c.error| ≤ p.smallError
  · simp [small]
  · -- The integral and the speed are the same on both sides.
    rw [if_neg small, if_neg small, sub_left_inj, add_left_inj, mul_eq_mul_left_iff]
    have swap : lastError past = c.error ∨ p.P = 0 ↔ p.P = 0 ∨ c.error = lastError past := by
      rw [or_comm, eq_comm (a := lastError past)]
    rw [swap]
    simp [small]

end

/-- A step of the target by one radian, seen by two calls. -/
def stepCalls : List (PidCall ℚ) := [⟨1, 0, 10⟩, ⟨1, 0, 12⟩]

/-- The second call with the same error returns what the law says. -/
theorem pid_law_second :
    ((PID.init (355 / 113)).run stepCalls).ret = (PID.init (355 / 113)).law [⟨1, 0, 10⟩] ⟨1, 0, 12⟩ :=
  ((pid_law_iff (p := PID.init (355 / 113)) rfl rfl
    (⟨by decide, by simp [stepCalls]⟩ : Timed stepCalls) [⟨1, 0, 10⟩] ⟨1, 0, 12⟩ (by simp [stepCalls])).mpr
      (.inr (.inr rfl)))

/-- The first call with an error of one radian does not answer it. -/
theorem pid_first_call : ¬ ∀ calls : List (PidCall ℚ), Timed calls → ∀ past c, past ++ [c] <+: calls →
    ((PID.init (355 / 113)).run (past ++ [c])).ret = (PID.init (355 / 113)).law past c := by
  intro all
  have first := all [⟨1, 0, 10⟩] ⟨by decide, by simp⟩ [] ⟨1, 0, 10⟩ (by simp)
  -- The members start with the error zero.
  revert first
  norm_num [PID.run, PID.u, PID.law, PID.init, encTicks2Radians, encNumber, sinceSmall, errorIntegral]

end Teetest
