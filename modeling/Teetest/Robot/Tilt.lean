import Teetest.Src.ImuAlg

/-!
The estimate of the tilt, which a complementary filter keeps.

A hundredth of every new estimate is measured, so what the gyroscope adds is forgotten.
-/

namespace Teetest

section

variable {K : Type} [Field K]

/-- Every call leaves its time behind. -/
theorem NaiveImuAttitude.niUpdate_timestamp (n : NaiveImuAttitude K) (a w : K) (time : ℕ) :
    (n.niUpdate a w time).timestamp = time := by
  -- The first call, a roll-over and a normal step all take the time over.
  unfold niUpdate
  split_ifs <;> rfl

/-- The arguments of a call of `niUpdate`. -/
structure TiltCall (K : Type) where
  a : K
  w : K
  time : ℕ

/-- The filter after a reset and some calls. -/
def NaiveImuAttitude.run (calls : List (TiltCall K)) : NaiveImuAttitude K :=
  calls.foldl (fun n c => n.niUpdate c.a c.w c.time) .niReset

variable [LinearOrder K]

/-- From one call to the next, time goes backwards or advances by at most so many milliseconds. -/
def TiltCall.Near (T : K) (c d : TiltCall K) : Prop :=
  d.time < c.time ∨ ((d.time - c.time : ℕ) : K) ≤ T

/-- The fixed point of the filter. -/
def tiltBound (A W T : K) : K := A + 0.099 * W * T

variable [IsStrictOrderedRing K] {A W T : K} {n : NaiveImuAttitude K}

/-- The fixed point without a decimal fraction. -/
theorem tiltBound_eq : tiltBound A W T = A + 99 * W * T / 1000 := by
  unfold tiltBound
  ring

/-- A normal step of the filter does not leave its bound. -/
theorem filter_le {angle a w dt : K} (estimate : |angle| ≤ tiltBound A W T) (measured : |a| ≤ A)
    (turned : |w * dt| ≤ W * T / 1000) :
    |99 / 100 * (angle + w * dt) + 1 / 100 * a| ≤ tiltBound A W T := by
  -- The bound is the point at which what is forgotten makes up for what is added.
  unfold tiltBound at estimate ⊢
  rw [abs_le] at estimate measured turned ⊢
  constructor
  · linarith only [estimate.1, measured.1, turned.1]
  · linarith only [estimate.2, measured.2, turned.2]

/-- The bound is one of measured angles too. -/
theorem le_tiltBound (W0 : 0 ≤ W) (T0 : 0 ≤ T) : A ≤ tiltBound A W T := by
  -- What the gyroscope adds is not negative.
  have gyro : 0 ≤ 99 * W * T / 1000 := by positivity
  unfold tiltBound
  linarith only [gyro]

/-- What the gyroscope adds in a step of bounded length. -/
theorem turn_le {w : K} {d : ℕ} (slow : |w| ≤ W) (short : (d : K) ≤ T) :
    |w * ((d : K) * (1 / 1000))| ≤ W * T / 1000 := by
  have length : (0 : K) ≤ d := Nat.cast_nonneg d
  -- Both factors are bounded.
  have product : |w| * d ≤ W * T := mul_le_mul slow short length ((abs_nonneg w).trans slow)
  have positive : 0 ≤ (d : K) * (1 / 1000) := by positivity
  -- The milliseconds count as seconds.
  rw [abs_mul, abs_of_nonneg positive]
  linarith only [product]

/-- A call keeps the estimate within its bound, if time does not advance too far. -/
theorem NaiveImuAttitude.niUpdate_le (W0 : 0 ≤ W) (T0 : 0 ≤ T) {c : TiltCall K}
    (estimate : |n.angle| ≤ tiltBound A W T) (measured : |c.a| ≤ A) (slow : |c.w| ≤ W)
    (near : n.timestamp ≠ 0 → c.time < n.timestamp ∨ ((c.time - n.timestamp : ℕ) : K) ≤ T) :
    |(n.niUpdate c.a c.w c.time).angle| ≤ tiltBound A W T := by
  unfold niUpdate
  split_ifs with first back
  · -- The filter starts from the measured angle.
    exact measured.trans (le_tiltBound W0 T0)
  · -- A roll-over leaves the estimate alone.
    exact estimate
  · -- Otherwise time has advanced, and not too far.
    have short := (near first).resolve_left back
    exact filter_le estimate measured (turn_le slow short)

/-- However many calls and roll-overs there are, the estimate stays within the fixed point of the filter. -/
theorem tilt_bounded (A0 : 0 ≤ A) (W0 : 0 ≤ W) (T0 : 0 ≤ T) {calls : List (TiltCall K)}
    (small : ∀ c ∈ calls, |c.a| ≤ A ∧ |c.w| ≤ W) (steps : calls.IsChain (TiltCall.Near T)) :
    ∀ past, past <+: calls →
      |(NaiveImuAttitude.run past).angle| ≤ A + 99 * W * T / 1000 := by
  intro past upTo
  -- The time stamp is the time of the last call, so the distance of the calls is that of the stamps.
  suffices bound : |(NaiveImuAttitude.run past).angle| ≤ tiltBound A W T ∧
      ∀ c ∈ past.getLast?, (NaiveImuAttitude.run past).timestamp = c.time by
    rw [← tiltBound_eq]
    exact bound.1
  induction past using List.reverseRecOn with
  | nil =>
    -- A reset sets the angle to zero.
    refine ⟨?_, by simp⟩
    rw [NaiveImuAttitude.run, List.foldl_nil, NaiveImuAttitude.niReset, abs_zero]
    exact A0.trans (le_tiltBound W0 T0)
  | append_singleton past c ih =>
    obtain ⟨estimate, stamp⟩ := ih ((List.prefix_append past [c]).trans upTo)
    -- The call at the end is one of the list, and near the one before it.
    obtain ⟨measured, slow⟩ := small c (upTo.subset (by simp))
    have near : ∀ d ∈ past.getLast?, TiltCall.Near T d c := by
      have chain := steps.prefix upTo
      rw [List.isChain_append] at chain
      exact fun d last => chain.2.2 d last c rfl
    rw [NaiveImuAttitude.run, List.foldl_concat]
    refine ⟨NaiveImuAttitude.niUpdate_le W0 T0 estimate measured slow fun later => ?_, ?_⟩
    · cases last : past.getLast? with
      | none =>
        -- Before the first call the stamp is zero.
        rw [List.getLast?_eq_none_iff] at last
        subst last
        exact absurd rfl later
      | some d =>
        -- Later the stamp is the time of the call before.
        rw [← NaiveImuAttitude.run, stamp d last]
        exact near d last
    · intro d last
      rw [List.getLast?_concat] at last
      obtain rfl := Option.some.inj last
      exact NaiveImuAttitude.niUpdate_timestamp _ c.a c.w c.time

/-- A run with a start, a step, a roll-over to time zero and another start. -/
def tiltCalls : List (TiltCall ℚ) := [⟨1, 2, 5⟩, ⟨-1, 2, 15⟩, ⟨1, -2, 0⟩, ⟨1, 1, 8⟩]

/-- The estimate is within its bound after such a run. -/
theorem tilt_bounded_rollover :
    |(NaiveImuAttitude.run tiltCalls).angle| ≤ 1 + 99 * 2 * 10 / 1000 := by
  refine tilt_bounded (A := 1) (W := 2) (T := 10) (by norm_num) (by norm_num) (by norm_num) ?_ ?_
    tiltCalls List.prefix_rfl
  · simp [tiltCalls]
  · simp [tiltCalls, TiltCall.Near]
    norm_num

end

end Teetest
