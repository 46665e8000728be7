import Teetest.Robot.Dialogue

/-!
What balancing rests on: the matrix of a calibration that was made, and the mean of a whole static test.
-/

namespace Teetest

open Lib

section

variable {K : Type} [Field K] [LinearOrder K] (lib : XMatrix K)

/-- The calls that a list of events makes, in order. -/
def ImuAlg.calls : List (ImuEvent K) → ImuAlg K → List (ImuCall K)
  | [], _ => []
  | e :: events, s => (s.event lib e).2 ++ ImuAlg.calls events (s.event lib e).1

/-- The calls of a run from the start of the program, with those of `imuAlgInit` in front. -/
def callsSince (log : LogView) (parsed : List K) (events : List (ImuEvent K)) : List (ImuCall K) :=
  (ImuAlg.powerUp.imuAlgInit lib log parsed).2 ++ (ImuAlg.started lib log parsed).calls lib events

variable {lib}

/-- One more event makes its calls after the others. -/
theorem ImuAlg.calls_concat {s t : ImuAlg K} {events : List (ImuEvent K)}
    (run : Run (ImuStep lib) s events t) (e : ImuEvent K) :
    s.calls lib (events ++ [e]) = s.calls lib events ++ (t.event lib e).2 := by
  have calls_append : ∀ (first : List (ImuEvent K)) (s : ImuAlg K),
      s.calls lib (first ++ [e]) = s.calls lib first ++
        ((first.foldl (fun s e => (s.event lib e).1) s).event lib e).2 := by
    intro first
    induction first with
    | nil => intro s; simp [calls]
    | cons a first ih => intro s; simp [calls, ih]
  have reached : t = events.foldl (fun s e => (s.event lib e).1) s := by
    -- The steps are a function, so the run is the fold.
    refine run.history (P := fun events t => t = events.foldl (fun s e => (s.event lib e).1) s) rfl ?_
    rintro past s' a t rfl step
    rw [List.foldl_append]
    exact step
  rw [calls_append, ← reached]

/-- Only `calibration` touches the matrix, and it makes a call of itself. -/
theorem ImuAlg.event_matrix (s : ImuAlg K) (e : ImuEvent K) :
    ((s.event lib e).1.Qir = s.Qir ∧
        (s.event lib e).1.haveImuCalibration = s.haveImuCalibration) ∨
      ∃ wc ac, .calibration wc ac ∈ (s.event lib e).2 ∧
        (s.event lib e).1.Qir = calibrated lib wc ac ∧
        (s.event lib e).1.haveImuCalibration = true := by
  have test (s : ImuAlg K) (imu : XIMUData K) : (s.staticTest imu).Qir = s.Qir ∧
      (s.staticTest imu).haveImuCalibration = s.haveImuCalibration := by
    unfold staticTest
    dsimp only
    split <;> exact ⟨rfl, rfl⟩
  cases e with
  | setup log =>
    refine .inl ?_
    simp only [event, startImuCalibration]
    split <;> exact ⟨rfl, rfl⟩
  | enter =>
    refine .inl ?_
    show s.nextImuCalibration.Qir = _ ∧ s.nextImuCalibration.haveImuCalibration = _
    rcases s.nextImuCalibration_cases with same | ⟨-, -, next⟩ | ⟨-, -, next⟩
    · rw [same]
      exact ⟨rfl, rfl⟩
    · rw [next]
      exact ⟨rfl, rfl⟩
    · rw [next]
      exact ⟨rfl, rfl⟩
  | play =>
    refine .inl ?_
    simp only [event, rStay]
    split <;> exact ⟨rfl, rfl⟩
  | stop => exact .inl ⟨rfl, rfl⟩
  | sample imu log =>
    simp only [event, imuAlgFeed]
    split
    · exact .inl (test _ imu)
    · exact .inl (test s imu)
    · exact .inl ⟨rfl, rfl⟩
    split
    · split
      · refine .inl ?_
        unfold rotation
        dsimp only
        split_ifs <;> exact ⟨rfl, rfl⟩
      · unfold static endImuCalibration calibration
        dsimp only
        split
        · -- The end of a calibration.
          refine .inr ?_
          split_ifs <;> exact ⟨_, _, by simp, rfl, rfl⟩
        · exact .inl ⟨rfl, rfl⟩
      · exact .inl ⟨rfl, rfl⟩
    · exact .inl ⟨rfl, rfl⟩
    · exact .inl ⟨rfl, rfl⟩

/-- At the start there is a matrix only if the stored file made one. -/
theorem ImuAlg.started_matrix (log : LogView) (parsed : List K)
    (have_ : (ImuAlg.started lib log parsed).haveImuCalibration = true) :
    ∃ wc ac, .calibration wc ac ∈ callsSince lib log parsed [] ∧
      (ImuAlg.started lib log parsed).Qir = calibrated lib wc ac := by
  refine ⟨(ImuAlg.started lib log parsed).wc, (ImuAlg.started lib log parsed).ac, ?_⟩
  unfold callsSince
  unfold ImuAlg.started ImuAlg.imuAlgInit at have_ ⊢
  dsimp only at have_ ⊢
  -- The card works, and the file holds six numbers.
  split at have_
  · rename_i good
    split at have_
    · rename_i six
      simp [good, six, calibration, calls]
    · simp [powerUp] at have_
  · simp [powerUp] at have_

/-- The matrix in use comes from a calibration after every run. -/
theorem ImuStep.referenced {log : LogView} {parsed : List K} {past : List (ImuEvent K)}
    {s : ImuAlg K} (run : Run (ImuStep lib) (ImuAlg.started lib log parsed) past s)
    (have_ : s.haveImuCalibration = true) :
    ∃ wc ac, .calibration wc ac ∈ callsSince lib log parsed past ∧
      s.Qir = calibrated lib wc ac := by
  induction run with
  | refl => exact ImuAlg.started_matrix log parsed have_
  | tail run step ih =>
    rename_i past s t e
    subst step
    rw [callsSince, ImuAlg.calls_concat run, ← List.append_assoc]
    rcases s.event_matrix e with ⟨same, kept⟩ | ⟨wc, ac, called, matrix, -⟩
    · obtain ⟨wc, ac, made, matrix⟩ := ih (kept ▸ have_)
      exact ⟨wc, ac, List.mem_append_left _ made, same.trans matrix⟩
    · exact ⟨wc, ac, List.mem_append_right _ called, matrix⟩

/-- Only `play` starts to balance, and it asks for a calibration. -/
theorem ImuAlg.event_play (s : ImuAlg K) (e : ImuEvent K)
    (playing : (s.event lib e).1.rState = .rsPlay) :
    s.rState = .rsPlay ∨ s.haveImuCalibration = true := by
  cases e with
  | setup log =>
    simp only [event, startImuCalibration] at playing
    split at playing
    · exact .inl playing
    · simp at playing
  | enter =>
    refine .inl ?_
    change s.nextImuCalibration.rState = _ at playing
    rcases s.nextImuCalibration_cases with same | ⟨-, -, next⟩ | ⟨-, -, next⟩
    · rwa [same] at playing
    · rwa [next] at playing
    · rwa [next] at playing
  | play =>
    simp only [event, rStay] at playing
    split at playing
    · exact .inl playing
    · rename_i have_
      exact .inr (by simpa using have_)
  | stop => simp [event, rStop] at playing
  | sample imu log =>
    refine .inl ?_
    simp only [event, imuAlgFeed] at playing
    split at playing
    · simpa [ImuAlg.staticTest_rState] using playing
    · simpa [ImuAlg.staticTest_rState] using playing
    · exact playing
    split at playing
    · -- A calibration does not end in balancing.
      rename_i calibrating
      split at playing
      · unfold rotation at playing
        dsimp only at playing
        split_ifs at playing <;> simp [calibrating] at playing
      · unfold static endImuCalibration calibration at playing
        dsimp only at playing
        split_ifs at playing
        simp [calibrating] at playing
      · exact playing
    · assumption
    · exact playing

/-- Balancing is only possible with a calibration. -/
theorem ImuStep.playing {log : LogView} {parsed : List K} {past : List (ImuEvent K)} {s : ImuAlg K}
    (run : Run (ImuStep lib) (ImuAlg.started lib log parsed) past s) :
    s.rState = .rsPlay → s.haveImuCalibration = true := by
  refine run.invariant (P := fun s => s.rState = .rsPlay → s.haveImuCalibration = true) ?_ ?_
  · intro playing
    unfold ImuAlg.started ImuAlg.imuAlgInit ImuAlg.calibration at playing
    dsimp only at playing
    split_ifs at playing <;> simp [ImuAlg.powerUp] at playing
  · rintro s e t before rfl playing
    have held : s.haveImuCalibration = true := (s.event_play e playing).elim before id
    rcases s.event_matrix e with ⟨-, kept⟩ | ⟨-, -, -, -, made⟩
    · exact kept.trans held
    · exact made

/-- The motors are told a speed by a sample only, and only while balancing with a test that is done. -/
theorem ImuAlg.setMSpeed_called {s : ImuAlg K} {e : ImuEvent K} {u : K}
    (called : .setMSpeed u ∈ (s.event lib e).2) : s.iaState = .iaGood ∧ s.rState = .rsPlay := by
  cases e with
  | setup log | enter | play => simp [event] at called
  | stop => simp [event, rStop] at called
  | sample imu log =>
    simp only [event, imuAlgFeed] at called
    split at called
    · simp at called
    · simp at called
    · simp at called
    rename_i good
    refine ⟨good, ?_⟩
    split at called
    · -- A calibration tells the motors nothing.
      split at called
      · simp at called
      · unfold static endImuCalibration calibration at called
        dsimp only at called
        split_ifs at called <;> simp at called
      · simp at called
    · assumption
    · simp at called

/--
Whenever the motors are told a speed, the robot balances with the matrix of a calibration that was
made, and `w0` is the mean of the first 201 samples since the latest accepted `setup`.
-/
theorem balance_referenced {log : LogView} {parsed : List K} {past : List (ImuEvent K)}
    {s : ImuAlg K} (run : Run (ImuStep lib) (ImuAlg.started lib log parsed) past s)
    {e : ImuEvent K} {u : K} (called : .setMSpeed u ∈ (s.event lib e).2) :
    s.rState = .rsPlay ∧ s.haveImuCalibration = true ∧
      (∃ wc ac, .calibration wc ac ∈ callsSince lib log parsed past ∧
        s.Qir = calibrated lib wc ac) ∧
      StaticMean (samples (sinceSetup past)) s.w0 := by
  obtain ⟨good, playing⟩ := ImuAlg.setMSpeed_called called
  have held := ImuStep.playing run playing
  refine ⟨playing, held, ImuStep.referenced run held, ?_⟩
  -- A test that is done has its mean.
  cases (ImuStep.dialogue run).tested with
  | notBegun state | running state => simp [good] at state
  | done _ ready => exact ready

end

/-- The start of a program that finds a calibration on the card, a whole test and `play`. -/
def playEvents : List (ImuEvent ℚ) := List.replicate 201 still ++ [.play]

/-- The state after it. -/
def playing : ImuAlg ℚ :=
  playEvents.foldl (fun s e => (s.event plainLib e).1)
    (ImuAlg.started plainLib quietLog [0, 0, 1, 0, 1, 0])

/-- Whether a call tells the motors a speed. -/
def ImuCall.isSetMSpeed : ImuCall ℚ → Bool
  | .setMSpeed _ => true
  | _ => false

set_option maxRecDepth 100000 in
/-- The first sample after `play` tells the motors a speed, with both references in place. -/
theorem balance_referenced_stored :
    playing.haveImuCalibration = true ∧
      StaticMean (samples (sinceSetup playEvents)) playing.w0 := by
  have some_ : (playing.event plainLib still).2.any ImuCall.isSetMSpeed = true := by
    decide +kernel
  obtain ⟨call, member, tells⟩ := List.any_eq_true.mp some_
  have run : Run (ImuStep plainLib) (ImuAlg.started plainLib quietLog [0, 0, 1, 0, 1, 0])
      playEvents playing := by
    refine Run.foldl (fun (s : ImuAlg ℚ) e => (s.event plainLib e).1) ?_ playEvents
    intro s e
    rfl
  cases call with
  | setMSpeed u =>
    obtain ⟨-, held, -, mean_⟩ := balance_referenced run member
    exact ⟨held, mean_⟩
  | calibration wc ac | mdStop | lfSendMessage | lfStop | saveCalibration ac wc | lfStart =>
    simp [ImuCall.isSetMSpeed] at tells

end Teetest
