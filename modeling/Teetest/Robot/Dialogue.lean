import Mathlib.Data.List.DropRight
import Teetest.Lib.Trace
import Teetest.Src.ImuAlg

/-!
The calibration dialogue: which samples the means come from that a calibration is made of.

The state of the algorithm is tied to what happened since the latest `setup` that was accepted.
-/

namespace Teetest

open Lib

section

variable {K : Type}

/-- A `setup` that starts a calibration. -/
def ImuEvent.accepted : ImuEvent K → Bool
  | .setup log => log.lfState = .lfSGood
  | _ => false

/-- The sample that an event brings, if any. -/
def ImuEvent.sample? : ImuEvent K → Option (XIMUData K)
  | .sample imu _ => some imu
  | _ => none

/-- The samples among events, in order. -/
def samples (events : List (ImuEvent K)) : List (XIMUData K) := events.filterMap ImuEvent.sample?

/-- The events since the latest accepted `setup`, or since the start. -/
def sinceSetup (past : List (ImuEvent K)) : List (ImuEvent K) := past.rtakeWhile fun e => !e.accepted

@[simp] theorem samples_append (first second : List (ImuEvent K)) :
    samples (first ++ second) = samples first ++ samples second := by
  simp [samples]

@[simp] theorem samples_nil : samples ([] : List (ImuEvent K)) = [] := rfl

@[simp] theorem samples_sample (imu : XIMUData K) (log : LogView) :
    samples [ImuEvent.sample imu log] = [imu] := rfl

/-- An accepted `setup` starts anew. -/
theorem sinceSetup_accepted {e : ImuEvent K} (accepted : e.accepted = true)
    (past : List (ImuEvent K)) : sinceSetup (past ++ [e]) = [] := by
  simp [sinceSetup, accepted]

/-- Every other event is one more. -/
theorem sinceSetup_concat {e : ImuEvent K} (other : e.accepted = false) (past : List (ImuEvent K)) :
    sinceSetup (past ++ [e]) = sinceSetup past ++ [e] := by
  simp [sinceSetup, other]

/-- What happened since the latest accepted `setup`, and this `setup` in front of it. -/
theorem sinceSetup_split {past : List (ImuEvent K)} (some_ : ∃ e ∈ past, e.accepted = true) :
    ∃ before log, log.lfState = .lfSGood ∧ past = before ++ .setup log :: sinceSetup past := by
  -- The list grows at its end, where the latest events are.
  induction past using List.reverseRecOn with
  | nil => simp at some_
  | append_singleton past e ih =>
    cases accepted : e.accepted with
    | true =>
      -- The event is itself the latest accepted `setup`.
      rw [sinceSetup_accepted accepted]
      cases e with
      | setup log => exact ⟨past, log, by simpa [ImuEvent.accepted] using accepted, rfl⟩
      | enter | play | stop | sample imu log => simp [ImuEvent.accepted] at accepted
    | false =>
      rw [sinceSetup_concat accepted]
      obtain ⟨before, log, good, split⟩ := ih (by simpa [accepted] using some_)
      exact ⟨before, log, good, by nth_rewrite 1 [split]; simp⟩

/-- No `setup` was accepted since the latest one that was. -/
theorem sinceSetup_open {past : List (ImuEvent K)} : ∀ e ∈ sinceSetup past, e.accepted = false := by
  intro e member
  simpa using List.mem_rtakeWhile_imp member

/-- What `enter` does: it ends one of the two waits, or nothing. -/
theorem ImuAlg.nextImuCalibration_cases (s : ImuAlg K) :
    s.nextImuCalibration = s ∨
      (s.rState = .rsImuCalibrate ∧ s.icState = .icWaitRotation ∧ s.nextImuCalibration =
        { s with imuCounter := 0, wm := [], am := [], icState := .icRotation }) ∨
      (s.rState = .rsImuCalibrate ∧ s.icState = .icWaitStatic ∧ s.nextImuCalibration =
        { s with imuCounter := 0, wm := [], am := [], icState := .icStatic }) := by
  unfold nextImuCalibration
  split
  · -- Outside a calibration `enter` does nothing.
    exact .inl rfl
  · rename_i calibrating
    have calibrating := not_not.mp calibrating
    split
    · rename_i wait
      exact .inr (.inl ⟨calibrating, wait, rfl⟩)
    · rename_i wait
      exact .inr (.inr ⟨calibrating, wait, rfl⟩)
    · exact .inl rfl

end

section

variable {K : Type} [Field K]

/-- A vector is the mean of the angular velocities of the first 201 samples. -/
def StaticMean (xs : List (XIMUData K)) (w0 : V3 K) : Prop :=
  ∃ test rest, xs = test ++ rest ∧ test.length = 201 ∧ w0 = mean (test.map XIMUData.w)

/-- Later samples do not change the mean of the first. -/
theorem StaticMean.append {xs : List (XIMUData K)} {w0 : V3 K} (mean_ : StaticMean xs w0)
    (more : List (XIMUData K)) : StaticMean (xs ++ more) w0 := by
  obtain ⟨test, rest, rfl, length, value⟩ := mean_
  exact ⟨test, rest ++ more, by rw [List.append_assoc], length, value⟩

/-- Where the static test stands, by the samples since the latest accepted `setup`. -/
inductive Tested (xs : List (XIMUData K)) (s : ImuAlg K) : Prop
  | notBegun (state : s.iaState = .iaInit) (none : xs = [])
  | running (state : s.iaState = .iaStaticTest) (count : s.imuCounter = xs.length)
      (few : xs.length ≤ 200) (total : s.w0 = (xs.map XIMUData.w).sum)
  | done (state : s.iaState = .iaGood) (ready : StaticMean xs s.w0)

/-- The test stands where it stood as long as its three variables do. -/
theorem Tested.of_same {xs : List (XIMUData K)} {s t : ImuAlg K} (tested : Tested xs s)
    (ia : t.iaState = s.iaState) (counter : t.imuCounter = s.imuCounter) (w0 : t.w0 = s.w0) :
    Tested xs t := by
  -- Each of the three stages speaks of these variables alone.
  cases tested with
  | notBegun state none_ => exact .notBegun (ia.trans state) none_
  | running state count few total =>
    exact .running (ia.trans state) (counter.trans count) few (w0.trans total)
  | done state ready => exact .done (ia.trans state) (by rw [w0]; exact ready)

/-- A sample of the static test. -/
theorem ImuAlg.staticTest_tested {s : ImuAlg K} {xs : List (XIMUData K)} (imu : XIMUData K)
    (state : s.iaState = .iaStaticTest) (count : s.imuCounter = xs.length) (few : xs.length ≤ 200)
    (total : s.w0 = (xs.map XIMUData.w).sum) : Tested (xs ++ [imu]) (s.staticTest imu) := by
  -- The sum and the counter go with one sample more.
  have sum : s.w0 + imu.w = ((xs ++ [imu]).map XIMUData.w).sum := by simp [total]
  have length : s.imuCounter + 1 = (xs ++ [imu]).length := by simp [count]
  unfold staticTest
  dsimp only
  split
  · -- The 201st sample ends the test, and the sum is divided.
    rename_i many
    have exactly : (xs ++ [imu]).length = 201 := by
      simp only [List.length_append, List.length_singleton] at length ⊢
      omega
    refine .done rfl ⟨xs ++ [imu], [], by simp, exactly, ?_⟩
    show ddiv (s.w0 + imu.w) (s.imuCounter + 1) = _
    rw [sum, length, mean, List.length_map]
  · exact .running state length (by rw [← length]; omega) sum

/-- The robot state does not change in a static test. -/
theorem ImuAlg.staticTest_rState (s : ImuAlg K) (imu : XIMUData K) :
    (s.staticTest imu).rState = s.rState := by
  unfold staticTest
  dsimp only
  split <;> rfl

end

section

variable {K : Type} [Field K] [LinearOrder K]

/-- The samples that rotate fast enough to count. -/
def rotating (w0 : V3 K) (xs : List (XIMUData K)) : List (XIMUData K) :=
  xs.filter fun x => wrBound ≤ norma2 (x.w - w0)

/-- A vector is the mean of the rotations of the first 101 samples that rotate fast enough. -/
def RotationMean (xs : List (XIMUData K)) (w0 wc : V3 K) : Prop :=
  ∃ used, used = (rotating w0 xs).take 101 ∧ used.length = 101 ∧
    wc = mean (used.map fun x => x.w - w0)

/-- The dialogue that should lead to a calibration with given means. -/
def Protocol (past : List (ImuEvent K)) (w0 wc ac : V3 K) : Prop :=
  ∃ before log first second third,
    past = before ++ .setup log :: (first ++ .enter :: (second ++ .enter :: third)) ∧
      log.lfState = .lfSGood ∧
      (∀ e ∈ first ++ .enter :: (second ++ .enter :: third), e.accepted = false) ∧
      StaticMean (samples first) w0 ∧ RotationMean (samples second) w0 wc ∧
      (samples third).length = 101 ∧ ac = mean ((samples third).map XIMUData.a)

/-- Where the dialogue stands, by the events since the latest accepted `setup`. -/
inductive Phase (since : List (ImuEvent K)) (s : ImuAlg K) : Prop
  | idle (other : s.rState ≠ .rsImuCalibrate)
  | testing (ic : s.icState = .icInit) (ia : s.iaState ≠ .iaGood)
  | waitRotation (ic : s.icState = .icWaitRotation) (ia : s.iaState = .iaGood)
  | rotation (first second : List (ImuEvent K)) (ic : s.icState = .icRotation)
      (ia : s.iaState = .iaGood) (split : since = first ++ .enter :: second)
      (test : StaticMean (samples first) s.w0)
      (sum : s.wm = (rotating s.w0 (samples second)).map fun x => x.w - s.w0)
      (count : s.imuCounter = s.wm.length) (few : s.imuCounter ≤ 100)
  | waitStatic (first second : List (ImuEvent K)) (ic : s.icState = .icWaitStatic)
      (ia : s.iaState = .iaGood) (split : since = first ++ .enter :: second)
      (test : StaticMean (samples first) s.w0) (turn : RotationMean (samples second) s.w0 s.wc)
  | static (first second third : List (ImuEvent K)) (ic : s.icState = .icStatic)
      (ia : s.iaState = .iaGood) (split : since = first ++ .enter :: (second ++ .enter :: third))
      (test : StaticMean (samples first) s.w0) (turn : RotationMean (samples second) s.w0 s.wc)
      (sum : s.am = (samples third).map XIMUData.a)
      (count : s.imuCounter = s.am.length) (few : s.imuCounter ≤ 100)

/-- What ties the state of the algorithm to its history. -/
structure Dialogue (past : List (ImuEvent K)) (s : ImuAlg K) : Prop where
  tested : Tested (samples (sinceSetup past)) s
  phase : Phase (sinceSetup past) s
  begun : s.rState = .rsImuCalibrate → ∃ e ∈ past, e.accepted = true

/-- Later samples do not change the mean of the first that rotate. -/
theorem RotationMean.append {xs : List (XIMUData K)} {w0 wc : V3 K}
    (mean_ : RotationMean xs w0 wc) (more : List (XIMUData K)) : RotationMean (xs ++ more) w0 wc := by
  obtain ⟨used, rfl, length, value⟩ := mean_
  -- There are 101 samples that count already.
  have enough : 101 ≤ (rotating w0 xs).length := by
    rw [List.length_take] at length
    omega
  refine ⟨_, rfl, ?_, ?_⟩
  · simp only [rotating, List.filter_append, List.length_take, List.length_append] at enough ⊢
    omega
  · rw [value]
    simp only [rotating, List.filter_append] at enough ⊢
    rw [List.take_append_of_le_length enough]

/-- An event that changes nothing leaves the dialogue where it stands. -/
theorem Phase.concat {since : List (ImuEvent K)} {s : ImuAlg K} (phase : Phase since s)
    {e : ImuEvent K} (noSample : e.sample? = none) : Phase (since ++ [e]) s := by
  have same (xs : List (ImuEvent K)) : samples (xs ++ [e]) = samples xs := by
    simp [samples, noSample]
  cases phase with
  | idle other => exact .idle other
  | testing ic ia => exact .testing ic ia
  | waitRotation ic ia => exact .waitRotation ic ia
  | rotation first second ic ia split test sum count few =>
    -- The event is one more behind the first `enter`.
    exact .rotation first (second ++ [e]) ic ia (by simp [split]) test (by rw [same]; exact sum)
      count few
  | waitStatic first second ic ia split test turn =>
    exact .waitStatic first (second ++ [e]) ic ia (by simp [split]) test (by rw [same]; exact turn)
  | static first second third ic ia split test turn sum count few =>
    exact .static first second (third ++ [e]) ic ia (by simp [split]) test turn
      (by rw [same]; exact sum) count few

/-- A static test during a calibration is followed by the wait for the rotation. -/
theorem ImuAlg.staticTest_phase {s : ImuAlg K} (imu : XIMUData K)
    (state : s.iaState = .iaStaticTest) (since : List (ImuEvent K))
    (ic : s.rState = .rsImuCalibrate → s.icState = .icInit) : Phase since (s.staticTest imu) := by
  by_cases calibrating : s.rState = .rsImuCalibrate
  · unfold staticTest
    dsimp only
    split
    · -- The last sample of the test opens the wait for a rotation.
      exact .waitRotation (by simp) rfl
    · exact .testing (ic calibrating) (by simp [state])
  · exact .idle (by rwa [staticTest_rState])

/-- While the test is not done, a calibration has not begun its dialogue. -/
theorem Phase.untested {since : List (ImuEvent K)} {s : ImuAlg K} (phase : Phase since s)
    (untested : s.iaState ≠ .iaGood) : s.rState = .rsImuCalibrate → s.icState = .icInit := by
  intro calibrating
  cases phase with
  | idle other => exact absurd calibrating other
  | testing ic _ => exact ic
  | waitRotation _ ia => exact absurd ia untested
  | rotation _ _ _ ia => exact absurd ia untested
  | waitStatic _ _ _ ia => exact absurd ia untested
  | static _ _ _ _ ia => exact absurd ia untested

/-- A sample while a rotation is measured. -/
theorem ImuAlg.rotation_phase {s : ImuAlg K} (imu : XIMUData K) (log : LogView)
    {since first second : List (ImuEvent K)} (ic : s.icState = .icRotation)
    (ia : s.iaState = .iaGood) (split : since = first ++ .enter :: second)
    (test : StaticMean (samples first) s.w0)
    (sum : s.wm = (rotating s.w0 (samples second)).map fun x => x.w - s.w0)
    (count : s.imuCounter = s.wm.length) (few : s.imuCounter ≤ 100) :
    Phase (since ++ [.sample imu log]) (s.rotation imu) := by
  have split' : since ++ [.sample imu log] = first ++ .enter :: (second ++ [.sample imu log]) := by
    simp [split]
  -- The sample belongs to the second part of the dialogue.
  have more : rotating s.w0 (samples (second ++ [.sample imu log])) =
      rotating s.w0 (samples second) ++ rotating s.w0 [imu] := by
    simp [rotating]
  unfold rotation
  dsimp only
  by_cases slow : norma2 (imu.w - s.w0) < wrBound
  · -- Too slow a rotation does not count.
    have none_ : rotating s.w0 [imu] = [] := by simp [rotating, slow]
    rw [if_pos slow]
    exact .rotation first _ ic ia split' test (by rw [more, none_, List.append_nil]; exact sum)
      count few
  · have one : rotating s.w0 [imu] = [imu] := by simp [rotating, not_lt.mp slow]
    have sum' : s.wm ++ [imu.w - s.w0] =
        (rotating s.w0 (samples (second ++ [.sample imu log]))).map fun x => x.w - s.w0 := by
      rw [more, one, List.map_append, sum]
      rfl
    rw [if_neg slow]
    split
    · -- The 101st sample that counts ends the rotation.
      rename_i many
      have length := congrArg List.length sum'
      simp only [List.length_append, List.length_singleton, List.length_map] at length
      have whole : (rotating s.w0 (samples (second ++ [.sample imu log]))).take 101 =
          rotating s.w0 (samples (second ++ [.sample imu log])) :=
        List.take_of_length_le (by omega)
      refine .waitStatic first _ rfl ia split' test ⟨_, rfl, ?_, ?_⟩
      · rw [whole]
        omega
      · show mean (s.wm ++ [imu.w - s.w0]) = _
        rw [sum', whole]
    · rename_i some_
      exact .rotation first _ ic ia split' test sum' (by simp [count]) (by
        simp only at some_ ⊢
        omega)

/-- A sample of the second static measurement, unless it is the last. -/
theorem ImuAlg.static_phase {s : ImuAlg K} (lib : XMatrix K) (imu : XIMUData K) (log : LogView)
    {since first second third : List (ImuEvent K)} (ic : s.icState = .icStatic)
    (ia : s.iaState = .iaGood) (split : since = first ++ .enter :: (second ++ .enter :: third))
    (test : StaticMean (samples first) s.w0) (turn : RotationMean (samples second) s.w0 s.wc)
    (sum : s.am = (samples third).map XIMUData.a) (count : s.imuCounter = s.am.length) :
    Phase (since ++ [.sample imu log]) (s.static lib imu log).1 := by
  unfold static
  dsimp only
  split
  · -- A calibration that was made ends the dialogue.
    refine .idle ?_
    unfold endImuCalibration calibration
    dsimp only
    split <;> simp
  · rename_i some_
    refine .static first second (third ++ [.sample imu log]) ic ia (by simp [split]) test turn ?_ ?_ ?_
    · simp [sum]
    · simp [count]
    · simp only at some_ ⊢
      omega

/-- An event that changes nothing and is no sample keeps what ties the state to its history. -/
theorem Dialogue.unchanged {past : List (ImuEvent K)} {s : ImuAlg K} (dialogue : Dialogue past s)
    {e : ImuEvent K} (other : e.accepted = false) (noSample : e.sample? = none) :
    Dialogue (past ++ [e]) s := by
  refine ⟨?_, ?_, fun calibrating => ?_⟩
  · have same : samples (sinceSetup (past ++ [e])) = samples (sinceSetup past) := by
      rw [sinceSetup_concat other]
      simp [samples, noSample]
    rw [same]
    exact dialogue.tested
  · -- One event more, but no sample.
    rw [sinceSetup_concat other]
    exact dialogue.phase.concat noSample
  · obtain ⟨e', member, accepted⟩ := dialogue.begun calibrating
    exact ⟨e', List.mem_append_left _ member, accepted⟩

/-- Whoever leaves the calibration leaves the test alone. -/
theorem Dialogue.leave {past : List (ImuEvent K)} {s t : ImuAlg K} (dialogue : Dialogue past s)
    (ia : t.iaState = s.iaState) (counter : t.imuCounter = s.imuCounter) (w0 : t.w0 = s.w0)
    (left : t.rState ≠ .rsImuCalibrate) : Dialogue past t :=
  ⟨dialogue.tested.of_same ia counter w0, .idle left, fun calibrating => absurd calibrating left⟩

/-- `enter` keeps what ties the state to its history. -/
theorem Dialogue.enter {past : List (ImuEvent K)} {s : ImuAlg K} (dialogue : Dialogue past s) :
    Dialogue (past ++ [.enter]) s.nextImuCalibration := by
  obtain ⟨tested, phase, begun⟩ := dialogue.unchanged (e := .enter) rfl rfl
  rcases s.nextImuCalibration_cases with same | ⟨calibrating, wait, next⟩ | ⟨calibrating, wait, next⟩
  · rw [same]
    exact ⟨tested, phase, begun⟩
  · -- The measurement of the rotation begins, behind this `enter`.
    rw [next]
    cases dialogue.phase with
    | waitRotation _ ia =>
      cases dialogue.tested with
      | done _ ready =>
        refine ⟨?_, ?_, begun⟩
        · rw [sinceSetup_concat rfl, samples_append]
          exact .done ia (ready.append _)
        · exact .rotation (sinceSetup past) [] rfl ia (sinceSetup_concat rfl past) ready
            (by simp [rotating]) rfl (Nat.zero_le _)
      | notBegun state | running state => simp [ia] at state
    | idle no => exact absurd calibrating no
    | testing ic | rotation _ _ ic | waitStatic _ _ ic | static _ _ _ ic => simp [wait] at ic
  · -- The second static measurement begins, behind this `enter`.
    rw [next]
    cases dialogue.phase with
    | waitStatic first second _ ia split test turn =>
      cases dialogue.tested with
      | done _ ready =>
        refine ⟨?_, ?_, begun⟩
        · rw [sinceSetup_concat rfl, samples_append]
          exact .done ia (ready.append _)
        · exact .static first second [] rfl ia (by rw [sinceSetup_concat rfl, split]; simp) test
            turn rfl rfl (Nat.zero_le _)
      | notBegun state | running state => simp [ia] at state
    | idle no => exact absurd calibrating no
    | testing ic | rotation _ _ ic | waitRotation ic | static _ _ _ ic => simp [wait] at ic

/-- What a sample changes once the static test is done. -/
theorem ImuAlg.imuAlgFeed_good {s : ImuAlg K} (good : s.iaState = .iaGood) (lib : XMatrix K)
    (imu : XIMUData K) (log : LogView) :
    (s.imuAlgFeed lib imu log).1.iaState = .iaGood ∧ (s.imuAlgFeed lib imu log).1.w0 = s.w0 ∧
      ((s.imuAlgFeed lib imu log).1.rState = .rsImuCalibrate → s.rState = .rsImuCalibrate) := by
  unfold imuAlgFeed
  rw [good]
  dsimp only
  split
  · -- Only the measurements of a calibration change anything here.
    rename_i calibrating
    refine ⟨?_, ?_, fun _ => calibrating⟩
    all_goals
      split
      · unfold rotation
        dsimp only
        split_ifs <;> simp [good]
      · unfold static endImuCalibration calibration
        dsimp only
        split_ifs <;> simp [good]
      · simp [good]
  · exact ⟨good, rfl, id⟩
  · exact ⟨good, rfl, id⟩

/-- A sample keeps what ties the state to its history. -/
theorem Dialogue.sample {past : List (ImuEvent K)} {s : ImuAlg K} (dialogue : Dialogue past s)
    (lib : XMatrix K) (imu : XIMUData K) (log : LogView) :
    Dialogue (past ++ [.sample imu log]) (s.imuAlgFeed lib imu log).1 := by
  obtain ⟨tested, phase, begun⟩ := dialogue
  have begun' : s.rState = .rsImuCalibrate →
      ∃ e ∈ past ++ [.sample imu log], e.accepted = true := by
    intro calibrating
    obtain ⟨e, member, accepted⟩ := begun calibrating
    exact ⟨e, List.mem_append_left _ member, accepted⟩
  have since : sinceSetup (past ++ [.sample imu log]) = sinceSetup past ++ [.sample imu log] :=
    sinceSetup_concat rfl past
  have one : samples (sinceSetup past ++ [.sample imu log]) = samples (sinceSetup past) ++ [imu] := by
    simp
  cases tested with
  | notBegun state none_ =>
    -- The first sample begins the test with all sums at zero.
    have feed : (s.imuAlgFeed lib imu log).1 = ImuAlg.staticTest { s with
        iaState := .iaStaticTest, a0 := 0, w0 := 0, wm := [], am := [], imuCounter := 0 } imu := by
      simp [ImuAlg.imuAlgFeed, state]
    rw [feed]
    refine ⟨?_, ImuAlg.staticTest_phase imu rfl _ (phase.untested (by simp [state])), ?_⟩
    · rw [since, one, none_]
      exact ImuAlg.staticTest_tested imu rfl rfl (Nat.zero_le _) rfl
    · rw [ImuAlg.staticTest_rState]
      exact begun'
  | running state count few total =>
    -- The test goes on, and may be over with this sample.
    have feed : (s.imuAlgFeed lib imu log).1 = s.staticTest imu := by
      simp [ImuAlg.imuAlgFeed, state]
    rw [feed]
    refine ⟨?_, ImuAlg.staticTest_phase imu state _ (phase.untested (by simp [state])), ?_⟩
    · rw [since, one]
      exact ImuAlg.staticTest_tested imu state count few total
    · rw [ImuAlg.staticTest_rState]
      exact begun'
  | done good ready =>
    obtain ⟨ia, w0, calibrates⟩ := ImuAlg.imuAlgFeed_good good lib imu log
    refine ⟨?_, ?_, fun calibrating => begun' (calibrates calibrating)⟩
    · rw [since, one]
      exact .done ia (by rw [w0]; exact ready.append [imu])
    · rw [since]
      by_cases calibrating : s.rState = .rsImuCalibrate
      · -- The sample belongs to the measurement that is going on, if any.
        cases phase with
        | idle no => exact absurd calibrating no
        | testing _ untested => exact absurd good untested
        | waitRotation ic =>
          have feed : (s.imuAlgFeed lib imu log).1 = s := by
            simp [ImuAlg.imuAlgFeed, good, calibrating, ic]
          rw [feed]
          exact .waitRotation ic good
        | rotation first second ic _ split test sum count few =>
          have feed : (s.imuAlgFeed lib imu log).1 = s.rotation imu := by
            simp [ImuAlg.imuAlgFeed, good, calibrating, ic]
          rw [feed]
          exact ImuAlg.rotation_phase imu log ic good split test sum count few
        | waitStatic first second ic _ split test turn =>
          have feed : (s.imuAlgFeed lib imu log).1 = s := by
            simp [ImuAlg.imuAlgFeed, good, calibrating, ic]
          rw [feed]
          refine .waitStatic first (second ++ [.sample imu log]) ic good (by simp [split]) test ?_
          rw [samples_append]
          exact turn.append _
        | static first second third ic _ split test turn sum count few =>
          have feed : (s.imuAlgFeed lib imu log).1 = (s.static lib imu log).1 := by
            simp [ImuAlg.imuAlgFeed, good, calibrating, ic]
          rw [feed]
          exact ImuAlg.static_phase lib imu log ic good split test turn sum count
      · exact .idle fun now => calibrating (calibrates now)

/-- An event keeps what ties the state to its history. -/
theorem Dialogue.event {past : List (ImuEvent K)} {s : ImuAlg K} (dialogue : Dialogue past s)
    (lib : XMatrix K) (e : ImuEvent K) : Dialogue (past ++ [e]) (s.event lib e).1 := by
  cases e with
  | setup log =>
    by_cases good : log.lfState = .lfSGood
    · -- The dialogue starts anew.
      have accepted : (ImuEvent.setup log : ImuEvent K).accepted = true := by
        simp [ImuEvent.accepted, good]
      have anew : (s.event lib (.setup log)).1 =
          { s with iaState := .iaInit, icState := .icInit, rState := .rsImuCalibrate } := by
        simp [ImuAlg.event, ImuAlg.startImuCalibration, good]
      rw [anew]
      refine ⟨.notBegun rfl ?_, .testing rfl (by simp), fun _ => ⟨_, by simp, accepted⟩⟩
      rw [sinceSetup_accepted accepted, samples_nil]
    · -- A `setup` that is refused leaves everything alone.
      have same : (s.event lib (.setup log)).1 = s := by
        simp [ImuAlg.event, ImuAlg.startImuCalibration, good]
      rw [same]
      exact dialogue.unchanged (by simp [ImuEvent.accepted, good]) rfl
  | enter => exact dialogue.enter
  | play =>
    show Dialogue _ s.rStay
    have unchanged := dialogue.unchanged (e := .play) rfl rfl
    unfold ImuAlg.rStay
    split
    · exact unchanged
    · -- Balancing ends a calibration.
      exact unchanged.leave rfl rfl rfl (by simp)
  | stop => exact (dialogue.unchanged rfl rfl).leave rfl rfl rfl (by simp [ImuAlg.event, ImuAlg.rStop])
  | sample imu log => exact dialogue.sample lib imu log

/-- The history ties down the state after every run. -/
theorem ImuStep.dialogue {lib : XMatrix K} {log : LogView} {parsed : List K}
    {past : List (ImuEvent K)} {s : ImuAlg K}
    (run : Run (ImuStep lib) (ImuAlg.started lib log parsed) past s) : Dialogue past s := by
  refine run.history (P := Dialogue) ?_ ?_
  · -- At power up no dialogue has begun.
    have start : (ImuAlg.started lib log parsed).iaState = .iaInit ∧
        (ImuAlg.started lib log parsed).rState = .rsStop := by
      unfold ImuAlg.started ImuAlg.imuAlgInit ImuAlg.calibration
      dsimp only
      split_ifs <;> simp [ImuAlg.powerUp]
    refine ⟨.notBegun start.1 rfl, .idle (by simp [start.2]), fun calibrating => ?_⟩
    simp [start.2] at calibrating
  · rintro past s e t dialogue rfl
    exact dialogue.event lib e

/-- A call of `calibration` comes from the last sample of the second static measurement. -/
theorem ImuAlg.calibration_called {lib : XMatrix K} {s : ImuAlg K} {e : ImuEvent K} {wc ac : V3 K}
    (called : .calibration wc ac ∈ (s.event lib e).2) :
    ∃ imu log, e = .sample imu log ∧ s.iaState = .iaGood ∧ s.rState = .rsImuCalibrate ∧
      s.icState = .icStatic ∧ 100 < s.imuCounter + 1 ∧ wc = s.wc ∧ ac = mean (s.am ++ [imu.a]) ∧
      (s.event lib e).1.w0 = s.w0 := by
  cases e with
  | setup log | enter | play => simp [event] at called
  | stop => simp [event, rStop] at called
  | sample imu log =>
    refine ⟨imu, log, rfl, ?_⟩
    simp only [event, imuAlgFeed] at called ⊢
    -- Every other state of the algorithm calls something else, or nothing.
    split at called
    · simp at called
    · simp at called
    · simp at called
    rename_i good
    split at called
    · rename_i calibrating
      split at called
      · simp at called
      · rename_i ic
        unfold static at called ⊢
        dsimp only at called ⊢
        split at called
        · -- The two means are those that the measurements left.
          rename_i many
          have means : wc = s.wc ∧ ac = mean (s.am ++ [imu.a]) := by
            unfold endImuCalibration calibration at called
            dsimp only at called
            split_ifs at called <;> simpa using called
          refine ⟨good, calibrating, ic, many, means.1, means.2, ?_⟩
          rw [if_pos many]
          unfold endImuCalibration calibration
          dsimp only
          split <;> rfl
        · simp at called
      · simp at called
    · simp [play] at called
    · simp at called

/--
Whenever a calibration is made, the dialogue has taken place since the latest accepted `setup`, and
the calibration is made of the means of its three measurements.
-/
theorem calibration_protocol {lib : XMatrix K} {log : LogView} {parsed : List K}
    {past : List (ImuEvent K)} {s : ImuAlg K}
    (run : Run (ImuStep lib) (ImuAlg.started lib log parsed) past s) {e : ImuEvent K} {wc ac : V3 K}
    (called : .calibration wc ac ∈ (s.event lib e).2) :
    Protocol (past ++ [e]) (s.event lib e).1.w0 wc ac := by
  obtain ⟨tested, phase, begun⟩ := ImuStep.dialogue run
  obtain ⟨imu, view, rfl, good, calibrating, ic, many, rfl, rfl, w0⟩ :=
    ImuAlg.calibration_called called
  obtain ⟨before, start, accepted, whole⟩ := sinceSetup_split (begun calibrating)
  rw [w0]
  cases phase with
  | static first second third _ _ split test turn sum count few =>
    -- This sample is the last of the 101.
    have length : (samples (third ++ [ImuEvent.sample imu view])).length = 101 := by
      have lengths := congrArg List.length sum
      simp only [List.length_map] at lengths
      simp only [samples_append, samples_sample, List.length_append, List.length_singleton]
      omega
    refine ⟨before, start, first, second, third ++ [.sample imu view], ?_, accepted, ?_, test, turn,
      length, ?_⟩
    · nth_rewrite 1 [whole]
      simp [split]
    · -- None of these events is an accepted `setup`.
      intro e member
      have member' : e ∈ sinceSetup past ∨ e = .sample imu view := by
        rw [split]
        simp only [List.mem_append, List.mem_cons] at member ⊢
        tauto
      rcases member' with earlier | rfl
      · exact sinceSetup_open e earlier
      · rfl
    · simp [sum]
  | idle no => exact absurd calibrating no
  | testing ic' | waitRotation ic' | rotation _ _ ic' | waitStatic _ _ ic' => simp [ic] at ic'

end

/-- The functions of the libraries are not asked in a calibration until its end. -/
def plainLib : XMatrix ℚ := ⟨id, id, id⟩

/-- The card works, and no log is written. -/
def quietLog : LogView := ⟨.lfSGood, false⟩

/-- A sample at rest. -/
def still : ImuEvent ℚ := .sample ⟨![0, 0, 1], 0, 0⟩ quietLog

/-- A sample of a rotation. -/
def turning : ImuEvent ℚ := .sample ⟨![0, 0, 1], ![0, 1, 0], 0⟩ quietLog

/-- A whole dialogue, up to its last sample but one. -/
def wholeDialogue : List (ImuEvent ℚ) :=
  .setup quietLog :: (List.replicate 201 still ++ .enter :: (List.replicate 101 turning ++
    .enter :: List.replicate 100 still))

/-- The state after it. -/
def almostCalibrated : ImuAlg ℚ :=
  wholeDialogue.foldl (fun s e => (s.event plainLib e).1) (ImuAlg.started plainLib quietLog [])

/-- Whether a call is one of `calibration`. -/
def ImuCall.isCalibration : ImuCall ℚ → Bool
  | .calibration _ _ => true
  | _ => false

set_option maxRecDepth 100000 in
/-- The last sample of a whole dialogue makes a calibration. -/
theorem calibration_protocol_whole :
    ∃ wc ac, .calibration wc ac ∈ (almostCalibrated.event plainLib still).2 ∧
      Protocol (wholeDialogue ++ [still]) (almostCalibrated.event plainLib still).1.w0 wc ac := by
  have some_ : (almostCalibrated.event plainLib still).2.any ImuCall.isCalibration = true := by
    decide +kernel
  -- Some call is one of `calibration`, whatever its means are.
  obtain ⟨call, member, calibrates⟩ := List.any_eq_true.mp some_
  have run : Run (ImuStep plainLib) (ImuAlg.started plainLib quietLog []) wholeDialogue
      almostCalibrated := by
    refine Run.foldl (fun (s : ImuAlg ℚ) e => (s.event plainLib e).1) ?_ wholeDialogue
    intro s e
    rfl
  cases call with
  | calibration wc ac => exact ⟨wc, ac, member, calibration_protocol run member⟩
  | setMSpeed u | mdStop | lfSendMessage | lfStop | saveCalibration ac wc | lfStart =>
    simp [ImuCall.isCalibration] at calibrates

end Teetest
