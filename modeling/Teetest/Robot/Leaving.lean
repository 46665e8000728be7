import Teetest.Motors.Ramp
import Teetest.Robot.Balance

/-!
The robot as a whole: its state, the commands that change it, and the motors they leave behind.

A speed that was commanded stays commanded until somebody takes it back.
-/

namespace Teetest

open Lib

/-- The algorithm, the two motors and their master switch. -/
structure Robot where
  imu : ImuAlg ℚ
  m₀ : Motor
  m₁ : Motor
  canRotateMotors : Bool

/-- `setMSpeed`. -/
def Robot.setMSpeed (r : Robot) (m1Speed m2Speed : ℚ) (ms : ℕ) : Robot :=
  { r with m₀ := r.m₀.setSpeed (some m1Speed) ms, m₁ := r.m₁.setSpeed (some m2Speed) ms }

/-- `getMSpeed`. -/
def Robot.getMSpeed (r : Robot) : ℚ × ℚ := (r.m₀.mcpPrev.fSpeed, r.m₁.mcpPrev.fSpeed)

/-- `mdStop`. -/
def Robot.mdStop (r : Robot) (ms : ℕ) : Robot := { r with m₀ := r.m₀.mStop ms, m₁ := r.m₁.mStop ms }

/-- The effect of a call of the algorithm on the motors. -/
def Robot.call (ms : ℕ) (r : Robot) : ImuCall ℚ → Robot
  | .setMSpeed u => r.setMSpeed u u ms
  | .mdStop => r.mdStop ms
  | _ => r

/-- What happens to the robot, at a given time. -/
inductive RobotEvent
  | imu (e : ImuEvent ℚ)
  | incSpeed
  | decSpeed
  | canUseMotors (use : Bool)
  | processOutput (mc_u₀ mc_u₁ : Option ℚ)

/-- The state after an event. -/
def Robot.event (lib : XMatrix ℚ) (r : Robot) (ms : ℕ) : RobotEvent → Robot
  | .imu e =>
    let (imu, calls) := r.imu.event lib e
    calls.foldl (Robot.call ms) { r with imu := imu }
  | .incSpeed => r.setMSpeed (r.getMSpeed.1 + 1 / 10) (r.getMSpeed.2 + 1 / 10) ms
  | .decSpeed => r.setMSpeed (r.getMSpeed.1 - 1 / 10) (r.getMSpeed.2 - 1 / 10) ms
  | .canUseMotors use => { r with canRotateMotors := use }
  | .processOutput mc_u₀ mc_u₁ =>
    { r with
      m₀ := r.m₀.processOutput r.canRotateMotors ms mc_u₀
      m₁ := r.m₁.processOutput r.canRotateMotors ms mc_u₁ }

/-- The state after a list of events. -/
def Robot.events (lib : XMatrix ℚ) (r : Robot) (es : List (RobotEvent × ℕ)) : Robot :=
  es.foldl (fun r e => r.event lib e.2 e.1) r

/-- The state after the setup of motors and algorithm. -/
def Robot.setup (lib : XMatrix ℚ) (log : LogView) (parsed : List ℚ) : Robot :=
  ⟨.started lib log parsed, .setup 1, .setup 2, true⟩

/-- Both motors are told to stand. -/
def Robot.Stopped (r : Robot) : Prop := r.m₀.mcp.fSpeed = 0 ∧ r.m₁.mcp.fSpeed = 0

instance (r : Robot) : Decidable r.Stopped := inferInstanceAs (Decidable (_ ∧ _))

/-- An event ends the balancing. -/
def Robot.Leaves (lib : XMatrix ℚ) (r : Robot) (e : RobotEvent × ℕ) : Prop :=
  r.imu.rState = .rsPlay ∧ (r.event lib e.2 e.1).imu.rState ≠ .rsPlay

/-- The algorithm's calls do not reach back into the algorithm. -/
theorem Robot.calls_imu (ms : ℕ) (calls : List (ImuCall ℚ)) (r : Robot) :
    (calls.foldl (Robot.call ms) r).imu = r.imu := by
  induction calls generalizing r with
  | nil => rfl
  | cons call calls ih =>
    rw [List.foldl_cons, ih]
    cases call <;> rfl

/-- A motor that is told to stop is told to stand. -/
theorem Motor.mStop_fSpeed (m : Motor) (time : ℕ) : (m.mStop time).mcp.fSpeed = 0 := by
  show (m.mcp.mcUpdate (some 0) time).fSpeed = 0
  -- A speed of zero is within the bounds.
  rw [m.mcp.mcUpdate_some (by norm_num) (by norm_num)]

/-- While balancing, a sample changes neither the state of the robot nor makes another call. -/
theorem ImuAlg.sample_playing {s : ImuAlg ℚ} (playing : s.rState = .rsPlay) (lib : XMatrix ℚ)
    (imu : XIMUData ℚ) (log : LogView) : (s.imuAlgFeed lib imu log).1.rState = .rsPlay := by
  unfold imuAlgFeed
  split
  · rw [staticTest_rState]
    exact playing
  · rw [staticTest_rState]
    exact playing
  · exact playing
  · -- Balancing calls the motors, and that is all.
    rw [playing]
    exact playing

/-- Who ends the balancing leaves standing motors exactly if it is `stop`, or they stood before. -/
theorem Robot.leaves_stopped_iff {lib : XMatrix ℚ} {r : Robot} {e : RobotEvent × ℕ}
    (leaves : r.Leaves lib e) :
    (r.event lib e.2 e.1).Stopped ↔ e.1 = .imu .stop ∨ r.Stopped := by
  obtain ⟨e, ms⟩ := e
  obtain ⟨playing, left⟩ := leaves
  cases e with
  | incSpeed | decSpeed | canUseMotors use | processOutput mc_u₀ mc_u₁ =>
    -- None of these touches the state of the robot.
    exact absurd playing left
  | imu e =>
    have moved : (r.imu.event lib e).1.rState ≠ .rsPlay := by
      simpa only [Robot.event, Robot.calls_imu] using left
    cases e with
    | setup log =>
      -- A calibration begins, and the motors keep what they were told.
      have same : (r.event lib ms (.imu (.setup log))).Stopped ↔ r.Stopped := Iff.rfl
      rw [same]
      simp
    | enter =>
      -- `enter` has an effect during a calibration alone.
      refine absurd ?_ moved
      show r.imu.nextImuCalibration.rState = _
      rcases r.imu.nextImuCalibration_cases with same | ⟨calibrating, -⟩ | ⟨calibrating, -⟩
      · rw [same, playing]
      · simp [playing] at calibrating
      · simp [playing] at calibrating
    | play =>
      refine absurd ?_ moved
      simp only [ImuAlg.event, ImuAlg.rStay]
      split
      · exact playing
      · rfl
    | stop =>
      refine iff_of_true ?_ (.inl rfl)
      exact ⟨r.m₀.mStop_fSpeed ms, r.m₁.mStop_fSpeed ms⟩
    | sample imu log => exact absurd (ImuAlg.sample_playing playing lib imu log) moved

/--
In every run, whatever ends the balancing leaves standing motors, exactly if everything that ends
the balancing in this run is a `stop`, or finds the motors told to stand.
-/
theorem leaving_stops_iff (lib : XMatrix ℚ) (log : LogView) (parsed : List ℚ)
    (run : List (RobotEvent × ℕ)) :
    (∀ past e later, run = past ++ e :: later →
        ((Robot.setup lib log parsed).events lib past).Leaves lib e →
        ((Robot.setup lib log parsed).events lib (past ++ [e])).Stopped) ↔
      ∀ past e later, run = past ++ e :: later →
        ((Robot.setup lib log parsed).events lib past).Leaves lib e →
        e.1 = .imu .stop ∨ ((Robot.setup lib log parsed).events lib past).Stopped := by
  -- The state behind one event more is that of the event.
  have last (r : Robot) (past : List (RobotEvent × ℕ)) (e : RobotEvent × ℕ) :
      r.events lib (past ++ [e]) = (r.events lib past).event lib e.2 e.1 := by
    simp [Robot.events]
  constructor
  · intro stops past e later split leaves
    rw [← Robot.leaves_stopped_iff leaves, ← last]
    exact stops past e later split leaves
  · intro condition past e later split leaves
    rw [last, Robot.leaves_stopped_iff leaves]
    exact condition past e later split leaves

/-- The robot balances, is turned once, and is then told to calibrate. -/
def setupWhilePlaying : List (RobotEvent × ℕ) :=
  playEvents.map (fun e => (.imu e, 0)) ++ [(.imu turning, 0)]

set_option maxRecDepth 100000 in
/-- A `setup` while balancing leaves the wheels running. -/
theorem setup_runs_on : ¬ ∀ (run past : List (RobotEvent × ℕ)) (e : RobotEvent × ℕ)
    (later : List (RobotEvent × ℕ)), run = past ++ e :: later →
      ((Robot.setup plainLib quietLog [0, 0, 1, 0, 1, 0]).events plainLib past).Leaves plainLib e →
      ((Robot.setup plainLib quietLog [0, 0, 1, 0, 1, 0]).events plainLib (past ++ [e])).Stopped := by
  intro stops
  have stopped := stops (setupWhilePlaying ++ [(.imu (.setup quietLog), 0)]) setupWhilePlaying
    (.imu (.setup quietLog), 0) [] rfl ⟨by decide +kernel, by decide +kernel⟩
  exact absurd stopped (by decide +kernel)

end Teetest
