import Teetest.Lib.Trace
import Teetest.Src.MotorDriver

/-!
The pins of a motor, and the master switch that is meant to cut it off.

A tick that finds nothing to do returns before it writes the pins, and so before it asks the switch.
-/

namespace Teetest

open Lib

/-- What the pins should be after a tick. -/
structure PinsFollow (d : Drive) : Prop where
  on : d.canRotateMotors = true → d.m.pwmPin = d.m.mcpPrev.speed
  off : d.canRotateMotors = false → d.m.pwmPin = 0
  direction : d.canRotateMotors = true → 0 < d.m.mcpPrev.speed →
    d.m.dirPin = if d.m.invDir then (if d.m.mcpPrev.dir = .LOW then .HIGH else .LOW)
      else d.m.mcpPrev.dir

/-- A motor with its switch, and the switch as it was when the pins were last written. -/
structure Watched where
  drive : Drive
  atWrite : Bool
deriving DecidableEq

/-- The state after an event. -/
def Watched.event (w : Watched) (e : DriveEvent) : Watched :=
  ⟨w.drive.event e,
    match e with
    -- a settled motor returns early
    | .processOutput _ _ => if w.drive.m.Settled then w.atWrite else w.drive.canRotateMotors
    | _ => w.atWrite⟩

/-- The step relation of a motor that is watched. -/
def WatchedStep (w : Watched) (e : DriveEvent) (w' : Watched) : Prop := w' = w.event e

/-- The state after `mdSetup`, which writes the pins with the switch on. -/
def Watched.setup (id : ℕ) : Watched := ⟨.setup id, true⟩

/-- What the pins are at any moment: as the last write left them. -/
structure Watched.Written (w : Watched) : Prop where
  linear : w.drive.m.mmode = .mLinear
  pwm : w.drive.m.pwmPin = if w.atWrite then w.drive.m.mcpPrev.speed else 0
  direction : w.atWrite = true → 0 < w.drive.m.mcpPrev.speed →
    w.drive.m.dirPin = if w.drive.m.invDir then
        (if w.drive.m.mcpPrev.dir = .LOW then .HIGH else .LOW)
      else w.drive.m.mcpPrev.dir

/-- Pins that were written with the switch as it is now are as they should be. -/
theorem Watched.Written.follow {w : Watched} (written : w.Written)
    (same : w.drive.canRotateMotors = w.atWrite) : PinsFollow w.drive := by
  obtain ⟨-, pwm, direction⟩ := written
  rw [← same] at pwm direction
  refine ⟨fun on => ?_, fun off => ?_, direction⟩
  · rw [pwm, if_pos on]
  · rw [pwm, if_neg (by simp [off])]

/-- Writing the pins writes the parameters that were set, as far as the switch allows. -/
theorem Motor.writePins_written (m : Motor) (linear : m.mmode = .mLinear) (use : Bool) :
    Watched.Written ⟨⟨m.writePins use, use⟩, use⟩ := by
  refine ⟨by simpa using linear, ?_, ?_⟩
  · -- The duty cycle is that of the motor, or none.
    cases use <;> simp [writePins]
  · rintro (on : use = true) _
    simp [writePins, on]

/-- Only a tick that has something to do writes the pins, and it notes the switch. -/
theorem Watched.Written.event {w : Watched} (written : w.Written) (e : DriveEvent) :
    (w.event e).Written := by
  cases e with
  | setSpeed mSpeed time => exact ⟨written.linear, written.pwm, written.direction⟩
  | mStop time => exact ⟨rfl, written.pwm, written.direction⟩
  | canUseMotors use => exact ⟨written.linear, written.pwm, written.direction⟩
  | processOutput ms mc_u =>
    simp only [Watched.event, Drive.event]
    rw [Motor.processOutput_linear written.linear]
    by_cases settled : w.drive.m.Settled
    · -- Nothing is written, and nothing is noted.
      rw [if_pos settled, if_pos settled]
      exact written
    · rw [if_neg settled, if_neg settled]
      exact Motor.writePins_written { w.drive.m with mcpPrev := w.drive.m.ramped ms }
        written.linear _

/-- The pins are as the last write left them after every run. -/
theorem WatchedStep.written {id : ℕ} {events : List DriveEvent} {w : Watched}
    (run : Run WatchedStep (.setup id) events w) : w.Written := by
  refine run.invariant (P := Watched.Written) ?_ ?_
  · exact ⟨rfl, rfl, fun _ positive => absurd positive (lt_irrefl _)⟩
  · rintro w e w' written rfl
    exact written.event e

/--
After a tick the pins follow the motor and the switch exactly if the tick had something to do, or
the switch is as it was at the last write, or the motor stands.
-/
theorem pins_follow_iff {id : ℕ} {events : List DriveEvent} {w : Watched}
    (run : Run WatchedStep (.setup id) events w) (ms : ℕ) (mc_u : Option ℚ) :
    PinsFollow (w.drive.event (.processOutput ms mc_u)) ↔
      (w.drive.m.Settled → w.drive.canRotateMotors = w.atWrite ∨ w.drive.m.mcpPrev.speed = 0) := by
  have written := WatchedStep.written run
  simp only [Drive.event]
  rw [Motor.processOutput_linear written.linear]
  by_cases settled : w.drive.m.Settled
  · -- The tick returns early, so the pins are as the last write left them.
    rw [if_pos settled]
    have pwm := written.pwm
    constructor
    · intro follows _
      cases switch : w.drive.canRotateMotors with
      | true =>
        have now := follows.on switch
        cases noted : w.atWrite with
        | true => exact .inl rfl
        | false =>
          rw [noted] at pwm
          exact .inr (now.symm.trans pwm)
      | false =>
        have now := follows.off switch
        cases noted : w.atWrite with
        | true =>
          rw [noted] at pwm
          exact .inr (pwm.symm.trans now)
        | false => exact .inl rfl
    · intro condition
      rcases condition settled with same | stands
      · exact written.follow same
      · -- Whatever the switch was, a motor that stands has no duty cycle.
        have none_ : w.drive.m.pwmPin = 0 := by simpa [stands] using pwm
        exact ⟨fun _ => none_.trans stands.symm, fun _ => none_,
          fun _ positive => absurd stands positive.ne'⟩
  · rw [if_neg settled]
    refine ⟨fun _ found => absurd found settled, fun _ => ?_⟩
    -- The tick writes the pins with the switch as it is.
    exact (Motor.writePins_written { w.drive.m with mcpPrev := w.drive.m.ramped ms }
      written.linear w.drive.canRotateMotors).follow rfl

/-- While a motor speeds up, switching it off takes effect with the next tick. -/
theorem pins_follow_ramp :
    PinsFollow ((((Drive.setup 1).event (.setSpeed (some 1) 0)).event (.canUseMotors false)).event
      (.processOutput 2 none)) := by
  have run : Run WatchedStep (.setup 1) [.setSpeed (some 1) 0, .canUseMotors false]
      (((Watched.setup 1).event (.setSpeed (some 1) 0)).event (.canUseMotors false)) :=
    (Run.single rfl).tail rfl
  exact (pins_follow_iff run 2 none).mpr fun settled => absurd settled (by decide +kernel)

/-- A motor that runs at a steady speed keeps running when it is switched off. -/
theorem steady_motor_runs_on :
    ¬ ∀ (events : List DriveEvent) (w : Watched), Run WatchedStep (.setup 1) events w →
      ∀ ms mc_u, PinsFollow (w.drive.event (.processOutput ms mc_u)) := by
  intro follow
  have run : Run WatchedStep (.setup 1)
      [.setSpeed (some fStep) 0, .processOutput 2 none, .canUseMotors false]
      ((((Watched.setup 1).event (.setSpeed (some fStep) 0)).event (.processOutput 2 none)).event
        (.canUseMotors false)) :=
    ((Run.single rfl).tail rfl).tail rfl
  -- One step reached the speed, and no later tick has anything to do.
  exact absurd ((follow _ _ run 4 none).off rfl) (by decide +kernel)

end Teetest
