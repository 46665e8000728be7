import Teetest.Motors.Ramp

/-!
The commands "inc speed" and "dec speed", and the ticks between them.

A command adds to the speed that the last tick has set, and not to the speed that was commanded before it.
-/

namespace Teetest

open Lib

/-- What happens to the speeds of the motors. -/
inductive SpeedEvent
  | incSpeed (ms : ℕ)
  | decSpeed (ms : ℕ)
  | mdProcess (canRotateMotors : Bool) (ms : ℕ)
deriving DecidableEq

/-- The motors after an event. -/
def Motors.event (m : Motors) : SpeedEvent → Motors
  | .incSpeed ms => incSpeed ms m
  | .decSpeed ms => decSpeed ms m
  | .mdProcess use ms => mdProcess use ms m

/-- The motors after a run. -/
def Motors.run (m : Motors) (events : List SpeedEvent) : Motors := events.foldl Motors.event m

/-- What an event is meant to add to the speeds, if it is a command. -/
def SpeedEvent.step : SpeedEvent → Option ℚ
  | .incSpeed _ => some (1 / 10)
  | .decSpeed _ => some (-(1 / 10))
  | .mdProcess _ _ => none

/-- The commands of a run, as what they are meant to add. -/
def commands (events : List SpeedEvent) : List ℚ := events.filterMap SpeedEvent.step

/-- A speed cut to the range of a motor. -/
def cut (x : ℚ) : ℚ := max (-1) (min 1 x)

/-- The target that commands add up to, if nothing is lost. -/
def commanded (steps : List ℚ) : ℚ := steps.foldl (fun target step => cut (target + step)) 0

/--
A command comes when the ramp has arrived, so that it adds to the target.

It does no harm to be early when both sums lie beyond the same end of the range.
-/
def Motors.Arrived (m : Motors) (e : SpeedEvent) : Prop :=
  ∀ step ∈ e.step, ∀ i,
    (m i).mcpPrev.fSpeed = (m i).mcp.fSpeed ∨
      1 ≤ (m i).mcpPrev.fSpeed + step ∧ 1 ≤ (m i).mcp.fSpeed + step ∨
      (m i).mcpPrev.fSpeed + step ≤ -1 ∧ (m i).mcp.fSpeed + step ≤ -1

/-- Two numbers are cut to the same, if they are equal or beyond the same end. -/
theorem cut_eq_iff (x y : ℚ) : cut x = cut y ↔ x = y ∨ 1 ≤ x ∧ 1 ≤ y ∨ x ≤ -1 ∧ y ≤ -1 := by
  -- Each of the two is below the range, within it or above it.
  simp only [cut, max_def, min_def]
  grind

/-- The speed that `mcUpdate` stores. -/
theorem MotorControlParams.mcUpdate_fSpeed (p : MotorControlParams) (x : ℚ) (time : ℕ) :
    (p.mcUpdate (some x) time).fSpeed = cut x := by
  -- The lower end is looked at first, and then the upper one.
  simp only [mcUpdate, cut, max_def, min_def]
  grind

/-- A command sets each target to the momentary speed and what it adds. -/
theorem changeSpeed_target (step : ℚ) (ms : ℕ) (m : Motors) (i : Fin 2) :
    (changeSpeed step ms m i).mcp.fSpeed = cut ((m i).mcpPrev.fSpeed + step) := by
  -- Left and right motor are updated by one call each.
  fin_cases i
  · exact MotorControlParams.mcUpdate_fSpeed _ _ _
  · exact MotorControlParams.mcUpdate_fSpeed _ _ _

/-- A command leaves the mode of the motors alone. -/
theorem changeSpeed_mmode (step : ℚ) (ms : ℕ) (m : Motors) (i : Fin 2) :
    (changeSpeed step ms m i).mmode = (m i).mmode := by
  -- Neither call touches the mode.
  fin_cases i
  · rfl
  · rfl

/-- Both motors are in the mode `mLinear`. -/
def Motors.Linear (m : Motors) : Prop := ∀ i, (m i).mmode = .mLinear

variable {m : Motors}

/-- A tick leaves the targets alone. -/
theorem Motors.Linear.mdProcess_target (linear : m.Linear) (use : Bool) (ms : ℕ) (i : Fin 2) :
    (mdProcess use ms m i).mcp = (m i).mcp := by
  -- In this mode a tick moves the momentary speed, and then perhaps the pins.
  rw [mdProcess, Motor.processOutput_linear (linear i)]
  split
  · rfl
  · exact Motor.writePins_mcp _ _

/-- Every event leaves the motors in the mode `mLinear`. -/
theorem Motors.Linear.event (linear : m.Linear) (e : SpeedEvent) : (m.event e).Linear := by
  intro i
  -- No event sets a mode.
  cases e with
  | incSpeed ms => exact (changeSpeed_mmode _ _ _ _).trans (linear i)
  | decSpeed ms => exact (changeSpeed_mmode _ _ _ _).trans (linear i)
  | mdProcess use ms =>
    show (mdProcess use ms m i).mmode = _
    rw [mdProcess, Motor.processOutput_linear (linear i)]
    split
    · exact linear i
    · exact (Motor.writePins_mmode _ _).trans (linear i)

/-- Motors stay in the mode `mLinear` through a run. -/
theorem Motors.Linear.run (linear : m.Linear) (events : List SpeedEvent) :
    (m.run events).Linear := by
  induction events generalizing m with
  | nil =>
    -- The run is followed from its start, with the motors after each event.
    exact linear
  | cons e events ih => exact ih (linear.event e)

/-- What an event does to a target. -/
theorem Motors.Linear.event_target (linear : m.Linear) (e : SpeedEvent) (i : Fin 2) :
    (m.event e i).mcp.fSpeed =
      e.step.elim (m i).mcp.fSpeed fun step => cut ((m i).mcpPrev.fSpeed + step) := by
  cases e with
  | incSpeed ms =>
    -- A tick leaves the target, and no command is added.
    exact changeSpeed_target _ _ _ _
  | decSpeed ms => exact changeSpeed_target _ _ _ _
  | mdProcess use ms => exact congrArg _ (linear.mdProcess_target use ms i)

/-- The targets are what the commands of a run add up to. -/
def Motors.Obeys (m : Motors) (events : List SpeedEvent) : Prop :=
  ∀ i, (m i).mcp.fSpeed = commanded (commands events)

/-- One more event changes what the commands add up to by its own step. -/
theorem commanded_snoc (past : List SpeedEvent) (e : SpeedEvent) :
    commanded (commands (past ++ [e])) =
      e.step.elim (commanded (commands past)) fun step => cut (commanded (commands past) + step) := by
  -- A tick adds nothing to the sum.
  cases step : e.step with
  | none => simp [commands, step]
  | some x => simp [commands, commanded, step]

/-- An event keeps the targets right exactly when it is a tick, or a command that comes in time. -/
theorem Motors.Linear.obeys_event_iff (linear : m.Linear) {past : List SpeedEvent}
    (obeys : m.Obeys past) (e : SpeedEvent) :
    (m.event e).Obeys (past ++ [e]) ↔ m.Arrived e := by
  unfold Motors.Obeys Motors.Arrived
  -- Both sides are cut sums, of the momentary speed and of the target.
  simp only [linear.event_target, commanded_snoc]
  cases e.step with
  | none => simp [obeys _]
  | some step =>
    simp only [Option.elim_some, Option.mem_def, Option.some.injEq, forall_eq']
    -- For each motor, the two sums have to be cut to the same.
    refine forall_congr' fun i => ?_
    rw [← obeys i, cut_eq_iff, add_left_inj]

/-- The motors are set up in the mode `mLinear`. -/
theorem Motors.setup_linear : Motors.setup.Linear := fun _ => rfl

/-- One more event is one more step. -/
theorem Motors.run_snoc (m : Motors) (past : List SpeedEvent) (e : SpeedEvent) :
    m.run (past ++ [e]) = (m.run past).event e := by
  simp [run]

/--
The targets follow the commands through a run exactly when every command comes when the ramp has arrived.

Then they depend on the commands alone, and not on the ticks between them.
-/
theorem speed_commands_kept_iff (events : List SpeedEvent) :
    (∀ past, past <+: events → (Motors.setup.run past).Obeys past) ↔
      ∀ past e, past ++ [e] <+: events → (Motors.setup.run past).Arrived e := by
  refine forall_prefix_iff (P := fun past => (Motors.setup.run past).Obeys past) (fun i => rfl) ?_ events
  -- One more event is one more step, and the motors are in the mode `mLinear` before it.
  intro past e obeys
  rw [Motors.run_snoc]
  exact (Motors.setup_linear.run past).obeys_event_iff obeys e

/-- Two commands with the same target in two runs, one of them with the ticks that the ramp takes. -/
theorem speed_commands_lost :
    ¬ ∀ first second : List SpeedEvent, commands first = commands second →
      ∀ i, ((Motors.setup.run first) i).mcp.fSpeed = ((Motors.setup.run second) i).mcp.fSpeed := by
  intro same
  -- Without a tick between them, the second command finds the speed 0 again.
  have equal := same [.incSpeed 0, .incSpeed 0]
    [.incSpeed 0, .mdProcess true 2, .mdProcess true 4, .incSpeed 5] rfl 0
  revert equal
  decide +kernel

end Teetest
