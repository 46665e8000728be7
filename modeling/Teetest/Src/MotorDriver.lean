import Mathlib.Tactic

/-!
The motors of motordriver.cpp: the commanded and the remembered speed, and the tick between them.

Speeds are rational numbers here, and a missing number stands for NaN.
-/

namespace Teetest

/-- `LOW` and `HIGH`, the levels of a digital pin. -/
inductive Level
  | LOW | HIGH
deriving DecidableEq

/-- `MMODE` of motordriver.h. -/
inductive MMODE
  | mSimple | mLinear | mAngle
deriving DecidableEq

/-- `maxPWM` of teetools.h, for a resolution of 13 bits. -/
def maxPWM : ℕ := 2 ^ 13 - 1

/-- `maxMotorPWM`, the part of it that the motors may use. -/
def maxMotorPWM : ℤ := ⌊(maxPWM : ℚ) * (95 / 100)⌋

/-- `mdProcessRate`, the milliseconds between two ticks. -/
def mdProcessRate : ℚ := 2

/-- `accTime`, the milliseconds of an acceleration from 0 to 1. -/
def accTime : ℚ := 25

/-- `fStep`, the change of speed in one tick. -/
def fStep : ℚ := mdProcessRate / accTime

/-- The conversion of a floating-point number to an `int`, which cuts off its fraction. -/
def truncate (x : ℚ) : ℤ := if 0 ≤ x then ⌊x⌋ else ⌈x⌉

/-- `MotorControlParams` of motordriver.h. -/
structure MotorControlParams where
  speed : ℤ
  dir : Level
  ms : ℕ
  fSpeed : ℚ
deriving DecidableEq

/-- The constructor of `MotorControlParams`. -/
def MotorControlParams.init : MotorControlParams := ⟨0, .LOW, 0, 0⟩

/-- `mcUpdate`. -/
def MotorControlParams.mcUpdate (p : MotorControlParams) (mSpeed : Option ℚ) (time : ℕ) :
    MotorControlParams :=
  match mSpeed with
  -- `mSpeed != mSpeed`
  | none => p
  | some mSpeed =>
    let mSpeed := if mSpeed < -1 then -1 else mSpeed
    let mSpeed := if mSpeed > 1 then 1 else mSpeed
    let dirCopy := if mSpeed = 0 then p.dir else if mSpeed > 0 then .LOW else .HIGH
    let speedCopy :=
      if mSpeed = 0 then 0
      else if mSpeed > 0 then truncate (mSpeed * maxMotorPWM)
      else truncate (mSpeed * maxMotorPWM) * -1
    let speedCopy := if speedCopy > maxMotorPWM then maxMotorPWM else speedCopy
    let speedCopy := if speedCopy < 0 then 0 else speedCopy
    ⟨speedCopy, dirCopy, time, mSpeed⟩

/-- The members of `Motor` that the control of its pins uses, and what was last written to the pins. -/
structure Motor where
  mmode : MMODE
  -- the commanded parameters
  mcp : MotorControlParams
  -- the parameters that the last tick set
  mcpPrev : MotorControlParams
  invDir : Bool
  pwmPin : ℤ
  dirPin : Level
deriving DecidableEq

/-- A motor after its constructor and `mSetup`, which inverts the direction of every second motor. -/
def Motor.setup (id : ℕ) : Motor :=
  ⟨.mLinear, .init, .init, id % 2 == 0, MotorControlParams.init.speed, MotorControlParams.init.dir⟩

/-- `setSpeed`. -/
def Motor.setSpeed (m : Motor) (mSpeed : Option ℚ) (time : ℕ) : Motor :=
  { m with mcp := m.mcp.mcUpdate mSpeed time }

/-- `mStop`, at the given time. -/
def Motor.mStop (m : Motor) (time : ℕ) : Motor :=
  { m with mmode := .mLinear, mcp := m.mcp.mcUpdate (some 0) time }

/-- Nothing is left to do: the integer speed and the direction are as commanded. -/
def Motor.Settled (m : Motor) : Prop :=
  m.mcpPrev.speed = m.mcp.speed ∧ m.mcpPrev.dir = m.mcp.dir

instance (m : Motor) : Decidable m.Settled := inferInstanceAs (Decidable (_ ∧ _))

/-- One step of a speed towards another. -/
def rampTo (x target : ℚ) : ℚ :=
  if x < target then
    let y := x + fStep
    if y > target then target else y
  else
    let y := x - fStep
    if y < target then target else y

/-- The end of `processOutput`, where the pins are written. -/
def Motor.writePins (m : Motor) (canRotateMotors : Bool) : Motor :=
  if canRotateMotors then
    { m with
      pwmPin := m.mcpPrev.speed
      dirPin := if m.invDir then (if m.mcpPrev.dir = .LOW then .HIGH else .LOW) else m.mcpPrev.dir }
  else { m with pwmPin := 0 }

/-- `processOutput`; `mc_u` is the output of the regulator, which only the mode `mAngle` asks for. -/
def Motor.processOutput (m : Motor) (canRotateMotors : Bool) (ms : ℕ) (mc_u : Option ℚ) : Motor :=
  match m.mmode with
  | .mSimple =>
    if m.Settled then m else { m with mcpPrev := m.mcp }.writePins canRotateMotors
  | .mLinear =>
    if m.Settled then m
    else if m.mcpPrev.fSpeed = m.mcp.fSpeed then
      { m with mcpPrev := m.mcp }.writePins canRotateMotors
    else
      { m with mcpPrev := m.mcpPrev.mcUpdate (some (rampTo m.mcpPrev.fSpeed m.mcp.fSpeed)) ms
        }.writePins canRotateMotors
  | .mAngle => { m with mcpPrev := m.mcpPrev.mcUpdate mc_u ms }.writePins canRotateMotors

/-- A motor and the master switch of the motors. -/
structure Drive where
  m : Motor
  canRotateMotors : Bool
deriving DecidableEq

/-- What happens to a motor. -/
inductive DriveEvent
  | setSpeed (mSpeed : Option ℚ) (time : ℕ)
  | mStop (time : ℕ)
  | canUseMotors (use : Bool)
  | processOutput (ms : ℕ) (mc_u : Option ℚ)

/-- The state after an event. -/
def Drive.event (d : Drive) : DriveEvent → Drive
  | .setSpeed mSpeed time => { d with m := d.m.setSpeed mSpeed time }
  | .mStop time => { d with m := d.m.mStop time }
  | .canUseMotors use => { d with canRotateMotors := use }
  | .processOutput ms mc_u => { d with m := d.m.processOutput d.canRotateMotors ms mc_u }

/-- The step relation of a motor. -/
def DriveStep (d : Drive) (e : DriveEvent) (d' : Drive) : Prop := d' = d.event e

/-- The state after `mdSetup`. -/
def Drive.setup (id : ℕ) : Drive := ⟨.setup id, true⟩

/-- `Motor m[2]`. -/
abbrev Motors := Fin 2 → Motor

/-- `setMSpeed`. -/
def setMSpeed (m1Speed m2Speed : Option ℚ) (ms : ℕ) (m : Motors) : Motors :=
  ![(m 0).setSpeed m1Speed ms, (m 1).setSpeed m2Speed ms]

/-- `getMSpeed`: the speeds that the last tick set. -/
def getMSpeed (m : Motors) : ℚ × ℚ := ((m 0).mcpPrev.fSpeed, (m 1).mcpPrev.fSpeed)

/-- `mdProcess` at a time when both motors come to their `processOutput`, in the mode `mLinear`. -/
def mdProcess (canRotateMotors : Bool) (ms : ℕ) (m : Motors) : Motors :=
  fun i => (m i).processOutput canRotateMotors ms none

/-- The commands of `processTheCommand` that add to both speeds. -/
def changeSpeed (step : ℚ) (ms : ℕ) (m : Motors) : Motors :=
  let speeds := getMSpeed m
  setMSpeed (some (speeds.1 + step)) (some (speeds.2 + step)) ms m

/-- "inc speed". -/
def incSpeed (ms : ℕ) (m : Motors) : Motors := changeSpeed (1 / 10) ms m

/-- "dec speed". -/
def decSpeed (ms : ℕ) (m : Motors) : Motors := changeSpeed (-(1 / 10)) ms m

/-- The motors after `mdSetup`. -/
def Motors.setup : Motors := fun i => .setup (i + 1)

/-- NaN changes nothing. -/
@[simp] theorem MotorControlParams.mcUpdate_none (p : MotorControlParams) (time : ℕ) :
    p.mcUpdate none time = p := rfl

/-- The range of the duty cycle. -/
theorem maxMotorPWM_eq : maxMotorPWM = 7781 := by
  -- 95 per cent of 8191, without the fraction.
  rw [maxMotorPWM, Int.floor_eq_iff]
  norm_num [maxPWM]

/-- A step of the ramp has a length. -/
theorem fStep_pos : 0 < fStep := by
  norm_num [fStep, mdProcessRate, accTime]

/-- Writing the pins changes nothing else. -/
@[simp] theorem Motor.writePins_mcp (m : Motor) (use : Bool) : (m.writePins use).mcp = m.mcp := by
  unfold writePins
  split <;> rfl

@[simp] theorem Motor.writePins_mcpPrev (m : Motor) (use : Bool) :
    (m.writePins use).mcpPrev = m.mcpPrev := by
  unfold writePins
  split <;> rfl

@[simp] theorem Motor.writePins_mmode (m : Motor) (use : Bool) :
    (m.writePins use).mmode = m.mmode := by
  unfold writePins
  split <;> rfl

@[simp] theorem Motor.writePins_invDir (m : Motor) (use : Bool) :
    (m.writePins use).invDir = m.invDir := by
  unfold writePins
  split <;> rfl

/-- The parameters that a tick in the mode `mLinear` sets when something is left to do. -/
def Motor.ramped (m : Motor) (ms : ℕ) : MotorControlParams :=
  if m.mcpPrev.fSpeed = m.mcp.fSpeed then m.mcp
  else m.mcpPrev.mcUpdate (some (rampTo m.mcpPrev.fSpeed m.mcp.fSpeed)) ms

/-- A tick in the mode `mLinear` returns early, or it ramps and writes the pins. -/
theorem Motor.processOutput_linear {m : Motor} (linear : m.mmode = .mLinear) (use : Bool) (ms : ℕ)
    (mc_u : Option ℚ) :
    m.processOutput use ms mc_u =
      if m.Settled then m else { m with mcpPrev := m.ramped ms }.writePins use := by
  simp only [processOutput, linear, ramped]
  -- The two branches that go on differ only in the parameters they set.
  split_ifs <;> rfl

/-- A motor that is set up stays in the mode `mLinear`. -/
theorem DriveStep.linear {d d' : Drive} {e : DriveEvent} (linear : d.m.mmode = .mLinear)
    (step : DriveStep d e d') : d'.m.mmode = .mLinear := by
  subst step
  cases e with
  | setSpeed mSpeed time => exact linear
  | mStop time => rfl
  | canUseMotors use => exact linear
  | processOutput ms mc_u =>
    -- Neither an early return nor a ramp changes the mode.
    show (d.m.processOutput _ ms mc_u).mmode = _
    rw [Motor.processOutput_linear linear]
    split
    · exact linear
    · simpa using linear

end Teetest
