import Teetest.Src.MotorControl
import Teetest.Src.MotorDriver

/-!
The interrupt of the motors in motordriver.cpp: what `mProcess` does around the writing of the pins.

The encoder and the regulator compute with rational numbers. The constant `pii` and the fit of a
parabola come from a library and are parameters.
-/

namespace Teetest

/-- `MState` of motordriver.h. -/
inductive MState
  | msCalibrate | msWork
deriving DecidableEq

/-- `calibrationTime`, in milliseconds. -/
def calibrationTime : UInt32 := 100

/-- `a2ma`, the milliamperes of a step of the converter. -/
def a2ma : ℚ := 50 * 3300 / 1023

/-- A motor with the members that `mProcess` reads and writes. -/
structure MotorUnit where
  motor : Motor
  mState : MState
  -- supposed to be a milliseconds counter
  processCounter : UInt32
  current : Int32
  currentOffset : Int32
  fCurrent : ℚ
  maxFCurrent : ℚ
  bigCurrentFlag : Bool
  bigCurrentCounter : UInt32
  encPos : ℤ
  est : EncSpeed ℚ
  pid : PID ℚ
  df : ℚ
  changeAngleFlag : Bool
  targetEnc : ℤ
  mc_e : ℚ
  mc_u : ℚ

section

variable (pii : ℚ) (parabola_appr : List ℚ → List ℚ → ℚ × ℚ × ℚ)

/-- A motor after its constructor, `mSoftReset` and `mSetup`. -/
def MotorUnit.mSetup (id : ℕ) : MotorUnit where
  motor := .setup id
  mState := .msCalibrate
  processCounter := 0
  current := 0
  currentOffset := 0
  fCurrent := 0
  maxFCurrent := 0
  bigCurrentFlag := false
  bigCurrentCounter := 0
  encPos := 0
  est := EncSpeed.mSoftReset ⟨[], 0, 0⟩
  pid := .init pii
  df := 0
  changeAngleFlag := false
  targetEnc := 0
  mc_e := 0
  mc_u := 0

/-- `encPos = enc.read()`, with its sign; the negation of -2^31, which overflows in the source, is exact. -/
def MotorUnit.readEnc (u : MotorUnit) (read : ℤ) : MotorUnit :=
  { u with encPos := if u.motor.invDir then read else -read }

/-- The current at the beginning of `processOutput`. -/
def MotorUnit.checkCurrent (u : MotorUnit) : MotorUnit :=
  let fCurrent := ((u.current - u.currentOffset).toInt : ℚ) * a2ma
  let u := { u with fCurrent, maxFCurrent := if fCurrent > u.maxFCurrent then fCurrent else u.maxFCurrent }
  if fCurrent > 4000 then
    { u with bigCurrentFlag := true, bigCurrentCounter := u.bigCurrentCounter + 1 }
  else { u with bigCurrentFlag := false }

/-- `processOutput`. -/
def MotorUnit.processOutput (u : MotorUnit) (canRotateMotors : Bool) (ms : UInt32) (read : ℤ) :
    MotorUnit :=
  let u := u.checkCurrent
  match u.motor.mmode with
  | .mAngle =>
    let u := if u.processCounter % encReadRate.toUInt32 ≠ 0 then u.readEnc read else u
    let mc_e := ((u.targetEnc - u.encPos : ℤ) : ℚ) * encTicks2Radians pii
    let pid := u.pid.u mc_e u.est.encSpeed ms
    { u with mc_e, pid, mc_u := pid.ret,
             motor := u.motor.processOutput canRotateMotors ms.toNat (some pid.ret) }
  -- `mSimple` and `mLinear` do not ask for the regulator
  | _ => { u with motor := u.motor.processOutput canRotateMotors ms.toNat none }

/-- The measurement of the current's offset. -/
def MotorUnit.calibrate (u : MotorUnit) : MotorUnit :=
  match u.mState with
  | .msCalibrate =>
    let u := { u with currentOffset := u.currentOffset + u.current }
    if u.processCounter ≥ calibrationTime then
      { u with currentOffset := (u.currentOffset.toUInt32 / u.processCounter).toInt32
               mState := .msWork }
    else u
  | .msWork => u

/-- The reading of the encoder, the estimate of the speed and the target angle. -/
def MotorUnit.processEnc (u : MotorUnit) (read : ℤ) : MotorUnit :=
  let u := u.readEnc read
  let u := { u with est := (u.est.rAdd u.encPos).updateEncSpeed pii parabola_appr }
  if u.changeAngleFlag then
    { u with changeAngleFlag := false, targetEnc := truncate (u.encPos + u.df / encTicks2Radians pii) }
  else u

/-- `mProcess`. -/
def MotorUnit.mProcess (u : MotorUnit) (canRotateMotors : Bool) (ms : UInt32) (read : ℤ) : MotorUnit :=
  let u := { u with processCounter := u.processCounter + 1 }
  let u := u.calibrate
  let u := if u.processCounter % encReadRate.toUInt32 = 0 then u.processEnc pii parabola_appr read else u
  -- the rate of the outputs is that of the encoder
  if u.processCounter % 2 = 0 ∧ u.mState = .msWork then u.processOutput pii canRotateMotors ms read
  else u

/-- `Motor m[2]` and `canRotateMotors`. -/
structure MotorBoard where
  m : Fin 2 → MotorUnit
  canRotateMotors : Bool

/-- What happens to the motors: their interrupt, or a part of the rest of the program. -/
inductive MotorEvent
  -- `mdProcess`, with what the encoders read
  | mdProcess (ms : UInt32) (read : Fin 2 → ℤ)
  | setSpeed (i : Fin 2) (mSpeed : Option ℚ) (time : ℕ)
  | mStop (i : Fin 2) (time : ℕ)
  | canUseMotors (use : Bool)
  -- the two assignments of `changeAngle`, which the interrupt may come between
  | df (i : Fin 2) (a : ℚ)
  | changeAngleFlag (i : Fin 2)

/-- The state after `mdSetup`. -/
def MotorBoard.mdSetup : MotorBoard := ⟨fun i => .mSetup pii (i + 1), true⟩

/-- A change of one of the motors. -/
def MotorBoard.change (b : MotorBoard) (i : Fin 2) (f : MotorUnit → MotorUnit) : MotorBoard :=
  { b with m := fun j => if j = i then f (b.m j) else b.m j }

/-- The state after an event. -/
def MotorBoard.event (b : MotorBoard) : MotorEvent → MotorBoard
  | .mdProcess ms read =>
    { b with m := fun i => (b.m i).mProcess pii parabola_appr b.canRotateMotors ms (read i) }
  | .setSpeed i mSpeed time => b.change i fun u => { u with motor := u.motor.setSpeed mSpeed time }
  | .mStop i time => b.change i fun u => { u with motor := u.motor.mStop time }
  | .canUseMotors use => { b with canRotateMotors := use }
  | .df i a => b.change i fun u => { u with df := a }
  | .changeAngleFlag i => b.change i fun u => { u with changeAngleFlag := true }

/-- The state after a run from `mdSetup`. -/
def MotorBoard.run (events : List MotorEvent) : MotorBoard :=
  events.foldl (MotorBoard.event pii parabola_appr) (.mdSetup pii)

end

end Teetest
