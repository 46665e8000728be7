import Teetest.Lib.Refine
import Teetest.Motors.Encoder
import Teetest.Motors.Ramp
import Teetest.Src.MotorProcess

/-!
The interrupt of the motors over whole runs: when it writes the pins, and what it never listens to.

No part of the program sets the mode `mAngle` and no one measures the current, so the regulator, the
target angle and the alarm of the current never come into play.
-/

namespace Teetest

open Lib

section

variable {u : MotorUnit}

/-- What is true of a motor after a number of interrupts. -/
structure MotorUnit.After (u : MotorUnit) (n : ℕ) : Prop where
  linear : u.motor.mmode = .mLinear
  counter : u.processCounter = UInt32.ofNat n
  calibrated : u.mState = if 100 ≤ n then .msWork else .msCalibrate
  current : u.current = 0
  offset : u.currentOffset = 0

/-- The counter tells the parity of the number of interrupts even when it wraps around. -/
theorem even_counter (n : ℕ) : UInt32.ofNat n % 2 = 0 ↔ n % 2 = 0 := by
  rw [← UInt32.toNat_inj, UInt32.toNat_mod, UInt32.toNat_ofNat']
  show n % 2 ^ 32 % 2 = 0 ↔ n % 2 = 0
  omega

/-- What the checks around `processOutput` leave alone. -/
@[simp] theorem MotorUnit.checkCurrent_motor : u.checkCurrent.motor = u.motor := by
  unfold checkCurrent
  dsimp only
  split <;> rfl

@[simp] theorem MotorUnit.checkCurrent_est : u.checkCurrent.est = u.est := by
  unfold checkCurrent
  dsimp only
  split <;> rfl

/-- The current is never measured. -/
theorem MotorUnit.After.no_current {n : ℕ} (after : u.After n) :
    ((u.current - u.currentOffset).toInt : ℚ) * a2ma = 0 := by
  rw [after.current, after.offset]
  exact zero_mul _

/-- The checks around `processOutput` leave the counters alone. -/
theorem MotorUnit.After.checkCurrent {n : ℕ} (after : u.After n) : u.checkCurrent.After n := by
  unfold MotorUnit.checkCurrent
  dsimp only
  split <;> exact ⟨after.linear, after.counter, after.calibrated, after.current, after.offset⟩

variable (pii : ℚ) (parabola_appr : List ℚ → List ℚ → ℚ × ℚ × ℚ)

/-- In the mode `mLinear` the output is that of the motor alone. -/
theorem MotorUnit.processOutput_linear (linear : u.motor.mmode = .mLinear) (use : Bool) (ms : UInt32)
    (read : ℤ) :
    u.processOutput pii use ms read =
      { u.checkCurrent with motor := u.motor.processOutput use ms.toNat none } := by
  simp only [processOutput, checkCurrent_motor, linear]

/-- The measurement of the offset leaves the motor and its encoder alone. -/
@[simp] theorem MotorUnit.calibrate_motor : u.calibrate.motor = u.motor := by
  unfold calibrate
  dsimp only
  split
  · split <;> rfl
  · rfl

@[simp] theorem MotorUnit.calibrate_est : u.calibrate.est = u.est := by
  unfold calibrate
  dsimp only
  split
  · split <;> rfl
  · rfl

/-- The interrupt counts, and its hundredth run ends the calibration. -/
theorem MotorUnit.After.calibrate {n : ℕ} (after : u.After n) :
    ({ u with processCounter := u.processCounter + 1 } : MotorUnit).calibrate.After (n + 1) := by
  have counter : u.processCounter + 1 = UInt32.ofNat (n + 1) := by
    rw [after.counter, UInt32.ofNat_add]
    rfl
  have state := after.calibrated
  unfold MotorUnit.calibrate
  by_cases done : 100 ≤ n
  · rw [if_pos done] at state
    have still : (if 100 ≤ n + 1 then MState.msWork else .msCalibrate) = .msWork :=
      if_pos (Nat.le_succ_of_le done)
    simp only [state]
    exact ⟨after.linear, counter, still.symm, after.current, after.offset⟩
  · rw [if_neg done] at state
    -- Below a hundred the counter has not wrapped around.
    have reached : u.processCounter + 1 ≥ calibrationTime ↔ 100 ≤ n + 1 := by
      rw [counter, ge_iff_le, UInt32.le_iff_toNat_le, UInt32.toNat_ofNat']
      show 100 ≤ (n + 1) % 2 ^ 32 ↔ _
      omega
    simp only [state]
    split
    · rename_i now
      refine ⟨after.linear, counter, (if_pos (reached.mp now)).symm, after.current, ?_⟩
      -- Nothing was added up, and nothing is divided.
      show ((u.currentOffset + u.current).toUInt32 / (u.processCounter + 1)).toInt32 = 0
      rw [after.current, after.offset]
      exact congrArg UInt32.toInt32 UInt32.zero_div
    · rename_i later
      refine ⟨after.linear, counter, ?_, after.current, ?_⟩
      · exact (if_neg fun now => later (reached.mpr now)).symm
      · show u.currentOffset + u.current = 0
        rw [after.current, after.offset]
        rfl

/-- The encoder's position, with the sign of its motor. -/
def MotorUnit.position (u : MotorUnit) (read : ℤ) : ℤ := if u.motor.invDir then read else -read

/-- Reading the encoder feeds the estimate, and leaves the outputs alone. -/
theorem MotorUnit.processEnc_est (read : ℤ) :
    (u.processEnc pii parabola_appr read).est =
      (u.est.rAdd (u.position read)).updateEncSpeed pii parabola_appr := by
  unfold processEnc
  dsimp only
  split <;> rfl

@[simp] theorem MotorUnit.processEnc_motor (read : ℤ) :
    (u.processEnc pii parabola_appr read).motor = u.motor := by
  unfold processEnc
  dsimp only
  split <;> rfl

theorem MotorUnit.After.processEnc {n : ℕ} (after : u.After n) (read : ℤ) :
    (u.processEnc pii parabola_appr read).After n := by
  unfold MotorUnit.processEnc
  dsimp only
  split <;>
    exact ⟨after.linear, after.counter, after.calibrated, after.current, after.offset⟩

/-- What is never used of a motor: its regulator, and the alarm of its current. -/
structure MotorUnit.Idle (u : MotorUnit) : Prop where
  pid : u.pid = .init pii
  mc_e : u.mc_e = 0
  mc_u : u.mc_u = 0
  fCurrent : u.fCurrent = 0
  maxFCurrent : u.maxFCurrent = 0
  bigCurrentFlag : u.bigCurrentFlag = false
  bigCurrentCounter : u.bigCurrentCounter = 0

variable {pii} in
/-- The parts of an interrupt use neither. -/
theorem MotorUnit.Idle.calibrate (idle : u.Idle pii) : u.calibrate.Idle pii := by
  obtain ⟨pid, mc_e, mc_u, fCurrent, maxFCurrent, flag, counter⟩ := idle
  unfold MotorUnit.calibrate
  dsimp only
  split
  · split <;> exact ⟨pid, mc_e, mc_u, fCurrent, maxFCurrent, flag, counter⟩
  · exact ⟨pid, mc_e, mc_u, fCurrent, maxFCurrent, flag, counter⟩

variable {pii} in
theorem MotorUnit.Idle.processEnc (idle : u.Idle pii) (read : ℤ) :
    (u.processEnc pii parabola_appr read).Idle pii := by
  obtain ⟨pid, mc_e, mc_u, fCurrent, maxFCurrent, flag, counter⟩ := idle
  unfold MotorUnit.processEnc
  dsimp only
  split <;> exact ⟨pid, mc_e, mc_u, fCurrent, maxFCurrent, flag, counter⟩

variable {pii} in
theorem MotorUnit.Idle.checkCurrent {n : ℕ} (idle : u.Idle pii) (after : u.After n) :
    u.checkCurrent.Idle pii := by
  unfold MotorUnit.checkCurrent
  dsimp only
  rw [after.no_current, if_neg (by norm_num)]
  refine ⟨idle.pid, idle.mc_e, idle.mc_u, rfl, ?_, rfl, idle.bigCurrentCounter⟩
  show (if (0 : ℚ) > u.maxFCurrent then 0 else u.maxFCurrent) = 0
  rw [idle.maxFCurrent, if_neg (lt_irrefl _)]

/-- Whether the interrupt of this number writes the outputs. -/
def Writes (n : ℕ) : Prop := 100 ≤ n ∧ n % 2 = 0

instance (n : ℕ) : Decidable (Writes n) := inferInstanceAs (Decidable (_ ∧ _))

/-- What one interrupt does to the outputs, to the estimate and to the rest. -/
structure MotorUnit.Processed (u : MotorUnit) (n : ℕ) (use : Bool) (ms : UInt32) (read : ℤ)
    (after : MotorUnit) : Prop where
  motor : after.motor =
    if Writes (n + 1) then u.motor.processOutput use ms.toNat none else u.motor
  est : after.est =
    if (n + 1) % 2 = 0 then (u.est.rAdd (u.position read)).updateEncSpeed pii parabola_appr else u.est
  rest : after.After (n + 1)
  idle : u.Idle pii → after.Idle pii

/-- The interrupt by its number. -/
theorem MotorUnit.After.mProcess {n : ℕ} (after : u.After n) (use : Bool) (ms : UInt32) (read : ℤ) :
    u.Processed pii parabola_appr n use ms read (u.mProcess pii parabola_appr use ms read) := by
  set first := ({ u with processCounter := u.processCounter + 1 } : MotorUnit).calibrate with first_eq
  have begun : first.After (n + 1) := after.calibrate
  have even : first.processCounter % 2 = 0 ↔ (n + 1) % 2 = 0 := by
    rw [begun.counter, even_counter]
  have works : first.mState = .msWork ↔ 100 ≤ n + 1 := by
    rw [begun.calibrated]
    split <;> simp [*]
  have motor : first.motor = u.motor := by rw [first_eq, calibrate_motor]
  have est : first.est = u.est := by rw [first_eq, calibrate_est]
  have place : first.position read = u.position read := by rw [position, motor, position]
  have quiet : u.Idle pii → first.Idle pii := fun idle =>
    MotorUnit.Idle.calibrate (u := { u with processCounter := u.processCounter + 1 })
      ⟨idle.pid, idle.mc_e, idle.mc_u, idle.fCurrent, idle.maxFCurrent, idle.bigCurrentFlag,
        idle.bigCurrentCounter⟩
  have rate : encReadRate.toUInt32 = 2 := rfl
  -- The encoder is read with every second interrupt.
  by_cases second : (n + 1) % 2 = 0
  · set reading := first.processEnc pii parabola_appr read with reading_eq
    have read_ : reading.After (n + 1) := begun.processEnc pii parabola_appr read
    have keeps : reading.motor = u.motor := by rw [reading_eq, processEnc_motor, motor]
    have fed : reading.est = (u.est.rAdd (u.position read)).updateEncSpeed pii parabola_appr := by
      rw [reading_eq, processEnc_est, est, place]
    have same : reading.processCounter % 2 = 0 ∧ reading.mState = .msWork ↔ Writes (n + 1) := by
      rw [read_.counter, even_counter, read_.calibrated, Writes]
      split <;> simp [*]
    have step : u.mProcess pii parabola_appr use ms read =
        if Writes (n + 1) then reading.processOutput pii use ms read else reading := by
      rw [MotorUnit.mProcess]
      simp only [← first_eq, rate]
      rw [if_pos (even.mpr second)]
      simp only [← reading_eq, same]
    rw [step]
    by_cases writes : Writes (n + 1)
    · rw [if_pos writes, processOutput_linear pii read_.linear]
      obtain ⟨-, counter, calibrated, current, offset⟩ := read_.checkCurrent
      refine ⟨?_, ?_, ⟨?_, counter, calibrated, current, offset⟩, fun idle => ?_⟩
      · rw [if_pos writes, keeps]
      · rw [if_pos second]
        exact (checkCurrent_est).trans fed
      · exact DriveStep.linear (d := ⟨reading.motor, use⟩) read_.linear
          (show DriveStep _ (.processOutput ms.toNat none) _ from rfl)
      · obtain ⟨pid, mc_e, mc_u, fCurrent, maxFCurrent, flag, counts⟩ :=
          ((quiet idle).processEnc parabola_appr read).checkCurrent read_
        exact ⟨pid, mc_e, mc_u, fCurrent, maxFCurrent, flag, counts⟩
    · rw [if_neg writes]
      exact ⟨by rw [if_neg writes, keeps], by rw [if_pos second, fed], read_,
        fun idle => (quiet idle).processEnc parabola_appr read⟩
  · have skips : ¬ Writes (n + 1) := fun writes => second writes.2
    have step : u.mProcess pii parabola_appr use ms read = first := by
      rw [MotorUnit.mProcess]
      simp only [← first_eq, rate]
      rw [if_neg (even.not.mpr second), if_neg fun both => second (even.mp both.1)]
    rw [step]
    exact ⟨by rw [if_neg skips, motor], by rw [if_neg second, est], begun, quiet⟩

/-- An output does not turn the motor around. -/
theorem Motor.processOutput_invDir {m : Motor} (linear : m.mmode = .mLinear) (use : Bool) (ms : ℕ) :
    (m.processOutput use ms none).invDir = m.invDir := by
  rw [Motor.processOutput_linear linear]
  split
  · rfl
  · exact Motor.writePins_invDir _ _

/-- What is true of both motors after a number of interrupts. -/
def MotorBoard.After (b : MotorBoard) (n : ℕ) : Prop :=
  ∀ i, (b.m i).After n ∧ (b.m i).motor.invDir = ((i.val + 1) % 2 == 0)

/-- How an event counts the interrupts. -/
def interrupts (n : ℕ) : MotorEvent → ℕ
  | .mdProcess _ _ => n + 1
  | _ => n

variable {b : MotorBoard} {n : ℕ}

/-- A change of one motor that touches nothing the interrupt depends on. -/
theorem MotorBoard.After.change (after : b.After n) (i : Fin 2) {f : MotorUnit → MotorUnit}
    (keeps : ∀ u, u.After n → (f u).After n ∧ (f u).motor.invDir = u.motor.invDir) :
    (b.change i f).After n := by
  intro j
  unfold MotorBoard.change
  dsimp only
  split
  · obtain ⟨same, direction⟩ := keeps _ (after j).1
    exact ⟨same, direction.trans (after j).2⟩
  · exact after j

/-- Every event leaves the motors as they should be after the interrupts so far. -/
theorem MotorBoard.After.event (after : b.After n) (e : MotorEvent) :
    (b.event pii parabola_appr e).After (interrupts n e) := by
  cases e with
  | mdProcess ms read =>
    intro i
    have done := (after i).1.mProcess pii parabola_appr b.canRotateMotors ms (read i)
    refine ⟨done.rest, ?_⟩
    show ((b.m i).mProcess pii parabola_appr _ ms (read i)).motor.invDir = _
    rw [done.motor, ← (after i).2]
    split
    · exact Motor.processOutput_invDir (after i).1.linear _ _
    · rfl
  | setSpeed i mSpeed time =>
    simp only [MotorBoard.event, interrupts]
    exact after.change i fun u h =>
      ⟨⟨h.linear, h.counter, h.calibrated, h.current, h.offset⟩, rfl⟩
  | mStop i time =>
    -- It sets the mode to what it is.
    simp only [MotorBoard.event, interrupts]
    exact after.change i fun u h =>
      ⟨⟨rfl, h.counter, h.calibrated, h.current, h.offset⟩, rfl⟩
  | canUseMotors use => exact after
  | df i a =>
    simp only [MotorBoard.event, interrupts]
    exact after.change i fun u h =>
      ⟨⟨h.linear, h.counter, h.calibrated, h.current, h.offset⟩, rfl⟩
  | changeAngleFlag i =>
    simp only [MotorBoard.event, interrupts]
    exact after.change i fun u h =>
      ⟨⟨h.linear, h.counter, h.calibrated, h.current, h.offset⟩, rfl⟩

/-- Nothing has happened yet. -/
theorem MotorBoard.mdSetup_after : (MotorBoard.mdSetup pii).After 0 :=
  fun _ => ⟨⟨rfl, rfl, rfl, rfl, rfl⟩, rfl⟩

/-- What an event after a number of interrupts is to the outputs of a motor. -/
def driveEvents (i : Fin 2) (n : ℕ) : MotorEvent → List DriveEvent
  | .mdProcess ms _ => if Writes (n + 1) then [.processOutput ms.toNat none] else []
  | .setSpeed j mSpeed time => if i = j then [.setSpeed mSpeed time] else []
  | .mStop j time => if i = j then [.mStop time] else []
  | .canUseMotors use => [.canUseMotors use]
  | .df _ _ => []
  | .changeAngleFlag _ => []

/-- What an event after a number of interrupts is to the estimate of a motor's speed. -/
def encPositions (i : Fin 2) (n : ℕ) : MotorEvent → List ℤ
  | .mdProcess _ read =>
    -- the second motor is mounted the other way round
    if (n + 1) % 2 = 0 then [if i.val = 1 then read i else -read i] else []
  | _ => []

/-- The outputs of a motor, and the switch they depend on. -/
def MotorBoard.drive (b : MotorBoard) (i : Fin 2) : Drive := ⟨(b.m i).motor, b.canRotateMotors⟩

/--
The outputs are those of a motor that is ticked by the even interrupts from the hundredth on.

Whatever else the interrupt computes, no output depends on it.
-/
theorem outputs_on_schedule (events : List MotorEvent) (i : Fin 2) :
    (MotorBoard.run pii parabola_appr events).drive i =
      (transduce interrupts (driveEvents i) 0 events).foldl Drive.event (.setup (i + 1)) := by
  refine foldl_transduce (fun b => b.drive i) (fun b n e after => after.event _ _ e) ?_ events
    (MotorBoard.mdSetup_after pii)
  intro b n e after
  cases e with
  | mdProcess ms read =>
    have done := (after i).1.mProcess pii parabola_appr b.canRotateMotors ms (read i)
    show Drive.mk ((b.m i).mProcess pii parabola_appr _ ms (read i)).motor _ = _
    rw [done.motor, driveEvents]
    split <;> rfl
  | canUseMotors use => rfl
  | _ =>
    -- The event is one of this motor, or of the other.
    simp only [MotorBoard.event, MotorBoard.change, MotorBoard.drive, driveEvents]
    split <;> rfl

/-- The estimate of a motor's speed is fed with the positions that an event brings. -/
theorem MotorBoard.After.est (after : b.After n) (i : Fin 2) (e : MotorEvent) :
    ((b.event pii parabola_appr e).m i).est =
      (encPositions i n e).foldl (fun m p => (m.rAdd p).updateEncSpeed pii parabola_appr) (b.m i).est := by
  cases e with
  | mdProcess ms read =>
    have done := (after i).1.mProcess pii parabola_appr b.canRotateMotors ms (read i)
    have place : (b.m i).position (read i) = if i.val = 1 then read i else -read i := by
      rw [MotorUnit.position, (after i).2]
      fin_cases i <;> rfl
    show ((b.m i).mProcess pii parabola_appr _ ms (read i)).est = _
    rw [done.est, encPositions, place]
    split <;> rfl
  | canUseMotors use => rfl
  | _ =>
    simp only [MotorBoard.event, MotorBoard.change, encPositions]
    split <;> rfl

/-- The estimate of a motor's speed is made from the positions at the even interrupts. -/
theorem estimate_on_schedule (events : List MotorEvent) (i : Fin 2) :
    ((MotorBoard.run pii parabola_appr events).m i).est =
      EncSpeed.feed pii parabola_appr ⟨[], 0, 0⟩ (transduce interrupts (encPositions i) 0 events) :=
  foldl_transduce (fun b : MotorBoard => (b.m i).est) (fun _ _ e after => after.event _ _ e)
    (fun _ _ e after => after.est _ _ i e) events (MotorBoard.mdSetup_after pii)

/-- A motor without the members that `changeAngle` and its target angle are about. -/
def MotorUnit.shown (u : MotorUnit) : MotorUnit :=
  { u with df := 0, changeAngleFlag := false, targetEnc := 0 }

/-- Both motors without them. -/
def MotorBoard.shown (b : MotorBoard) : MotorBoard := { b with m := fun i => (b.m i).shown }

/-- The halves of `changeAngle`. -/
def MotorEvent.isAngle : MotorEvent → Bool
  | .df _ _ => true
  | .changeAngleFlag _ => true
  | _ => false

/-- The parts of an interrupt do not look at the target angle. -/
theorem MotorUnit.calibrate_shown : u.shown.calibrate = u.calibrate.shown := by
  unfold calibrate shown
  dsimp only
  split
  · split <;> rfl
  · rfl

theorem MotorUnit.checkCurrent_shown : u.shown.checkCurrent = u.checkCurrent.shown := by
  unfold checkCurrent shown
  dsimp only
  split <;> rfl

theorem MotorUnit.processEnc_shown (read : ℤ) :
    u.shown.processEnc pii parabola_appr read = (u.processEnc pii parabola_appr read).shown := by
  -- What the flag asks for is a new target angle.
  have without : u.shown.processEnc pii parabola_appr read =
      { u.shown.readEnc read with
        est := (u.est.rAdd (u.readEnc read).encPos).updateEncSpeed pii parabola_appr } := rfl
  rw [without]
  unfold processEnc
  dsimp only
  split <;> rfl

/-- The output of a motor in the mode `mLinear` does not look at it either. -/
theorem MotorUnit.processOutput_shown (linear : u.motor.mmode = .mLinear) (use : Bool) (ms : UInt32)
    (read : ℤ) :
    u.shown.processOutput pii use ms read = (u.processOutput pii use ms read).shown := by
  rw [processOutput_linear pii linear, processOutput_linear pii (u := u.shown) linear,
    checkCurrent_shown]
  rfl

/-- An interrupt of a motor in the mode `mLinear` does not look at the target angle. -/
theorem MotorUnit.mProcess_shown (linear : u.motor.mmode = .mLinear) (use : Bool) (ms : UInt32)
    (read : ℤ) :
    u.shown.mProcess pii parabola_appr use ms read =
      (u.mProcess pii parabola_appr use ms read).shown := by
  set v : MotorUnit := { u with processCounter := u.processCounter + 1 } with v_eq
  have counted : ({ u.shown with processCounter := u.shown.processCounter + 1 } : MotorUnit) =
    v.shown := rfl
  unfold MotorUnit.mProcess
  simp only [counted, calibrate_shown, ← v_eq]
  -- The reading of the encoder and the output come with the same counters on both sides.
  have same : (if v.calibrate.shown.processCounter % encReadRate.toUInt32 = 0 then
        v.calibrate.shown.processEnc pii parabola_appr read else v.calibrate.shown) =
      (if v.calibrate.processCounter % encReadRate.toUInt32 = 0 then
        v.calibrate.processEnc pii parabola_appr read else v.calibrate).shown := by
    rw [apply_ite MotorUnit.shown, processEnc_shown]
    rfl
  rw [same]
  set w := if v.calibrate.processCounter % encReadRate.toUInt32 = 0 then
    v.calibrate.processEnc pii parabola_appr read else v.calibrate with w_eq
  have mode : w.motor.mmode = .mLinear := by
    rw [w_eq]
    split
    · rw [processEnc_motor, calibrate_motor]
      exact linear
    · rw [calibrate_motor]
      exact linear
  rw [processOutput_shown pii mode]
  exact (apply_ite MotorUnit.shown _ _ _).symm

/-- A step of the motors as they are shown depends on what is shown. -/
theorem MotorBoard.After.event_shown (after : b.After n) (e : MotorEvent) :
    (b.shown.event pii parabola_appr e).shown = (b.event pii parabola_appr e).shown := by
  cases e with
  | mdProcess ms read =>
    have each : ∀ i, ((b.m i).shown.mProcess pii parabola_appr b.canRotateMotors ms (read i)).shown =
        ((b.m i).mProcess pii parabola_appr b.canRotateMotors ms (read i)).shown := by
      intro i
      rw [MotorUnit.mProcess_shown pii parabola_appr (after i).1.linear]
      rfl
    exact congrArg (MotorBoard.mk · b.canRotateMotors) (funext each)
  | canUseMotors use => rfl
  | _ =>
    -- A change of the members of one motor.
    refine congrArg (MotorBoard.mk · b.canRotateMotors) (funext fun j => ?_)
    simp only [MotorBoard.shown, MotorBoard.event, MotorBoard.change]
    split <;> rfl

/-- `changeAngle` does not show. -/
theorem MotorBoard.event_angle {e : MotorEvent} (angle : e.isAngle = true) :
    (b.event pii parabola_appr e).shown = b.shown := by
  cases e with
  | df i a =>
    refine congrArg (MotorBoard.mk · b.canRotateMotors) (funext fun j => ?_)
    simp only [MotorBoard.event, MotorBoard.change]
    split <;> rfl
  | changeAngleFlag i =>
    refine congrArg (MotorBoard.mk · b.canRotateMotors) (funext fun j => ?_)
    simp only [MotorBoard.event, MotorBoard.change]
    split <;> rfl
  | _ => exact absurd angle Bool.false_ne_true

/-- The interrupts keep the regulator and the alarm idle. -/
theorem MotorBoard.idle_event (after : b.After n) (idle : ∀ i, (b.m i).Idle pii) (e : MotorEvent)
    (i : Fin 2) : ((b.event pii parabola_appr e).m i).Idle pii := by
  cases e with
  | mdProcess ms read => exact ((after i).1.mProcess pii parabola_appr _ ms _).idle (idle i)
  | canUseMotors use => exact idle i
  | _ =>
    obtain ⟨pid, mc_e, mc_u, fCurrent, maxFCurrent, flag, counts⟩ := idle i
    simp only [MotorBoard.event, MotorBoard.change]
    split <;> exact ⟨pid, mc_e, mc_u, fCurrent, maxFCurrent, flag, counts⟩

/-- What is true of the motors after some run. -/
def MotorBoard.Reached (b : MotorBoard) : Prop := (∃ n, b.After n) ∧ ∀ i, (b.m i).Idle pii

/-- Every event carries it on. -/
theorem MotorBoard.Reached.event (reached : b.Reached pii) (e : MotorEvent) :
    (b.event pii parabola_appr e).Reached pii := by
  obtain ⟨⟨n, after⟩, idle⟩ := reached
  exact ⟨⟨_, after.event pii parabola_appr e⟩, b.idle_event pii parabola_appr after idle e⟩

/-- It is true at the start. -/
theorem MotorBoard.mdSetup_reached : (MotorBoard.mdSetup pii).Reached pii :=
  ⟨⟨0, MotorBoard.mdSetup_after pii⟩, fun _ => ⟨rfl, rfl, rfl, rfl, rfl, rfl, rfl⟩⟩

/--
Nothing but the target angle itself depends on the calls of `changeAngle` in a run, and the regulator
and the alarm of the current stay as they were at the start.
-/
theorem angle_commands_unheard (events : List MotorEvent) :
    (MotorBoard.run pii parabola_appr events).shown =
        (MotorBoard.run pii parabola_appr (events.filter fun e => !e.isAngle)).shown ∧
      ∀ i, ((MotorBoard.run pii parabola_appr events).m i).Idle pii := by
  constructor
  · refine foldl_purge (P := MotorBoard.Reached pii)
      (fun b e reached => reached.event pii parabola_appr e)
      (fun b e _ angle => b.event_angle pii parabola_appr angle) ?_ events
      (MotorBoard.mdSetup_reached pii) (MotorBoard.mdSetup_reached pii) rfl
    rintro b c e ⟨⟨_, left⟩, -⟩ ⟨⟨_, right⟩, -⟩ same
    rw [← left.event_shown, same, right.event_shown]
  · exact (List.foldlRecOn events _ (MotorBoard.mdSetup_reached pii)
      fun b reached e _ => MotorBoard.Reached.event pii parabola_appr reached e).2

/-- An event of the outputs that gives a motor no new command. -/
def DriveEvent.isCommand : DriveEvent → Bool
  | .setSpeed _ _ => true
  | .mStop _ => true
  | _ => false

/-- An event of the outputs that is a tick. -/
def DriveEvent.isTick : DriveEvent → Bool
  | .processOutput _ _ => true
  | _ => false

/-- Without commands the events are ticks, under a switch that may change. -/
theorem Drive.ticks_of_calm (events : List DriveEvent) (calm : ∀ e ∈ events, e.isCommand = false)
    (d : Drive) :
    ∃ ticks : List Tick, ticks.length = events.countP DriveEvent.isTick ∧
      (events.foldl Drive.event d).m = d.m.ticks ticks := by
  induction events generalizing d with
  | nil => exact ⟨[], rfl, rfl⟩
  | cons e events ih =>
    obtain ⟨ticks, number, same⟩ := ih (fun e mem => calm e (List.mem_cons_of_mem _ mem)) (d.event e)
    cases e with
    | processOutput ms mc_u =>
      refine ⟨⟨d.canRotateMotors, ms, mc_u⟩ :: ticks, ?_, same⟩
      rw [List.length_cons, number, List.countP_cons_of_pos rfl]
    | canUseMotors use =>
      refine ⟨ticks, ?_, same⟩
      rw [number, List.countP_cons_of_neg Bool.false_ne_true]
    | _ => exact absurd (calm _ List.mem_cons_self) (by simp [DriveEvent.isCommand])

/-- An event that is the interrupt. -/
def MotorEvent.isInterrupt : MotorEvent → Bool
  | .mdProcess _ _ => true
  | _ => false

/-- An event that gives a motor a new command. -/
def MotorEvent.isCommand (i : Fin 2) : MotorEvent → Bool
  | .setSpeed j _ _ => i = j
  | .mStop j _ => i = j
  | _ => false

/-- The interrupts of a run are counted. -/
theorem foldl_interrupts (events : List MotorEvent) (n : ℕ) :
    events.foldl interrupts n = n + events.countP MotorEvent.isInterrupt := by
  induction events generalizing n with
  | nil => rfl
  | cons e events ih =>
    rw [List.foldl_cons, ih]
    cases e with
    | mdProcess ms read =>
      rw [List.countP_cons_of_pos rfl, interrupts]
      omega
    | _ =>
      rw [List.countP_cons_of_neg Bool.false_ne_true]
      rfl

/-- Only an interrupt of the right number is a tick of the outputs. -/
theorem driveEvents_countP (i : Fin 2) (n : ℕ) (e : MotorEvent) :
    (driveEvents i n e).countP DriveEvent.isTick =
      if e.isInterrupt ∧ Writes (n + 1) then 1 else 0 := by
  cases e with
  | mdProcess ms read =>
    by_cases writes : Writes (n + 1)
    · rw [driveEvents, if_pos writes, if_pos ⟨rfl, writes⟩]
      rfl
    · rw [driveEvents, if_neg writes, if_neg fun both => writes both.2]
      rfl
  | canUseMotors use => rfl
  | df j a => rfl
  | changeAngleFlag j => rfl
  | _ =>
    rw [if_neg fun both => Bool.false_ne_true both.1, driveEvents]
    split <;> rfl

/-- The ticks of the outputs are the even interrupts from the hundredth on. -/
theorem count_ticks (i : Fin 2) (events : List MotorEvent) (n : ℕ) :
    (transduce interrupts (driveEvents i) n events).countP DriveEvent.isTick + max n 98 / 2 =
      max (n + events.countP MotorEvent.isInterrupt) 98 / 2 := by
  induction events generalizing n with
  | nil => rw [transduce, List.countP_nil, List.countP_nil, Nat.zero_add, Nat.add_zero]
  | cons e events ih =>
    have rest := ih (interrupts n e)
    rw [transduce, List.countP_append, driveEvents_countP]
    cases e with
    | mdProcess ms read =>
      rw [List.countP_cons_of_pos rfl]
      simp only [interrupts] at rest ⊢
      by_cases writes : Writes (n + 1)
      · rw [if_pos ⟨rfl, writes⟩]
        obtain ⟨late, even⟩ := writes
        omega
      · rw [if_neg fun both => writes both.2]
        simp only [Writes, not_and] at writes
        omega
    | _ =>
      rw [if_neg fun both => Bool.false_ne_true both.1, List.countP_cons_of_neg Bool.false_ne_true,
        Nat.zero_add]
      exact rest

/-- Events that give a motor no command give none to its outputs. -/
theorem transduce_calm {i : Fin 2} {events : List MotorEvent}
    (calm : ∀ e ∈ events, e.isCommand i = false) (n : ℕ) :
    ∀ d ∈ transduce interrupts (driveEvents i) n events, d.isCommand = false := by
  induction events generalizing n with
  | nil => exact fun d mem => absurd mem List.not_mem_nil
  | cons e events ih =>
    intro d mem
    rcases List.mem_append.mp mem with here | later
    · have quiet := calm e List.mem_cons_self
      cases e with
      | mdProcess ms read =>
        rw [driveEvents] at here
        split at here
        · rw [List.mem_singleton.mp here]
          rfl
        · exact absurd here List.not_mem_nil
      | canUseMotors use =>
        rw [List.mem_singleton.mp here]
        rfl
      | df j a => exact absurd here List.not_mem_nil
      | changeAngleFlag j => exact absurd here List.not_mem_nil
      | _ =>
        -- A command is one for the other motor.
        rw [driveEvents, if_neg (of_decide_eq_false quiet)] at here
        exact absurd here List.not_mem_nil
    · exact ih (fun e mem => calm e (List.mem_cons_of_mem _ mem)) _ d later

/--
Within 52 milliseconds the outputs of a motor are as they were last commanded, once the calibration
is over.

A full reversal takes 25 steps of the ramp and one more for the direction, one every second
millisecond. The other motor may be commanded at will, and the switch may change.
-/
theorem command_takes_effect (i : Fin 2) (past later : List MotorEvent)
    (calm : ∀ e ∈ later, e.isCommand i = false)
    (long : max (past.countP MotorEvent.isInterrupt) 98 + 52 ≤
      past.countP MotorEvent.isInterrupt + later.countP MotorEvent.isInterrupt) :
    let before := ((MotorBoard.run pii parabola_appr past).m i).motor
    let after := ((MotorBoard.run pii parabola_appr (past ++ later)).m i).motor
    after.mcp = before.mcp ∧ after.mcpPrev.speed = before.mcp.speed ∧
      after.mcpPrev.dir = before.mcp.dir := by
  intro before after
  set events := transduce interrupts (driveEvents i) 0 past with events_eq
  set count := past.countP MotorEvent.isInterrupt with count_eq
  -- The outputs run on from where the past left them.
  have start := outputs_on_schedule pii parabola_appr past i
  have end_ := outputs_on_schedule pii parabola_appr (past ++ later) i
  rw [transduce_append, List.foldl_append, ← events_eq, foldl_interrupts, Nat.zero_add,
    ← count_eq] at end_
  rw [← start] at end_
  obtain ⟨ticks, number, reached⟩ := Drive.ticks_of_calm _ (transduce_calm calm count)
    ((MotorBoard.run pii parabola_appr past).drive i)
  have sound : before.Sound := by
    have steps : ∀ d e, DriveStep d e (d.event e) := fun d e => rfl
    have run : Run DriveStep (.setup (i + 1)) events _ := Run.foldl Drive.event steps events
    rw [← start] at run
    exact DriveStep.sound run
  -- The way is at most 2, which is 25 steps.
  have near : |before.mcp.fSpeed - before.mcpPrev.fSpeed| ≤ (25 : ℕ) * fStep := by
    have way : ((25 : ℕ) : ℚ) * fStep = 2 := by norm_num [fStep, mdProcessRate, accTime]
    have := sound.mcp.low
    have := sound.mcp.high
    have := sound.mcpPrev.low
    have := sound.mcpPrev.high
    rw [way, abs_le]
    constructor <;> linarith
  have enough : 25 + 1 ≤ ticks.length := by
    have counted := count_ticks i later count
    omega
  obtain ⟨target, speed, dir⟩ := sound.settles near enough
  have final : after = before.ticks ticks := (congrArg Drive.m end_).trans reached
  rw [final]
  exact ⟨target, by rw [speed, target], by rw [dir, target]⟩

/-- From the start on, a motor that is told to run back at full speed does so after 150 interrupts. -/
theorem command_takes_effect_back :
    let after := ((MotorBoard.run 3 (fun _ _ => (0, 0, 0)) ([.setSpeed 0 (some (-1)) 0] ++
      List.replicate 150 (.mdProcess 0 fun _ => 0))).m 0).motor
    after.mcpPrev.speed = 7781 ∧ after.mcpPrev.dir = .HIGH := by
  obtain ⟨-, speed, dir⟩ := command_takes_effect 3 (fun _ _ => (0, 0, 0)) 0
    [.setSpeed 0 (some (-1)) 0] (List.replicate 150 (.mdProcess 0 fun _ => 0))
    (fun e mem => by rw [List.eq_of_mem_replicate mem]; rfl)
    (by rw [List.countP_replicate]; decide)
  have commanded : ((MotorBoard.run 3 (fun _ _ => (0, 0, 0))
      [.setSpeed 0 (some (-1)) 0]).m 0).motor.mcp = ⟨7781, .HIGH, 0, -1⟩ := by decide +kernel
  rw [commanded] at speed dir
  exact ⟨speed, dir⟩

end

end Teetest
