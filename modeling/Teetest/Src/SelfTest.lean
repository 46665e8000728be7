import Mathlib.Tactic

/-!
The self test of the IMU in memsic.cpp, and the setup that ends with it.

A step of the self test is a call of `micros` with everything up to the next one, from the call that
takes the start to the exit of the second loop. Both delays with which the loops read their register
belong to it. The delays before that start and behind the loops are left out, and so are prints and
what only they use.
-/

namespace Teetest

/-- The variables of the setup, and the words that were sent to the IMU over SPI. -/
structure Imu where
  memsicStatus : ℤ
  memsicDataRate : ℤ
  sent : List UInt16
  deriving DecidableEq

/-- `memsicSPI.transfer16`; the answer is an argument where it matters. -/
def Imu.transfer16 (s : Imu) (word : UInt16) : Imu := { s with sent := s.sent ++ [word] }

/-- `writeMemsicCmd`. -/
def Imu.writeMemsicCmd (s : Imu) (cmd : UInt16) : Imu := s.transfer16 cmd

/-- `memsicReadReg`, where its delays are left out. -/
def Imu.memsicReadReg (s : Imu) (reg : UInt16) : Imu := (s.transfer16 reg).transfer16 0

/-- The command for an output data rate. -/
def dataRateCmd (dataRate : ℤ) : UInt16 :=
  if dataRate = 0 then 0xB700
  else if dataRate = 25 then 0xB704
  else if dataRate = 100 then 0xB702
  else 0xB701

/-- `setupMemsicDataRate`. -/
def Imu.setupMemsicDataRate (s : Imu) (dataRate : ℤ) : Imu := s.writeMemsicCmd (dataRateCmd dataRate)

/-- The two loops of the self test: until its bit goes high, and until it goes low. -/
inductive TestLoop where
  | high | low
  deriving DecidableEq

/-- The waits in a round of a loop: the two `delay(1)` of `memsicReadReg`, and the small delay. -/
inductive Wait where
  | firstDelay | secondDelay | smallDelay
  deriving DecidableEq

/-- Whether a wait goes on when the clock shows so many microseconds since its start. -/
def Wait.goesOn : Wait → UInt32 → Bool
  -- `delay` asks for `micros() - start >= 1000`
  | .firstDelay, passed => passed < 1000
  | .secondDelay, passed => passed < 1000
  | .smallDelay, passed => passed > 2

/-- Where `memsicTest` next calls `micros`. -/
inductive TestPc where
  -- the start of the self test
  | selfTestTime
  -- the start of a wait, and the wait
  | start (loop : TestLoop) (w : Wait)
  | wait (loop : TestLoop) (w : Wait) (start : UInt32)
  -- `stTime = micros()` in front of the deadline check, and in front of the `break`
  | check (loop : TestLoop)
  | exit (loop : TestLoop)
  | returned
  deriving DecidableEq

/-- The state of `memsicTest`. -/
structure SelfTest where
  imu : Imu
  oldMemsicStatus : ℤ
  selfTestTime : UInt32
  pc : TestPc
  deriving DecidableEq

/-- The function up to its first call of `micros`. -/
def SelfTest.start (s : Imu) : SelfTest :=
  let oldMemsicStatus := s.memsicStatus
  let s := { s with memsicStatus := -1 }
  let s := s.setupMemsicDataRate 0
  let s := s.setupMemsicDataRate 0
  let s := s.setupMemsicDataRate 0
  let s := s.setupMemsicDataRate 0
  let s := s.memsicReadReg 0x5800
  let s := s.memsicReadReg 0x7E00
  let s := s.memsicReadReg 0x5600
  let s := s.memsicReadReg 0x5400
  let s := s.memsicReadReg 0x5200
  let s := s.memsicReadReg 0x3600
  let s := s.writeMemsicCmd 0xB504
  { imu := s, oldMemsicStatus := oldMemsicStatus, selfTestTime := 0, pc := .selfTestTime }

/-- The unit self-test bit. -/
def selfTestBit (memsicSTReg : UInt16) : Bool := memsicSTReg &&& 0x400 != 0

/-- What the loops do behind a wait; `memsicSTReg` is what the register holds if it is read here. -/
def SelfTest.next (t : SelfTest) (memsicSTReg : UInt16) : TestLoop → Wait → SelfTest
  | loop, .firstDelay =>
    { t with imu := t.imu.transfer16 0x3400, pc := .start loop .secondDelay }
  -- the first loop is left as soon as the bit is high, and the small delay follows otherwise
  | .high, .secondDelay =>
    { t with
      imu := t.imu.transfer16 0
      pc := if selfTestBit memsicSTReg then .exit .high else .start .high .smallDelay }
  | .high, .smallDelay => { t with pc := .check .high }
  -- the second loop begins with the small delay, and is left as soon as the bit is low
  | .low, .smallDelay => { t with pc := .start .low .firstDelay }
  | .low, .secondDelay =>
    { t with
      imu := t.imu.transfer16 0
      pc := if selfTestBit memsicSTReg then .check .low else .exit .low }

/-- What follows the second loop. -/
def SelfTest.finish (t : SelfTest) : SelfTest :=
  let s := t.imu.memsicReadReg 0x3C00
  let s := { s with memsicStatus := t.oldMemsicStatus }
  { t with imu := s.setupMemsicDataRate s.memsicDataRate, pc := .returned }

/-- A call of `micros`, and what follows it; `memsicSTReg` is what the register holds then. -/
def SelfTest.step (t : SelfTest) (micros : UInt32) (memsicSTReg : UInt16) : SelfTest :=
  match t.pc with
  | .selfTestTime => { t with selfTestTime := micros, pc := .start .high .firstDelay }
  | .start loop w => { t with pc := .wait loop w micros }
  | .wait loop w start => if w.goesOn (micros - start) then t else t.next memsicSTReg loop w
  | .check .high =>
    if micros - t.selfTestTime < 250000 then { t with pc := .start .high .firstDelay }
    -- the function returns after a warning
    else { t with pc := .returned }
  | .exit .high => { t with pc := .start .low .smallDelay }
  | .check .low =>
    if micros - t.selfTestTime < 500000 then { t with pc := .start .low .smallDelay }
    -- the loop ends, and only a print tells
    else t.finish
  | .exit .low => t.finish
  | .returned => t

/-- The behaviour of the clock and of the IMU: the real time of every call of `micros`, and the register. -/
structure TestEnv where
  time : ℕ → ℕ
  memsicSTReg : ℕ → UInt16

/-- `micros` at a call. -/
def TestEnv.micros (env : TestEnv) (i : ℕ) : UInt32 := UInt32.ofNat (env.time i)

/-- `memsicTest` before a call of `micros`. -/
def SelfTest.run (s : Imu) (env : TestEnv) : ℕ → SelfTest
  | 0 => .start s
  | i + 1 => (run s env i).step (env.micros i) (env.memsicSTReg i)

/-- `memsicTest`, if it returns within so many calls of `micros`. -/
def Imu.memsicTest (s : Imu) (env : TestEnv) (n : ℕ) : Option Imu :=
  if (SelfTest.run s env n).pc = .returned then some (SelfTest.run s env n).imu else none

/-- `accRange`. -/
def accRange : ℕ := 8

/-- The command for a range of the accelerometers. -/
def accRangeCmd (accRange : ℕ) : UInt16 :=
  if accRange = 2 then 0xF010 else if accRange = 4 then 0xF020 else 0xF040

/--
`setupMemsic_3` up to its wait; `ready` is whether the interrupt of the IMU changes the status in time.
-/
def Imu.waited (s : Imu) (dataRate : ℤ) (ready : Bool) : Imu :=
  let s := { s with memsicDataRate := dataRate }
  if s.memsicStatus = 0 ∧ ready then { s with memsicStatus := 1 } else s

/-- The commands that follow up to the self test. -/
def Imu.configured (s : Imu) (dataRate : ℤ) : Imu :=
  let s := s.setupMemsicDataRate dataRate
  let s := s.writeMemsicCmd 0xB902
  let s := s.writeMemsicCmd 0xB830
  let s := s.writeMemsicCmd (accRangeCmd accRange)
  s.writeMemsicCmd 0xB406

/-- `setupMemsic_3`, if its self test returns within so many calls of `micros`. -/
def Imu.setupMemsic_3 (s : Imu) (dataRate : ℤ) (ready : Bool) (env : TestEnv) (n : ℕ) : Option Imu :=
  let s := s.waited dataRate ready
  -- the setup timed out
  if s.memsicStatus = 0 then some s
  else ((s.configured dataRate).memsicTest env n).map fun s => { s with memsicStatus := 2 }

end Teetest
