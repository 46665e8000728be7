import Teetest.Src.Memsic
import Teetest.Src.SelfTest

/-!
The setup of the IMU in memsic.cpp as `ttSetup` runs it, with the interrupts that fall between its steps.

Delays, prints, what only the prints use, and the numbers in `pInfo` and `memsicInfo` are left out. How long
the loops wait is up to the clock and the IMU.
-/

namespace Teetest

/-- A step of the setup. -/
inductive SetupOp
  -- assignments of `memsicStatus`, `memsicDataready` and `memsicOverflowCounter`
  | memsicStatus (v : ℤ)
  | memsicDataready
  | memsicOverflowCounter
  -- `memsicStatus` is kept in `oldMemsicStatus`, and taken from there
  | save
  | restore
  -- `hInfoRB1.clear()`
  | clear
  | attachInterrupt
  -- the loop until the IMU is ready or the time is over, and the question behind it
  | waitReady
  | checkReady
  -- the loop until a transfer has ended
  | waitSpi (counter : ℕ)
  -- the chip is selected, a word is exchanged, and the chip is released
  | select
  | transfer16 (word : UInt16)
  | release
  -- the loop that reads a register until its bit changes or the time is over, and the early return
  | poll (reg : UInt16)
  | giveUp
deriving DecidableEq

namespace SetupOp

/-- `writeMemsicCmd`. -/
def writeMemsicCmd (cmd : UInt16) : List SetupOp := [select, transfer16 cmd, release]

/-- `memsicReadReg`. -/
def memsicReadReg (reg : UInt16) : List SetupOp :=
  [select, transfer16 reg, release, select, transfer16 0, release]

/-- `setupMemsicDataRate`. -/
def setupMemsicDataRate (dataRate : ℤ) : List SetupOp := writeMemsicCmd (dataRateCmd dataRate)

/-- `memsicTest`. -/
def memsicTest (memsicDataRate : ℤ) : List SetupOp :=
  [save, memsicStatus (-1), waitSpi 250] ++
  setupMemsicDataRate 0 ++ setupMemsicDataRate 0 ++ setupMemsicDataRate 0 ++ setupMemsicDataRate 0 ++
  memsicReadReg 0x5800 ++ memsicReadReg 0x7E00 ++ memsicReadReg 0x5600 ++ memsicReadReg 0x5400 ++
  memsicReadReg 0x5200 ++ memsicReadReg 0x3600 ++ writeMemsicCmd 0xB504 ++
  memsicReadReg 0x3400 ++ [poll 0x3400, giveUp] ++
  memsicReadReg 0x3400 ++ [poll 0x3400] ++
  memsicReadReg 0x3C00 ++ [restore] ++ setupMemsicDataRate memsicDataRate

/-- `setupMemsic_1`. -/
def setupMemsic_1 : List SetupOp := [memsicStatus (-1), memsicDataready, clear, release]

/-- `setupMemsic_2`. -/
def setupMemsic_2 : List SetupOp := [memsicStatus 0]

/-- What `setupMemsic_3` does behind the self test. -/
def setupMemsic_end : List SetupOp := [clear, memsicStatus 2]

/-- `setupMemsic_3`. -/
def setupMemsic_3 (dataRate : ℤ) : List SetupOp :=
  [memsicOverflowCounter, attachInterrupt, waitReady, checkReady] ++
  setupMemsicDataRate dataRate ++ writeMemsicCmd 0xB902 ++ writeMemsicCmd 0xB830 ++
  writeMemsicCmd (accRangeCmd accRange) ++ writeMemsicCmd 0xB406 ++
  memsicTest dataRate ++ setupMemsic_end

/-- The part of `ttSetup` that is about the IMU. -/
def ttSetup : List SetupOp := setupMemsic_1 ++ setupMemsic_2 ++ setupMemsic_3 100

end SetupOp

/-- What is left of the setup, the variables that it shares with the interrupts, and those of the samples. -/
structure ImuBoot (K : Type) where
  program : List SetupOp
  memsicStatus : ℤ
  oldMemsicStatus : ℤ
  attached : Bool
  -- `memsicSPISelectPin` is low
  selected : Bool
  memsic : Memsic K

/-- What happens next: a step of the setup, whose loops go on or not, or something that is about samples. -/
inductive BootEvent
  | setup (more : Bool)
  | memsic (e : MemsicEvent)

section

variable {K : Type}

/-- The state in which `ttSetup` begins. -/
def ImuBoot.powerUp (memsic : Memsic K) : ImuBoot K where
  program := SetupOp.ttSetup
  memsicStatus := -1
  oldMemsicStatus := 0
  attached := false
  selected := false
  memsic := memsic

/-- A step of the setup. -/
def ImuBoot.setup (s : ImuBoot K) (more : Bool) : Option (ImuBoot K) :=
  match s.program with
  | [] => none
  | op :: program =>
    let t := { s with program := program }
    some <| match op with
      | .memsicStatus v => { t with memsicStatus := v }
      | .memsicDataready => { t with memsic := { s.memsic with memsicDataready := 0 } }
      | .memsicOverflowCounter => { t with memsic := { s.memsic with memsicOverflowCounter := 0 } }
      | .save => { t with oldMemsicStatus := s.memsicStatus }
      | .restore => { t with memsicStatus := s.oldMemsicStatus }
      | .clear => { t with memsic := { s.memsic with hInfoRB1 := [] } }
      | .attachInterrupt => { t with attached := true }
      | .waitReady => if s.memsicStatus = 0 ∧ more then s else t
      -- the setup has timed out
      | .checkReady => if s.memsicStatus = 0 then { s with program := [] } else t
      | .waitSpi counter =>
        if counter ≠ 0 ∧ s.memsic.memsicDataready = 1 then { s with program := .waitSpi (counter - 1) :: program }
        else t
      | .select => { t with selected := true }
      | .transfer16 _ => t
      | .release => { t with selected := false }
      | .poll reg => if more then { s with program := SetupOp.memsicReadReg reg ++ .poll reg :: program } else t
      -- the self test returns after a warning
      | .giveUp => if more then t else { s with program := SetupOp.setupMemsic_end }

/-- `dataR`. -/
def ImuBoot.dataR (ms : ℕ) (raw : MemsicBurstInfo) (s : ImuBoot K) : ImuBoot K :=
  if s.memsicStatus = 0 then { s with memsicStatus := 1 }
  else if s.memsicStatus = 2 then { s with selected := true, memsic := s.memsic.dataR ms raw }
  else s

variable [Mul K] [IntCast K] (scale : ImuScale K)

/-- The state after an event, if it can happen: the main loop starts behind the setup. -/
def ImuBoot.step (s : ImuBoot K) : BootEvent → Option (ImuBoot K)
  | .setup more => s.setup more
  | .memsic (.dataR ms raw) => if s.attached then some (s.dataR ms raw) else none
  | .memsic .arrive => s.memsic.arrive.map fun m => { s with memsic := m }
  | .memsic .erFunction =>
    s.memsic.erFunction.map fun m => match s.memsic.er with
      -- the chip is released first of all
      | .idle => { s with selected := false, memsic := m }
      | _ => { s with memsic := m }
  | .memsic .processMemsicData =>
    if s.program = [] then
      (s.memsic.step scale .processMemsicData).map fun m => { s with memsic := m }
    else none
  | .memsic .main =>
    if s.program = [] then (s.memsic.step scale .main).map fun m => { s with memsic := m } else none

/-- The step relation of the setup and the samples. -/
def BootStep (s : ImuBoot K) (e : BootEvent) (t : ImuBoot K) : Prop := s.step scale e = some t

end

end Teetest
