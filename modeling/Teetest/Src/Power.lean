import Mathlib.Tactic

/-!
The supervision of the battery in power.cpp, and the handler of its changes in blink.cpp.

Numbers are the elements of an ordered field.
-/

namespace Teetest

/-- `PowerStatus`. -/
inductive PowerStatus where
  | pwUnknown | pwVeryLow | pwLow | pwOK | pwHigh
  deriving DecidableEq

section

variable (K : Type) [Field K]

/-- `pHist`, in percent, as are the following three. -/
def pHist : K := 0.5

/-- `pVeryLow`. -/
def pVeryLow : K := 2.0

/-- `pLow`. -/
def pLow : K := 10.0

/-- `pOK`. -/
def pOK : K := 125.0

/-- `a2mv`, the millivolts of a step of the converter. -/
def a2mv : K := 3300.0 / 1023.0

/-- `R1`. -/
def R1 : K := 220000.0

/-- `R2`. -/
def R2 : K := 47000.0

/-- `maxVoltage`, in millivolts. -/
def maxVoltage : K := 3.9 * 4.0 * 1000.0

/-- `minVoltage`, in millivolts. -/
def minVoltage : K := 3.5 * 4.0 * 1000.0

/-- The variables of power.cpp, and what its handler does. -/
structure Power where
  vAdc : K
  batteryVoltage : K
  battPersent : K
  pStatus : PowerStatus
  -- whether `powerStatusChangeH` is registered
  pHandler : Bool
  -- the calls of the handler so far
  handled : List (PowerStatus × PowerStatus)
  -- the flag of motordriver.cpp that `canUseMotors` sets
  canRotateMotors : Bool

/-- Their values at the start, once the handler is registered. -/
def Power.start : Power K := ⟨0, 0, 0, .pwUnknown, true, [], true⟩

variable {K}

/-- `powerStatusChangeH`. -/
def Power.powerStatusChangeH (p : Power K) (old new : PowerStatus) : Power K :=
  let p := { p with handled := p.handled ++ [(old, new)] }
  match new with
  | .pwVeryLow => { p with canRotateMotors := false }
  | _ => if old = .pwVeryLow then { p with canRotateMotors := true } else p

/-- An assignment of the status, and the call of the handler behind it. -/
def Power.change (p : Power K) (pPrevStatus new : PowerStatus) : Power K :=
  let p := { p with pStatus := new }
  if p.pHandler then p.powerStatusChangeH pPrevStatus new else p

variable [LinearOrder K]

/-- The case `pwLow` of the `switch`. -/
def Power.casePwLow (p : Power K) (pPrevStatus : PowerStatus) : Power K :=
  if p.battPersent > pLow K + pHist K then p.change pPrevStatus .pwOK
  else if p.battPersent < pVeryLow K - pHist K then p.change pPrevStatus .pwVeryLow
  else p

/-- The `switch` of `batteryUpdate`. -/
def Power.batterySwitch (p : Power K) : Power K :=
  let pPrevStatus := p.pStatus
  match p.pStatus with
  | .pwUnknown =>
    p.change pPrevStatus
      (if p.battPersent > pOK K then .pwHigh
      else if p.battPersent > pLow K then .pwOK
      else if p.battPersent > pVeryLow K then .pwLow
      else .pwVeryLow)
  | .pwVeryLow =>
    let p :=
      if p.battPersent > pVeryLow K + pHist K then p.change pPrevStatus .pwLow else p
    -- there is no `break`
    p.casePwLow pPrevStatus
  | .pwLow => p.casePwLow pPrevStatus
  | .pwOK =>
    if p.battPersent > pOK K + pHist K then p.change pPrevStatus .pwHigh
    else if p.battPersent < pLow K - pHist K then p.change pPrevStatus .pwLow
    else p
  | .pwHigh => if p.battPersent < pOK K - pHist K then p.change pPrevStatus .pwOK else p

/-- `batteryUpdate`. -/
def Power.batteryUpdate (p : Power K) (a : ℤ) : Power K :=
  let vAdc := a / 1.0 * a2mv K
  let batteryVoltage := vAdc * ((R1 K + R2 K) / R2 K)
  let battPersent := (batteryVoltage - minVoltage K) * 100.0 / (maxVoltage K - minVoltage K)
  -- the function returns in front of its `switch`
  { p with vAdc := vAdc, batteryVoltage := batteryVoltage, battPersent := battPersent }

end

end Teetest
