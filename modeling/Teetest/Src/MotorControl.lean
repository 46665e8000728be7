import Mathlib.Tactic

/-!
The regulator and the estimate of the encoder's speed in motordriver.cpp.

Numbers are the elements of a field, and positions of the encoder are integers without a bound: what the
source computes of them in 32 bits is exact here. The constant `pii` and the fit of a parabola come from a
library and are parameters.
-/

namespace Teetest

/-- `encReadRate`, the milliseconds between two readings of the encoder. -/
def encReadRate : ℕ := 2

/-- `encNumber`, the impulses of the encoder per revolution. -/
def encNumber : ℕ := 1920

/-- `encBufSize`. -/
def encBufSize : ℕ := 5

section

variable {K : Type} [Field K] (pii : K)

/-- `encTicks2Radians`. -/
def encTicks2Radians : K := 2 * pii / encNumber

/-- `simpleEncSpeedK`. -/
def simpleEncSpeedK : K := encTicks2Radians pii * 1000.0 / encReadRate

/-- `PID` of motordriver.h. -/
structure PID (K : Type) where
  P : K
  I : K
  D : K
  eInt : K
  error : K
  ret : K
  -- the time of the last call
  ms : UInt32
  smallError : K
  mediumError : K

/-- The constructor of `PID`. -/
def PID.init : PID K where
  P := 0.1
  I := 1
  D := 0.01
  eInt := 0
  error := 0
  ret := 0
  ms := 0
  smallError := 2.0 * encTicks2Radians pii
  mediumError := 0.4

/-- `u`; what it returns is the member `ret` of the result. -/
def PID.u [LinearOrder K] (p : PID K) (error_ errorSpeed : K) (ms_ : UInt32) : PID K :=
  let mError := |error_|
  let p :=
    if mError ≤ p.smallError then { p with eInt := 0, ret := 0 }
    else
      let p :=
        if p.ms = 0 then { p with eInt := 0 }
        else if mError ≤ p.mediumError then
          { p with
            eInt := p.eInt + (p.error + error_) * 0.5 * ((ms_ - p.ms).toNat : K) / 1000.0 }
        else p
      { p with ret := p.P * p.error + p.I * p.eInt - errorSpeed * p.D }
  { p with ms := ms_, error := error_ }

/-- The members of `Motor` that the estimate of the speed uses. -/
structure EncSpeed (K : Type) where
  -- the last positions of the encoder, oldest first; unbounded, where the source has `int`
  encBuf : List ℤ
  encSpeed : K
  encSpeedSimple : K

/-- `mSoftReset`, which leaves `encSpeedSimple` as it is. -/
def EncSpeed.mSoftReset (m : EncSpeed K) : EncSpeed K := { m with encBuf := [], encSpeed := 0 }

/-- `encBuf.rAdd`: the oldest position falls out of a full buffer. -/
def EncSpeed.rAdd (m : EncSpeed K) (encPos : ℤ) : EncSpeed K :=
  { m with encBuf := (m.encBuf ++ [encPos]).drop (m.encBuf.length + 1 - encBufSize) }

/-- The first times in `encTimeBuf`, as `mSoftReset` fills it. -/
def encTimes (n : ℕ) : List K := (List.range n).map fun i : ℕ => (i : K) * encReadRate * 0.001

/-- The angles in `encDataBuf`, relative to the oldest position `x0`. -/
def encData (x0 : ℤ) (x : List ℤ) : List K := x.map fun xi => ((xi - x0 : ℤ) : K) * encTicks2Radians pii

/-- `updateEncSpeed`. -/
def EncSpeed.updateEncSpeed (parabola_appr : List K → List K → K × K × K) (m : EncSpeed K) :
    EncSpeed K :=
  match m.encBuf with
  | [] => { m with encSpeedSimple := 0 }
  | [x0] => { m with encSpeedSimple := x0 * simpleEncSpeedK pii }
  | [x0, x1] => { m with encSpeedSimple := ((x1 - x0 : ℤ) : K) * simpleEncSpeedK pii }
  | [_, x1, x2] => { m with encSpeedSimple := ((x2 - x1 : ℤ) : K) * simpleEncSpeedK pii }
  | x0 :: x =>
    let n := x.length + 1
    let abc := parabola_appr (encTimes n) (encData pii x0 (x0 :: x))
    -- the current time is that of the newest position
    let now : K := ((n - 1 : ℕ) : K) * encReadRate * 0.001
    { m with
      encSpeed := 2.0 * abc.1 * now + abc.2.1
      encSpeedSimple :=
        ((((x0 :: x).getD (n - 1) 0) - ((x0 :: x).getD (n - 2) 0) : ℤ) : K) * simpleEncSpeedK pii }

end

end Teetest
