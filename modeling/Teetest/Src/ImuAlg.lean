import Teetest.Src.LogSend

/-!
The attitude algorithm of imu_alg.cpp: the static test, the calibration dialogue and balancing.

Numbers are the elements of an ordered field, and the vector library is a parameter where it is more
than sums and products.
-/

namespace Teetest

/-- `RState` of robot.h. -/
inductive RState
  | rsInit | rsStop | rsPlay | rsImuCalibrate
deriving DecidableEq

/-- `ICState` of robot.h. -/
inductive ICState
  | icInit | icWaitRotation | icRotation | icWaitStatic | icStatic | icComplete
deriving DecidableEq

/-- `ImuAlgState` of imu_alg.h. -/
inductive ImuAlgState
  | iaInit | iaStaticTest | iaWait | iaGood
deriving DecidableEq

/-- `V3`, a vector of three numbers. -/
abbrev V3 (K : Type) := Fin 3 → K

/-- A vector has a first coordinate. -/
instance V3.neZero : NeZero 3 := ⟨by decide⟩

/-- `DCM`, a matrix of three rows and columns. -/
abbrev DCM (K : Type) := Matrix (Fin 3) (Fin 3) K

/-- `XIMUData`, a sample of the IMU. -/
structure XIMUData (K : Type) where
  a : V3 K
  w : V3 K
  timestamp : Nat

/-- The functions of the vector library and of the C library that are more than sums and products. -/
structure XMatrix (K : Type) where
  normalize : V3 K → V3 K
  -- `operator !` of `DCM`
  inverse : DCM K → DCM K
  asin : K → K

/-- `NaiveImuAttitude`, without the members that nothing reads. -/
structure NaiveImuAttitude (K : Type) where
  timestamp : Nat
  angle : K

/-- The variables of imu_alg.cpp and robot.cpp. -/
structure ImuAlg (K : Type) where
  rState : RState
  icState : ICState
  iaState : ImuAlgState
  imuCounter : Nat
  a0 : V3 K
  w0 : V3 K
  -- `XMCov2`: the vectors that were added since the last reset, in order
  wm : List (V3 K)
  am : List (V3 K)
  ac : V3 K
  wc : V3 K
  Qir : DCM K
  haveImuCalibration : Bool
  nia : NaiveImuAttitude K

/-- The calls that the algorithm makes of other modules, and its call of `calibration`. -/
inductive ImuCall (K : Type)
  | calibration (wc ac : V3 K)
  | setMSpeed (u : K)
  | mdStop
  | lfSendMessage
  | lfStop
  -- the calibration file is written
  | saveCalibration (ac wc : V3 K)
  | lfStart

/-- What the algorithm sees of the log module. -/
structure LogView where
  lfState : LFState
  lfWriting : Bool
deriving DecidableEq

section

variable {K : Type} [Field K] [LinearOrder K]

/-- `wrBound`. -/
def wrBound : K := (45 / 100) * (45 / 100)

/-- `norma2`, the square of a vector's length. -/
def norma2 (v : V3 K) : K := v 0 * v 0 + v 1 * v 1 + v 2 * v 2

/-- `ddiv`. -/
def ddiv (v : V3 K) (n : Nat) : V3 K := fun i => v i / n

/-- The mean of vectors, as `XMCov2.average` computes it of those that were added. -/
def mean (vs : List (V3 K)) : V3 K := ddiv vs.sum vs.length

/-- `cross`. -/
def cross (a b : V3 K) : V3 K :=
  ![a 1 * b 2 - a 2 * b 1, a 2 * b 0 - a 0 * b 2, a 0 * b 1 - a 1 * b 0]

/-- `niReset`. -/
def NaiveImuAttitude.niReset : NaiveImuAttitude K := ⟨0, 0⟩

/-- `niUpdate`. -/
def NaiveImuAttitude.niUpdate (n : NaiveImuAttitude K) (a w : K) (time : Nat) : NaiveImuAttitude K :=
  if n.timestamp = 0 then ⟨time, a⟩
  -- rollover
  else if time < n.timestamp then ⟨time, n.angle⟩
  else
    let dt : K := (time - n.timestamp : Nat) * (1 / 1000)
    ⟨time, 99 / 100 * (n.angle + w * dt) + 1 / 100 * a⟩

variable (lib : XMatrix K)

/-- The matrix `Qir` that `calibration` computes from `wc` and `ac`. -/
def calibrated (wc ac : V3 K) : DCM K :=
  let wc1 := lib.normalize wc
  let ac1 := lib.normalize ac
  let rYimu := wc1
  let rXimu := cross ac1 wc1
  let rZimu := cross rXimu rYimu
  -- the axes of the robot are the columns of `Qri`
  lib.inverse (Matrix.of fun i j => ![rXimu, rYimu, rZimu] j i)

/-- `calibration`. -/
def ImuAlg.calibration (s : ImuAlg K) : ImuAlg K × List (ImuCall K) :=
  ({ s with Qir := calibrated lib s.wc s.ac, haveImuCalibration := true },
    [.calibration s.wc s.ac])

/-- `imuAlgInit`; `parsed` are the numbers that `sscanf` finds in the calibration file, if any. -/
def ImuAlg.imuAlgInit (s : ImuAlg K) (log : LogView) (parsed : List K) :
    ImuAlg K × List (ImuCall K) :=
  let s := { s with iaState := .iaInit, imuCounter := 0 }
  if log.lfState = .lfSGood then
    let stop := if log.lfWriting then [.lfStop] else []
    let s := { s with
      ac := fun i => (parsed[i.val]?).getD (s.ac i)
      wc := fun i => (parsed[i.val + 3]?).getD (s.wc i) }
    let (s, calls) := if parsed.length = 6 then s.calibration lib else (s, [])
    (s, stop ++ calls ++ if log.lfWriting then [.lfStart] else [])
  else (s, [])

/-- `startImuCalibration`. -/
def ImuAlg.startImuCalibration (s : ImuAlg K) (log : LogView) : ImuAlg K :=
  if log.lfState ≠ .lfSGood then s
  else { s with iaState := .iaInit, icState := .icInit, rState := .rsImuCalibrate }

/-- `endImuCalibration`. -/
def ImuAlg.endImuCalibration (s : ImuAlg K) (log : LogView) : ImuAlg K × List (ImuCall K) :=
  let (s, calls) := s.calibration lib
  let s := { s with rState := .rsStop }
  if log.lfState ≠ .lfSGood then (s, calls)
  else
    (s, calls ++ (if log.lfWriting then [.lfStop] else []) ++ [.saveCalibration s.ac s.wc] ++
      if log.lfWriting then [.lfStart] else [])

/-- `nextImuCalibration`. -/
def ImuAlg.nextImuCalibration (s : ImuAlg K) : ImuAlg K :=
  if s.rState ≠ .rsImuCalibrate then s
  else
    match s.icState with
    | .icWaitRotation => { s with imuCounter := 0, wm := [], am := [], icState := .icRotation }
    | .icWaitStatic => { s with imuCounter := 0, wm := [], am := [], icState := .icStatic }
    | _ => s

/-- The case `iaStaticTest` of `imuAlgFeed`. -/
def ImuAlg.staticTest (s : ImuAlg K) (imu : XIMUData K) : ImuAlg K :=
  let s := { s with
    a0 := s.a0 + imu.a
    w0 := s.w0 + imu.w
    imuCounter := s.imuCounter + 1
    am := s.am ++ [imu.a]
    wm := s.wm ++ [imu.w] }
  if s.imuCounter > 200 then
    { s with
      a0 := ddiv s.a0 s.imuCounter
      w0 := ddiv s.w0 s.imuCounter
      iaState := .iaGood
      icState := if s.rState = .rsImuCalibrate then .icWaitRotation else s.icState }
  else s

/-- The case `icRotation` of `imuAlgFeed`. -/
def ImuAlg.rotation (s : ImuAlg K) (imu : XIMUData K) : ImuAlg K :=
  let w := imu.w - s.w0
  if norma2 w < wrBound then s
  else
    let s := { s with wm := s.wm ++ [w], imuCounter := s.imuCounter + 1 }
    if s.imuCounter > 100 then { s with wc := mean s.wm, icState := .icWaitStatic } else s

/-- The case `icStatic` of `imuAlgFeed`. -/
def ImuAlg.static (s : ImuAlg K) (imu : XIMUData K) (log : LogView) : ImuAlg K × List (ImuCall K) :=
  let s := { s with am := s.am ++ [imu.a], imuCounter := s.imuCounter + 1 }
  if s.imuCounter > 100 then
    { s with ac := mean s.am, icState := .icComplete }.endImuCalibration lib log
  else (s, [])

/-- The case `rsPlay` of `imuAlgFeed`. -/
def ImuAlg.play (s : ImuAlg K) (imu : XIMUData K) : ImuAlg K × List (ImuCall K) :=
  let w := imu.w - s.w0
  let gm := lib.normalize imu.a
  let gr := s.Qir.mulVec gm
  let wr := s.Qir.mulVec w
  let a := lib.asin (gr 0)
  let wry := wr 1
  let nia := s.nia.niUpdate a (-wry) imu.timestamp
  let q := nia.angle * (68 / 10)
  let wy := wry * (-(18 / 100))
  ({ s with nia := nia }, [.setMSpeed (q + wy), .lfSendMessage])

/-- `imuAlgFeed`. -/
def ImuAlg.imuAlgFeed (s : ImuAlg K) (imu : XIMUData K) (log : LogView) :
    ImuAlg K × List (ImuCall K) :=
  match s.iaState with
  | .iaInit =>
    -- this case falls through to the next
    ({ s with iaState := .iaStaticTest, a0 := 0, w0 := 0, wm := [], am := [], imuCounter := 0
      }.staticTest imu, [])
  | .iaStaticTest => (s.staticTest imu, [])
  | .iaWait => (s, [])
  | .iaGood =>
    match s.rState with
    | .rsImuCalibrate =>
      match s.icState with
      | .icRotation => (s.rotation imu, [])
      | .icStatic => s.static lib imu log
      | _ => (s, [])
    | .rsPlay => s.play lib imu
    | _ => (s, [])

/-- `rStay`. -/
def ImuAlg.rStay (s : ImuAlg K) : ImuAlg K :=
  if !s.haveImuCalibration then s
  else { s with rState := .rsPlay, nia := .niReset }

/-- `rStop`. -/
def ImuAlg.rStop (s : ImuAlg K) : ImuAlg K × List (ImuCall K) :=
  ({ s with rState := .rsStop }, [.mdStop])

/-- The values of the variables when the program starts. -/
def ImuAlg.powerUp : ImuAlg K where
  rState := .rsStop
  icState := .icInit
  iaState := .iaInit
  imuCounter := 0
  a0 := 0
  w0 := 0
  wm := []
  am := []
  ac := 0
  wc := 0
  Qir := 0
  haveImuCalibration := false
  nia := .niReset

/-- What happens to the algorithm: a command, or a sample of the IMU. -/
inductive ImuEvent (K : Type)
  | setup (log : LogView)
  | enter
  | play
  | stop
  | sample (imu : XIMUData K) (log : LogView)

/-- The state after an event, and the calls it makes. -/
def ImuAlg.event (s : ImuAlg K) : ImuEvent K → ImuAlg K × List (ImuCall K)
  | .setup log => (s.startImuCalibration log, [])
  | .enter => (s.nextImuCalibration, [])
  | .play => (s.rStay, [])
  | .stop => s.rStop
  | .sample imu log => s.imuAlgFeed lib imu log

/-- The step relation of the algorithm. -/
def ImuStep (s : ImuAlg K) (e : ImuEvent K) (t : ImuAlg K) : Prop := t = (s.event lib e).1

/-- The state when the first command or sample comes, after `imuAlgInit`. -/
def ImuAlg.started (log : LogView) (parsed : List K) : ImuAlg K :=
  (ImuAlg.powerUp.imuAlgInit lib log parsed).1

end

end Teetest
