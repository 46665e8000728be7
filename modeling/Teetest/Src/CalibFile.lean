import Teetest.Lib.Binary
import Teetest.Src.ImuAlg

/-!
The calibration file irc.txt, which imu_alg.cpp writes at the end of a calibration and reads at the start.

Numbers are rational. How the C library stores a number that it read as a `float` is a parameter, since
it may go by way of a `double`. A failing card is left out.
-/

namespace Teetest

open Lib

/-- `fgets` of the card's library, with the room that is left: carriage returns are dropped. -/
def fgets : ℕ → List UInt8 → List UInt8
  | 0, _ => []
  | _ + 1, [] => []
  | room + 1, ch :: rest =>
    if ch = 0x0D then fgets (room + 1) rest
    -- a line feed is kept, and ends the line
    else if ch = 0x0A then [ch]
    else ch :: fgets room rest

/-- The six numbers of a calibration, in the order of the file. -/
def calibNumbers (ac wc : V3 ℚ) : List ℚ := [ac 0, ac 1, ac 2, wc 0, wc 1, wc 2]

/-- `snprintf(stmp, 512, "%.9f %.9f %.9f %.9f %.9f %.9f \r\n", ..)`. -/
def calibText (ac wc : V3 ℚ) : List UInt8 :=
  (calibNumbers ac wc).flatMap (fun x => fixedText 9 x ++ [0x20]) ++ [0x0D, 0x0A]

/-- The numbers that a `float` can hold, and those that a `double` can, if they are not too large. -/
def floats : Set ℚ := binary 24 (-149)
def doubles : Set ℚ := binary 53 (-1074)

/-- What `%f` of `sscanf` stores: the nearest `float` of a number, or of its nearest `double`. -/
def StoresFloat (store : ℚ → ℚ) : Prop :=
  RoundsTo floats store ∨
    ∃ toFloat toDouble, RoundsTo floats toFloat ∧ RoundsTo doubles toDouble ∧
      store = fun x => toFloat (toDouble x)

/-- The part of `imuAlgInit` that reads the file: the numbers that `sscanf` stores of its first line. -/
def readCalib (store : ℚ → ℚ) : Option (List UInt8) → List ℚ
  -- the file cannot be opened
  | none => []
  | some content =>
    let stmp := fgets 511 content
    if stmp.length < 5 then [] else scanFloats store 6 (cstr stmp)

/-- The file after a call; only the end of a calibration writes it. -/
def saveCall (file : Option (List UInt8)) : ImuCall ℚ → Option (List UInt8)
  | .saveCalibration ac wc => some (calibText ac wc)
  | _ => file

/-- The algorithm and the file. -/
structure CalibCard where
  alg : ImuAlg ℚ
  file : Option (List UInt8)

/-- The algorithm after the start of the program, which reads the file. -/
def CalibCard.start (lib : XMatrix ℚ) (store : ℚ → ℚ) (log : LogView) (file : Option (List UInt8)) :
    CalibCard :=
  ⟨ImuAlg.started lib log (readCalib store file), file⟩

/-- The step relation of the algorithm with its file. -/
def CalibStep (lib : XMatrix ℚ) (c : CalibCard) (e : ImuEvent ℚ) (d : CalibCard) : Prop :=
  d = ⟨(c.alg.event lib e).1, (c.alg.event lib e).2.foldl saveCall c.file⟩

end Teetest
