import Teetest.Lib.CString
import Teetest.Src.LogFile

/-!
The buffers that log names are made in, in logfile.cpp and teetools.cpp.

Reading a character that was not written, or past the end of a buffer, gives `none`, as does writing past it.
-/

namespace Teetest

open Lib

/--
The name that `lfStart` leaves in `fileNameCopy`, over its former bytes: the one of the argument, or an
automatic one.
-/
def lfStartName (fileNameCopy : Vector UInt8 64) (fileName : Option (List UInt8)) (fileNumber : Int) :
    Option Cells :=
  let copy : Cells := fileNameCopy.toList.map some
  match fileName with
  | none => sprintf copy (logName fileNumber)
  | some fileName => strncpy copy (fileName.map some ++ [some 0]) 64

/-- The buffer `fn` of `logSetup` with the beginning of the name. -/
def logSetupCopy (fileName : Cells) : Option Cells := strncpy (Cells.fresh 32) fileName 16

/-- The buffer `fn` of `logSetup`, once the last three characters are replaced. -/
def logSetupName (fileName : Cells) : Option Cells := do
  let fn ← logSetupCopy fileName
  let nfn ← fn.text.map List.length
  -- remove .xq
  let fn ← if nfn > 3 then fn.put (nfn - 3) [0] else some fn
  strcat fn (ascii "_s.txt")

/-- The buffer `fn` of `lfProcess`. -/
def lfProcessName (fileNameCopy : Cells) (fileCounter : Int) : Option Cells := do
  let fn ← strncpy (Cells.fresh 75) fileNameCopy 64
  -- `snprintf` with room for 16 characters
  let ntmp := (ascii "_" ++ intText fileCounter).take 15
  strncat fn ntmp 8

end Teetest
