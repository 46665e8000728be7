import Mathlib.Tactic

/-!
The infrared remote control of ir.cpp.

What the library decodes is the argument `code`.
-/

namespace Teetest

/-- `ciSize`, how many buttons are known. -/
abbrev ciSize : ℕ := 10

/-- `cInterval_ms`, the least time between two commands of a button. -/
def cInterval_ms : UInt32 := 250

/-- `cmds`. -/
def cmds : Fin ciSize → String :=
  ![
    "dec speed", "play", "inc speed", "setup", "up",
    "stop", "left", "enter", "right", "down"
  ]

/-- `IRCodes`. -/
inductive IRCodes where
  | VOLm | PLAY | VOLp | SETUP | UP | STOP | LEFT | ENTER | RIGHT | DOWN
  deriving DecidableEq

/-- The values of `IRCodes`. -/
def IRCodes.code : IRCodes → UInt32
  | VOLm => 0xfd00ff
  | PLAY => 0xfd807f
  | VOLp => 0xfd40bf
  | SETUP => 0xfd20df
  | UP => 0xfda05f
  | STOP => 0xfd609f
  | LEFT => 0xfd10ef
  | ENTER => 0xfd906f
  | RIGHT => 0xfd50af
  | DOWN => 0xfdb04f

/-- The place of a button in `cmds`. -/
def IRCodes.button : IRCodes → Fin ciSize
  | VOLm => 0
  | PLAY => 1
  | VOLp => 2
  | SETUP => 3
  | UP => 4
  | STOP => 5
  | LEFT => 6
  | ENTER => 7
  | RIGHT => 8
  | DOWN => 9

/-- The `switch` of `irProces`; codes that it does not know leave `cIndex` negative. -/
def cIndex (code : UInt32) : Option (Fin ciSize) :=
  if code = IRCodes.VOLm.code then some 0
  else if code = IRCodes.PLAY.code then some 1
  else if code = IRCodes.VOLp.code then some 2
  else if code = IRCodes.SETUP.code then some 3
  else if code = IRCodes.STOP.code then some 5
  else if code = IRCodes.LEFT.code then some 6
  else if code = IRCodes.ENTER.code then some 7
  else if code = IRCodes.RIGHT.code then some 8
  else none

/-- `ciTime`, when each command was last processed. -/
abbrev CiTime := Fin ciSize → UInt32

/-- `irSetup`. -/
def irSetup : CiTime := fun _ => 0

/-- `irProces` with a decoded frame, and the command that it processes. -/
def irProces (ciTime : CiTime) (code msNow : UInt32) : CiTime × Option String :=
  match cIndex code with
  | none => (ciTime, none)
  | some i =>
    let t1 := ciTime i
    if msNow = t1 then (ciTime, none)
    else
      -- after a roll-over the time since it is taken
      let dt := if msNow > t1 then msNow - t1 else msNow
      if dt > cInterval_ms then (Function.update ciTime i msNow, some (cmds i))
      else (ciTime, none)

end Teetest
