import Mathlib.Tactic

/-!
The scheduling loop of blink.cpp.

The program ends up in a loop in front of it, which only blinks.
-/

namespace Teetest

/-- The variables of `main` that the loop schedules with. -/
structure Pings where
  fast100msPingTime : UInt32
  fast250msPingTime : UInt32
  oneSecondPingTime : UInt32
  secondsCounter : UInt32
  deriving DecidableEq

/-- Their values in front of the loop. -/
def Pings.start (msNow : UInt32) : Pings := ⟨msNow, msNow, msNow, 0⟩

/-- The functions that the loop calls from time to time. -/
inductive PingEvent where
  -- the commands of the remote control
  | event100ms
  -- the commands of the USB line
  | event250ms
  | event1s
  deriving DecidableEq

/-- An iteration of the loop, and what it calls. -/
def Pings.iteration (p : Pings) (msNow : UInt32) : Pings × List PingEvent :=
  if msNow > p.fast100msPingTime + 100 then
    let p := { p with fast100msPingTime := msNow }
    if msNow > p.fast250msPingTime + 250 then
      let p := { p with fast250msPingTime := msNow }
      if msNow > p.oneSecondPingTime + 1000 then
        ({ p with oneSecondPingTime := msNow, secondsCounter := p.secondsCounter + 1 },
          [.event100ms, .event250ms, .event1s])
      else (p, [.event100ms, .event250ms])
    else (p, [.event100ms])
  else (p, [])

end Teetest
