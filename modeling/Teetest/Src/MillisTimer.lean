import Teetest.Lib.Linked

/-!
The software timers of EventResponder.cpp: `MillisTimer`, with its list of waiting timers and its delta
queue of active ones.

A field of all timers is a function on them, and a null pointer is `none`. A function that follows a null
pointer, or a loop of it that takes more rounds than there are timers, gives `none`. The tick comes from
an interrupt that main code cannot interrupt.
-/

namespace Teetest

open Lib

/-- `TimerStateType`. -/
inductive TimerState
  | timerOff | timerWaiting | timerActive
deriving DecidableEq

/-- All objects of class `MillisTimer`, and its static members. -/
structure MillisTimers (ι ε : Type) where
  ms : ι → UInt32
  reload : ι → UInt32
  next : ι → Option ι
  prev : ι → Option ι
  event : ι → Option ε
  state : ι → TimerState
  -- a singly linked list of the timers that wait to start, and a doubly linked one of those that run
  listWaiting : Option ι
  listActive : Option ι

section

variable {ι ε : Type}

/-- The state at the start of the program. -/
def MillisTimers.start : MillisTimers ι ε where
  ms := fun _ => 0
  reload := fun _ => 0
  next := fun _ => none
  prev := fun _ => none
  event := fun _ => none
  state := fun _ => .timerOff
  listWaiting := none
  listActive := none

variable [DecidableEq ι] (this : ι) (s : MillisTimers ι ε)

/-- `addToWaitingList`. -/
def MillisTimers.addToWaitingList : MillisTimers ι ε :=
  { s with
    prev := Function.update s.prev this none
    next := Function.update s.next this s.listWaiting
    listWaiting := some this
    state := Function.update s.state this .timerWaiting }

/-- The loop of `addToActiveList`, behind a timer of the list that is not due later. -/
def MillisTimers.findPlace (this : ι) : ℕ → ι → MillisTimers ι ε → Option (MillisTimers ι ε)
  | 0, _, _ => none
  | fuel + 1, timer, s =>
    let s := { s with ms := Function.update s.ms this (s.ms this - s.ms timer) }
    match s.next timer with
    | none =>
      -- add this timer at the end of the list
      some { s with
        next := Function.update (Function.update s.next this none) timer (some this)
        prev := Function.update s.prev this (some timer)
        state := Function.update s.state this .timerActive }
    | some timer =>
      if s.ms this < s.ms timer then
        -- found the right place in the middle of the list
        (s.prev timer).map fun before => { s with
          next := Function.update (Function.update s.next this (some timer)) before (some this)
          prev := Function.update (Function.update s.prev this (some before)) timer (some this)
          ms := Function.update s.ms timer (s.ms timer - s.ms this)
          state := Function.update s.state this .timerActive }
      else findPlace this fuel timer s

/-- `addToActiveList`. -/
def MillisTimers.addToActiveList (fuel : ℕ) : Option (MillisTimers ι ε) :=
  match s.listActive with
  | none =>
    -- the list is empty, the easy case
    some { s with
      next := Function.update s.next this none
      prev := Function.update s.prev this none
      listActive := some this
      state := Function.update s.state this .timerActive }
  | some first =>
    if s.ms this < s.ms first then
      -- this timer triggers before any on the list
      some { s with
        next := Function.update s.next this (some first)
        prev := Function.update (Function.update s.prev this none) first (some this)
        ms := Function.update s.ms first (s.ms first - s.ms this)
        listActive := some this
        state := Function.update s.state this .timerActive }
    else s.findPlace this fuel first

/-- The loop of `end` over the waiting timers. -/
def MillisTimers.skipWaiting (this : ι) : ℕ → Option ι → MillisTimers ι ε → Option (MillisTimers ι ε)
  | _, none, s => some s
  | 0, some _, _ => none
  | fuel + 1, some timer, s =>
    if s.next timer = some this then some { s with next := Function.update s.next timer (s.next this) }
    else skipWaiting this fuel (s.next timer) s

/-- The branch of `end` for a timer that is active. -/
def MillisTimers.endActive : MillisTimers ι ε :=
  let s := match s.next this with
    -- add in the rest of our timing to next entry
    | some next => { s with
        prev := Function.update s.prev next (s.prev this)
        ms := Function.update s.ms next (s.ms next + s.ms this) }
    | none => s
  match s.prev this with
  | some prev => { s with next := Function.update s.next prev (s.next this) }
  | none => { s with listActive := s.next this }

/-- `end`. -/
def MillisTimers.end_ (fuel : ℕ) : Option (MillisTimers ι ε) :=
  match s.state this with
  | .timerOff => some s
  | .timerActive =>
    let s := s.endActive this
    some { s with state := Function.update s.state this .timerOff }
  | .timerWaiting =>
    (if s.listWaiting = some this then some { s with listWaiting := s.next this }
      else s.skipWaiting this fuel s.listWaiting).map fun s =>
        { s with state := Function.update s.state this .timerOff }

/-- A timer that repeats goes into the list again. -/
def MillisTimers.again (fuel : ℕ) : Option (MillisTimers ι ε) :=
  if s.reload this ≠ 0 then
    { s with ms := Function.update s.ms this (s.reload this) }.addToActiveList this fuel
  else some s

/-- The first loop of `runFromTimer`, with the events that it triggers and their timers. -/
def MillisTimers.triggerDue (fuel : ℕ) :
    ℕ → MillisTimers ι ε → Option (MillisTimers ι ε × List (ε × ι))
  | 0, _ => none
  | rounds + 1, s =>
    match s.listActive with
    | none => some (s, [])
    | some timer =>
      if 0 < s.ms timer then some ({ s with ms := Function.update s.ms timer (s.ms timer - 1) }, [])
      else
        let next := s.next timer
        let s := { s with
          prev := assign s.prev next none
          listActive := next
          state := Function.update s.state timer .timerOff }
        do
          let event ← s.event timer
          let s ← s.again timer fuel
          let (s, later) ← triggerDue fuel rounds s
          some (s, (event, timer) :: later)

/-- The second loop of `runFromTimer`, over the timers that waited. -/
def MillisTimers.startWaiting (fuel : ℕ) : ℕ → Option ι → MillisTimers ι ε → Option (MillisTimers ι ε)
  | _, none, s => some s
  | 0, some _, _ => none
  | rounds + 1, some waiting, s =>
    let next := s.next waiting
    (s.addToActiveList waiting fuel).bind (startWaiting fuel rounds next)

/-- `runFromTimer`. -/
def MillisTimers.runFromTimer (fuel : ℕ) : Option (MillisTimers ι ε × List (ε × ι)) := do
  let (s, events) ← s.triggerDue fuel fuel
  let waiting := s.listWaiting
  let s ← MillisTimers.startWaiting fuel fuel waiting { s with listWaiting := none }
  some (s, events)

/-- So many ticks, each with its events. -/
def MillisTimers.ticks (fuel : ℕ) : ℕ → MillisTimers ι ε → Option (MillisTimers ι ε × List (List (ε × ι)))
  | 0, s => some (s, [])
  | n + 1, s => do
    let (s, events) ← s.runFromTimer fuel
    let (s, later) ← ticks fuel n s
    some (s, events :: later)

/--
`begin` and `beginRepeating`, which differ in the value of `_reload`.

The ticks come between the end of the timer's last use and its way into the list, while it is off.
-/
def MillisTimers.begin (fuel : ℕ) (milliseconds reload : UInt32) (event : ε) (interrupts : ℕ) :
    Option (MillisTimers ι ε × List (List (ε × ι))) := do
  let s ← (if s.state this ≠ .timerOff then s.end_ this fuel else some s)
  let (s, events) ← s.ticks fuel interrupts
  if milliseconds = 0 then some (s, events)
  else
    let s := { s with
      event := Function.update s.event this (some event)
      ms := Function.update s.ms this (if milliseconds > 2 then milliseconds - 2 else 0)
      reload := Function.update s.reload this reload }
    some (s.addToWaitingList this, events)

/-- What is called, for which timer. -/
inductive TimerCall (ι ε : Type)
  | runFromTimer
  | end_ (this : ι)
  | begin (this : ι) (milliseconds : UInt32) (event : ε) (interrupts : ℕ)
  | beginRepeating (this : ι) (milliseconds : UInt32) (event : ε) (interrupts : ℕ)

/-- A call, with the events of every tick that comes. -/
def MillisTimers.call (fuel : ℕ) : TimerCall ι ε → Option (MillisTimers ι ε × List (List (ε × ι)))
  | .runFromTimer => (s.runFromTimer fuel).map fun r => (r.1, [r.2])
  | .end_ this => (s.end_ this fuel).map fun s => (s, [])
  | .begin this milliseconds event interrupts => s.begin this fuel milliseconds 0 event interrupts
  | .beginRepeating this milliseconds event interrupts =>
    s.begin this fuel milliseconds milliseconds event interrupts

/-- A sequence of calls, with the events of every tick. -/
def MillisTimers.run (fuel : ℕ) :
    List (TimerCall ι ε) → MillisTimers ι ε → Option (MillisTimers ι ε × List (List (ε × ι)))
  | [], s => some (s, [])
  | c :: calls, s => do
    let (s, events) ← s.call fuel c
    let (s, later) ← run fuel calls s
    some (s, events ++ later)

end

end Teetest
