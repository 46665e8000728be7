import Teetest.Lib.Linked

/-!
The event responders of EventResponder.cpp: their two lists, and the loops that call their functions.

What the source does with interrupts disabled is one step, and anything can happen between two steps; a
trigger is one step as a whole. The three fragments of code that work on a list, each of which the source
repeats for both lists, are a parameter; `pointerLists` is what the source has there.
-/

namespace Teetest

open Lib

/-- `EventType`; no code assigns `EventTypeThread`. -/
inductive EventType
  | detached | yield | immediate | interrupt
deriving DecidableEq

/-- The lists that start with `firstYield` and with `firstInterrupt`. -/
inductive EventList
  | yield | interrupt
deriving DecidableEq

/-- The list of the responders of a type. -/
def EventType.list : EventType → Option EventList
  | .yield => some .yield
  | .interrupt => some .interrupt
  | _ => none

/-- The type of the responders of a list. -/
def EventList.type : EventList → EventType
  | .yield => .yield
  | .interrupt => .interrupt

/-- Where `runFromYield` or `runFromInterrupt` stands. -/
inductive RunPc (ι : Type)
  | idle
  -- at the head of the loop of `runFromInterrupt`
  | loop
  -- a responder was taken out of the list, its flag was reset, and its function runs
  | taken (this : ι)
  | calling (this : ι)
  | inside (this : ι)
deriving DecidableEq

/-- The code that works on the lists: at the end, anywhere, and at the front of a list. -/
structure ListCode (ι σ : Type) where
  append : EventList → ι → σ → Option σ
  unlink : EventList → ι → σ → Option σ
  pop : EventList → σ → Option (Option ι × σ)

/-- All objects of class `EventResponder`, its static members, and the loops. -/
structure EventResponders (ι φ δ σ : Type) where
  status : ι → ℤ
  function : ι → Option φ
  data : ι → Option δ
  type : ι → EventType
  triggered : ι → Bool
  runningFromYield : Bool
  lists : σ
  -- the PendSV interrupt was requested, and has not started yet
  pendSV : Bool
  pc : EventList → RunPc ι
  -- a history: the calls of functions, each with what the function can ask its responder for
  called : List (ι × φ × ℤ × Option δ)

/-- The members of the responders that link them, and the ends of the lists. -/
structure EventLinks (ι : Type) where
  next : ι → Option ι
  prev : ι → Option ι
  first : EventList → Option ι
  last : EventList → Option ι

section

variable {ι : Type} [DecidableEq ι]

/-- `triggerEventNotImmediate` puts a responder at the end of a list. -/
def EventLinks.append (q : EventList) (this : ι) (l : EventLinks ι) : Option (EventLinks ι) :=
  match l.first q with
  | none => some { l with
      next := Function.update l.next this none
      prev := Function.update l.prev this none
      first := Function.update l.first q (some this)
      last := Function.update l.last q (some this) }
  | some _ =>
    -- `_prev->_next`
    (l.last q).map fun last => { l with
      next := Function.update (Function.update l.next this none) last (some this)
      prev := Function.update l.prev this (some last)
      last := Function.update l.last q (some this) }

/-- `clearEvent` and `detachNoInterrupts` take a responder out of a list. -/
def EventLinks.unlink (q : EventList) (this : ι) (l : EventLinks ι) : EventLinks ι :=
  let l := match l.prev this with
    | some prev => { l with next := Function.update l.next prev (l.next this) }
    | none => { l with first := Function.update l.first q (l.next this) }
  match l.next this with
  | some next => { l with prev := Function.update l.prev next (l.prev this) }
  | none => { l with last := Function.update l.last q (l.prev this) }

/-- `runFromInterrupt` and `runFromYield` take the first responder out of a list. -/
def EventLinks.pop (q : EventList) (l : EventLinks ι) : Option ι × EventLinks ι :=
  match l.first q with
  | none => (none, l)
  | some first =>
    let l := { l with first := Function.update l.first q (l.next first) }
    match l.first q with
    | some next => (some first, { l with prev := Function.update l.prev next none })
    | none => (some first, { l with last := Function.update l.last q none })

/-- The code of the source. -/
def pointerLists : ListCode ι (EventLinks ι) where
  append := EventLinks.append
  unlink := fun q this l => some (l.unlink q this)
  pop := fun q l => some (l.pop q)

variable {φ δ σ : Type}

/-- What can happen. -/
inductive ResponderEvent (ι φ δ : Type)
  -- `attach`, `attachImmediate` or `attachInterrupt`
  | attach (this : ι) (type : EventType) (function : φ)
  | detach (this : ι)
  | triggerEvent (this : ι) (status : ℤ) (data : Option δ)
  | clearEvent (this : ι)
  -- the PendSV interrupt starts
  | pendablesrvreq_isr
  -- a step of `runFromInterrupt`
  | runFromInterrupt
  -- `runFromYield` is called, from an interrupt or not, and takes a step
  | runFromYield (ipsr : Bool)
  | yieldStep

section

variable (code : ListCode ι σ) (this : ι) (s : EventResponders ι φ δ σ)

/-- The function of a responder is called. -/
def EventResponders.call : Option (EventResponders ι φ δ σ) :=
  (s.function this).map fun function =>
    { s with called := s.called ++ [(this, function, s.status this, s.data this)] }

/-- `triggerEventNotImmediate`. -/
def EventResponders.triggerEventNotImmediate : Option (EventResponders ι φ δ σ) :=
  if s.triggered this then some s
  else
    match (s.type this).list with
    | some q => (code.append q this s.lists).map fun lists => { s with
        lists
        pendSV := s.pendSV || q = .interrupt
        triggered := Function.update s.triggered this true }
    | none =>
      -- detached, easy
      some { s with triggered := Function.update s.triggered this true }

/--
`triggerEvent`, in one step.

The source writes the status and the data, and asks for the type, before it disables interrupts.
-/
def EventResponders.triggerEvent (status : ℤ) (data : Option δ) : Option (EventResponders ι φ δ σ) :=
  let s := { s with
    status := Function.update s.status this status
    data := Function.update s.data this data }
  if s.type this = .immediate then s.call this else s.triggerEventNotImmediate code this

/-- `clearEvent`. -/
def EventResponders.clearEvent : Option (EventResponders ι φ δ σ) :=
  if s.triggered this then
    (match (s.type this).list with
      | some q => code.unlink q this s.lists
      | none => some s.lists).map fun lists =>
        { s with lists, triggered := Function.update s.triggered this false }
  else some s

/-- `detachNoInterrupts`, which leaves `_triggered`. -/
def EventResponders.detachNoInterrupts : Option (EventResponders ι φ δ σ) :=
  match (s.type this).list with
  | some q =>
    (if s.triggered this then code.unlink q this s.lists else some s.lists).map fun lists =>
      { s with lists, type := Function.update s.type this .detached }
  | none => some s

/-- `attach`, `attachImmediate` and `attachInterrupt`. -/
def EventResponders.attach (type : EventType) (function : φ) : Option (EventResponders ι φ δ σ) :=
  (s.detachNoInterrupts code this).map fun s => { s with
    function := Function.update s.function this (some function)
    type := Function.update s.type this type }

/-- The steps behind the one that took a responder out of a list, up to the call of its function. -/
def EventResponders.deliver (q : EventList) : Option (EventResponders ι φ δ σ) :=
  match s.pc q with
  | .taken this => some { s with
      triggered := Function.update s.triggered this false
      pc := Function.update s.pc q (.calling this) }
  | .calling this => (s.call this).map fun s => { s with pc := Function.update s.pc q (.inside this) }
  | _ => some s

/-- A step of `runFromInterrupt`. -/
def EventResponders.runFromInterrupt : Option (EventResponders ι φ δ σ) :=
  match s.pc .interrupt with
  | .loop => (code.pop .interrupt s.lists).map fun r => { s with
      lists := r.2
      pc := Function.update s.pc .interrupt (r.1.elim .idle .taken) }
  | .inside _ => some { s with pc := Function.update s.pc .interrupt .loop }
  | _ => s.deliver .interrupt

/-- `runFromYield`, up to the step that takes a responder out of the list. -/
def EventResponders.runFromYield (ipsr : Bool) : Option (EventResponders ι φ δ σ) :=
  if ipsr || s.runningFromYield then some s
  else (code.pop .yield s.lists).map fun r =>
    match r.1 with
    | none => s
    | some first => { s with
        lists := r.2
        runningFromYield := true
        pc := Function.update s.pc .yield (.taken first) }

/-- A later step of it. -/
def EventResponders.yieldStep : Option (EventResponders ι φ δ σ) :=
  match s.pc .yield with
  | .inside _ => some { s with
      runningFromYield := false
      pc := Function.update s.pc .yield .idle }
  | _ => s.deliver .yield

/-- An event; `none` is a null pointer that is followed. -/
def EventResponders.event : ResponderEvent ι φ δ → Option (EventResponders ι φ δ σ)
  | .attach this type function => s.attach code this type function
  | .detach this => s.detachNoInterrupts code this
  | .triggerEvent this status data => s.triggerEvent code this status data
  | .clearEvent this => s.clearEvent code this
  | .pendablesrvreq_isr =>
    if s.pendSV && s.pc .interrupt = .idle then
      some { s with pendSV := false, pc := Function.update s.pc .interrupt .loop }
    else some s
  | .runFromInterrupt => s.runFromInterrupt code
  | .runFromYield ipsr => s.runFromYield code ipsr
  | .yieldStep => s.yieldStep

end

end

/-- The state at the start of the program, with empty lists. -/
def EventResponders.start {ι φ δ σ : Type} (lists : σ) : EventResponders ι φ δ σ where
  status := fun _ => 0
  function := fun _ => none
  data := fun _ => none
  type := fun _ => .detached
  triggered := fun _ => false
  runningFromYield := false
  lists := lists
  pendSV := false
  pc := fun _ => .idle
  called := []

/-- The empty lists. -/
def EventLinks.start {ι : Type} : EventLinks ι where
  next := fun _ => none
  prev := fun _ => none
  first := fun _ => none
  last := fun _ => none

end Teetest
