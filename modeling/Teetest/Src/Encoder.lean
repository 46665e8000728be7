import Teetest.Lib.Bytes

/-!
The quadrature encoders of Encoder.h, with the port interrupt of interrupt.c that runs them.

The wheel is no part of the program: the edges it has turned by say what the two pins show. The wheel rests
while the encoder is constructed. Other pins of a port only take time.
-/

namespace Teetest

open Lib

/-- The pins of an encoder. -/
inductive EncPin
  | pin1 | pin2
deriving DecidableEq

/-- What a pin shows when the wheel has turned by some edges, as Encoder.h draws it. -/
def EncPin.level (turned : ℤ) : EncPin → Bool
  | .pin1 => turned % 4 = 2 ∨ turned % 4 = 3
  | .pin2 => turned % 4 = 1 ∨ turned % 4 = 2

/-- `Encoder_internal_state_t`, without the registers and masks of the pins. -/
structure Encoder where
  state : UInt8
  position : ℤ
deriving DecidableEq

/-- The constructor of `Encoder`. -/
def Encoder.init (p1val p2val : Bool) : Encoder :=
  let s : UInt8 := 0
  let s := if p1val then s ||| 1 else s
  let s := if p2val then s ||| 2 else s
  { state := s, position := 0 }

/-- `update`. -/
def Encoder.update (arg : Encoder) (p1val p2val : Bool) : Encoder :=
  let state := arg.state &&& 3
  let state := if p1val then state ||| 4 else state
  let state := if p2val then state ||| 8 else state
  { state := state >>> 2
    position :=
      if state = 1 ∨ state = 7 ∨ state = 8 ∨ state = 14 then wrap32 (arg.position + 1)
      else if state = 2 ∨ state = 4 ∨ state = 11 ∨ state = 13 then wrap32 (arg.position - 1)
      -- both pins have changed: an edge of the first pin is taken to be missing
      else if state = 3 ∨ state = 12 then wrap32 (arg.position + 2)
      else if state = 6 ∨ state = 9 then wrap32 (arg.position - 2)
      else arg.position }

/-- Where `irq_anyport` stands. -/
inductive PortPc
  | idle
  -- the flags are read, and cleared next
  | status (flags : EncPin → Bool)
  -- in the loop with so many calls of `update` left, and in the first of them behind its reading of a pin
  | loop (calls : ℕ)
  | update (calls : ℕ) (p1val : Bool)

/-- An encoder with its wheel and its port. -/
structure EncWheel where
  turned : ℤ
  -- the flags of the pins in `gpio[ISR_INDEX]`
  isr : EncPin → Bool
  pc : PortPc
  encoder : Encoder
  -- a history: whether a call of `update` has begun, and ended, since the last edge
  begun : Bool
  current : Bool

/-- What happens next to an encoder. -/
inductive EncEvent
  -- the wheel turns by an edge
  | turn (forward : Bool)
  -- the interrupt of a port that has some of the pins starts
  | irq (port : EncPin → Bool)
  -- the flags are cleared, and then the two pins read in turn
  | clear
  | readPin1
  | readPin2

/-- The wheel turns by an edge, and the port flags the pin that has changed. -/
def EncWheel.turn (s : EncWheel) (forward : Bool) : EncWheel :=
  let turned := if forward then s.turned + 1 else s.turned - 1
  { s with
    turned := turned
    isr := fun p => s.isr p || p.level turned != p.level s.turned
    begun := false
    current := false }

/-- The state after an event, if it can happen. -/
def EncWheel.step (s : EncWheel) : EncEvent → Option EncWheel
  | .turn forward => some (s.turn forward)
  | .irq port =>
    match s.pc with
    | .idle =>
      let status := fun p => s.isr p && port p
      if status .pin1 || status .pin2 then some { s with pc := .status status } else none
    | _ => none
  | .clear =>
    match s.pc with
    | .status flags =>
      some { s with
        isr := fun p => s.isr p && !flags p
        pc := .loop ((flags .pin1).toNat + (flags .pin2).toNat) }
    | _ => none
  | .readPin1 =>
    match s.pc with
    | .loop calls => some { s with pc := .update calls (EncPin.pin1.level s.turned), begun := true }
    | _ => none
  | .readPin2 =>
    match s.pc with
    | .update calls p1val =>
      some { s with
        encoder := s.encoder.update p1val (EncPin.pin2.level s.turned)
        pc := if calls ≤ 1 then .idle else .loop (calls - 1)
        current := s.current || s.begun }
    | _ => none

/-- The step relation of an encoder. -/
def EncStep (s : EncWheel) (e : EncEvent) (t : EncWheel) : Prop := s.step e = some t

/-- An encoder that was just constructed, with its wheel somewhere. -/
def EncWheel.start (turned : ℤ) : EncWheel where
  turned := turned
  isr := fun _ => false
  pc := .idle
  encoder := .init (EncPin.pin1.level turned) (EncPin.pin2.level turned)
  begun := false
  current := true

end Teetest
