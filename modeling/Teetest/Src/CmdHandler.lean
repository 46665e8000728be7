import Teetest.Lib.Bytes

/-! The command line of cmdhandler.cpp: how bytes from USB become strings, and which commands there are. -/

namespace Teetest

open Lib

/-- `infoSize`, the size of the line buffer. -/
def infoSize : Nat := 88

/-- `incomingUsbSerialInfoSize`, the most bytes that one read of USB returns. -/
def incomingUsbSerialInfoSize : Nat := 32

/-- The bytes that end a line: NUL, line feed and carriage return. -/
def isLineEnd (b : UInt8) : Bool := b == 0 || b == 0x0A || b == 0x0D

/-- One round of the loop of `onIncomingInfo`: the line buffer, and the string that is dispatched. -/
def onIncomingByte (info : List UInt8) (i : Nat) (b : UInt8) : List UInt8 × List (List UInt8) :=
  -- overflow: the index in the chunk is added to the index in the line buffer
  let info := if i + info.length ≥ infoSize - 1 then [] else info
  if isLineEnd b then ([], [info]) else (info ++ [b], [])

/-- The loop of `onIncomingInfo`, over the bytes of a chunk with their indices. -/
def onIncomingBytes : List UInt8 → List (UInt8 × Nat) → List UInt8 × List (List UInt8)
  | info, [] => (info, [])
  | info, (b, i) :: rest =>
    let now := onIncomingByte info i b
    let later := onIncomingBytes now.1 rest
    (later.1, now.2 ++ later.2)

/-- `onIncomingInfo`: the line buffer after a chunk, and the calls of `processTheCommand`. -/
def onIncomingInfo (info : List UInt8) (s : List UInt8) : List UInt8 × List (List UInt8) :=
  onIncomingBytes info s.zipIdx

/-- `h_usb_serial` over the results of its reads. -/
def h_usb_serial : List UInt8 → List (List UInt8) → List UInt8 × List (List UInt8)
  | info, [] => (info, [])
  | info, s :: reads =>
    let now := onIncomingInfo info s
    let later := h_usb_serial now.1 reads
    (later.1, now.2 ++ later.2)

/-- The commands of `processTheCommand`. -/
inductive Command
  | incSpeed | decSpeed | files | stop | left | right | setup | enter | play | imu | eth
  | log (name : Option (List UInt8))
  | lstop | lprint
  | get (name : List UInt8)
  | batt
deriving DecidableEq

/-- Which command `processTheCommand` finds in a string. -/
def processTheCommand (s : List UInt8) : Option Command :=
  if s = ascii "inc speed" then some .incSpeed
  else if s = ascii "dec speed" then some .decSpeed
  else if s = ascii "files" then some .files
  else if s = ascii "stop" then some .stop
  else if s = ascii "left" then some .left
  else if s = ascii "right" then some .right
  else if s = ascii "setup" then some .setup
  else if s = ascii "enter" then some .enter
  else if s = ascii "play" then some .play
  else if s = ascii "imu" then some .imu
  else if s = ascii "eth" then some .eth
  else if (ascii "log").isPrefixOf s then
    -- a name is used if there is anything behind the fourth character
    if s.length > 4 then some (.log (some (s.drop 4))) else some (.log none)
  else if s = ascii "lstop" then some .lstop
  else if s = ascii "lprint" then some .lprint
  else if (ascii "get ").isPrefixOf s then some (.get (s.drop 4))
  else if s = ascii "batt" then some .batt
  else none

/-- The loop goes on over the bytes of the next chunk. -/
theorem onIncomingBytes_append (info : List UInt8) (first second : List (UInt8 × Nat)) :
    onIncomingBytes info (first ++ second) =
      ((onIncomingBytes (onIncomingBytes info first).1 second).1,
        (onIncomingBytes info first).2 ++ (onIncomingBytes (onIncomingBytes info first).1 second).2) := by
  induction first generalizing info with
  | nil => rfl
  | cons p first ih =>
    -- The first byte is handled alike on both sides.
    simp only [List.cons_append, onIncomingBytes, ih, List.append_assoc]

/-- The bytes of a stream as they were read, each with its index in its chunk. -/
def positions (reads : List (List UInt8)) : List (UInt8 × Nat) := reads.flatMap List.zipIdx

/-- Reading chunk by chunk is one loop over the bytes with their indices. -/
theorem h_usb_serial_eq (info : List UInt8) (reads : List (List UInt8)) :
    h_usb_serial info reads = onIncomingBytes info (positions reads) := by
  induction reads generalizing info with
  | nil => rfl
  | cons s reads ih =>
    simp only [positions, List.flatMap_cons]
    rw [onIncomingBytes_append]
    simp only [h_usb_serial, onIncomingInfo, ih]
    rfl

end Teetest
