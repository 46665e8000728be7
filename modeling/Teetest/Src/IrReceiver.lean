import Mathlib.Tactic
import Teetest.Src.Ir

/-!
The infrared receiver of IRremote: the timer interrupt that records marks and spaces, the decoder of the NEC
protocol, its sender, and `irProces` with the library underneath.

The decoders that come behind that of NEC are a parameter of each call, since some of them keep variables of
their own from one call to the next. The interrupt leaves alone what they read until the receiver is resumed,
so the decoders are not interrupted here.
-/

namespace Teetest

/-- `MICROS_PER_TICK`, how often the interrupt runs. -/
def microsPerTick : ℕ := 50

/-- `RECORD_GAP_TICKS`, the longest space within a frame. -/
def recordGapTicks : ℕ := 100

/-- `RAW_BUFFER_LENGTH`, as MagiQuest sets it. -/
def rawBufferLength : ℕ := 112

/-- `MARK_EXCESS_MICROS`. -/
def markExcessMicros : ℕ := 20

/-- The states of the interrupt. -/
inductive IrRecState
  | IDLE | MARK | SPACE | STOP
deriving DecidableEq

/-- `irparams_struct`, without the pin. -/
structure IrParams where
  stateForISR : IrRecState
  tickCounterForISR : ℕ
  overflowFlag : Bool
  rawlen : ℕ
  rawbuf : ℕ → ℕ

/-- `irparams.rawbuf[irparams.rawlen++] = …`, if it stays within the buffer. -/
def IrParams.record (p : IrParams) (ticks : ℕ) : Option IrParams :=
  if p.rawlen < rawBufferLength then
    some { p with rawbuf := Function.update p.rawbuf p.rawlen ticks, rawlen := p.rawlen + 1 }
  else none

/-- The interrupt, with a mark at the receiver or not. -/
def IrParams.isr (p : IrParams) (mark : Bool) : Option IrParams :=
  let p := if p.tickCounterForISR < 0xFFFF then { p with tickCounterForISR := p.tickCounterForISR + 1 } else p
  match p.stateForISR with
  | .IDLE =>
    if mark then
      if p.tickCounterForISR > recordGapTicks then
        some { p with
          overflowFlag := false
          rawbuf := Function.update p.rawbuf 0 p.tickCounterForISR
          rawlen := 1
          stateForISR := .MARK
          tickCounterForISR := 0 }
      else some { p with tickCounterForISR := 0 }
    else some p
  | .MARK =>
    if mark then some p
    else (p.record p.tickCounterForISR).map fun p =>
      { p with stateForISR := .SPACE, tickCounterForISR := 0 }
  | .SPACE =>
    if mark then
      if p.rawlen ≥ rawBufferLength then
        some { p with overflowFlag := true, stateForISR := .STOP, tickCounterForISR := 0 }
      else (p.record p.tickCounterForISR).map fun p =>
        { p with stateForISR := .MARK, tickCounterForISR := 0 }
    -- the frame has ended, and the space is counted on
    else if p.tickCounterForISR > recordGapTicks then some { p with stateForISR := .STOP }
    else some p
  | .STOP => if mark then some { p with tickCounterForISR := 0 } else some p

/-- `resume`. -/
def IrParams.resume (p : IrParams) : IrParams :=
  if p.stateForISR = .STOP then { p with stateForISR := .IDLE } else p

/-- `matchTicks`, with `TICKS_LOW` and `TICKS_HIGH`. -/
def matchTicks (aMeasuredTicks aMatchValueMicros : ℕ) : Bool :=
  aMeasuredTicks ≥ aMatchValueMicros / 67 && aMeasuredTicks ≤ aMatchValueMicros / 40 + 1

/-- `matchMark`. -/
def matchMark (aMeasuredTicks aMatchValueMicros : ℕ) : Bool :=
  matchTicks aMeasuredTicks (aMatchValueMicros + markExcessMicros)

/-- `matchSpace`. -/
def matchSpace (aMeasuredTicks aMatchValueMicros : ℕ) : Bool :=
  matchTicks aMeasuredTicks (aMatchValueMicros - markExcessMicros)

/-- `NEC_BITS`. -/
def necBits : ℕ := 32

/-- `NEC_UNIT`, in microseconds, and what is made of it. -/
def necUnit : ℕ := 560
def necHeaderMark : ℕ := 16 * necUnit
def necHeaderSpace : ℕ := 8 * necUnit
def necBitMark : ℕ := necUnit
def necOneSpace : ℕ := 3 * necUnit
def necZeroSpace : ℕ := necUnit
def necRepeatHeaderSpace : ℕ := 4 * necUnit

/-- `APPLE_ADDRESS`. -/
def appleAddress : BitVec 16 := 0x87EE

/-- The values of `decode_type_t` that the decoder of NEC uses, and those that it does not. -/
inductive DecodeType
  | UNKNOWN | NEC | ONKYO | APPLE
  | other (n : ℕ)
deriving DecidableEq

/-- `IRData`, without what only other protocols use. -/
structure IRData where
  protocol : DecodeType
  address : BitVec 16
  command : BitVec 16
  numberOfBits : ℕ
  flags : ℕ
  decodedRawData : BitVec 32
deriving DecidableEq

/-- `IRrecv`. -/
structure IRrecv where
  decodedIRData : IRData
  lastDecodedProtocol : DecodeType
  lastDecodedAddress : BitVec 16
  lastDecodedCommand : BitVec 16
deriving DecidableEq

/-- A receiver at power-up. -/
def IRrecv.init : IRrecv := ⟨⟨.UNKNOWN, 0, 0, 0, 0, 0⟩, .UNKNOWN, 0, 0⟩

/-- The flags of `IRData`. -/
def irdataFlagsEmpty : ℕ := 0
def irdataFlagsIsRepeat : ℕ := 1
def irdataFlagsWasOverflow : ℕ := 0x40

/-- `initDecodedIRData`. -/
def IRrecv.initDecodedIRData (r : IRrecv) (p : IrParams) : IRrecv × IrParams :=
  let (r, p) :=
    if p.overflowFlag then
      ({ r with decodedIRData := { r.decodedIRData with flags := irdataFlagsWasOverflow } },
        { p with overflowFlag := false, rawlen := 0 })
    else
      ({ r with
          decodedIRData := { r.decodedIRData with flags := irdataFlagsEmpty }
          lastDecodedProtocol := r.decodedIRData.protocol
          lastDecodedCommand := r.decodedIRData.command
          lastDecodedAddress := r.decodedIRData.address }, p)
  ({ r with
      decodedIRData := { r.decodedIRData with
        protocol := .UNKNOWN, command := 0, address := 0, decodedRawData := 0, numberOfBits := 0 } }, p)

/-- The loop of `decodePulseDistanceData` over the bits, the lowest one first. -/
def pulseDistanceBits (rawbuf : ℕ → ℕ) (aBitMarkMicros aOneSpaceMicros aZeroSpaceMicros : ℕ) :
    (aNumberOfBits tRawBufPointer : ℕ) → (tMask tDecodedData : BitVec 32) → Option (BitVec 32)
  | 0, _, _, tDecodedData => some tDecodedData
  | n + 1, at_, tMask, tDecodedData =>
    if !matchMark (rawbuf at_) aBitMarkMicros then none
    else if matchSpace (rawbuf (at_ + 1)) aOneSpaceMicros then
      pulseDistanceBits rawbuf aBitMarkMicros aOneSpaceMicros aZeroSpaceMicros n (at_ + 2) (tMask <<< 1)
        (tDecodedData ||| tMask)
    else if matchSpace (rawbuf (at_ + 1)) aZeroSpaceMicros then
      pulseDistanceBits rawbuf aBitMarkMicros aOneSpaceMicros aZeroSpaceMicros n (at_ + 2) (tMask <<< 1)
        tDecodedData
    else none

/-- `decodePulseDistanceData`, the lowest bit first. -/
def IrParams.decodePulseDistanceData (p : IrParams) (aNumberOfBits aStartOffset aBitMarkMicros aOneSpaceMicros
    aZeroSpaceMicros : ℕ) : Option (BitVec 32) :=
  pulseDistanceBits p.rawbuf aBitMarkMicros aOneSpaceMicros aZeroSpaceMicros aNumberOfBits aStartOffset 1 0

/-- The bytes and words of `LongUnion`. -/
def lowByte (v : BitVec 32) : BitVec 8 := v.extractLsb' 0 8
def midLowByte (v : BitVec 32) : BitVec 8 := v.extractLsb' 8 8
def midHighByte (v : BitVec 32) : BitVec 8 := v.extractLsb' 16 8
def highByte (v : BitVec 32) : BitVec 8 := v.extractLsb' 24 8
def lowWord (v : BitVec 32) : BitVec 16 := v.extractLsb' 0 16
def highWord (v : BitVec 32) : BitVec 16 := v.extractLsb' 16 16

/-- What `decodeNEC` makes of the bits. -/
def IRData.ofNEC (d : IRData) : IRData :=
  let tValue := d.decodedRawData
  let d := { d with command := (midHighByte tValue).setWidth 16 }
  let d :=
    if lowWord tValue = appleAddress then
      { d with protocol := .APPLE, address := (highByte tValue).setWidth 16 }
    else
      let d :=
        if lowByte tValue = ~~~ midLowByte tValue then { d with address := (lowByte tValue).setWidth 16 }
        else { d with address := lowWord tValue }
      if midHighByte tValue = ~~~ highByte tValue then { d with protocol := .NEC }
      else { d with protocol := .ONKYO, command := highWord tValue }
  { d with numberOfBits := necBits }

/-- `decodeNEC`. -/
def IRrecv.decodeNEC (r : IRrecv) (p : IrParams) : Bool × IRrecv :=
  if p.rawlen ≠ 2 * necBits + 4 ∧ p.rawlen ≠ 4 then (false, r)
  else if !matchMark (p.rawbuf 1) necHeaderMark then (false, r)
  else if p.rawlen = 4 then
    if matchSpace (p.rawbuf 2) necRepeatHeaderSpace && matchMark (p.rawbuf 3) necBitMark then
      (true, { r with decodedIRData := { r.decodedIRData with
        flags := irdataFlagsIsRepeat
        address := r.lastDecodedAddress
        command := r.lastDecodedCommand
        protocol := r.lastDecodedProtocol } })
    else (false, r)
  else if !matchSpace (p.rawbuf 2) necHeaderSpace then (false, r)
  else
    match p.decodePulseDistanceData necBits 3 necBitMark necOneSpace necZeroSpace with
    | none => (false, r)
    | some raw =>
      let d := { r.decodedIRData with decodedRawData := raw }
      -- the stop bit
      if !matchMark (p.rawbuf (3 + 2 * necBits)) necBitMark then (false, { r with decodedIRData := d })
      else (true, { r with decodedIRData := d.ofNEC })

/-- `decode`, with the other decoders. -/
def IRrecv.decode (others : IRrecv → IrParams → IRrecv) (r : IRrecv) (p : IrParams) :
    Bool × IRrecv × IrParams :=
  if p.stateForISR ≠ .STOP then (false, r, p)
  else
    let (r, p) := r.initDecodedIRData p
    if r.decodedIRData.flags = irdataFlagsWasOverflow then (true, r, p)
    else
      let (known, r) := r.decodeNEC p
      -- the last of the decoders accepts everything
      (true, if known then r else others r p, p)

/-- The data bits of `sendPulseDistanceWidthData`, the lowest one first: marks and spaces in microseconds. -/
def sendPulseDistanceBits (aOneSpaceMicros aZeroSpaceMicros aBitMarkMicros : ℕ) :
    (aNumberOfBits : ℕ) → (aData : BitVec 32) → List (Bool × ℕ)
  | 0, _ => []
  | n + 1, aData =>
    (true, aBitMarkMicros) :: (false, if aData.getLsbD 0 then aOneSpaceMicros else aZeroSpaceMicros) ::
      sendPulseDistanceBits aOneSpaceMicros aZeroSpaceMicros aBitMarkMicros n (aData >>> 1)

/-- `sendNECRaw` without repeats. -/
def sendNECRaw (aRawData : BitVec 32) : List (Bool × ℕ) :=
  (true, necHeaderMark) :: (false, necHeaderSpace) ::
    sendPulseDistanceBits necOneSpace necZeroSpace necBitMark necBits aRawData ++ [(true, necBitMark)]

/-- The bits that `sendNEC` sends. -/
def necRawData (aAddress : BitVec 16) (aCommand : BitVec 8) : BitVec 32 :=
  let low := if aAddress &&& 0xFF00 = 0 then ~~~ aAddress.setWidth 8 ++ aAddress.setWidth 8 else aAddress
  (~~~ aCommand ++ aCommand) ++ low

/-- `irparams`, both receivers, and the times of the commands. -/
structure IrState where
  irparams : IrParams
  -- the receiver of ir.cpp and that of the library
  irrecv : IRrecv
  irReceiver : IRrecv
  ciTime : CiTime
  -- a history: the commands that were processed
  processed : List String

/-- The interrupt, or a call of `irProces`, with what the other decoders make of a frame in it. -/
inductive IrEvent
  | isr (mark : Bool)
  | irProces (msNow : UInt32) (others : IRrecv → IrParams → IRrecv)

/-- The state after `irSetup`. -/
def IrState.setup : IrState where
  irparams := ⟨.IDLE, 0, false, 0, fun _ => 0⟩
  irrecv := .init
  irReceiver := .init
  ciTime := irSetup
  processed := []

/-- `irProces`, which decodes with one receiver and reads the command from the other. -/
def IrState.irProces (others : IRrecv → IrParams → IRrecv) (s : IrState) (msNow : UInt32) : IrState :=
  match s.irrecv.decode others s.irparams with
  | (false, _, _) => s
  | (true, irrecv, irparams) =>
    let s := { s with irrecv, irparams := irparams.resume }
    let code := UInt32.ofBitVec (s.irReceiver.decodedIRData.command.setWidth 32)
    let (ciTime, command) := Teetest.irProces s.ciTime code msNow
    { s with ciTime, processed := s.processed ++ command.toList }

/-- The state after an event, if the interrupt stays within its buffer. -/
def IrState.step (s : IrState) : IrEvent → Option IrState
  | .isr mark => (s.irparams.isr mark).map fun p => { s with irparams := p }
  | .irProces msNow others => some (s.irProces others msNow)

/-- The step relation of the remote control. -/
def IrStep (s : IrState) (e : IrEvent) (t : IrState) : Prop := s.step e = some t

end Teetest
