import Teetest.Lib.Bytes
import Teetest.Lib.Trace

/-!
The samples of the IMU in memsic.cpp, from the data-ready interrupt through the ring to the callback.

`dataR` preempts `erFunction`, and both preempt the main loop; a transfer over SPI runs beside them.
The variables that only `memsicPrint` reads are left out.
-/

namespace Teetest

open Lib

/-- `tswap`: the two bytes of a word are exchanged. -/
def tswap (v : UInt16) : UInt16 := v <<< 8 ||| v >>> 8

/-- `MemsicBurstInfo`, the words of a transfer. -/
structure MemsicBurstInfo where
  bm : UInt16
  status : UInt16
  w : Fin 3 → UInt16
  a : Fin 3 → UInt16
  temp : UInt16
deriving DecidableEq

/-- `MemsicInfo`, a sample in the ring. -/
structure MemsicInfo where
  status : UInt16
  w : Fin 3 → UInt16
  a : Fin 3 → UInt16
  temp : UInt16
  timestamp : Nat
deriving DecidableEq

/-- `xqm::ImuData`, a sample as it is delivered. -/
structure ImuData (K : Type) where
  timestamp : Nat
  a : Fin 3 → K
  w : Fin 3 → K
  status : UInt16
deriving DecidableEq

/-- `accScale` and `gyroScale`. -/
structure ImuScale (K : Type) where
  accScale : K
  gyroScale : K

/-- The capacity of the ring `hInfoRB1`. -/
def hInfoSize : Nat := 30

/-- Where `erFunction` stands in `parceMemsicInt`. -/
inductive ErPc
  | idle
  -- before the question whether the ring is full, and in the loop over the axes
  | enter
  | axis (i : Nat)
  -- behind the loop, before the time stamp, and before the sample is put into the ring
  | rest
  | stamp
  | put
deriving DecidableEq

/-- Where the main loop stands in `processMemsicData`, with its local variable. -/
inductive SampleLoop
  | outside
  | loop
  | got (memsicInfo1 : MemsicInfo)
  -- `pInfo` is filled, and the callback comes next
  | filled

/-- The variables of memsic.cpp, the SPI transfer, and where the code stands. -/
structure Memsic (K : Type) where
  memsicDataReadTime : Nat
  memsicDataready : Nat
  memsicOverflowCounter : Int
  bInfoOut : MemsicBurstInfo
  memsicInfo : MemsicInfo
  hInfoRB1 : List MemsicInfo
  pInfo : ImuData K
  -- the transfer that is running, with the words that the sensor sends
  active : Option MemsicBurstInfo
  -- the completions of which the handler has not started yet
  pending : Nat
  er : ErPc
  consumer : SampleLoop
  -- a history: the transfers that were started, each with the time of its interrupt, the samples
  -- that were put into the ring and delivered, the handlers that were started and that found it full
  transfers : List (MemsicBurstInfo × Nat)
  puts : List MemsicInfo
  delivered : List (ImuData K)
  completions : Nat
  overflows : Nat

/-- What happens next. -/
inductive MemsicEvent
  -- a data-ready interrupt, and the words that the sensor has ready
  | dataR (ms : Nat) (raw : MemsicBurstInfo)
  -- the transfer ends, and its words are in `bInfoOut`
  | arrive
  -- a step of the completion handler
  | erFunction
  -- the main loop calls the consumer, or takes a step in it
  | processMemsicData
  | main

section

variable {K : Type}

/--
`dataR` in the normal work mode.

A running transfer is not started again, and one that starts takes back a completion that still waits.
-/
def Memsic.dataR (ms : Nat) (raw : MemsicBurstInfo) (s : Memsic K) : Memsic K :=
  let s := { s with memsicDataReadTime := ms, memsicDataready := 1 }
  if s.active.isSome then s
  -- `event_responder.clearEvent()`
  else { s with active := some raw, pending := 0, transfers := s.transfers ++ [(raw, ms)] }

/-- The transfer ends. -/
def Memsic.arrive (s : Memsic K) : Option (Memsic K) :=
  s.active.map fun raw => { s with bInfoOut := raw, active := none, pending := s.pending + 1 }

/-- A round of the loop over the axes: the words are swapped in place and copied. -/
def Memsic.swapAxis (i : Fin 3) (s : Memsic K) : Memsic K :=
  { s with
    bInfoOut := { s.bInfoOut with
      a := Function.update s.bInfoOut.a i (tswap (s.bInfoOut.a i))
      w := Function.update s.bInfoOut.w i (tswap (s.bInfoOut.w i)) }
    memsicInfo := { s.memsicInfo with
      a := Function.update s.memsicInfo.a i (tswap (s.bInfoOut.a i))
      w := Function.update s.memsicInfo.w i (tswap (s.bInfoOut.w i)) } }

/-- Behind the loop, the other two words are swapped in place and copied. -/
def Memsic.swapRest (s : Memsic K) : Memsic K :=
  { s with
    bInfoOut := { s.bInfoOut with
      temp := tswap s.bInfoOut.temp
      status := tswap s.bInfoOut.status }
    memsicInfo := { s.memsicInfo with
      temp := tswap s.bInfoOut.temp
      status := tswap s.bInfoOut.status } }

/-- A step of `erFunction`. -/
def Memsic.erFunction (s : Memsic K) : Option (Memsic K) :=
  match s.er with
  | .idle =>
    if s.pending = 0 then none
    else some { s with pending := s.pending - 1, completions := s.completions + 1, er := .enter }
  | .enter =>
    if s.hInfoRB1.length ≥ hInfoSize then
      some { s with
        memsicOverflowCounter := wrap32 (s.memsicOverflowCounter + 1)
        overflows := s.overflows + 1
        memsicDataready := 2
        er := .idle }
    else some { s with er := .axis 0 }
  | .axis i =>
    if inside : i < 3 then some { s.swapAxis ⟨i, inside⟩ with er := .axis (i + 1) }
    else some { s with er := .rest }
  | .rest => some { s.swapRest with er := .stamp }
  | .stamp =>
    some { s with
      memsicInfo := { s.memsicInfo with timestamp := s.memsicDataReadTime }
      er := .put }
  | .put =>
    -- a full ring refuses the sample
    if s.hInfoRB1.length < hInfoSize then
      some { s with
        hInfoRB1 := s.hInfoRB1 ++ [s.memsicInfo]
        puts := s.puts ++ [s.memsicInfo]
        memsicDataready := 2
        er := .idle }
    else some { s with memsicDataready := 2, er := .idle }

variable [Mul K] [IntCast K] (scale : ImuScale K)

/-- The numbers of a sample, scaled. -/
def MemsicInfo.scaled (info : MemsicInfo) : ImuData K where
  timestamp := info.timestamp
  a := fun i => ((info.a i).toBitVec.toInt : K) * scale.accScale
  w := fun i => ((info.w i).toBitVec.toInt : K) * scale.gyroScale
  status := info.status

/-- A step of `processMemsicData`. -/
def Memsic.mainStep (s : Memsic K) : Option (Memsic K) :=
  match s.consumer with
  | .outside => none
  | .loop =>
    match s.hInfoRB1 with
    | info :: rest => some { s with hInfoRB1 := rest, consumer := .got info }
    | [] => some { s with consumer := .outside }
  | .got info => some { s with pInfo := info.scaled scale, consumer := .filled }
  | .filled => some { s with delivered := s.delivered ++ [s.pInfo], consumer := .loop }

/-- The state after an event, if it can happen: the main loop waits for `erFunction`. -/
def Memsic.step (s : Memsic K) : MemsicEvent → Option (Memsic K)
  | .dataR ms raw => some (s.dataR ms raw)
  | .arrive => s.arrive
  | .erFunction => s.erFunction
  | .processMemsicData =>
    if s.er = .idle then
      match s.consumer with
      | .outside => some { s with consumer := .loop }
      | _ => none
    else none
  | .main => if s.er = .idle then s.mainStep scale else none

/-- The step relation of the samples. -/
def MemsicStep (s : Memsic K) (e : MemsicEvent) (t : Memsic K) : Prop := s.step scale e = some t

end

/-- The state at the end of the setup, whatever the buffers hold. -/
def Memsic.started {K : Type} (time : Nat) (bInfoOut : MemsicBurstInfo) (memsicInfo : MemsicInfo)
    (pInfo : ImuData K) : Memsic K where
  memsicDataReadTime := time
  memsicDataready := 0
  memsicOverflowCounter := 0
  bInfoOut := bInfoOut
  memsicInfo := memsicInfo
  hInfoRB1 := []
  pInfo := pInfo
  active := none
  pending := 0
  er := .idle
  consumer := .outside
  transfers := []
  puts := []
  delivered := []
  completions := 0
  overflows := 0

end Teetest
