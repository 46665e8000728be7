import Teetest.Lib.Trace
import Teetest.Src.LogFile

/-!
The log module under preemption: calls that put bytes into the ring, against the main loop that takes
them out.

A call preempts whatever runs, also another call, except in sections with interrupts disabled, which are
single steps here. The main loop goes on only when every call has returned.
The operations of the card succeed, as long as the card has room.
-/

namespace Teetest

open Lib

/-- A call that puts bytes into the ring. -/
inductive LogCall
  | lfSendMessage (data : List UInt8) (type : UInt8)
  | lfFeed (data : List UInt8)
deriving DecidableEq

/-- What a call brings to its section with interrupts disabled.

The last field of a message is no variable of the code: it tells how many messages were in the log
when the call read the counter. -/
inductive Put
  | message (data : List UInt8) (type : UInt8) (count : UInt8) (seen : Nat)
  | feed (data : List UInt8)
deriving DecidableEq

/-- Where a call stands. -/
inductive Frame
  | entered (call : LogCall)
  -- the flags were good
  | checked (call : LogCall)
  -- header and CRC are made
  | ready (put : Put)
deriving DecidableEq

/-- Where the main loop stands, with its local variables and `tmpBuf`. -/
inductive MainPc
  | idle
  -- `lfProcess`: behind its check, at the head of its loop, with a block, behind the write, and
  -- between two files
  | process
  | look (n : Nat)
  | taken (tmpBuf : List UInt8) (n : Nat)
  | written (n : Nat)
  | between (n : Nat)
  -- `lfStop`: at the head of its loop, and with a block
  | stopLook (n : Nat)
  | stopTaken (tmpBuf : List UInt8) (n : Nat)
deriving DecidableEq

/-- The log module, the main loop and the calls that are in progress, the last one first.

The last two fields are a history: how many calls found the log on, and what came to its section with
interrupts disabled, in order, with whether it was accepted. -/
structure Machine where
  log : LogFile
  main : MainPc
  stack : List Frame
  made : Nat
  decided : List (Put × Bool)

/-- What happens next. -/
inductive LogAct
  -- a call begins, or the last one that began takes a step
  | call (c : LogCall)
  | producer
  -- the main loop calls a function, or takes a step in it
  | lfProcess
  | lfStop
  | main
deriving DecidableEq

/-- The messages among the bytes that were accepted, by their `count` and what they had seen. -/
def messages : List (Put × Bool) → List (UInt8 × Nat)
  | [] => []
  | (.message _ _ count seen, true) :: rest => (count, seen) :: messages rest
  | _ :: rest => messages rest

section

variable (x : XMessage) (sectorCount : UInt32)

/-- The bytes that a call puts into the ring. -/
def Put.image : Put → List UInt8
  | .message data type count _ => x.image count type data
  | .feed data => data

/-- The section with interrupts disabled, at the end of a call. -/
def LogFile.exclusive (s : LogFile) : Put → Bool × LogFile
  | .message data type count _ => s.putMessage (x.image count type data)
  | .feed data => s.put data

/-- Whether a call finds the log on. -/
def LogFile.on (s : LogFile) : LogCall → Bool
  | .lfSendMessage _ _ => s.sdStarted && s.lfState == .lfSGood && s.lfWriting
  | .lfFeed _ => s.lfState == .lfSGood && s.lfWriting

/-- The last call that began comes to its section. -/
def Machine.enter (m : Machine) (p : Put) (rest : List Frame) : Machine :=
  let done := m.log.exclusive x p
  { m with log := done.2, stack := rest, decided := m.decided ++ [(p, done.1)] }

/-- A step of the last call that began. -/
def Machine.producer (m : Machine) (rest : List Frame) : Frame → Machine
  | .entered c =>
    if m.log.on c then { m with stack := .checked c :: rest, made := m.made + 1 }
    else { m with stack := rest }
  | .checked (.lfSendMessage data type) =>
    { m with stack := .ready (.message data type m.log.counter (messages m.decided).length) :: rest }
  | .checked (.lfFeed data) => m.enter x (.feed data) rest
  | .ready p => m.enter x p rest

/-- `lfProcess` is called. -/
def Machine.lfProcess (m : Machine) : Machine :=
  if m.log.lfState ≠ .lfSGood ∨ !m.log.lfWriting then m else { m with main := .process }

/-- `lfStop` is called, up to the end of its first section with interrupts disabled. -/
def Machine.lfStop (m : Machine) : Machine :=
  if !m.log.sdStarted ∨ m.log.lfState ≠ .lfSGood then m
  else { m with log := { m.log with lfWriting := false }, main := .stopLook m.log.rb.length }

/-- The answers of a card on which everything succeeds. -/
def BlockIo.good (written : Nat) : BlockIo := ⟨written, true, true, true⟩

/-- A block is written, if the card has room for it. -/
def Machine.write (m : Machine) (tmpBuf : List UInt8) (next : MainPc) : Option Machine :=
  if m.log.sd.card.used + tmpBuf.length ≤ 512 * sectorCount.toNat then
    some { m with log := m.log.writeBlock tmpBuf tmpBuf.length, main := next }
  else none

/-- A step of the main loop. -/
def Machine.mainStep (m : Machine) : Option Machine :=
  match m.main with
  | .idle => none
  | .process => some { m with main := .look m.log.rb.length }
  | .look n =>
    if n ≥ tmpSize then
      let log := m.log.dropBlock tmpSize
      some { m with log := log, main := .taken (m.log.rb.take tmpSize) log.rb.length }
    else some { m with main := .idle }
  | .taken tmpBuf n => m.write sectorCount tmpBuf (.written n)
  | .written n =>
    if m.log.fileBytesCounter > fileSize2 then
      some { m with log := m.log.endFull true, main := .between n }
    else some { m with main := .look n }
  | .between n =>
    some { m with log := (m.log.openNext (.good tmpSize)).2, main := .look n }
  | .stopLook n =>
    if n > 0 then
      let log := m.log.dropBlock (stopSize n)
      some { m with log := log, main := .stopTaken (m.log.rb.take (stopSize n)) log.rb.length }
    else some { m with log := m.log.endFile true, main := .idle }
  | .stopTaken tmpBuf n => m.write sectorCount tmpBuf (.stopLook n)

/-- The state after a step, if it can be taken. -/
def Machine.step (m : Machine) : LogAct → Option Machine
  | .call c => some { m with stack := .entered c :: m.stack }
  | .producer =>
    match m.stack with
    | [] => none
    | f :: rest => some (m.producer x rest f)
  | .lfProcess => if m.stack = [] ∧ m.main = .idle then some m.lfProcess else none
  | .lfStop => if m.stack = [] ∧ m.main = .idle then some m.lfStop else none
  | .main => if m.stack = [] then m.mainStep sectorCount else none

/-- The step relation under preemption. -/
def MachineStep (m : Machine) (a : LogAct) (m' : Machine) : Prop := m.step x sectorCount a = some m'

end

/-- The state in which a log was just started. -/
def Machine.session (log : LogFile) : Machine := ⟨log, .idle, [], 0, []⟩

variable {x : XMessage} {sectorCount : UInt32} {m m' : Machine}

/-- What the steps of the main loop leave alone. -/
structure Machine.SameCalls (m m' : Machine) : Prop where
  stack : m'.stack = m.stack
  made : m'.made = m.made
  decided : m'.decided = m.decided
  counter : m'.log.counter = m.log.counter
  overflow : m'.log.ffOverflowCounter = m.log.ffOverflowCounter
  name : m'.log.fileNameCopy = m.log.fileNameCopy

/-- A write is no business of the calls. -/
theorem Machine.write_sameCalls {tmpBuf : List UInt8} {next : MainPc}
    (written : m.write sectorCount tmpBuf next = some m') : m.SameCalls m' := by
  -- It is only taken where the card has room.
  simp only [Machine.write, Option.ite_none_right_eq_some, Option.some.injEq] at written
  obtain ⟨-, rfl⟩ := written
  exact ⟨rfl, rfl, rfl, rfl, rfl, rfl⟩

/-- A step of the main loop is no business of the calls. -/
theorem Machine.mainStep_sameCalls (stepped : m.mainStep sectorCount = some m') : m.SameCalls m' := by
  -- One case for each place where the main loop can stand.
  unfold Machine.mainStep at stepped
  split at stepped
  case h_1 => exact absurd stepped (by simp)
  case h_4 => exact write_sameCalls stepped
  case h_8 => exact write_sameCalls stepped
  case h_6 =>
    obtain rfl := Option.some.inj stepped
    simp only [LogFile.openNext]
    split_ifs <;> exact ⟨rfl, rfl, rfl, rfl, rfl, rfl⟩
  all_goals
    try dsimp only at stepped
    try split_ifs at stepped
  all_goals
    obtain rfl := Option.some.inj stepped
    exact ⟨rfl, rfl, rfl, rfl, rfl, rfl⟩

/-- The call of `lfProcess` is no business of the other calls. -/
theorem Machine.lfProcess_sameCalls (m : Machine) : m.SameCalls m.lfProcess := by
  unfold Machine.lfProcess
  split_ifs <;> exact ⟨rfl, rfl, rfl, rfl, rfl, rfl⟩

/-- The call of `lfStop` is no business of the other calls. -/
theorem Machine.lfStop_sameCalls (m : Machine) : m.SameCalls m.lfStop := by
  unfold Machine.lfStop
  split_ifs <;> exact ⟨rfl, rfl, rfl, rfl, rfl, rfl⟩

/-- What a step can be: a call begins, the last call takes a step, or the main loop does. -/
theorem MachineStep.cases {a : LogAct} (stepped : MachineStep x sectorCount m a m') :
    (∃ c, m' = { m with stack := .entered c :: m.stack }) ∨
    (∃ f rest, m.stack = f :: rest ∧ m' = m.producer x rest f) ∨
    (m.stack = [] ∧ m.main = .idle ∧ (m' = m.lfProcess ∨ m' = m.lfStop)) ∨
    (m.stack = [] ∧ m.mainStep sectorCount = some m') := by
  unfold MachineStep at stepped
  cases a with
  | call c => exact .inl ⟨c, (Option.some.inj stepped).symm⟩
  | producer =>
    refine .inr (.inl ?_)
    cases calls : m.stack with
    | nil => simp [Machine.step, calls] at stepped
    | cons f rest =>
      simp only [Machine.step, calls, Option.some.injEq] at stepped
      exact ⟨f, rest, rfl, stepped.symm⟩
  | lfProcess =>
    simp only [Machine.step, Option.ite_none_right_eq_some, Option.some.injEq] at stepped
    obtain ⟨⟨empty, idle⟩, rfl⟩ := stepped
    exact .inr (.inr (.inl ⟨empty, idle, .inl rfl⟩))
  | lfStop =>
    simp only [Machine.step, Option.ite_none_right_eq_some, Option.some.injEq] at stepped
    obtain ⟨⟨empty, idle⟩, rfl⟩ := stepped
    exact .inr (.inr (.inl ⟨empty, idle, .inr rfl⟩))
  | main =>
    simp only [Machine.step, Option.ite_none_right_eq_some] at stepped
    exact .inr (.inr (.inr stepped))

/-- A schedule that can be carried out is a run. -/
theorem MachineStep.run {acts : List LogAct} (ran : acts.foldlM (Machine.step x sectorCount) m = some m') :
    Run (MachineStep x sectorCount) m acts m' :=
  Run.foldlM _ (fun _ _ _ stepped => stepped) ran

/-- A message library with a header of two bytes. -/
def plainMessage : XMessage where
  headerSize := 2
  header count length _ := [count, UInt8.ofNat length]
  header_length _ _ _ := rfl
  crc := fun _ => 0

/-- A log that was just started. -/
def justStarted : LogFile :=
  ((LogFile.powerUp [] []).lfInit true).lfStart goodCard (some (ascii "run.xq"))

end Teetest
