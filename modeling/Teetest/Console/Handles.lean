import Teetest.Console.Order
import Teetest.Lib.Trace

/-!
The file of a transfer, as a handle that is opened and closed.

The client holds an open file in state 2.
Where it leaves that state on another way than through the end of the file, it forgets to close it.
A packet of a file that was announced with no bytes, or with a size out of range, ends the program instead.
-/

namespace Teetest

open Lib

/-- What happens at the client, from either of its threads. -/
inductive ConsoleEvent
  | do_write (writes : Bool) (s : List UInt8)
  -- a read asks for so many bytes at most
  | process (a : Chunk) (small : a.chunk.length ≤ readSize)
  | processError (disconnected : Bool)
  | startClient
  | stopClient

/-- A client, how many files it has opened, and whether all it did until now had a meaning. -/
structure Handles where
  client : Client
  opened : Nat
  running : Prop

section

variable (crc16 : List UInt8 → UInt16)

/-- The client after an event. -/
def Client.after (c : Client) : ConsoleEvent → Client
  | .do_write writes s => (c.do_write writes s).1
  | .process a _ => (c.reply crc16 a).client
  | .processError disconnected => c.processError disconnected
  | .startClient => c.startClient
  | .stopClient => c.stopClient

/-- State 2 makes of a chunk what the source says: no other memory is touched, and no division is by zero. -/
structure Client.Defined (c : Client) (a : Chunk) : Prop where
  reads : ∀ r ∈ (c.filledWith a.chunk).receivingReads crc16 a.sock a.chunk.length, Inside r
  crc : ∀ r ∈ crcRange (c.filledWith a.chunk) a.sock a.chunk.length, Whole r.1 r.2
  division : ∀ c' ∈ c.toSave crc16 a, c'.fileSize ≠ 0

/-- The program goes on behind an event. -/
def Client.Survives (c : Client) : ConsoleEvent → Prop
  | .process a _ => c.readingTheLogFile = 2 → c.HandsOn a.chunk → c.Defined crc16 a
  | .do_write _ _ | .processError _ | .startClient | .stopClient => True

/-- An event, with the `fopen` by which state 1 becomes state 2. -/
def Handles.after (h : Handles) (e : ConsoleEvent) : Handles :=
  let c := h.client.after crc16 e
  ⟨c, h.opened + if h.client.readingTheLogFile = 1 ∧ c.readingTheLogFile = 2 then 1 else 0,
    h.running ∧ h.client.Survives crc16 e⟩

/-- The client after a run of events, from its start on. -/
def handlesAfter (events : List ConsoleEvent) : Handles :=
  events.foldl (Handles.after crc16) ⟨Client.started, 0, True⟩

/-- The file is open exactly in state 2, and every other one that was opened is closed. -/
structure Handles.Paired (h : Handles) : Prop where
  state : h.client.theFile.isSome = true ↔ h.client.readingTheLogFile = 2
  closed : h.opened = h.client.closedFiles.length + if h.client.theFile.isSome then 1 else 0

/-- The program runs, and its file is paired with its state. -/
structure Handles.Sound (h : Handles) : Prop extends h.Paired where
  running : h.running

/-- A call of `process` in state 2 answers its chunk with a message that lets the transfer go on. -/
def Client.Answers (c : Client) (a : Chunk) : Prop :=
  ¬ (c.pleaseStop ∨ a.chunk.length < 1) ∧ classify c.readingTheLogFile a.chunk = .readingTheFile ∧
    let r := checkThePacket crc16 (c.filledWith a.chunk) a.sock a.chunk.length
    if r.1 then
      -- a packet that is due and does not complete the file
      r.2.1.packetsCounter ≤ r.2.1.incomingPacketsCounter ∧
        wrap32 (c.fileBytesCounter + r.2.1.incomingPacketSize) < c.fileSize
    else r.2.1.buf.read 0 4 ≠ teee

/-- A chunk that leads state 2 neither out of its buffer nor to a percentage of no bytes. -/
structure Client.Digests (c : Client) (a : Chunk) : Prop where
  inBounds : a.InBounds
  announced : (c.toSave crc16 a).isSome = true → c.fileSize ≠ 0

/--
An event that leaves no transfer without closing its file.

In state 2 no new `get` is given, every command and every answer can be written, no chunk leads out of
what was received or to a division by zero, and the client is not started again.
-/
def Client.Orderly (c : Client) : ConsoleEvent → Prop
  | .do_write writes s =>
    c.readingTheLogFile = 2 → s ≠ [] → getWord.isPrefixOf s = false ∧ writes = true
  | .process a _ => c.readingTheLogFile = 2 →
    (c.Answers crc16 a → a.io.writes = true) ∧ (c.HandsOn a.chunk → c.Digests crc16 a)
  | .startClient => c.readingTheLogFile ≠ 2
  | .processError _ | .stopClient => True

variable {crc16} {c : Client}

/-- What a call of `process` does with the file in state 2. -/
inductive Client.Left (c : Client) (orderly : Prop) (c' : Client) : Prop
  -- the transfer goes on with the file
  | stays (fine : orderly) (state : c'.readingTheLogFile = 2) (file : c'.theFile.isSome = c.theFile.isSome)
      (closed : c'.closedFiles = c.closedFiles)
  -- the transfer is over, and the file closed
  | closes (fine : orderly) (state : c'.readingTheLogFile = 0) (file : c'.theFile = none)
      (closed : c'.closedFiles.length = c.closedFiles.length + if c.theFile.isSome then 1 else 0)
  -- the transfer is over, and the file open
  | forgets (unfit : ¬ orderly) (state : c'.readingTheLogFile = 0)
      (file : c'.theFile.isSome = c.theFile.isSome) (closed : c'.closedFiles = c.closedFiles)

/-- A chunk that is no packet. -/
theorem Client.badPacket_left (io : CallIo) (c : Client) (s : Sock) (receives : c.readingTheLogFile = 2) :
    c.Left (c.buf.read 0 4 ≠ teee → io.writes = true) (c.badPacket io s).client := by
  unfold badPacket
  dsimp only
  rw [sendControl_client]
  by_cases ends : c.buf.read 0 4 = teee
  · -- The file was closed before the answer, whether that is written or not.
    rw [if_pos ends]
    refine .closes (fun other => absurd ends other) ?_ ?_ ?_
    · split_ifs <;> rfl
    · split_ifs <;> rfl
    · have closed : c.closeFile.closedFiles.length =
          c.closedFiles.length + if c.theFile.isSome then 1 else 0 := by
        -- Closing adds the file to the closed ones, if there is one.
        cases file : c.theFile <;> simp [closeFile, file]
      rw [← closed]
      -- Neither answer touches the closed files again.
      by_cases written : io.writes = true
      · rw [if_pos written]
      · rw [if_neg written]
  · rw [if_neg ends]
    by_cases written : io.writes = true
    · -- A NAK that is written lets the transfer go on.
      rw [if_pos written]
      exact .stays (fun _ => written) receives rfl rfl
    · -- A NAK that is not written ends it, and nobody closes the file.
      rw [if_neg written]
      exact .forgets (fun orderly => written (orderly ends)) rfl rfl rfl

/-- A packet that passed the checks and is due. -/
theorem Client.savePacket_left (io : CallIo) (c : Client) (s : Sock) (receives : c.readingTheLogFile = 2) :
    c.Left (wrap32 (c.fileBytesCounter + c.incomingPacketSize) < c.fileSize → io.writes = true)
      (c.savePacket io s).client := by
  cases c.savePacket_saving io s with
  | completes whole done file closed =>
    -- The last byte has come, and the file is closed behind it.
    refine .closes (fun more => by omega) done file ?_
    rw [closed]
    cases c.theFile <;> rfl
  | goesOn more goes file closed =>
    -- The file grows, and stays what it is: open or not.
    have same : (c.savePacket io s).client.theFile.isSome = c.theFile.isSome := by
      rw [file, Option.isSome_map]
    by_cases written : io.writes = true
    · -- The acknowledgement went out, and the next packet is waited for.
      rw [if_pos written] at goes
      exact .stays (fun _ => written) (goes.trans receives) same closed
    · -- Without the acknowledgement the transfer ends with the file open.
      rw [if_neg written] at goes
      exact .forgets (fun orderly => written (orderly more)) goes same closed

/-- What a call does with the file depends on the client only through the file and its state. -/
theorem Client.Left.of_same {P Q : Prop} {c₀ c' : Client} (left : c.Left P c') (same : P ↔ Q)
    (file : c.theFile = c₀.theFile) (closed : c.closedFiles = c₀.closedFiles) : c₀.Left Q c' := by
  -- The three ways are the same seen from the other client.
  cases left with
  | stays fine state isSome kept =>
    exact .stays (same.mp fine) state (by rw [isSome, file]) (by rw [kept, closed])
  | closes fine state none more =>
    exact .closes (same.mp fine) state none (by rw [more, file, closed])
  | forgets unfit state isSome kept =>
    exact .forgets (fun q => unfit (same.mpr q)) state (by rw [isSome, file]) (by rw [kept, closed])

variable (crc16) in
/-- What state 2 makes of a chunk. -/
theorem Client.receiving_left (io : CallIo) (c : Client) (s : Sock) (len : Nat)
    (receives : c.readingTheLogFile = 2) :
    let r := checkThePacket crc16 c s len
    c.Left ((if r.1 then r.2.1.packetsCounter ≤ r.2.1.incomingPacketsCounter ∧
        wrap32 (c.fileBytesCounter + r.2.1.incomingPacketSize) < c.fileSize
      else r.2.1.buf.read 0 4 ≠ teee) → io.writes = true) (c.receiving crc16 io s len).client := by
  -- The checks leave state and file, and the counter tells whether the packet is due.
  have counted := checkThePacket_counted crc16 c s len
  unfold receiving
  generalize checkThePacket crc16 c s len = r at counted ⊢
  obtain ⟨ok, c', s', len'⟩ := r
  dsimp only at counted ⊢
  have state := counted.state.trans receives
  cases ok with
  | true =>
    simp only [if_true]
    by_cases duplicate : c'.incomingPacketsCounter < c'.packetsCounter
    · -- A packet that was saved before is answered by nothing.
      rw [if_pos duplicate]
      exact .stays (fun due => by omega) state (by rw [counted.file]) counted.closed
    · rw [if_neg duplicate]
      -- A packet that is due is saved, and completes the file or not.
      refine (c'.savePacket_left io s' state).of_same ?_ counted.file counted.closed
      have due : c'.packetsCounter ≤ c'.incomingPacketsCounter := by omega
      rw [counted.progress.1, counted.progress.2]
      exact ⟨fun orderly more => orderly more.2, fun orderly more => orderly ⟨due, more⟩⟩
  | false =>
    -- What is no packet is complained about, and may be the end.
    simp only [Bool.false_eq_true, if_false]
    exact (c'.badPacket_left io s' state).of_same Iff.rfl counted.file counted.closed

variable (crc16) in
/-- In state 2 a call keeps the file, closes it or forgets it, and the last only if it cannot answer. -/
theorem Client.reply_left (a : Chunk) (receives : c.readingTheLogFile = 2) :
    c.Left (c.Answers crc16 a → a.io.writes = true) (c.reply crc16 a).client := by
  by_cases hands : c.HandsOn a.chunk
  · -- In state 2 the chunk goes through the checks, and what they make of it decides.
    unfold Client.reply
    rw [process_receives crc16 a.io receives hands]
    refine (receiving_left crc16 a.io (c.filledWith a.chunk) a.sock a.chunk.length
      receives).of_same ?_ rfl rfl
    exact ⟨fun orderly answers => orderly answers.2.2,
      fun orderly answer => orderly ⟨hands.1, hands.2, answer⟩⟩
  · -- Nothing is answered, and nothing changes.
    have kept : (c.reply crc16 a).client.receiver = c.receiver := (process_kept crc16 a.io hands a.sock).1
    have file : (c.reply crc16 a).client.theFile = c.theFile := congrArg Receiver.theFile kept
    have state := (congrArg Receiver.readingTheLogFile kept).trans receives
    refine .stays (fun answers => ?_) state (by rw [file]) (congrArg Receiver.closedFiles kept)
    exact absurd ⟨answers.1, answers.2.1⟩ hands

/-- The answer to a request opens a file, ends the request or is waited for. -/
theorem Client.awaitingAnswer_asked (io : CallIo) (c : Client) (s : Sock) (len : Nat)
    (asks : c.readingTheLogFile = 1) (file : c.theFile = none) :
    ((c.awaitingAnswer io s len).client.theFile.isSome = true ↔
        (c.awaitingAnswer io s len).client.readingTheLogFile = 2) ∧
      (c.awaitingAnswer io s len).client.closedFiles = c.closedFiles := by
  unfold awaitingAnswer
  dsimp only
  generalize cstr _ = text
  generalize teeData _ _ = buf
  split
  · rename_i sch _
    -- An acknowledgement was found in the text.
    cases scanInt (sch.drop 4) with
    | some k =>
      -- Only an answer that names a size opens the file.
      dsimp only
      by_cases opens : io.opens = true
      · rw [if_pos opens]
        exact ⟨by simp, rfl⟩
      · rw [if_neg opens]
        exact ⟨by simp, rfl⟩
    | none => exact ⟨by simp [file], rfl⟩
  · -- Without one, a refusal ends the request, and anything else is waited through.
    by_cases refused : (strstr nakWord text).isSome = true
    · rw [if_pos refused]
      exact ⟨by simp [file], rfl⟩
    · rw [if_neg refused]
      exact ⟨by simp [file, asks], rfl⟩

variable (crc16) in
/-- In state 1 a file is opened, and the client is then in state 2, or none is. -/
theorem Client.reply_asked (a : Chunk) (asks : c.readingTheLogFile = 1) (file : c.theFile = none) :
    ((c.reply crc16 a).client.theFile.isSome = true ↔ (c.reply crc16 a).client.readingTheLogFile = 2) ∧
      (c.reply crc16 a).client.closedFiles = c.closedFiles := by
  by_cases hands : c.HandsOn a.chunk
  · -- In state 1 the chunk is searched for the answer.
    have waited : c.reply crc16 a = (c.filledWith a.chunk).awaitingAnswer a.io a.sock a.chunk.length := by
      have state : (c.filledWith a.chunk).readingTheLogFile = 1 := asks
      rw [Client.reply, process_handsOn crc16 a.io hands]
      simp only [readingTheFile, state]
    rw [waited]
    exact awaitingAnswer_asked a.io (c.filledWith a.chunk) a.sock a.chunk.length asks file
  · -- The request goes on, and no file is open.
    have kept : (c.reply crc16 a).client.receiver = c.receiver := (process_kept crc16 a.io hands a.sock).1
    have none := (congrArg Receiver.theFile kept).trans file
    have state := (congrArg Receiver.readingTheLogFile kept).trans asks
    refine ⟨?_, congrArg Receiver.closedFiles kept⟩
    simp only [Client.receiver] at none state
    simp [none, state]

variable (crc16) in
/-- In every other state a call leaves the file alone. -/
theorem Client.reply_other (a : Chunk) (asks : c.readingTheLogFile ≠ 1)
    (receives : c.readingTheLogFile ≠ 2) : (c.reply crc16 a).client.receiver = c.receiver := by
  by_cases hands : c.HandsOn a.chunk
  · -- Outside of the states 1 and 2 only text comes here.
    rw [Client.reply, process_handsOn crc16 a.io hands]
    unfold readingTheFile
    split
    · contradiction
    · contradiction
    · rfl
  · exact (process_kept crc16 a.io hands a.sock).1

/-- A command leaves the file, and moves the client to the state of a request or out of one. -/
theorem Client.do_write_state (writes : Bool) (c : Client) (s : List UInt8) :
    (c.do_write writes s).1.theFile = c.theFile ∧
      (c.do_write writes s).1.closedFiles = c.closedFiles ∧
      (c.do_write writes s).1.readingTheLogFile =
        if s = [] then c.readingTheLogFile
        else if writes = false then 0
        else if getWord.isPrefixOf s then 1 else c.readingTheLogFile := by
  unfold do_write
  by_cases nothing : s = []
  · -- A line that is empty is not sent.
    rw [if_pos nothing, if_pos nothing]
    exact ⟨rfl, rfl, rfl⟩
  rw [if_neg nothing, if_neg nothing]
  by_cases asks : getWord.isPrefixOf s = true
  · -- A request moves the client to state 1, and to state 0 if it cannot be written.
    cases writes <;> simp [asks]
  · cases writes <;> simp [asks]

section

variable {h : Handles}

/-- An event that keeps the file leaves a paired state exactly if it neither enters nor leaves state 2. -/
theorem Handles.Paired.keeps_iff (paired : h.Paired) {c' : Client}
    (file : c'.theFile.isSome = h.client.theFile.isSome)
    (closed : c'.closedFiles = h.client.closedFiles)
    (unopened : ¬ (h.client.readingTheLogFile = 1 ∧ c'.readingTheLogFile = 2)) (running : Prop) :
    (Handles.mk c' (h.opened +
        if h.client.readingTheLogFile = 1 ∧ c'.readingTheLogFile = 2 then 1 else 0) running).Paired ↔
      (h.client.readingTheLogFile = 2 ↔ c'.readingTheLogFile = 2) := by
  -- No file was opened, so state and file are as before.
  rw [if_neg unopened, Nat.add_zero, ← paired.state, ← file]
  constructor
  · -- The state follows the file before and after.
    intro after
    exact after.state
  · -- The numbers of files are the same on both sides.
    intro same
    refine ⟨same, ?_⟩
    rw [file, closed]
    exact paired.closed

/-- A command leaves no transfer if it is none for a file and can be written. -/
theorem Handles.Paired.do_write_iff (paired : h.Paired) (writes : Bool) (s : List UInt8) :
    (h.after crc16 (.do_write writes s)).Paired ↔ h.client.Orderly crc16 (.do_write writes s) := by
  obtain ⟨file, closed, state⟩ := h.client.do_write_state writes s
  have kept := paired.keeps_iff
    (show (h.client.do_write writes s).1.theFile.isSome = h.client.theFile.isSome by rw [file]) closed
    (fun ⟨asked, opened⟩ => by
      rw [state, asked] at opened
      split_ifs at opened <;> omega) (h.running ∧ True)
  refine kept.trans ?_
  rw [state]
  unfold Client.Orderly
  by_cases nothing : s = []
  · simp [nothing]
  rw [if_neg nothing]
  -- The state stays 2 only if no branch of the command is taken.
  by_cases receives : h.client.readingTheLogFile = 2
  · cases writes <;> cases asks : getWord.isPrefixOf s <;> simp [receives, nothing, asks]
  · cases writes <;> cases asks : getWord.isPrefixOf s <;> simp [receives, asks]

/-- In a transfer, a chunk keeps the pairing exactly if the client can answer it where it has to. -/
theorem Handles.Paired.process_receiving_iff (paired : h.Paired) (a : Chunk)
    (small : a.chunk.length ≤ readSize) (receives : h.client.readingTheLogFile = 2) :
    (h.after crc16 (.process a small)).Paired ↔ (h.client.Answers crc16 a → a.io.writes = true) := by
  have unopened : ∀ c' : Client, ¬ (h.client.readingTheLogFile = 1 ∧ c'.readingTheLogFile = 2) :=
    fun c' entered => by omega
  cases h.client.reply_left crc16 a receives with
  | stays fine state file closed =>
    refine iff_of_true ((paired.keeps_iff file closed (unopened _) _).mpr ?_) fine
    exact iff_of_true receives state
  | closes fine state file closed =>
    -- The file went from the open one to the closed ones.
    refine iff_of_true ⟨?_, ?_⟩ fine
    · show (h.client.reply crc16 a).client.theFile.isSome = true ↔ _
      rw [file]
      exact iff_of_false (by simp) (by show ¬ (h.client.reply crc16 a).client.readingTheLogFile = 2; omega)
    · show h.opened + _ = (h.client.reply crc16 a).client.closedFiles.length +
        if (h.client.reply crc16 a).client.theFile.isSome then 1 else 0
      rw [closed, paired.closed, file]
      simp [Client.after, state]
  | forgets unfit state file closed =>
    -- The state was left with the file, so the two do not agree any more.
    refine iff_of_false (fun after => ?_) unfit
    have same := (paired.keeps_iff file closed (unopened _) _).mp after
    have left := same.mp receives
    omega

/-- Outside of a transfer, a chunk keeps the pairing. -/
theorem Handles.Paired.process_waiting (paired : h.Paired) (a : Chunk) (small : a.chunk.length ≤ readSize)
    (waits : h.client.readingTheLogFile ≠ 2) : (h.after crc16 (.process a small)).Paired := by
  by_cases asks : h.client.readingTheLogFile = 1
  · -- The file that is opened is the only open one.
    have none : h.client.theFile = none := by
      have shut := mt paired.state.mp waits
      simpa using shut
    obtain ⟨state, closed⟩ := h.client.reply_asked crc16 a asks none
    refine ⟨state, ?_⟩
    show h.opened + _ = (h.client.reply crc16 a).client.closedFiles.length + _
    rw [closed, paired.closed]
    simp only [Client.after, asks, true_and, none, ← state]
    rfl
  · -- Nobody waits for a file, and nothing is opened or closed.
    have kept := h.client.reply_other crc16 a asks waits
    have state : (h.client.reply crc16 a).client.readingTheLogFile = h.client.readingTheLogFile :=
      congrArg Receiver.readingTheLogFile kept
    have file : (h.client.reply crc16 a).client.theFile = h.client.theFile :=
      congrArg Receiver.theFile kept
    have closed : (h.client.reply crc16 a).client.closedFiles = h.client.closedFiles :=
      congrArg Receiver.closedFiles kept
    refine (paired.keeps_iff (by rw [file]) closed (fun entered => asks entered.1) _).mpr ?_
    rw [state]

/-- State 2 has a meaning exactly for a chunk that it can digest. -/
theorem Client.defined_iff {c : Client} {a : Chunk} (small : a.chunk.length ≤ readSize) :
    c.Defined crc16 a ↔ c.Digests crc16 a := by
  have fits : a.chunk.length ≤ bufSize := small.trans (by decide)
  -- Both bounds are about the header, which stands in the buffer as it was read.
  have reads_iff := receivingReads_inside_iff crc16 (c := c.filledWith a.chunk) (s := a.sock) fits
  have crc_iff := crcRange_whole_iff (c := c.filledWith a.chunk) (s := a.sock) fits
  have head (long : ethHeaderSize ≤ a.chunk.length) :
      (c.filledWith a.chunk).buf.read 0 4 = a.chunk.take 4 := c.filledWith_field long (by decide)
  have size (long : ethHeaderSize ≤ a.chunk.length) :
      (c.filledWith a.chunk).sizeField = i32 (a.chunk.drop 4) := by
    rw [sizeField, c.filledWith_field long (by decide), i32_take]
  -- The checks keep the size that was announced.
  have announced : ∀ c' ∈ c.toSave crc16 a, c'.fileSize = c.fileSize := by
    intro c' due
    obtain ⟨passed, -⟩ := Option.filter_eq_some_iff.mp due
    unfold checked at passed
    dsimp only at passed
    split_ifs at passed
    cases passed
    exact (c.filledWith_counted crc16 a.chunk a.sock).progress.2
  constructor
  · intro defined
    refine ⟨⟨fun long ahead => ?_, fun long other => ?_⟩, fun due => ?_⟩
    · rw [← size long]
      exact crc_iff.mp defined.crc long ((head long).trans ahead)
    · exact reads_iff.mp defined.reads long (by rwa [head long])
    · obtain ⟨c', due⟩ := Option.isSome_iff_exists.mp due
      rw [← announced c' due]
      exact defined.division c' due
  · intro digests
    refine ⟨reads_iff.mpr fun long other => ?_, crc_iff.mpr fun long ahead => ?_, fun c' due => ?_⟩
    · exact digests.inBounds.drained long (by rwa [head long] at other)
    · rw [size long]
      exact digests.inBounds.sized long ((head long).symm.trans ahead)
    · rw [announced c' due]
      exact digests.announced (Option.isSome_iff_exists.mpr ⟨c', due⟩)

/-- A chunk leaves no transfer without closing its file, if the client can answer it. -/
theorem Handles.Paired.process_iff (paired : h.Paired) (a : Chunk) (small : a.chunk.length ≤ readSize) :
    (h.after crc16 (.process a small)).Paired ↔
      (h.client.readingTheLogFile = 2 → h.client.Answers crc16 a → a.io.writes = true) := by
  by_cases receives : h.client.readingTheLogFile = 2
  · rw [paired.process_receiving_iff a small receives]
    simp only [receives, true_implies]
  · exact iff_of_true (paired.process_waiting a small receives) fun now => absurd now receives

/-- A start of the client leaves no transfer if there is none. -/
theorem Handles.Paired.startClient_iff (paired : h.Paired) :
    (h.after crc16 .startClient).Paired ↔ h.client.Orderly crc16 .startClient := by
  unfold Client.Orderly
  have opened : (h.after crc16 .startClient).opened = h.opened := by
    simp [Handles.after, Client.after, Client.startClient]
  constructor
  · intro after receives
    -- The open file is neither closed nor known any more.
    have counted := after.closed
    rw [opened, paired.closed, if_pos (paired.state.mpr receives)] at counted
    simp [Handles.after, Client.after, Client.startClient] at counted
  · intro idle
    refine ⟨by simp [Handles.after, Client.after, Client.startClient], ?_⟩
    rw [opened, paired.closed, if_neg (mt paired.state.mp idle)]
    rfl

/-- The end of a connection leaves the transfer and its file alone. -/
theorem Handles.Paired.processError (paired : h.Paired) (disconnected : Bool) :
    (h.after crc16 (.processError disconnected)).Paired := by
  refine (paired.keeps_iff ?_ ?_ ?_ _).mpr ?_
  all_goals cases disconnected <;> simp [Client.after, Client.processError]
  all_goals omega

/-- A request to stop leaves the transfer and its file alone. -/
theorem Handles.Paired.stopClient (paired : h.Paired) : (h.after crc16 .stopClient).Paired := by
  refine (@Handles.Paired.keeps_iff h paired h.client.stopClient rfl rfl ?_ _).mpr Iff.rfl
  show ¬ (h.client.readingTheLogFile = 1 ∧ h.client.readingTheLogFile = 2)
  omega

/-- A running program goes on with its file paired exactly if it survives the event and pairs it. -/
theorem Handles.Sound.after_iff_and (sound : h.Sound) (e : ConsoleEvent) :
    (h.after crc16 e).Sound ↔ (h.after crc16 e).Paired ∧ h.client.Survives crc16 e :=
  ⟨fun after => ⟨after.toPaired, after.running.2⟩, fun ⟨paired, survives⟩ =>
    ⟨paired, sound.running, survives⟩⟩

/-- An event keeps the program running and the file paired with the state exactly if it is orderly. -/
theorem Handles.Sound.after_iff (sound : h.Sound) (e : ConsoleEvent) :
    (h.after crc16 e).Sound ↔ h.client.Orderly crc16 e := by
  rw [sound.after_iff_and e]
  have paired := sound.toPaired
  cases e with
  | do_write writes s => exact (and_iff_left trivial).trans (paired.do_write_iff writes s)
  | process a small =>
    -- The file is left alone by the one part of the condition, and the program goes on by the other.
    rw [paired.process_iff a small]
    simp only [Client.Survives, Client.Orderly, Client.defined_iff small]
    exact (forall_and).symm
  | processError disconnected => exact iff_of_true ⟨paired.processError disconnected, trivial⟩ trivial
  | startClient => exact (and_iff_left trivial).trans paired.startClient_iff
  | stopClient => exact iff_of_true ⟨paired.stopClient, trivial⟩ trivial

end

/--
In every state of a run the program goes on, the file is open exactly in state 2, and every other file that
was opened is closed, exactly if every event of the run is orderly.
-/
theorem handles_paired_iff (crc16 : List UInt8 → UInt16) (events : List ConsoleEvent) :
    (∀ past, past <+: events → (handlesAfter crc16 past).Sound) ↔
      ∀ past e, past ++ [e] <+: events → (handlesAfter crc16 past).client.Orderly crc16 e :=
  foldl_forall_prefix_iff (P := Handles.Sound) (Q := fun h e => h.client.Orderly crc16 e)
    ⟨⟨by simp [Client.started], rfl⟩, trivial⟩ (fun _ e sound => sound.after_iff e) events

/-- A second `get` in the middle of a transfer leaves its file open. -/
theorem handles_paired_not_always :
    ¬ ∀ (crc16 : List UInt8 → UInt16) (events : List ConsoleEvent), (handlesAfter crc16 events).Paired := by
  intro always
  have paired := always (fun _ => 0) [.do_write true (getWord ++ [0x61]),
    .process ⟨⟨true, true⟩, ackWord ++ [0x35], ⟨[], []⟩⟩ (by decide),
    .do_write true (getWord ++ [0x62])]
  have state := paired.state
  revert state
  decide +kernel

end

end Teetest
