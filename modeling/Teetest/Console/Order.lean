import Teetest.Console.Ranges

/-!
The numbers of the packets that the client saves during a transfer.

A packet with a higher number than the expected one moves the expectation: it is saved and acknowledged,
and the packets before it are not asked for.
-/

namespace Teetest

open Lib

/-- A call of `process`: its outcomes, its chunk and the socket behind it. -/
structure Chunk where
  io : CallIo
  chunk : List UInt8
  sock : Sock

section

variable (crc16 : List UInt8 → UInt16)

/-- What a call of `process` makes of its chunk. -/
def Client.reply (c : Client) (a : Chunk) : Reply := c.process crc16 a.io a.chunk a.sock

/-- The client after a call of `process`. -/
def Client.take (c : Client) (a : Chunk) : Client := (c.reply crc16 a).client

/-- The client behind `checkThePacket`, where a call of `process` comes to it and its checks pass. -/
def Client.checked (c : Client) (a : Chunk) : Option Client :=
  if c.pleaseStop ∨ a.chunk.length < 1 then none
  else if classify c.readingTheLogFile a.chunk = .readingTheFile ∧ c.readingTheLogFile = 2 then
    let r := checkThePacket crc16 (c.filledWith a.chunk) a.sock a.chunk.length
    if r.1 then some r.2.1 else none
  else none

/-- The client behind the checks of a call, where its packet is saved. -/
def Client.toSave (c : Client) (a : Chunk) : Option Client :=
  (c.checked crc16 a).filter fun c' => decide (¬ c'.incomingPacketsCounter < c'.packetsCounter)

/-- The number of the packet in the buffer, and what is written of it. -/
def Client.packet (c : Client) : Int × List UInt8 :=
  (c.incomingPacketsCounter, c.buf.read ethHeaderSize c.incomingPacketSize.toNat)

/-- The number of a packet, and its payload among the bytes that a call has received. -/
def Client.arrived (c : Client) (a : Chunk) (c' : Client) : Int × List UInt8 :=
  let received := (checkThePacket crc16 (c.filledWith a.chunk) a.sock a.chunk.length).2.2.2
  (c'.incomingPacketsCounter,
    ((c'.buf.read 0 received).drop ethHeaderSize).take c'.incomingPacketSize.toNat)

/-- The packet that passes the checks in a call of `process`. -/
def Client.accepted (c : Client) (a : Chunk) : Option (Int × List UInt8) :=
  (c.checked crc16 a).map (c.arrived crc16 a)

/-- The packet that is not skipped behind the checks. -/
def Client.saved (c : Client) (a : Chunk) : Option (Int × List UInt8) :=
  (c.toSave crc16 a).map (c.arrived crc16 a)

/--
A call stays inside the buffer and what it has received.

A size behind a head is in range, and a chunk without a head has no more behind it than fits.
-/
structure Chunk.InBounds (a : Chunk) : Prop where
  sized : ethHeaderSize ≤ a.chunk.length → a.chunk.take 4 = tbwf → Sized (i32 (a.chunk.drop 4))
  drained : ethHeaderSize ≤ a.chunk.length → a.chunk.take 4 ≠ tbwf →
    ∀ answer ∈ drainAnswers none a.sock.polls a.sock.inp, answer ≤ bufSize

/-- Behind the number of a packet there is another one in the 32 bits of an `int`. -/
def Chunk.Numbered (a : Chunk) : Prop :=
  ethHeaderSize ≤ a.chunk.length → a.chunk.take 4 = tbwf → i32 (a.chunk.drop 8) < 2 ^ 31 - 1

/-- The packets that are saved through a sequence of calls. -/
def savedPackets : List Chunk → Client → List (Int × List UInt8)
  | [], _ => []
  | a :: later, c => (c.saved crc16 a).toList ++ savedPackets later (c.take crc16 a)

/-- The client after a sequence of calls. -/
def Client.takeAll (c : Client) (calls : List Chunk) : Client := calls.foldl (Client.take crc16) c

/-- The number that is expected behind the packets that were saved. -/
def expectedNumber (saved : List (Int × List UInt8)) : Int :=
  (saved.getLast?.map (·.1 + 1)).getD 1

/-- The client at the start of a transfer, in whatever state it was before. -/
def Client.transferring (c : Client) : Client :=
  { c with readingTheLogFile := 2, theFile := some [], packetsCounter := 1 }

/-- These bytes stand in the open file, or in the one that was closed last. -/
def Client.Contains (c : Client) (data : List UInt8) : Prop :=
  c.theFile = some data ∨
    c.theFile = none ∧ c.closedFiles.head? = some (c.currentFileName, data)

variable {crc16} {c : Client}

/-- What the checks keep of a client, and what they make of its counter. -/
structure Counted (c : Client) (ok : Bool) (c' : Client) : Prop where
  state : c'.readingTheLogFile = c.readingTheLogFile
  file : c'.theFile = c.theFile
  closed : c'.closedFiles = c.closedFiles
  progress : c'.fileBytesCounter = c.fileBytesCounter ∧ c'.fileSize = c.fileSize
  accepted : ok = true → c'.packetsCounter = max c.packetsCounter c'.incomingPacketsCounter
  rejected : ok = false → c'.packetsCounter = c.packetsCounter

variable (crc16) in
/-- Accepting a packet moves the counter up to its number. -/
theorem acceptPacket_counted (c : Client) (buf : Mem) :
    Counted c (acceptPacket crc16 c buf).1 (acceptPacket crc16 c buf).2 := by
  -- The checks fail, or the number is compared with the expected one.
  simp only [acceptPacket]
  split_ifs with checks higher
  · exact ⟨rfl, rfl, rfl, ⟨rfl, rfl⟩, fun _ => (max_eq_right higher.le).symm, by simp⟩
  · exact ⟨rfl, rfl, rfl, ⟨rfl, rfl⟩, fun _ => (max_eq_left (not_lt.mp higher)).symm, by simp⟩
  · exact ⟨rfl, rfl, rfl, ⟨rfl, rfl⟩, by simp, fun _ => rfl⟩

variable (crc16) in
/-- The check of a packet moves the counter up to its number, if it is accepted. -/
theorem checkThePacket_counted (c : Client) (s : Sock) (len : Nat) :
    Counted c (checkThePacket crc16 c s len).1 (checkThePacket crc16 c s len).2.1 := by
  rw [checkThePacket_eq]
  split_ifs
  · -- Too little for a header.
    exact ⟨rfl, rfl, rfl, ⟨rfl, rfl⟩, by simp, fun _ => rfl⟩
  · -- A chunk without a head.
    exact ⟨rfl, rfl, rfl, ⟨rfl, rfl⟩, by simp, fun _ => rfl⟩
  · -- The fields of the header are no part of what is kept.
    have counted := acceptPacket_counted crc16 c.readHeader (c.filled s len).buf
    exact ⟨counted.state, counted.file, counted.closed, counted.progress, counted.accepted,
      counted.rejected⟩
  · -- A packet that is not complete.
    exact ⟨rfl, rfl, rfl, ⟨rfl, rfl⟩, by simp, fun _ => rfl⟩

variable (crc16) in
/-- The check of a chunk keeps what it keeps of the client before that was in the buffer. -/
theorem Client.filledWith_counted (c : Client) (chunk : List UInt8) (s : Sock) :
    Counted c (checkThePacket crc16 (c.filledWith chunk) s chunk.length).1
      (checkThePacket crc16 (c.filledWith chunk) s chunk.length).2.1 := by
  -- The buffer is no part of what is kept.
  have counted := checkThePacket_counted crc16 (c.filledWith chunk) s chunk.length
  exact ⟨counted.state, counted.file, counted.closed, counted.progress, counted.accepted,
    counted.rejected⟩

/-- A control message that cannot be written ends the transfer, and nothing else changes. -/
theorem Client.sendControl_client (io : CallIo) (c : Client) (s : Sock) :
    (c.sendControl io s).client =
      if io.writes then c else { c with readingTheLogFile := 0 } := by
  -- Only a failing write ends the transfer.
  unfold sendControl
  split_ifs <;> rfl

/-- What becomes of the transfer when a packet is saved. -/
inductive Client.Saving (io : CallIo) (c : Client) (r : Reply) : Prop
  -- the file is complete, and closed
  | completes (whole : c.fileSize ≤ wrap32 (c.fileBytesCounter + c.incomingPacketSize))
      (state : r.client.readingTheLogFile = 0) (file : r.client.theFile = none)
      (closed : r.client.closedFiles = c.theFile.elim c.closedFiles fun data =>
        (r.client.currentFileName, data ++ c.packet.2) :: c.closedFiles)
  -- the packet is acknowledged, if that can be written
  | goesOn (more : wrap32 (c.fileBytesCounter + c.incomingPacketSize) < c.fileSize)
      (state : r.client.readingTheLogFile = if io.writes then c.readingTheLogFile else 0)
      (file : r.client.theFile = c.theFile.map (· ++ c.packet.2))
      (closed : r.client.closedFiles = c.closedFiles)
      (counter : r.client.packetsCounter = wrap32 (c.packetsCounter + 1))
      (out : r.out = if io.writes then control tbwf c.packetsCounter else [])

/-- A saved packet completes the file or is acknowledged. -/
theorem Client.savePacket_saving (io : CallIo) (c : Client) (s : Sock) :
    c.Saving io (c.savePacket io s) := by
  unfold savePacket
  -- The data is written and counted before anything else.
  dsimp only
  -- The report of the progress is no part of the transfer.
  generalize reported : Client.reportProgress _ = w
  have kept := congrArg Client.receiver reported
  rw [Client.reportProgress_receiver] at kept
  have state : w.readingTheLogFile = c.readingTheLogFile :=
    (congrArg Receiver.readingTheLogFile kept).symm
  have counter : w.packetsCounter = c.packetsCounter :=
    (congrArg Receiver.packetsCounter kept).symm
  have closed : w.closedFiles = c.closedFiles := (congrArg Receiver.closedFiles kept).symm
  have size : w.fileSize = c.fileSize := (congrArg Receiver.fileSize kept).symm
  have arrived : w.fileBytesCounter = wrap32 (c.fileBytesCounter + c.incomingPacketSize) :=
    (congrArg Receiver.fileBytesCounter kept).symm
  have file : w.theFile = c.theFile.map (· ++ c.packet.2) := (congrArg Receiver.theFile kept).symm
  by_cases complete : w.fileBytesCounter ≥ w.fileSize
  · -- The last byte has come: the file goes to the closed ones, under its name.
    rw [if_pos complete]
    refine .completes (by omega) rfl rfl ?_
    simp only [closeFile, file, closed]
    cases c.theFile <;> rfl
  · rw [if_neg complete]
    by_cases written : io.writes = true
    · -- The counter stands behind the number that is acknowledged.
      rw [sendControl_writes written]
      refine .goesOn (by omega) (by rw [if_pos written]; exact state) file closed (by simp [counter]) ?_
      rw [if_pos written, controlBuf_tbwf, counter]
    · have silent : ∀ c' : Client, c'.sendControl io s =
          ⟨{ c' with readingTheLogFile := 0 }, s, []⟩ := fun c' => if_neg written
      -- A control message that cannot be written sets the state to 0.
      rw [silent]
      exact .goesOn (by omega) (by rw [if_neg written]) file closed (by simp [counter])
        (by rw [if_neg written])

/-- What a call does in a transfer, by the packet that it saves. -/
structure Expects (c : Client) (saved : Option (Int × List UInt8)) (r : Reply) : Prop where
  state : r.client.readingTheLogFile = 2 ∨ r.client.readingTheLogFile = 0
  -- the expectation stands behind a packet that is saved
  none : saved = none → r.client.packetsCounter = c.packetsCounter
  some : ∀ k payload, saved = some (k, payload) → c.packetsCounter ≤ k ∧
    (r.client.readingTheLogFile = 2 →
      r.client.packetsCounter = wrap32 (k + 1) ∧ r.out = control tbwf k)
  -- the file grows by what is saved
  contents : ∀ data, c.theFile = .some data →
    r.client.Contains (data ++ (saved.map Prod.snd).getD []) ∧
      (r.client.readingTheLogFile = 2 → r.client.theFile.isSome = true)

/-- A control message saves nothing, and ends the transfer or lets it go on. -/
theorem Client.sendControl_expects (io : CallIo) {c' : Client} (s : Sock)
    (state : c'.readingTheLogFile = 2 ∨ c'.readingTheLogFile = 0)
    (counter : c'.packetsCounter = c.packetsCounter)
    (contents : ∀ data, c.theFile = some data → c'.Contains data ∧
      (c'.readingTheLogFile = 2 → c'.theFile.isSome = true)) :
    Expects c none (c'.sendControl io s) := by
  unfold sendControl
  by_cases written : io.writes = true
  · -- Written: the client is handed on as it is.
    rw [if_pos written]
    refine ⟨state, fun _ => counter, by simp, fun data opened => ?_⟩
    simpa using contents data opened
  · rw [if_neg written]
    -- Not written: the file stays open, and still has its data.
    refine ⟨.inr rfl, fun _ => counter, by simp, fun data opened => ⟨?_, by simp⟩⟩
    rw [Option.map_none, Option.getD_none, List.append_nil]
    exact (contents data opened).1

/-- A chunk that is no packet saves nothing. -/
theorem Client.badPacket_expects (io : CallIo) (c : Client) (s : Sock)
    (receives : c.readingTheLogFile = 2) : Expects c none (c.badPacket io s) := by
  unfold badPacket
  dsimp only
  by_cases ends : c.buf.read 0 4 = teee
  · -- The file was closed before the answer.
    rw [if_pos ends]
    refine sendControl_expects io _ (.inr rfl) rfl fun data opened => ⟨.inr ⟨rfl, ?_⟩, by simp⟩
    simp [closeFile, opened]
  · rw [if_neg ends]
    -- Any other chunk is only complained about.
    refine sendControl_expects io _ (.inl receives) rfl fun data opened => ⟨.inl opened, fun _ => ?_⟩
    exact Option.isSome_iff_exists.mpr ⟨data, opened⟩

/-- What state 2 makes of a packet that passed the checks. -/
theorem Client.savePacket_expects (io : CallIo) {c' : Client} (s : Sock)
    (receives : c.readingTheLogFile = 2) (counted : Counted c true c')
    (due : ¬ c'.incomingPacketsCounter < c'.packetsCounter) :
    Expects c (some c'.packet) (c'.savePacket io s) := by
  -- The number is the expected one now, whether it was before or not.
  have counter := counted.accepted rfl
  have number : c'.packetsCounter = c'.packet.1 := by
    show _ = c'.incomingPacketsCounter
    omega
  have higher : c.packetsCounter ≤ c'.packet.1 := by omega
  have state := counted.state.trans receives
  -- By what becomes of the transfer.
  cases c'.savePacket_saving io s with
  | completes whole done file closed =>
    -- With this packet the file is complete, and closed.
    refine ⟨.inr done, by simp, fun k payload same => ?_, fun data opened => ⟨.inr ⟨file, ?_⟩, ?_⟩⟩
    · cases same
      exact ⟨higher, fun on => by omega⟩
    · rw [closed, counted.file, opened]
      rfl
    · intro on
      omega
  | goesOn more goes file closed next out =>
    by_cases written : io.writes = true
    · -- The acknowledgement goes out with the number that was saved.
      rw [if_pos written] at goes out
      refine ⟨.inl (goes.trans state), by simp, fun k payload same => ?_, fun data opened => ?_⟩
      · cases same
        exact ⟨higher, fun _ => ⟨next.trans (by rw [number]; rfl), out.trans (by rw [number]; rfl)⟩⟩
      · rw [counted.file, opened] at file
        exact ⟨.inl file, fun _ => by rw [file]; rfl⟩
    · -- The acknowledgement failed: the transfer is over, and the file stays open.
      rw [if_neg written] at goes
      refine ⟨.inr goes, by simp, fun k payload same => ?_, fun data opened => ?_⟩
      · cases same
        exact ⟨higher, fun on => by omega⟩
      · rw [counted.file, opened] at file
        exact ⟨.inl file, fun _ => by rw [file]; rfl⟩

/-- The header of a chunk stands in the buffer as it was read. -/
theorem Client.filledWith_field (c : Client) {chunk : List UInt8} (long : ethHeaderSize ≤ chunk.length)
    {off n : Nat} (inside : off + n ≤ ethHeaderSize) :
    (c.filledWith chunk).buf.read off n = (chunk.drop off).take n := by
  show ((c.buf.write 0 chunk).write (bufSize - 1) [0]).read off n = _
  -- The zero at the end of the buffer is far behind the header.
  have room : ethHeaderSize ≤ bufSize - 1 := by decide
  rw [Mem.read_write_disjoint _ (.inl (by omega)), Mem.read_field _ (show off + n ≤ chunk.length by omega),
    Mem.read_write_same]

/-- A chunk that passes the checks begins with the header that they have read. -/
theorem Client.checked_header {a : Chunk} {c' : Client} (passed : c.checked crc16 a = some c') :
    ethHeaderSize ≤ a.chunk.length ∧ a.chunk.take 4 = tbwf ∧
      c'.incomingPacketsCounter = i32 (a.chunk.drop 8) ∧ c'.incomingPacketSize = i32 (a.chunk.drop 4) ∧
      packetEnd c'.incomingPacketSize ≤
        (checkThePacket crc16 (c.filledWith a.chunk) a.sock a.chunk.length).2.2.2 := by
  unfold Client.checked at passed
  dsimp only at passed
  split_ifs at passed with stopped both ok
  cases passed
  obtain ⟨long, head, number, size, complete⟩ := checkThePacket_accepted ok
  rw [Client.sizeField] at size complete
  -- Each field is read where the chunk has it.
  rw [c.filledWith_field long (by decide)] at head number size complete
  rw [i32_take] at number size complete
  exact ⟨long, head, number, size, size ▸ complete⟩

/-- What is written of a packet is the payload that was received, where the call is in bounds. -/
theorem Client.saved_packet {a : Chunk} (inBounds : a.InBounds) :
    c.saved crc16 a = (c.toSave crc16 a).map Client.packet := by
  unfold Client.saved
  refine Option.map_congr fun c' due => ?_
  obtain ⟨passed, -⟩ := Option.filter_eq_some_iff.mp due
  obtain ⟨long, head, -, size, complete⟩ := checked_header passed
  have sized : Sized c'.incomingPacketSize := size ▸ inBounds.sized long head
  rw [sized.packetEnd_eq] at complete
  -- The payload ends where the packet does, within the bytes received.
  simp only [Client.arrived, Client.packet, Mem.drop_read, Nat.zero_add]
  have nonneg := sized.1
  rw [Mem.take_read _ _ (by omega)]

/-- A chunk that is not handed on does not come to the checks. -/
theorem Client.checked_none {a : Chunk} (kept : ¬ c.HandsOn a.chunk) : c.checked crc16 a = none := by
  unfold Client.checked
  dsimp only
  split_ifs with stopped both
  · rfl
  · exact absurd ⟨stopped, both.1⟩ kept
  · exact absurd ⟨stopped, both.1⟩ kept
  · rfl

/-- What a call of `process` comes to in state 2, with the client behind the checks if a packet is saved. -/
inductive Client.Call (io : CallIo) (c : Client) : Option Client → Reply → Prop
  -- the chunk is not handed on
  | keeps {r : Reply} (kept : r.client.receiver = c.receiver) : Call io c none r
  -- a packet that was saved before
  | skips {c' : Client} (s : Sock) (counted : Counted c true c')
      (duplicate : c'.incomingPacketsCounter < c'.packetsCounter) :
      Call io c none ⟨{ c' with
        counterErrorCounter :=
          wrap32 (c'.counterErrorCounter + (c'.packetsCounter - c'.incomingPacketsCounter)) }, s, []⟩
  | saves {c' : Client} (s : Sock) (counted : Counted c true c')
      (due : ¬ c'.incomingPacketsCounter < c'.packetsCounter) :
      Call io c (some c') (c'.savePacket io s)
  | complains {c' : Client} (s : Sock) (counted : Counted c false c') :
      Call io c none (c'.badPacket io s)

variable (crc16) in
/-- Every call in state 2 is one of the four. -/
theorem Client.reply_call (a : Chunk) (receives : c.readingTheLogFile = 2) :
    c.Call a.io (c.toSave crc16 a) (c.reply crc16 a) := by
  by_cases hands : c.HandsOn a.chunk
  · -- In state 2 the chunk goes through the checks, and their result decides.
    have counted := c.filledWith_counted crc16 a.chunk a.sock
    unfold Client.toSave Client.checked Client.reply
    rw [if_neg hands.1, if_pos ⟨hands.2, receives⟩, process_receives crc16 a.io receives hands]
    unfold receiving
    generalize checkThePacket crc16 (c.filledWith a.chunk) a.sock a.chunk.length = r at counted ⊢
    obtain ⟨ok, c', s', len'⟩ := r
    cases ok with
    | true =>
      simp only [if_true, Option.filter_some]
      by_cases duplicate : c'.incomingPacketsCounter < c'.packetsCounter
      · -- A number below the expected one.
        rw [if_pos duplicate, if_neg (by simpa using duplicate)]
        exact .skips s' counted duplicate
      · -- A number that is due.
        rw [if_neg duplicate, if_pos (by simpa using duplicate)]
        exact .saves s' counted duplicate
    | false => exact .complains s' counted
  · -- A chunk that begins like a greeting or a ping is dropped, even within a packet.
    rw [Client.toSave, checked_none hands]
    exact .keeps (process_kept crc16 a.io hands a.sock).1

variable (crc16) in
/-- During a transfer a call writes a packet only if its number is due. -/
theorem Client.reply_writes (a : Chunk) (receives : c.readingTheLogFile = 2) :
    Expects c ((c.toSave crc16 a).map Client.packet) (c.reply crc16 a) := by
  have call := c.reply_call crc16 a receives
  generalize c.toSave crc16 a = what at call ⊢
  generalize c.reply crc16 a = r at call ⊢
  cases call with
  | keeps kept =>
    -- The receiver is the same, and so are the counter and the file.
    have file : r.client.theFile = c.theFile := congrArg Receiver.theFile kept
    have state := (congrArg Receiver.readingTheLogFile kept).trans receives
    refine ⟨.inl state, fun _ => congrArg Receiver.packetsCounter kept, by simp, fun data opened => ?_⟩
    refine ⟨.inl ?_, fun _ => by rw [file, opened]; rfl⟩
    simpa using file.trans opened
  | @skips c' s' counted duplicate =>
    -- A number below the expected one leaves it.
    have counter := counted.accepted rfl
    have same : c'.packetsCounter = c.packetsCounter := by omega
    refine ⟨.inl (counted.state.trans receives), fun _ => same, by simp, fun data opened => ⟨.inl ?_, ?_⟩⟩
    · simpa using counted.file.trans opened
    · simp [counted.file, opened]
  | saves s' counted due => exact savePacket_expects a.io s' receives counted due
  | @complains c' s' counted =>
    -- A chunk that is no packet is dropped with everything behind it.
    have bad := c'.badPacket_expects a.io s' (counted.state.trans receives)
    refine ⟨bad.state, fun _ => (bad.none rfl).trans (counted.rejected rfl), by simp, ?_⟩
    intro data opened
    exact bad.contents data (counted.file.trans opened)

variable (crc16) in
/-- In bounds, what is written is what was received. -/
theorem Client.reply_expects {a : Chunk} (inBounds : a.InBounds) (receives : c.readingTheLogFile = 2) :
    Expects c (c.saved crc16 a) (c.reply crc16 a) := by
  rw [saved_packet inBounds]
  exact c.reply_writes crc16 a receives

variable (crc16) in
/-- A client that is not in a transfer saves nothing, and stays as it is. -/
theorem Client.take_idle (a : Chunk) (idle : c.readingTheLogFile = 0) :
    c.saved crc16 a = none ∧ (c.take crc16 a).receiver = c.receiver := by
  constructor
  · -- Outside of state 2 no packet is looked for.
    unfold Client.saved Client.toSave Client.checked
    simp [idle]
  · exact (process_idle crc16 a.io idle a.chunk a.sock).1

/-- What is saved is the packet that passed the checks, if its number is due. -/
theorem Client.saved_eq (c : Client) (a : Chunk) :
    c.saved crc16 a = (c.accepted crc16 a).filter fun p => decide (c.packetsCounter ≤ p.1) := by
  unfold Client.saved Client.toSave Client.accepted
  -- Without a packet that passes, nothing is saved.
  cases passed : c.checked crc16 a with
  | none => rfl
  | some c' =>
    -- The checks moved the counter up to the number, so it is compared with the higher one.
    have counted := c.filledWith_counted crc16 a.chunk a.sock
    have counter : c'.packetsCounter = max c.packetsCounter c'.incomingPacketsCounter := by
      unfold Client.checked at passed
      dsimp only at passed
      split_ifs at passed with _ _ ok
      cases passed
      exact counted.accepted ok
    have due : (¬ c'.incomingPacketsCounter < c'.packetsCounter) ↔
        c.packetsCounter ≤ (c.arrived crc16 a c').1 := by
      show _ ↔ c.packetsCounter ≤ c'.incomingPacketsCounter
      omega
    by_cases higher : c.packetsCounter ≤ (c.arrived crc16 a c').1
    · -- A higher number stays, and is saved.
      simp [Option.filter_some, due.mpr higher, higher]
    · -- A lower number is skipped.
      have low := not_not.mp (mt due.mp higher)
      simp [Option.filter_some, low, higher]

/-- What is saved by one more call stands behind what was saved before. -/
theorem savedPackets_concat (calls : List Chunk) (a : Chunk) (c : Client) :
    savedPackets crc16 (calls ++ [a]) c =
      savedPackets crc16 calls c ++ ((c.takeAll crc16 calls).saved crc16 a).toList := by
  induction calls generalizing c with
  | nil => simp [savedPackets, Client.takeAll]
  | cons b calls ih =>
    -- The first call comes first in both lists.
    simp only [List.cons_append, savedPackets, ih, List.append_assoc]
    rfl

theorem expectedNumber_concat (saved : List (Int × List UInt8)) (p : Int × List UInt8) :
    expectedNumber (saved ++ [p]) = p.1 + 1 := by
  simp [expectedNumber]

/-- What holds through a transfer: the saved numbers rise to the expected one, and the file has their data. -/
structure Rising (saved : List (Int × List UInt8)) (c : Client) : Prop where
  state : c.readingTheLogFile = 2 ∨ c.readingTheLogFile = 0
  rises : (saved.map Prod.fst).Pairwise (· < ·)
  within : ∀ k ∈ saved.map Prod.fst, 1 ≤ k ∧ k < expectedNumber saved
  first : 1 ≤ expectedNumber saved
  expected : c.readingTheLogFile = 2 → c.packetsCounter = expectedNumber saved
  contents : c.Contains (saved.flatMap Prod.snd)
  opened : c.readingTheLogFile = 2 → c.theFile.isSome = true

/-- A number that is due rises above those before it, and stands below what is expected behind it. -/
theorem Rising.concat {saved : List (Int × List UInt8)} (rising : Rising saved c)
    {p : Int × List UInt8} (due : expectedNumber saved ≤ p.1) :
    ((saved ++ [p]).map Prod.fst).Pairwise (· < ·) ∧
      (∀ k ∈ (saved ++ [p]).map Prod.fst, 1 ≤ k ∧ k < expectedNumber (saved ++ [p])) ∧
      1 ≤ expectedNumber (saved ++ [p]) := by
  have first := rising.first
  rw [expectedNumber_concat, List.map_append]
  refine ⟨?_, ?_, by omega⟩
  · -- Every number before it is below the expected one.
    refine List.pairwise_append.mpr ⟨rising.rises, List.pairwise_singleton _ _, fun k old q new => ?_⟩
    obtain rfl := List.mem_singleton.mp new
    have below := (rising.within k old).2
    omega
  · intro k mem
    rcases List.mem_append.mp mem with old | new
    · have within := rising.within k old
      omega
    · obtain rfl := List.mem_singleton.mp new
      omega

/-- A saved packet has the number that its chunk begins with. -/
theorem Client.saved_number {a : Chunk} (numbered : a.Numbered) {p : Int × List UInt8}
    (saved : c.saved crc16 a = some p) : p.1 < 2 ^ 31 - 1 := by
  obtain ⟨c', due, rfl⟩ := Option.map_eq_some_iff.mp saved
  obtain ⟨passed, -⟩ := Option.filter_eq_some_iff.mp due
  obtain ⟨long, head, number, -⟩ := checked_header passed
  exact number.trans_lt (numbered long head)

/-- A call that saves a packet or none keeps the numbers rising. -/
theorem Rising.take {saved : List (Int × List UInt8)} (rising : Rising saved c) {a : Chunk}
    (inBounds : a.InBounds) (numbered : a.Numbered) :
    Rising (saved ++ (c.saved crc16 a).toList) (c.take crc16 a) := by
  rcases rising.state with receives | idle
  · have expects := c.reply_expects crc16 inBounds receives
    have counter := rising.expected receives
    -- During the transfer the file is open, so the data stands in it.
    have opened : c.theFile = some (saved.flatMap Prod.snd) := by
      have isSome := rising.opened receives
      rcases rising.contents with data | ⟨closed, -⟩
      · exact data
      · simp [closed] at isSome
    obtain ⟨contents, open'⟩ := expects.contents _ opened
    cases what : c.saved crc16 a with
    | none =>
      -- Nothing is saved, and what was expected still is.
      rw [what] at contents
      simp only [Option.toList_none, List.append_nil]
      refine ⟨expects.state, rising.rises, rising.within, rising.first, fun _ => ?_, ?_, open'⟩
      · exact (expects.none what).trans counter
      · simpa [Client.take] using contents
    | some p =>
      -- The saved number is no less than the expected one, and so higher than every one before.
      obtain ⟨due, goesOn⟩ := expects.some p.1 p.2 what
      rw [what] at contents
      simp only [Option.toList_some]
      obtain ⟨rises, within, first⟩ := rising.concat (p := p) (by omega)
      refine ⟨expects.state, rises, within, first, fun on => ?_, ?_, open'⟩
      · -- The number has a successor, so the counter does not overflow.
        have low := rising.first
        have high := Client.saved_number numbered what
        rw [expectedNumber_concat, ← wrap32_of_range (z := p.1 + 1) (by omega) (by omega)]
        exact (goesOn on).1
      · simpa [Client.take] using contents
  · -- Behind the transfer nothing is saved, and the file stays as it is.
    obtain ⟨none_, kept⟩ := c.take_idle crc16 a idle
    rw [none_]
    simp only [Option.toList_none, List.append_nil]
    have state : (c.take crc16 a).readingTheLogFile = 0 :=
      (congrArg Receiver.readingTheLogFile kept).trans idle
    have file := congrArg Receiver.theFile kept
    have closed := congrArg Receiver.closedFiles kept
    have name := congrArg Receiver.currentFileName kept
    refine ⟨.inr state, rising.rises, rising.within, rising.first, fun on => by omega, ?_,
      fun on => by omega⟩
    simp only [Client.receiver] at file closed name
    unfold Client.Contains
    rw [file, closed, name]
    exact rising.contents

/-- The numbers rise through every sequence of calls from the start of a transfer. -/
theorem rising_takeAll (c : Client) {calls : List Chunk} (inBounds : ∀ a ∈ calls, a.InBounds)
    (numbered : ∀ a ∈ calls, a.Numbered) :
    Rising (savedPackets crc16 calls c.transferring) (c.transferring.takeAll crc16 calls) := by
  induction calls using List.reverseRecOn with
  | nil =>
    exact ⟨.inl rfl, List.Pairwise.nil, by simp [savedPackets], le_refl _, fun _ => rfl, .inl rfl,
      fun _ => rfl⟩
  | append_singleton calls a ih =>
    rw [savedPackets_concat]
    have all : c.transferring.takeAll crc16 (calls ++ [a]) =
        (c.transferring.takeAll crc16 calls).take crc16 a := by
      simp [Client.takeAll]
    rw [all]
    -- The calls before this one are in bounds, and so is this one.
    have before := ih (fun b mem => inBounds b (List.mem_append_left _ mem))
      (fun b mem => numbered b (List.mem_append_left _ mem))
    exact before.take (inBounds a (by simp)) (numbered a (by simp))

/--
The packets that are saved from the start of a transfer have rising numbers, and the file has their data.

A packet that passes the checks is saved exactly if its number is not below the expected one,
which stands behind the last number that was saved.
While the transfer goes on it is acknowledged with its own number, whether packets are missing or not.
The payloads are those among the bytes received: a call whose header leads out of these is excluded, and
so is the last number, behind which the counter overflows.
-/
theorem saved_numbers (crc16 : List UInt8 → UInt16) (c : Client) (calls : List Chunk)
    (inBounds : ∀ a ∈ calls, a.InBounds) (numbered : ∀ a ∈ calls, a.Numbered) :
    let saved := savedPackets crc16 calls c.transferring
    let now := c.transferring.takeAll crc16 calls
    (saved.map Prod.fst).Pairwise (· < ·) ∧ (∀ k ∈ saved.map Prod.fst, 1 ≤ k) ∧
      now.Contains (saved.flatMap Prod.snd) ∧
      ∀ next : Chunk, next.InBounds → now.readingTheLogFile = 2 →
        now.saved crc16 next =
            ((now.accepted crc16 next).filter fun p => decide (expectedNumber saved ≤ p.1)) ∧
          ∀ k payload, now.saved crc16 next = some (k, payload) →
            (now.reply crc16 next).client.readingTheLogFile = 2 →
            (now.reply crc16 next).out = control tbwf k := by
  intro saved now
  have rising : Rising saved now := rising_takeAll c inBounds numbered
  refine ⟨rising.rises, fun k mem => (rising.within k mem).1, rising.contents, ?_⟩
  intro next bounded receives
  refine ⟨?_, fun k payload what on => ?_⟩
  · rw [now.saved_eq next, rising.expected receives]
  · exact (((now.reply_expects crc16 bounded receives).some k payload what).2 on).2

/-- The packets with the numbers 1 and 3, of one byte and of two. -/
def skipping : List Chunk :=
  [⟨⟨true, true⟩, packetImage (fun _ => 0) 1 [7], ⟨[], []⟩⟩,
    ⟨⟨true, true⟩, packetImage (fun _ => 0) 3 [8, 9], ⟨[], []⟩⟩]

/-- A client at the start of the transfer of a hundred bytes saves both of them. -/
theorem saved_numbers_skip :
    savedPackets (fun _ => 0) skipping ({ Client.started with fileSize := 100 } : Client).transferring =
        [(1, [7]), (3, [8, 9])] ∧
      (({ Client.started with fileSize := 100 } : Client).transferring.takeAll
        (fun _ => 0) skipping).Contains [7, 8, 9] := by
  have saved : savedPackets (fun _ => 0) skipping
      ({ Client.started with fileSize := 100 } : Client).transferring = [(1, [7]), (3, [8, 9])] := by
    decide +kernel
  have contains := (saved_numbers (fun _ => 0) { Client.started with fileSize := 100 } skipping
    (by
      -- Both chunks have a head, and a size that they contain.
      simp only [skipping, List.forall_mem_cons, List.not_mem_nil, false_implies, implies_true, and_true]
      exact ⟨⟨by decide, fun _ other => absurd rfl other⟩, ⟨by decide, fun _ other => absurd rfl other⟩⟩)
    (by
      simp only [skipping, List.forall_mem_cons, List.not_mem_nil, false_implies, implies_true, and_true]
      unfold Chunk.Numbered
      decide)).2.2.1
  rw [saved] at contains
  exact ⟨saved, contains⟩

/-- The first packet of a transfer carries the number 2, and is saved and acknowledged. -/
theorem saved_numbers_gap :
    ¬ ∀ (crc16 : List UInt8 → UInt16) (c : Client) (calls : List Chunk), ∃ n : Nat,
      (savedPackets crc16 calls c.transferring).map Prod.fst =
        (List.range n).map fun i => (i : Int) + 1 := by
  intro initial
  obtain ⟨n, numbers⟩ := initial (fun _ => 0) { Client.started with fileSize := 100 }
    [⟨⟨true, true⟩, packetImage (fun _ => 0) 2 [7], ⟨[], []⟩⟩]
  have saved : (savedPackets (fun _ => 0) [⟨⟨true, true⟩, packetImage (fun _ => 0) 2 [7], ⟨[], []⟩⟩]
      ({ Client.started with fileSize := 100 } : Client).transferring).map Prod.fst = [2] := by
    decide +kernel
  rw [saved] at numbers
  -- An initial segment of the numbers begins with 1.
  cases n with
  | zero => simp at numbers
  | succ n => simp [List.range_succ_eq_map] at numbers

end

end Teetest
