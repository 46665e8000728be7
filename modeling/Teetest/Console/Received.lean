import Teetest.Console.ReceiveLaws

/-!
What one call of `process` does while a file is received.

The client is seen through the members a transfer depends on.
Every call is one of six events, each told by the bytes at the front of the unread stream.
-/

namespace Teetest

open Lib

/-- The members of `EthClient` that a transfer depends on. -/
structure Receiver where
  pleaseStop : Bool
  readingTheLogFile : Nat
  fileSize : Int
  fileBytesCounter : Int
  packetsCounter : Int
  currentFileName : List UInt8
  theFile : Option (List UInt8)
  closedFiles : List (List UInt8 × List UInt8)
deriving DecidableEq

/-- The receiver that a client is. -/
def Client.receiver (c : Client) : Receiver where
  pleaseStop := c.pleaseStop
  readingTheLogFile := c.readingTheLogFile
  fileSize := c.fileSize
  fileBytesCounter := c.fileBytesCounter
  packetsCounter := c.packetsCounter
  currentFileName := c.currentFileName
  theFile := c.theFile
  closedFiles := c.closedFiles

/-- The receiver after the transfer ended and its file was closed. -/
def Receiver.close (r : Receiver) : Receiver :=
  { r with
    readingTheLogFile := 0
    theFile := none
    closedFiles := r.theFile.elim r.closedFiles fun data => (r.currentFileName, data) :: r.closedFiles }

/-- The receiver after the payload of a packet was written. -/
def Receiver.write (r : Receiver) (payload : List UInt8) (size : Int) : Receiver :=
  { r with
    theFile := r.theFile.map (· ++ payload)
    fileBytesCounter := wrap32 (r.fileBytesCounter + size) }

/-- A control message of the console: a head and a packet number. -/
def control (head : List UInt8) (number : Int) : List UInt8 :=
  head ++ [0, 0, 0, 0] ++ le32 number ++ [0, 0, 0, 0]

/-- What `controlBuf` builds for a request is the control message. -/
theorem controlBuf_tbwf (buf : Mem) (k : Int) :
    (controlBuf buf tbwf (some k)).read 0 ethHeaderSize = control tbwf k := rfl

/-- What `controlBuf` builds for a repetition is the control message. -/
theorem controlBuf_tbwn (buf : Mem) (k : Int) :
    (controlBuf buf tbwn (some k)).read 0 ethHeaderSize = control tbwn k := rfl

section

variable (crc16 : List UInt8 → UInt16)

/--
A packet stands at the head of a byte string and passes the checks of the client.

A size out of range has the CRC computed of other bytes than those behind the header.
-/
structure PacketAt (u : List UInt8) (number size : Int) : Prop where
  head : u.take 4 = tbwf
  number_eq : number = i32 (u.drop 8)
  size_eq : size = i32 (u.drop 4)
  long : ethHeaderSize ≤ u.length
  whole : packetEnd size ≤ u.length
  crc : Sized size → u16 (u.drop 12) = (crc16 ((u.drop ethHeaderSize).take size.toNat)).toNat
  closing : (u.drop 14).take 2 = [0, 0]

/-- The payload of the packet at the head of a byte string. -/
def payloadAt (u : List UInt8) (size : Int) : List UInt8 :=
  (u.drop ethHeaderSize).take size.toNat

/--
What a call does to the receiver, how many bytes of the stream are then read, and what it answers.

The call starts on a chunk of `n` bytes, and `room` more bytes arrive while it runs.
-/
inductive Received (total : List WByte) (n room : Nat) (r : Receiver) :
    Receiver → Nat → List UInt8 → Prop
  | discarded :
      (classify r.readingTheLogFile (bytes (total.take n)) = .greeting ∨
        classify r.readingTheLogFile (bytes (total.take n)) = .ping) →
      Received total n room r r n []
  | duplicate {number size : Int} {j : Nat} :
      PacketAt crc16 (bytes total) number size → number < r.packetsCounter →
      n ≤ j → j ≤ n + room → (n ≤ packetEnd size → j = packetEnd size) →
      Received total n room r r j []
  | saved {number size : Int} {payload : List UInt8} {j : Nat} :
      PacketAt crc16 (bytes total) number size → r.packetsCounter ≤ number →
      (Sized size → payload = payloadAt (bytes total) size) →
      wrap32 (r.fileBytesCounter + size) < r.fileSize → n ≤ j → j ≤ n + room →
      Received total n room r { r.write payload size with packetsCounter := wrap32 (number + 1) } j
        (control tbwf number)
  | completed {number size : Int} {payload : List UInt8} {j : Nat} (out : List UInt8) :
      PacketAt crc16 (bytes total) number size → r.packetsCounter ≤ number →
      (Sized size → payload = payloadAt (bytes total) size) →
      r.fileSize ≤ wrap32 (r.fileBytesCounter + size) → n ≤ j → j ≤ n + room →
      Received total n room r { (r.write payload size).close with packetsCounter := number } j out
  | repeated {j : Nat} :
      n ≤ j → j ≤ n + room → Received total n room r r j (control tbwn r.packetsCounter)
  | ended {j : Nat} :
      n ≤ j → j ≤ n + room → Received total n room r r.close j (control tbwn r.packetsCounter)

variable {total : List WByte}

/-- What the checks read from the buffer is what stands in the stream. -/
theorem packetAt_of_checks {inp : List WByte} {buf : Mem} {len : Nat} {number size : Int}
    (held : Held total inp buf len) (long : ethHeaderSize ≤ len)
    (head : buf.read 0 4 = tbwf) (number_eq : number = i32 (buf.read 8 4))
    (size_eq : size = i32 (buf.read 4 4)) (whole : packetEnd size ≤ len)
    (checks : packetChecks crc16 buf size = true) :
    PacketAt crc16 (bytes total) number size := by
  have bound := held.bound
  simp only [packetChecks, Bool.and_eq_true, decide_eq_true_eq] at checks
  obtain ⟨⟨crc, fourteen⟩, fifteen⟩ := checks
  have header : ethHeaderSize = 16 := rfl
  -- The two closing bytes are the same, and the first one is zero.
  have closing : buf.read 14 2 = [0, 0] := by
    rw [← fourteen]
    nth_rewrite 2 [← fifteen.trans fourteen.symm]
    rfl
  -- Every field lies in the part of the stream that the buffer holds.
  refine ⟨?_, ?_, ?_, by rw [bytes_length]; omega, by rw [bytes_length]; omega, fun sized => ?_, ?_⟩
  · rw [← held.read_take (by omega), head]
  · rw [number_eq, held.read_field (by omega), i32_take]
  · rw [size_eq, held.read_field (by omega), i32_take]
  · -- A payload whose size is in range is inside that part, too.
    have end_ := sized.packetEnd_eq
    obtain ⟨nonneg, -⟩ := sized
    rwa [held.read_field (by omega), held.read_field (by omega), u16_take] at crc
  · rw [← held.read_field (by omega), closing]

/-- What `checkThePacket` did when it started on the first `n` bytes of a stream. -/
structure Checked (total : List WByte) (n room : Nat) (c : Client)
    (r : Bool × Client × Sock × Nat) : Prop where
  consumed : ∃ j, n ≤ j ∧ j + arrivals r.2.2.1.polls ≤ n + room ∧ r.2.2.1.inp = total.drop j ∧
    (r.1 = true → n ≤ packetEnd r.2.1.incomingPacketSize → j = packetEnd r.2.1.incomingPacketSize)
  rejected : r.1 = false → r.2.1.receiver = c.receiver
  packet : r.1 = true →
    PacketAt crc16 (bytes total) r.2.1.incomingPacketsCounter r.2.1.incomingPacketSize
  payload : r.1 = true → Sized r.2.1.incomingPacketSize →
    r.2.1.buf.read ethHeaderSize r.2.1.incomingPacketSize.toNat =
      payloadAt (bytes total) r.2.1.incomingPacketSize
  counter : r.1 = true → r.2.1.receiver =
    { c.receiver with packetsCounter := max c.packetsCounter r.2.1.incomingPacketsCounter }

/-- A packet that is complete in the buffer is accepted as it stands in the stream. -/
theorem acceptPacket_checked {n room len : Nat} {c : Client} {s : Sock} {buf : Mem}
    (held : Held total s.inp buf len) (start : n ≤ len) (long : ethHeaderSize ≤ len)
    (within : len + arrivals s.polls ≤ n + room)
    (stops : n ≤ packetEnd c.incomingPacketSize → len ≤ packetEnd c.incomingPacketSize)
    (head : buf.read 0 4 = tbwf) (number_eq : c.incomingPacketsCounter = i32 (buf.read 8 4))
    (size_eq : c.incomingPacketSize = i32 (buf.read 4 4))
    (whole : packetEnd c.incomingPacketSize ≤ len) :
    Checked crc16 total n room c
      ((acceptPacket crc16 c buf).1, (acceptPacket crc16 c buf).2, s, len) := by
  unfold acceptPacket
  by_cases checks : packetChecks crc16 buf c.incomingPacketSize = true
  · have packet := packetAt_of_checks crc16 held long head number_eq size_eq whole checks
    have consumed := fun fits => Int.le_antisymm (stops fits) whole
    have payload : Sized c.incomingPacketSize → buf.read ethHeaderSize c.incomingPacketSize.toNat =
        payloadAt (bytes total) c.incomingPacketSize := fun sized => held.read_field (by
      have end_ := sized.packetEnd_eq
      have nonneg := sized.1
      omega)
    simp only [checks, if_true]
    -- The counter follows a packet whose number is ahead, and stays otherwise.
    split
    · rename_i ahead
      refine ⟨⟨len, start, within, held.rest, fun _ => consumed⟩, by simp, fun _ => packet,
        fun _ => payload, fun _ => ?_⟩
      simp [Client.receiver, Int.max_eq_right (Int.le_of_lt ahead)]
    · rename_i behind
      refine ⟨⟨len, start, within, held.rest, fun _ => consumed⟩, by simp, fun _ => packet,
        fun _ => payload, fun _ => ?_⟩
      simp [Client.receiver, Int.max_eq_left (Int.not_lt.mp behind)]
  · simp only [checks]
    exact ⟨⟨len, start, within, held.rest, by simp⟩, fun _ => rfl, by simp, by simp, by simp⟩

theorem Client.readHeader_number (c : Client) :
    c.readHeader.incomingPacketsCounter = i32 (c.buf.read 8 4) := by
  simp only [readHeader]

theorem Client.readHeader_size (c : Client) :
    c.readHeader.incomingPacketSize = i32 (c.buf.read 4 4) := by
  simp only [readHeader]

@[simp] theorem Client.readHeader_buf (c : Client) : c.readHeader.buf = c.buf := by
  simp only [readHeader]

/-- Reading a header changes nothing that a transfer depends on. -/
@[simp] theorem Client.readHeader_receiver (c : Client) : c.readHeader.receiver = c.receiver := by
  simp only [readHeader, receiver]

/-- The outcome of the check depends on the client only through its receiver. -/
theorem Checked.of_receiver {n room : Nat} {c c' : Client} {r : Bool × Client × Sock × Nat}
    (checked : Checked crc16 total n room c r) (same : c.receiver = c'.receiver) :
    Checked crc16 total n room c' r := by
  have counter : c.packetsCounter = c'.packetsCounter := congrArg Receiver.packetsCounter same
  refine ⟨checked.consumed, fun no => ?_, checked.packet, checked.payload, fun yes => ?_⟩
  · -- Of the client, the outcome mentions no more than its receiver.
    rw [checked.rejected no, same]
  · rw [checked.counter yes, same, counter]

/-- `checkThePacket` reads on from the chunk and accepts only a packet at the front of the stream. -/
theorem checkThePacket_checked {n : Nat} {c : Client} {s : Sock}
    (held : Held total s.inp c.buf n) :
    Checked crc16 total n (arrivals s.polls) c (checkThePacket crc16 c s n) := by
  have filling := c.filled_filling held
  rw [checkThePacket_eq]
  split_ifs with short head complete
  · -- Too little for a header: nothing is read.
    exact ⟨⟨n, le_refl _, le_refl _, held.rest, by simp⟩, fun _ => rfl, by simp, by simp, by simp⟩
  · -- No packet head: the socket is drained.
    obtain ⟨k, bound, rest⟩ := drainLoop_drop none (by simp) s.polls s.inp c.buf
    refine ⟨⟨n + k, by omega, by simp only; omega, ?_, by simp⟩, fun _ => rfl, by simp, by simp,
      by simp⟩
    rw [← List.drop_drop, ← held.rest]
    exact rest
  · -- The header stays in its place while the packet is completed.
    have kept : ∀ off, off + 4 ≤ n → (c.filled s n).buf.read off 4 = c.buf.read off 4 := by
      intro off inside
      have grown := filling.grown
      rw [filling.held.read_field (by omega), held.read_field inside]
    unfold ethHeaderSize at short
    refine Checked.of_receiver crc16 ?_ c.readHeader_receiver
    refine acceptPacket_checked crc16 filling.held filling.grown ?_ filling.within filling.stops ?_ ?_ ?_
      complete
    · have grown := filling.grown
      unfold ethHeaderSize
      omega
    · exact (kept 0 (by omega)).trans (not_not.mp head)
    · rw [kept 8 (by omega), c.readHeader_number]
    · rw [kept 4 (by omega), c.readHeader_size]
  · -- The packet is not complete: what was read of it is lost.
    exact ⟨⟨_, filling.grown, filling.within, filling.held.rest, by simp⟩,
      fun _ => c.readHeader_receiver, by simp, by simp, by simp⟩

/-- A control message that is written leaves the receiver as it is. -/
theorem Client.sendControl_writes {io : CallIo} (writes : io.writes = true) (c : Client) (s : Sock) :
    c.sendControl io s = ⟨c, s, c.buf.read 0 ethHeaderSize⟩ := by
  simp [sendControl, writes]

/-- A rejected chunk is answered by a NAK, and ends the transfer if the buffer starts with TEEE. -/
theorem Client.badPacket_received {io : CallIo} (writes : io.writes = true) (c : Client)
    {s : Sock} {n room j : Nat} (start : n ≤ j) (within : j + arrivals s.polls ≤ n + room)
    (rest : s.inp = total.drop j) :
    ∃ j, (c.badPacket io s).sock.inp = total.drop j ∧
      Received crc16 total n room c.receiver (c.badPacket io s).client.receiver j
        (c.badPacket io s).out := by
  have drained := drainLoop_drop (some bufSize) (by simp [bufSize]) s.polls s.inp
  by_cases ends : c.buf.read 0 4 = teee
  · -- The transfer is over, and the socket is drained.
    obtain ⟨k, bound, left⟩ := drained ({ c.closeFile with readingTheLogFile := 0 }).buf
    refine ⟨j + k, ?_, ?_⟩
    · simp only [badPacket, if_pos ends, sendControl_writes writes]
      rw [left, rest, List.drop_drop]
    · simp only [badPacket, if_pos ends, sendControl_writes writes]
      exact .ended (by omega) (by omega)
  · -- Otherwise the Teensy is asked to repeat.
    obtain ⟨k, bound, left⟩ := drained c.buf
    refine ⟨j + k, ?_, ?_⟩
    · simp only [badPacket, if_neg ends, sendControl_writes writes]
      rw [left, rest, List.drop_drop]
    · simp only [badPacket, if_neg ends, sendControl_writes writes]
      exact .repeated (by omega) (by omega)

/-- Reporting the progress changes nothing that a transfer depends on. -/
theorem Client.reportProgress_receiver (c : Client) : c.reportProgress.receiver = c.receiver := by
  simp only [reportProgress]
  split <;> rfl

/-- An accepted packet is written, and completes the file or is acknowledged. -/
theorem Client.savePacket_receiver {io : CallIo} (writes : io.writes = true) (c : Client) (s : Sock)
    {r : Receiver} (written : r = c.receiver.write
      (c.buf.read ethHeaderSize c.incomingPacketSize.toNat) c.incomingPacketSize) :
    (c.savePacket io s).sock = s ∧
      (r.fileBytesCounter < r.fileSize →
        (c.savePacket io s).client.receiver = { r with packetsCounter := wrap32 (c.packetsCounter + 1) } ∧
          (c.savePacket io s).out = control tbwf c.packetsCounter) ∧
      (r.fileSize ≤ r.fileBytesCounter → (c.savePacket io s).client.receiver = r.close) := by
  -- The report on the progress touches nothing of the receiver.
  have reported := Client.reportProgress_receiver { c with
    theFile := c.theFile.map (· ++ c.buf.read ethHeaderSize c.incomingPacketSize.toNat)
    fileBytesCounter := wrap32 (c.fileBytesCounter + c.incomingPacketSize) }
  simp only [savePacket]
  generalize Client.reportProgress _ = c' at reported ⊢
  have state : c'.receiver = r := reported.trans written.symm
  have bytesCounter : c'.fileBytesCounter = r.fileBytesCounter :=
    congrArg Receiver.fileBytesCounter state
  have size : c'.fileSize = r.fileSize := congrArg Receiver.fileSize state
  have number : c'.packetsCounter = c.packetsCounter :=
    (congrArg Receiver.packetsCounter state).trans (by rw [written]; rfl)
  by_cases complete : c'.fileBytesCounter ≥ c'.fileSize
  · simp only [if_pos complete]
    refine ⟨trivial, fun unfinished => by omega, fun _ => ?_⟩
    rw [← state]
    rfl
  · simp only [if_neg complete, sendControl_writes writes, controlBuf_tbwf, number]
    refine ⟨trivial, fun _ => ⟨?_, trivial⟩, fun finished => by omega⟩
    rw [← state]
    rfl

/-- In state 2 a call does one of the six things a receiver can do. -/
theorem Client.receiving_received {io : CallIo} (writes : io.writes = true) {c : Client}
    {s : Sock} {n : Nat} (held : Held total s.inp c.buf n) :
    ∃ j, (c.receiving crc16 io s n).sock.inp = total.drop j ∧
      Received crc16 total n (arrivals s.polls) c.receiver (c.receiving crc16 io s n).client.receiver j
        (c.receiving crc16 io s n).out := by
  have checked := checkThePacket_checked crc16 held
  unfold receiving
  generalize checkThePacket crc16 c s n = r at checked ⊢
  obtain ⟨ok, c', s', len⟩ := r
  obtain ⟨⟨j, start, within, rest, exactly⟩, rejected, packet, payload, counter⟩ := checked
  simp only at start within rest exactly rejected packet payload counter
  cases ok with
  | false =>
    obtain ⟨k, left, received⟩ := c'.badPacket_received crc16 writes start within rest
    exact ⟨k, left, by rwa [rejected rfl] at received⟩
  | true =>
    simp only
    have counter := counter rfl
    have number : c'.packetsCounter = max c.packetsCounter c'.incomingPacketsCounter :=
      congrArg Receiver.packetsCounter counter
    split
    · -- The number is behind the counter, which therefore did not move.
      rename_i behind
      have kept : max c.packetsCounter c'.incomingPacketsCounter = c.packetsCounter := by omega
      refine ⟨j, rest, ?_⟩
      have same : c'.receiver = c.receiver := by rw [counter, kept]; rfl
      simp only [Client.receiver] at same ⊢
      rw [same]
      exact .duplicate (packet rfl) (by simp only; omega) start (by omega) (exactly rfl)
    · rename_i ahead
      have moved : max c.packetsCounter c'.incomingPacketsCounter = c'.incomingPacketsCounter := by
        omega
      rw [moved] at counter
      have fresh : c.receiver.packetsCounter ≤ c'.incomingPacketsCounter := by
        show c.packetsCounter ≤ _
        omega
      obtain ⟨sock, unfinished, finished⟩ := c'.savePacket_receiver writes s' rfl
      rw [number, moved, counter] at unfinished
      rw [counter] at finished
      refine ⟨j, by rw [sock]; exact rest, ?_⟩
      by_cases complete : c.fileSize ≤ wrap32 (c.fileBytesCounter + c'.incomingPacketSize)
      · rw [finished complete]
        exact .completed _ (packet rfl) fresh (payload rfl) complete start (by omega)
      · obtain ⟨same, out⟩ := unfinished (Int.not_le.mp complete)
        rw [same, out]
        exact .saved (packet rfl) fresh (payload rfl) (Int.not_le.mp complete) start (by omega)

/-- State 2 of `readingTheFile` is `receiving`. -/
theorem Client.readingTheFile_receives {io : CallIo} {c : Client} (receives : c.readingTheLogFile = 2)
    (s : Sock) (len : Nat) : c.readingTheFile crc16 io s len = c.receiving crc16 io s len := by
  simp only [readingTheFile, receives]

/-- The buffer as `readingTheFile` finds it. -/
def Client.filledWith (c : Client) (chunk : List UInt8) : Client :=
  { c with buf := (c.buf.write 0 chunk).write (bufSize - 1) [0] }

/-- A chunk stands at the start of the buffer, before the zero at the end of it. -/
theorem Client.filledWith_read (c : Client) (chunk : List UInt8) (small : chunk.length < bufSize) :
    (c.filledWith chunk).buf.read 0 chunk.length = chunk := by
  show ((c.buf.write 0 chunk).write (bufSize - 1) [0]).read 0 chunk.length = chunk
  rw [Mem.read_write_disjoint _ (.inl (by omega)), Mem.read_write_same]

/-- A chunk at the front of a stream is held by the buffer once it was read. -/
theorem Client.filledWith_held (c : Client) {n : Nat} (bound : n ≤ total.length) (small : n < bufSize) :
    Held total (total.drop n) (c.filledWith (bytes (total.take n))).buf n := by
  have size : (bytes (total.take n)).length = n := by simp [bound]
  have chunk := c.filledWith_read (bytes (total.take n)) (by omega)
  rw [size] at chunk
  exact ⟨rfl, bound, chunk.trans (bytes_take total n)⟩

/-- A call of `process` hands its chunk on to `readingTheFile`. -/
def Client.HandsOn (c : Client) (chunk : List UInt8) : Prop :=
  ¬ (c.pleaseStop = true ∨ chunk.length < 1) ∧ classify c.readingTheLogFile chunk = .readingTheFile

/-- A chunk that is handed on stands in the buffer, with a zero at the end of it. -/
theorem Client.process_handsOn (io : CallIo) {c : Client} {chunk : List UInt8} (hands : c.HandsOn chunk)
    (s : Sock) :
    c.process crc16 io chunk s = (c.filledWith chunk).readingTheFile crc16 io s chunk.length := by
  obtain ⟨runs, handed⟩ := hands
  unfold process
  dsimp only
  rw [if_neg runs, handed]
  rfl

/-- Every other chunk leaves the receiver and the socket alone, and is not answered. -/
theorem Client.process_kept (io : CallIo) {c : Client} {chunk : List UInt8} (kept : ¬ c.HandsOn chunk)
    (s : Sock) :
    (c.process crc16 io chunk s).client.receiver = c.receiver ∧
      (c.process crc16 io chunk s).out = [] ∧ (c.process crc16 io chunk s).sock = s := by
  unfold process
  dsimp only
  by_cases stopped : c.pleaseStop = true ∨ chunk.length < 1
  · rw [if_pos stopped]
    exact ⟨rfl, rfl, rfl⟩
  rw [if_neg stopped]
  cases handed : classify c.readingTheLogFile chunk with
  | greeting => exact ⟨rfl, rfl, rfl⟩
  | ping => exact ⟨rfl, rfl, rfl⟩
  | cb1 => exact ⟨rfl, rfl, rfl⟩
  | readingTheFile => exact absurd ⟨stopped, handed⟩ kept

/-- In state 2 a chunk that is handed on goes through the checks. -/
theorem Client.process_receives (io : CallIo) {c : Client} (receives : c.readingTheLogFile = 2)
    {chunk : List UInt8} (hands : c.HandsOn chunk) (s : Sock) :
    c.process crc16 io chunk s = (c.filledWith chunk).receiving crc16 io s chunk.length := by
  rw [process_handsOn crc16 io hands]
  exact readingTheFile_receives crc16 (c := c.filledWith chunk) receives s chunk.length

/-- While a file is received, every call does one of the six things a receiver can do. -/
theorem Client.process_received {io : CallIo} (writes : io.writes = true) {c : Client}
    (receives : c.readingTheLogFile = 2) (runs : c.pleaseStop = false) {n : Nat} (some_ : 1 ≤ n)
    (small : n < bufSize) (bound : n ≤ total.length) (polls : List Poll) :
    ∃ j, (c.process crc16 io (bytes (total.take n)) ⟨total.drop n, polls⟩).sock.inp = total.drop j ∧
      Received crc16 total n (arrivals polls) c.receiver
        (c.process crc16 io (bytes (total.take n)) ⟨total.drop n, polls⟩).client.receiver j
        (c.process crc16 io (bytes (total.take n)) ⟨total.drop n, polls⟩).out := by
  have size : (bytes (total.take n)).length = n := by simp [bound]
  have called : ¬ (c.pleaseStop = true ∨ (bytes (total.take n)).length < 1) := by
    rw [runs, size]
    simp only [Bool.false_eq_true, false_or]
    omega
  by_cases hands : c.HandsOn (bytes (total.take n))
  · -- The chunk is handed on, and the checks decide.
    rw [process_receives crc16 io receives hands, size]
    exact receiving_received crc16 writes (s := ⟨total.drop n, polls⟩) (c.filledWith_held bound small)
  · -- The chunk is dropped, and nothing else is read.
    obtain ⟨receiver, out, sock⟩ := process_kept crc16 io hands ⟨total.drop n, polls⟩
    rw [receiver, out, sock]
    refine ⟨n, rfl, .discarded ?_⟩
    cases handed : classify c.readingTheLogFile (bytes (total.take n)) with
    | greeting => exact .inl handed
    | ping => exact .inr handed
    | readingTheFile => exact absurd ⟨called, handed⟩ hands
    | cb1 =>
      -- In state 2 no text goes to the callback.
      simp only [classify, receives] at handed
      split_ifs at handed with _ _ waiting
      exact absurd (by decide) waiting

/-- A client that reads no file neither changes as a receiver nor answers. -/
theorem Client.process_idle (io : CallIo) {c : Client} (idle : c.readingTheLogFile = 0)
    (chunk : List UInt8) (s : Sock) :
    (c.process crc16 io chunk s).client.receiver = c.receiver ∧
      (c.process crc16 io chunk s).out = [] ∧ (c.process crc16 io chunk s).sock = s := by
  refine process_kept crc16 io (fun hands => ?_) s
  -- The chunk is a greeting, a ping or text for the callback.
  have handed := hands.2
  simp only [idle, classify] at handed
  split_ifs at handed with _ _ reads
  exact reads rfl

/-- A chunk that is taken for a greeting or a ping neither changes a receiver nor is answered. -/
theorem Client.process_discarded (io : CallIo) {c : Client} {chunk : List UInt8}
    (handed : classify c.readingTheLogFile chunk = .greeting ∨
      classify c.readingTheLogFile chunk = .ping) (s : Sock) :
    (c.process crc16 io chunk s).client.receiver = c.receiver ∧
      (c.process crc16 io chunk s).out = [] ∧ (c.process crc16 io chunk s).sock = s := by
  refine process_kept crc16 io (fun hands => ?_) s
  rcases handed with greeting | ping
  · cases greeting.symm.trans hands.2
  · cases ping.symm.trans hands.2

/-- What the client reads from a buffer that begins with the image of a packet. -/
structure ImageIn (buf : Mem) (number : Nat) (payload : List UInt8) : Prop where
  head : buf.read 0 4 = tbwf
  size : i32 (buf.read 4 4) = wrap32 payload.length
  number : i32 (buf.read 8 4) = wrap32 number
  body : buf.read ethHeaderSize payload.length = payload
  checks : packetChecks crc16 buf payload.length = true

variable {crc16} in
/-- The image of a packet in the buffer is read as that packet, and passes the checks. -/
theorem imageIn_of_read {buf : Mem} {number : Nat} {payload : List UInt8}
    (image : buf.read 0 (ethHeaderSize + payload.length) = packetImage crc16 number payload) :
    ImageIn crc16 buf number payload := by
  have field : ∀ off k, off + k ≤ ethHeaderSize + payload.length →
      buf.read off k = ((packetImage crc16 number payload).drop off).take k := fun off k inside => by
    rw [buf.read_field inside, image]
  unfold ethHeaderSize at field
  -- Behind the header there is the payload.
  have body : buf.read ethHeaderSize payload.length = payload := by
    rw [show ethHeaderSize = 16 from rfl, field 16 payload.length (le_refl _)]
    exact List.take_of_length_le (le_refl _)
  refine ⟨field 0 4 (by omega), ?_, ?_, body, ?_⟩
  · rw [field 4 4 (by omega), i32_take]
    exact i32_le32_wrap _ _
  · rw [field 8 4 (by omega), i32_take]
    exact i32_le32_wrap _ _
  · -- The checksum is that of the payload, and the two bytes behind it are zero.
    have crc : buf.read 12 2 = le16 (crc16 payload).toNat := field 12 2 (by omega)
    have closing : [buf 14, buf 15] = [0, 0] := field 14 2 (by omega)
    have sum := u16_le16 (crc16 payload).toNat []
    rw [List.append_nil, Nat.mod_eq_of_lt (crc16 payload).toNat_lt] at sum
    simp only [List.cons.injEq, and_true] at closing
    simp [packetChecks, crc, sum, closing, body]

/-- A chunk that is the image of a packet passes the checks without a further read. -/
theorem checkThePacket_image {c : Client} {s : Sock} {n i : Nat} {payload : List UInt8}
    (image : c.buf.read 0 n = packetImage crc16 i payload) (range : i < 2 ^ 31)
    (small : payload.length ≤ blockSize) :
    ∃ c', checkThePacket crc16 c s n = (true, c', s, n) ∧
      c'.receiver = { c.receiver with packetsCounter := max c.packetsCounter i } ∧
      c'.incomingPacketsCounter = i ∧ c'.incomingPacketSize = payload.length ∧
      c'.buf.read ethHeaderSize payload.length = payload := by
  have : blockSize = 1008 := rfl
  have length : n = ethHeaderSize + payload.length := by
    have lengths := congrArg List.length image
    rwa [Mem.read_length, packetImage_length] at lengths
  subst length
  obtain ⟨head, size, number, body, checks⟩ := imageIn_of_read image
  rw [wrap32_of_range (by omega) (by omega)] at size number
  have size' := c.readHeader_size.trans size
  have number' := c.readHeader_number.trans number
  -- Reading the header has changed nothing that matters here.
  have receiver := c.readHeader_receiver
  have counter : c.readHeader.packetsCounter = c.packetsCounter :=
    congrArg Receiver.packetsCounter receiver
  -- The size in the header is that of the chunk, so nothing is read on.
  have filled : c.filled s (ethHeaderSize + payload.length) =
      ⟨0, s, c.buf, ethHeaderSize + payload.length⟩ := by
    refine if_neg (not_not.mpr (size.trans ?_))
    push_cast
    omega
  have complete : ((ethHeaderSize + payload.length : Nat) : Int) ≥ packetEnd c.sizeField := by
    rw [show c.sizeField = payload.length from size,
      (Sized.of_fits (small.trans (by decide))).packetEnd_eq]
    push_cast
    omega
  rw [checkThePacket_eq, if_neg (by omega), if_neg (not_not.mpr head), filled, if_pos complete]
  -- The header passes, and so do the checks behind it.
  simp only [acceptPacket, size', checks, if_true, number', counter]
  split
  · rename_i ahead
    refine ⟨_, rfl, ?_, rfl, rfl, body⟩
    rw [Int.max_eq_right (Int.le_of_lt ahead), ← receiver]
    rfl
  · rename_i behind
    refine ⟨_, rfl, ?_, rfl, rfl, body⟩
    rw [Int.max_eq_left (Int.not_lt.mp behind), ← counter, ← receiver]
    rfl

/-- The image of a packet that is due comes to the checks of a receiving client, and passes them. -/
theorem Client.image_checked {c : Client} (receives : c.readingTheLogFile = 2)
    (runs : c.pleaseStop = false) {i : Nat} {payload : List UInt8} (range : i < 2 ^ 31)
    (small : payload.length ≤ blockSize) (due : c.packetsCounter ≤ i) (s : Sock) :
    c.HandsOn (packetImage crc16 i payload) ∧
      ∃ c', checkThePacket crc16 (c.filledWith (packetImage crc16 i payload)) s
            (packetImage crc16 i payload).length =
          (true, c', s, (packetImage crc16 i payload).length) ∧
        c'.receiver = { c.receiver with packetsCounter := i } ∧
        c'.incomingPacketsCounter = i ∧ c'.incomingPacketSize = payload.length ∧
        c'.buf.read ethHeaderSize payload.length = payload := by
  have length : (packetImage crc16 i payload).length = 16 + payload.length :=
    packetImage_length crc16 i payload
  have short : blockSize + 16 < bufSize := by decide
  refine ⟨⟨by rw [runs, length]; simp, ?_⟩, ?_⟩
  · -- A packet begins neither like a greeting nor like a ping.
    rw [receives]
    rfl
  · -- The buffer holds the whole image.
    have held := c.filledWith_read (packetImage crc16 i payload) (by omega)
    obtain ⟨c', checked, receiver, fields⟩ := checkThePacket_image crc16
      (c := c.filledWith (packetImage crc16 i payload)) (s := s) held range small
    refine ⟨c', checked, receiver.trans ?_, fields⟩
    rw [show (c.filledWith (packetImage crc16 i payload)).packetsCounter = c.packetsCounter from rfl,
      Int.max_eq_right due]
    rfl

/-- A chunk that is the image of a packet that is due, and not the last one, is written. -/
theorem Client.process_image {io : CallIo} (writes : io.writes = true) {c : Client}
    (receives : c.readingTheLogFile = 2) (runs : c.pleaseStop = false) {i : Nat}
    {payload : List UInt8} (range : i < 2 ^ 31) (small : payload.length ≤ blockSize)
    (due : c.packetsCounter ≤ i)
    (unfinished : wrap32 (c.fileBytesCounter + payload.length) < c.fileSize) (s : Sock) :
    (c.process crc16 io (packetImage crc16 i payload) s).client.receiver =
        { c.receiver.write payload payload.length with packetsCounter := wrap32 (i + 1) } ∧
      (c.process crc16 io (packetImage crc16 i payload) s).out = control tbwf i ∧
      (c.process crc16 io (packetImage crc16 i payload) s).sock = s := by
  obtain ⟨hands, c', checked, receiver, number, size, body⟩ :=
    Client.image_checked crc16 receives runs range small due s
  have counter : c'.packetsCounter = i := congrArg Receiver.packetsCounter receiver
  rw [process_receives crc16 io receives hands]
  simp only [receiving, checked]
  rw [if_neg (by omega)]
  -- The packet is due, so it is written.
  obtain ⟨sock, saved, -⟩ := c'.savePacket_receiver writes s rfl
  rw [receiver, size, Int.toNat_natCast, body, counter] at saved
  obtain ⟨same, out⟩ := saved unfinished
  refine ⟨same.trans ?_, out, sock⟩
  rfl

/-- A header whose payload has not arrived is answered by a NAK, and forgotten. -/
theorem Client.process_header {io : CallIo} (writes : io.writes = true) {c : Client}
    (receives : c.readingTheLogFile = 2) (runs : c.pleaseStop = false) {i : Nat}
    {payload : List UInt8} (nonempty : payload ≠ []) (small : payload.length ≤ blockSize)
    (inp : List WByte) :
    (c.process crc16 io (packetHeader crc16 payload.length i payload) ⟨inp, []⟩).client.receiver =
        c.receiver ∧
      (c.process crc16 io (packetHeader crc16 payload.length i payload) ⟨inp, []⟩).out =
        control tbwn c.packetsCounter ∧
      (c.process crc16 io (packetHeader crc16 payload.length i payload) ⟨inp, []⟩).sock =
        ⟨inp, []⟩ := by
  have : blockSize = 1008 := rfl
  have some_ : 0 < payload.length := List.length_pos_iff.mpr nonempty
  have length : (packetHeader crc16 payload.length i payload).length = 16 := rfl
  have hands : c.HandsOn (packetHeader crc16 payload.length i payload) := by
    refine ⟨by rw [runs, length]; simp, ?_⟩
    rw [receives]
    rfl
  have held := c.filledWith_read (packetHeader crc16 payload.length i payload)
    (by rw [length]; decide)
  rw [length] at held
  rw [process_receives crc16 io receives hands, length]
  have head : (c.filledWith (packetHeader crc16 payload.length i payload)).buf.read 0 4 = tbwf := by
    rw [Mem.read_field _ (show 0 + 4 ≤ 16 by omega), held]
    rfl
  -- The header is read back, and promises a payload.
  have size : (c.filledWith (packetHeader crc16 payload.length i payload)).sizeField =
      payload.length := by
    rw [sizeField, Mem.read_field _ (show 4 + 4 ≤ 16 by omega), held, i32_take]
    exact i32_le32 (by omega) (by omega) _
  have kept : (c.filledWith (packetHeader crc16 payload.length i payload)).receiver = c.receiver := rfl
  generalize c.filledWith (packetHeader crc16 payload.length i payload) = c' at head size kept ⊢
  -- The loops find nothing to complete the packet with.
  have checked : checkThePacket crc16 c' ⟨inp, []⟩ 16 = (false, c'.readHeader, ⟨inp, []⟩, 16) := by
    have few : ¬ ((16 : Nat) : Int) ≥ packetEnd c'.sizeField := by
      rw [size, (Sized.of_fits (small.trans (by decide))).packetEnd_eq]
      unfold ethHeaderSize
      omega
    rw [checkThePacket_eq, if_neg (by simp [ethHeaderSize]), if_neg (not_not.mpr head), filled_nil,
      if_neg few]
    rfl
  have other : ¬ c'.readHeader.buf.read 0 4 = teee := by
    rw [readHeader_buf]
    simp [head, tbwf, teee]
  have counter : c'.readHeader.packetsCounter = c.packetsCounter :=
    congrArg Receiver.packetsCounter (c'.readHeader_receiver.trans kept)
  -- What is read is answered by a NAK.
  simp only [receiving, checked, badPacket, if_neg other, drainLoop, sendControl_writes writes,
    controlBuf_tbwn]
  refine ⟨c'.readHeader_receiver.trans kept, ?_, trivial⟩
  rw [counter]

/-- A TEEE at the head of a chunk ends the transfer, unless more bytes overwrite it at once. -/
theorem Client.process_teee {io : CallIo} (writes : io.writes = true) {c : Client}
    (receives : c.readingTheLogFile = 2) (runs : c.pleaseStop = false) (head : teee <+: bytes total)
    {n : Nat} (whole : 4 ≤ n) (small : n < bufSize) (bound : n ≤ total.length) {polls : List Poll}
    (idle : n < ethHeaderSize ∨ ∀ p, polls.head? = some p → p.arrived = 0) :
    (c.process crc16 io (bytes (total.take n))
      ⟨total.drop n, polls⟩).client.readingTheLogFile = 0 := by
  have size : (bytes (total.take n)).length = n := by simp [bound]
  have begins : teee <+: bytes (total.take n) := by
    rw [bytes_take]
    exact List.prefix_take_iff.mpr ⟨head, by simpa [teee] using whole⟩
  -- A chunk that starts with a TEEE is neither a greeting nor a ping.
  have hands : c.HandsOn (bytes (total.take n)) := by
    refine ⟨by rw [runs, size]; simp; omega, ?_⟩
    obtain ⟨rest, chunk⟩ := begins
    rw [← chunk, receives]
    rfl
  have held := c.filledWith_held bound small
  rw [process_receives crc16 io receives hands, size]
  generalize c.filledWith (bytes (total.take n)) = c' at held ⊢
  have word : c'.buf.read 0 4 = teee := by
    rw [held.read_take whole]
    exact (List.prefix_iff_eq_take.mp head).symm
  -- Nothing is read over the TEEE before it is looked at.
  have checked : ∃ s, checkThePacket crc16 c' ⟨total.drop n, polls⟩ n = (false, c', s, n) := by
    rw [checkThePacket_eq]
    by_cases short : n < ethHeaderSize
    · exact ⟨_, if_pos short⟩
    · have other : c'.buf.read 0 4 ≠ tbwf := by simp [word, teee, tbwf]
      have kept := (drainLoop_idle none (total.drop n) c'.buf (idle.resolve_left short)).2
      rw [if_neg short, if_pos other, kept]
      exact ⟨_, rfl⟩
  obtain ⟨s, checked⟩ := checked
  simp only [receiving, checked, badPacket, word, if_true, sendControl_writes writes]

end

end Teetest
