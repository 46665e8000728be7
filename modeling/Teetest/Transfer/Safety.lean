import Teetest.Transfer.Requests

/-!
Safety of a file transfer: what the console has written is a prefix of the file.

The client takes the first byte of every chunk for the first byte of a packet.
The safety rests on no chunk starting at a valid packet image that the Teensy did not send as one.
A header whose size is out of range counts as one: the checks of the client then read other bytes.
-/

namespace Teetest

open Lib

/-- A transfer right after a successful `lfGetFile`, with the client in state 2. -/
structure Start (data : List UInt8) (s : Sys) : Prop where
  nonempty : data ≠ []
  size : data.length < 2 ^ 31
  infoHandler : s.tee.infoHandler = true
  clientConnected : s.tee.clientConnected = true
  enableEthOutput : s.tee.enableEthOutput = false
  ethFile : ∃ name, s.tee.ethFile = some ⟨name, data, 0⟩
  sendFilePacketsCounter : s.tee.sendFilePacketsCounter = 0
  -- what an earlier transfer left there
  fileReadInfoSize : s.tee.fileReadInfoSize ≤ blockSize
  client : s.cli.receiver = {
    pleaseStop := false
    readingTheLogFile := 2
    fileSize := data.length
    fileBytesCounter := 0
    packetsCounter := 1
    currentFileName := s.cli.currentFileName
    theFile := some []
    closedFiles := [] }
  up : s.up = control tbwf 0
  -- texts and pings may still be unread, but nothing of a file
  quiet : ∀ m ∈ s.down ++ s.tee.rb, m.kind = .text ∨ m.kind = .greeting ∨ m.kind = .ping

/--
The bytes written to `theFile` are a prefix of the file.

They are all of it when the client closed `theFile` with as many bytes as it was promised.
-/
structure Safe (data : List UInt8) (r : Receiver) : Prop where
  writing : ∀ written, r.theFile = some written → written <+: data
  closed : ∀ file ∈ r.closedFiles,
    file.2 <+: data ∧ (r.fileBytesCounter ≥ r.fileSize → file.2 = data)

/-- The unread stream starts at the first byte of a packet the Teensy sent. -/
def PacketHead (s : List WByte) : Prop :=
  ∃ m i, s.head? = some m ∧ m.first = true ∧ m.kind = .packet i

section

variable (crc16 : List UInt8 → UInt16)

/--
The client is not handed foreign bytes as a packet.

A chunk starts at a packet the Teensy sent, or at no valid packet image with a number still due.
-/
def NoForeignPacket (s : Sys) : Act → Prop
  | .cliProcess _ _ => s.cli.readingTheLogFile = 2 → PacketHead s.down ∨
      ∀ number size, PacketAt crc16 (bytes s.down) number size → number < s.cli.packetsCounter
  | _ => True

variable {crc16} {data : List UInt8}

/-- At the head of a packet that was sent, the client finds that packet. -/
theorem MessageOk.found {c i : Nat} {s : List WByte} {number size : Int}
    (ok : MessageOk crc16 data c (.packet i) s) (range : i < 2 ^ 31)
    (found : PacketAt crc16 (bytes s) number size) :
    number = i ∧ ∃ payload, payloadAt (bytes s) size = payload ∧ size = payload.length ∧ Sized size ∧
      mark (.packet i) (packetImage crc16 i payload) <+: s ∧
      (i = 0 ∨ i ≤ c ∧ payload = block data (i - 1)) := by
  obtain ⟨payload, small, begins, named⟩ := ok
  -- What was sent under this number stands at the head of the stream.
  obtain ⟨behind, image⟩ : packetImage crc16 i payload <+: bytes s := by
    obtain ⟨behind, rfl⟩ := begins
    exact ⟨bytes behind, by simp⟩
  generalize bytes s = u at found image
  have : blockSize = 1008 := rfl
  -- The fields of the image are read back as they were written.
  have size_eq : size = payload.length := by
    have field : u.drop 4 = le32 payload.length ++ (le32 i ++ le16 (crc16 payload).toNat ++ [0, 0] ++
        payload ++ behind) := by
      rw [← image]
      simp [packetImage, packetHeader, tbwf]
    rw [found.size_eq, field, i32_le32 (by omega) (by omega)]
  have number_eq : number = i := by
    have field : u.drop 8 = le32 i ++ (le16 (crc16 payload).toNat ++ [0, 0] ++ payload ++ behind) := by
      rw [← image]
      simp [packetImage, packetHeader, tbwf, le32]
    rw [found.number_eq, field, i32_le32 (by omega) (by omega)]
  have sized : Sized size := by
    rw [size_eq]
    exact .of_fits (small.trans (by decide))
  refine ⟨number_eq, payload, ?_, size_eq, sized, begins, named⟩
  -- The payload lies behind the header, and is as long as the header says.
  rw [payloadAt, size_eq, Int.toNat_natCast, ← image, packetImage, List.append_assoc,
    List.drop_left' (packetHeader_length _ _ _ _), List.take_left' rfl]

variable (crc16 data)

/-- A receiver that holds the first `k` blocks of a file. -/
def holding (data name : List UInt8) (k : Nat) : Receiver where
  pleaseStop := false
  readingTheLogFile := 2
  fileSize := data.length
  fileBytesCounter := ((blockSize * k : Nat) : Int)
  packetsCounter := k + 1
  currentFileName := name
  theFile := some (data.take (blockSize * k))
  closedFiles := []

/-- The client receives, and holds the first `k` blocks of the file. -/
structure Receiving (k : Nat) (s : Sys) : Prop where
  size : data.length < 2 ^ 31
  more : blockSize * k < data.length
  client : s.cli.receiver = holding data s.cli.currentFileName k
  sends : Sends crc16 data s.tee
  low : k ≤ s.tee.sendFilePacketsCounter
  high : s.tee.sendFilePacketsCounter ≤ k + 1
  down : Heads (MessageOk crc16 data s.tee.sendFilePacketsCounter) s.down
  up : Requests k s.up

/-- The client is done, and holds what it should. -/
structure Done (s : Sys) : Prop where
  idle : s.cli.readingTheLogFile = 0
  safe : Safe data s.cli.receiver

variable {crc16 data}

/-- A transfer starts with the client receiving and holding nothing. -/
theorem Start.receiving {s : Sys} (start : Start data s) : Receiving crc16 data 0 s := by
  -- Texts and pings are fine wherever they stand.
  have quiet : ∀ m ∈ s.down ++ s.tee.rb, ∀ u,
      MessageOk crc16 data s.tee.sendFilePacketsCounter m.kind u := by
    intro m member u
    rcases start.quiet m member with kind | kind | kind <;> rw [kind] <;> trivial
  have empty : 0 < data.length := List.length_pos_iff.mpr start.nonempty
  constructor
  · exact start.size
  · simpa using empty
  · simpa [holding] using start.client
  · -- Nothing was read, so there is nothing in the buffer to speak of.
    refine ⟨fun _ => ?_, fun _ => start.fileReadInfoSize, fun _ sent => ?_, .of_kinds fun m member =>
      quiet m (List.mem_append_right _ member)⟩
    · obtain ⟨name, file⟩ := start.ethFile
      exact ⟨name, by simp [file, start.sendFilePacketsCounter]⟩
    · rw [start.sendFilePacketsCounter] at sent
      omega
  · omega
  · rw [start.sendFilePacketsCounter]
    omega
  · exact .of_kinds fun m member => quiet m (List.mem_append_left _ member)
  · rw [start.up]
    exact Requests.of_tbwf (by norm_num) (le_refl _)

/-- What the client holds while it receives is safe. -/
theorem Receiving.safe {k : Nat} {s : Sys} (receiving : Receiving crc16 data k s) :
    Safe data s.cli.receiver := by
  rw [receiving.client]
  constructor
  · rintro written ⟨⟩
    exact List.take_prefix _ _
  · simp [holding]

/-- A request reaches the handler only as the head of a whole message. -/
theorem dispatch_handler {infoHandler : Bool} {packet : List UInt8} {r : GFrequest} {pn : Nat}
    (dispatched : dispatch infoHandler packet = .handler r pn) :
    infoHandler = true ∧ (r = .gfPleaseSendNext →
      ethHeaderSize ≤ packet.length ∧ tbwf <+: packet ∧ pn = u32 (packet.drop 8)) := by
  unfold dispatch at dispatched
  split_ifs at dispatched with _ on next <;> simp only [Action.handler.injEq] at dispatched
  · obtain ⟨rfl, rfl⟩ := dispatched
    exact ⟨on, fun _ => ⟨next.1, List.isPrefixOf_iff_prefix.mp next.2, rfl⟩⟩
  · obtain ⟨rfl, -⟩ := dispatched
    exact ⟨on, by simp⟩
  · obtain ⟨rfl, -⟩ := dispatched
    exact ⟨on, by simp⟩

/-- The request a read finds asks for a block up to `k`. -/
theorem Requests.read {k n pn : Nat} {u packet : List UInt8} (requests : Requests k u)
    (read : packet = u.take n) (long : ethHeaderSize ≤ packet.length) (head : tbwf <+: packet)
    (number : pn = u32 (packet.drop 8)) : pn ≤ k := by
  have inRange := (requests.whole u (List.suffix_refl u)
    (head.trans (read ▸ List.take_prefix n u))).2
  -- The whole header is in what was read.
  have same : u32 (packet.drop 8) = u32 (u.drop 8) := by
    unfold ethHeaderSize at long
    rw [read, List.length_take] at long
    rw [read, List.drop_take, ← u32_take, List.take_take, Nat.min_eq_left (by omega), u32_take]
  omega

/-- A read step of the Teensy keeps the invariant. -/
theorem Receiving.teeRead {k n : Nat} {s : Sys} (receiving : Receiving crc16 data k s) (ms : Nat) :
    Receiving crc16 data k (s.next crc16 (.teeRead n ms)) := by
  obtain ⟨size, more, client, sends, low, high, down, up⟩ := receiving
  -- The file is shorter than 2^31 bytes, so the number of its blocks has 24 bits.
  have small : k < 2 ^ 24 := by
    unfold blockSize ethHeaderSize at more
    omega
  simp only [Sys.next]
  cases action : dispatch s.tee.infoHandler (s.up.take n) with
  | greet =>
    have greeting : MessageOk crc16 data s.tee.sendFilePacketsCounter .greeting
        (mark .greeting teeGreeting) := trivial
    exact ⟨size, more, client, sends, low, high, down.append (.mark greeting) (MessageOk.grows _),
      up.drop n⟩
  | command text =>
    simp only [Net.perform, List.append_nil]
    exact ⟨size, more, client, sends, low, high, down, up.drop n⟩
  | report text =>
    simp only [Net.perform, List.append_nil]
    exact ⟨size, more, client, sends, low, high, down, up.drop n⟩
  | handler r pn =>
    obtain ⟨on, next⟩ := dispatch_handler action
    simp only [Net.perform, List.append_nil, transferHooks]
    obtain ⟨kept, moved⟩ := sends.handler on (by omega) ms r pn
    -- The counter moves only on a request for a block that the client still lacks.
    have bound : s.tee.sendFilePacketsCounter ≤
          (s.tee.sendFileViaEthHandler crc16 .full ms r pn).sendFilePacketsCounter ∧
        (s.tee.sendFileViaEthHandler crc16 .full ms r pn).sendFilePacketsCounter ≤ k + 1 := by
      rcases moved with same | ⟨request, due, next'⟩
      · omega
      · obtain ⟨long, head, number⟩ := next request
        have := up.read rfl long head number
        omega
    exact ⟨size, more, client, kept, by simp only; omega, bound.2,
      down.imp fun origin u => MessageOk.later bound.1 origin u, up.drop n⟩

/-- Draining the ring keeps the invariant. -/
theorem Receiving.teeDrain {k : Nat} {s : Sys} (receiving : Receiving crc16 data k s) :
    Receiving crc16 data k (s.next crc16 .teeDrain) := by
  obtain ⟨size, more, client, sends, low, high, down, up⟩ := receiving
  simp only [Sys.next, Net.drain_eq]
  exact ⟨size, more, client, ⟨sends.file, sends.size, sends.held, .nil⟩, low, high,
    down.append sends.ring (MessageOk.grows _), up⟩

/-- A ping keeps the invariant. -/
theorem Receiving.teePing {k : Nat} {s : Sys} (receiving : Receiving crc16 data k s) (ms : Nat) :
    Receiving crc16 data k (s.next crc16 (.teePing ms)) := by
  obtain ⟨size, more, client, sends, low, high, down, up⟩ := receiving
  have ping : MessageOk crc16 data s.tee.sendFilePacketsCounter .ping (mark .ping pingMessage) :=
    trivial
  simp only [Sys.next, Net.ping]
  split
  · -- A ping goes out behind all that is unread.
    refine ⟨size, more, client, ⟨sends.file, sends.size, sends.held, sends.ring⟩, low, high, ?_, up⟩
    simp only
    split
    · exact down.append (.mark ping) (MessageOk.grows _)
    · rwa [List.append_nil]
  · simp only [List.append_nil]
    exact ⟨size, more, client, sends, low, high, down, up⟩

/-- A packet whose number is due is the one behind the blocks received so far. -/
theorem Receiving.due {k : Nat} {s : Sys} (receiving : Receiving crc16 data k s)
    (genuine : PacketHead s.down ∨
      ∀ number size, PacketAt crc16 (bytes s.down) number size → number < s.cli.packetsCounter)
    {number size : Int} (packet : PacketAt crc16 (bytes s.down) number size)
    (fresh : (k : Int) + 1 ≤ number) :
    number = k + 1 ∧ s.tee.sendFilePacketsCounter = k + 1 ∧ Sized size ∧
      payloadAt (bytes s.down) size = block data k ∧ size = (block data k).length := by
  obtain ⟨fileSize, more, client, sends, low, high, down, up⟩ := receiving
  have counter : s.cli.packetsCounter = k + 1 := congrArg Receiver.packetsCounter client
  -- Either the chunk starts at a packet that was sent, or no due packet is seen in it.
  rcases genuine with ⟨m, i, starts, first, kind⟩ | foreign
  · have ok := down.head starts first
    rw [kind] at ok
    have range : i < 2 ^ 31 := by
      obtain ⟨_, _, _, sent⟩ := ok
      unfold blockSize ethHeaderSize at more
      omega
    obtain ⟨number_eq, payload, image, length, sized, -, sent⟩ := ok.found range packet
    rcases sent with none_ | ⟨sent, same⟩
    · omega
    · -- No packet further ahead was sent.
      obtain rfl : i = k + 1 := by omega
      rw [same, Nat.add_sub_cancel] at image length
      exact ⟨by omega, by omega, sized, image, length⟩
  · have := foreign number size packet
    omega

/-- What a client does that receives, as long as it is handed no foreign packet. -/
theorem Receiving.received {k n room j : Nat} {s : Sys} {r : Receiver} {out : List UInt8}
    (receiving : Receiving crc16 data k s)
    (genuine : PacketHead s.down ∨
      ∀ number size, PacketAt crc16 (bytes s.down) number size → number < s.cli.packetsCounter)
    (received : Received crc16 s.down n room s.cli.receiver r j out) :
    (∃ k', k ≤ k' ∧ k' ≤ s.tee.sendFilePacketsCounter ∧ blockSize * k' < data.length ∧
      Requests k' (s.up ++ out) ∧ r = holding data s.cli.currentFileName k') ∨
    r.readingTheLogFile = 0 ∧ Safe data r := by
  have due := fun number size => @Receiving.due crc16 data k s receiving genuine number size
  obtain ⟨fileSize, more, client, sends, low, high, down, up⟩ := receiving
  have small : k + 1 < 2 ^ 24 := by
    unfold blockSize ethHeaderSize at more
    omega
  have ending := block_end data k
  have taken := take_append_block data k
  have later : blockSize * (k + 1) = blockSize * k + blockSize := by ring
  have whole := block_length_le data k
  -- Neither the bytes of the file nor its packets are too many for an `int`.
  have counter : wrap32 ((blockSize * k : Nat) + (block data k).length) =
      (blockSize * k : Nat) + (block data k).length := wrap32_of_range (by omega) (by omega)
  have next : wrap32 ((k : Int) + 1 + 1) = (k : Int) + 1 + 1 := wrap32_of_range (by omega) (by omega)
  cases received with
  | discarded => exact .inl ⟨k, le_refl _, low, more, by rwa [List.append_nil], client⟩
  | duplicate => exact .inl ⟨k, le_refl _, low, more, by rwa [List.append_nil], client⟩
  | saved packet fresh written unfinished =>
    rw [client] at fresh unfinished ⊢
    obtain ⟨number, sent, sized, payload, length⟩ := due _ _ packet fresh
    simp only [holding] at unfinished
    rw [length, counter] at unfinished
    refine .inl ⟨k + 1, by omega, by omega, by omega, ?_, ?_⟩
    · rw [number]
      exact (up.mono (by omega)).append (Requests.of_tbwf (by omega) (le_refl _)) (by simp [control, tbwf])
    · rw [number, written sized, payload, length]
      simp only [holding, Receiver.write, Option.map_some, taken, counter, next, Receiver.mk.injEq,
        true_and, and_true]
      omega
  | completed out packet fresh written finished =>
    rw [client] at fresh finished ⊢
    obtain ⟨number, sent, sized, payload, length⟩ := due _ _ packet fresh
    simp only [holding] at finished
    rw [length, counter] at finished
    refine .inr ⟨rfl, ?_⟩
    -- The blocks up to this one are the whole file.
    have all : data.take (blockSize * (k + 1)) = data := List.take_of_length_le (by omega)
    rw [written sized, payload]
    constructor
    · simp [Receiver.write, Receiver.close]
    · simp [holding, Receiver.write, Receiver.close, taken, all]
  | repeated =>
    have nak : control tbwn s.cli.receiver.packetsCounter = control tbwn ((k + 1 : Nat) : Int) := by
      rw [client]
      rfl
    rw [nak]
    exact .inl ⟨k, le_refl _, low, more,
      up.append (Requests.of_tbwn small) (by simp [control, tbwn]), client⟩
  | ended =>
    rw [client]
    refine .inr ⟨rfl, ?_⟩
    constructor
    · simp [Receiver.close]
    · simp only [holding, Receiver.close, Option.elim_some, List.mem_singleton, forall_eq]
      exact ⟨List.take_prefix _ _, by omega⟩

/-- A call of `process` keeps the invariant, or ends the transfer safely. -/
theorem Receiving.cliProcess {k n : Nat} {polls : List Poll} {s : Sys}
    (receiving : Receiving crc16 data k s) (enabled : s.enabled (.cliProcess n polls))
    (genuine : NoForeignPacket crc16 s (.cliProcess n polls)) :
    (∃ k', Receiving crc16 data k' (s.next crc16 (.cliProcess n polls))) ∨
      Done data (s.next crc16 (.cliProcess n polls)) := by
  obtain ⟨some_, small, bound⟩ := enabled
  have mode : s.cli.readingTheLogFile = 2 := congrArg Receiver.readingTheLogFile receiving.client
  have runs : s.cli.pleaseStop = false := congrArg Receiver.pleaseStop receiving.client
  have short : n < bufSize := by
    unfold readSize at small
    unfold bufSize
    omega
  obtain ⟨j, rest, received⟩ := s.cli.process_received crc16 succeeds_writes mode runs some_ short bound
    polls
  simp only [Sys.next]
  -- It goes on with as many blocks as it then holds, or has ended.
  rcases receiving.received (genuine mode) received with
    ⟨k', more, sent, unfinished, requests, client⟩ | ⟨idle, safe⟩
  · refine .inl ⟨k', receiving.size, unfinished, ?_, receiving.sends, sent,
      receiving.high.trans (by omega), ?_, requests⟩
    · have name := congrArg Receiver.currentFileName client
      simp only [holding] at name
      exact client.trans (by rw [← name]; rfl)
    · simp only [rest]
      exact receiving.down.drop j
  · exact .inr ⟨idle, safe⟩

/-- Once the client is done no step changes what it holds. -/
theorem Done.next {s : Sys} (done : Done data s) (a : Act) : Done data (s.next crc16 a) := by
  cases a with
  | teeRead | teeDrain | teePing => exact ⟨done.idle, done.safe⟩
  | cliProcess n polls =>
    -- A client that reads no file leaves its files alone.
    obtain ⟨same, -, -⟩ := Client.process_idle crc16 succeeds done.idle
      (bytes (s.down.take n)) ⟨s.down.drop n, polls⟩
    have idle : (s.next crc16 (.cliProcess n polls)).cli.readingTheLogFile = 0 :=
      (congrArg Receiver.readingTheLogFile same).trans done.idle
    refine ⟨idle, ?_⟩
    simp only [Sys.next]
    rw [same]
    exact done.safe

variable (crc16 data) in
/-- What every step keeps: the client receives the file, or is done with it. -/
def OnTrack (s : Sys) : Prop := (∃ k, Receiving crc16 data k s) ∨ Done data s

/-- Every run whose chunks hold no foreign packet keeps the transfer on its track. -/
theorem run_onTrack {start s : Sys} {acts : List Act} (started : Start data start)
    (run : Run (Guarded (NoForeignPacket crc16) (Step crc16)) start acts s) :
    OnTrack crc16 data s := by
  refine run.invariant (.inl ⟨0, started.receiving⟩) ?_
  rintro s a t (⟨k, receiving⟩ | done) ⟨genuine, enabled, rfl⟩
  · -- One lemma for each step while the client receives.
    cases a with
    | teeRead n ms => exact .inl ⟨k, receiving.teeRead ms⟩
    | teeDrain => exact .inl ⟨k, receiving.teeDrain⟩
    | teePing ms => exact .inl ⟨k, receiving.teePing ms⟩
    | cliProcess n polls => exact receiving.cliProcess enabled genuine
  · exact .inr (done.next a)

/--
Every schedule of a transfer keeps what the console has written safe.

The runs are those in which no chunk hands the client a foreign packet.
-/
theorem transfer_safe {start s : Sys} {acts : List Act} (started : Start data start)
    (run : Run (Guarded (NoForeignPacket crc16) (Step crc16)) start acts s) :
    Safe data s.cli.receiver := by
  rcases run_onTrack started run with ⟨k, receiving⟩ | done
  · exact receiving.safe
  · exact done.safe

/-- A transfer of a file between parties that did nothing before. -/
def freshTransfer (data : List UInt8) : Sys where
  tee := {
    ethStatus := .sEthGood
    linkStatus := .linkON
    clientConnected := true
    client := true
    infoHandler := true
    rb := []
    aliveTime := 0
    enableEthOutput := false
    ethFile := some ⟨"a", data, 0⟩
    ethFileSize := data.length
    ethFileBytesCounter := 0
    sendFilePacketsCounter := 0
    repeatSendCounter := 0
    fileReadInfoSize := 0
    sfwState := .sfwStart
    ethFileStartTime := 0
    rbBuf := fun _ => 0 }
  cli := {
    connected := true
    pleaseStop := false
    readingTheLogFile := 2
    lastReportedProgress := 0
    fileSize := data.length
    fileBytesCounter := 0
    packetsCounter := 1
    badPacketCounter := 0
    counterErrorCounter := 0
    incomingPacketsCounter := 0
    incomingPacketSize := 0
    currentFileName := ascii "a"
    theFile := some []
    closedFiles := []
    buf := fun _ => 0 }
  down := []
  up := control tbwf 0

theorem freshTransfer_start {data : List UInt8} (nonempty : data ≠ [])
    (size : data.length < 2 ^ 31) : Start data (freshTransfer data) :=
  ⟨nonempty, size, rfl, rfl, rfl, ⟨"a", rfl⟩, rfl, Nat.zero_le _, rfl, rfl, by simp [freshTransfer]⟩

/-- A short file is sent as one packet, which answers the first request. -/
theorem first_packet (crc16 : List UInt8 → UInt16) {data : List UInt8} {s : Sys}
    (start : Start data s) (drained : s.tee.rb = []) (short : data.length ≤ blockSize) (ms : Nat) :
    ∃ tee, [Act.teeRead 16 ms, .teeDrain].foldl (Sys.next crc16) s =
        { s with
          tee := tee
          down := s.down ++ mark (.packet 1) (packetImage crc16 1 data)
          up := [] } ∧
      tee.rb = [] ∧ tee.infoHandler = true := by
  have some_ : 0 < data.length := List.length_pos_iff.mpr start.nonempty
  have sends := (@Start.receiving crc16 _ _ start).sends
  have first : block data s.tee.sendFilePacketsCounter = data := by
    rw [start.sendFilePacketsCounter, block, Nat.mul_zero, List.drop_zero,
      List.take_of_length_le short]
  -- The first request is read whole, and dispatched to the handler.
  have action : dispatch s.tee.infoHandler (s.up.take 16) = .handler .gfPleaseSendNext 0 := by
    rw [start.infoHandler, start.up]
    decide
  have rest : s.up.drop 16 = [] := by rw [start.up]; rfl
  -- A packet of one block is smaller than the ring.
  have fits : (packetImage crc16 1 data).length ≤ ethRbSize := by
    rw [packetImage_length]
    unfold blockSize ethHeaderSize at *
    unfold ethRbSize
    omega
  -- The block that is read is the file, and its packet goes into the empty ring.
  have answer := sends.pleaseSendNext_eq start.infoHandler
    (by rw [start.sendFilePacketsCounter]; decide) (le_of_eq start.sendFilePacketsCounter) ms
  rw [if_pos (by rwa [first]), first, start.sendFilePacketsCounter] at answer
  have body : (s.tee.afterRead data).rbBuf.read ethHeaderSize data.length = data := by
    simp only [Net.afterRead, first]
    exact Mem.read_write_same _ _ _
  have connected : (s.tee.afterRead data).clientConnected = true := start.clientConnected
  have handler : (s.tee.afterRead data).infoHandler = true := start.infoHandler
  have empty : (s.tee.afterRead data).rb = [] := drained
  generalize s.tee.afterRead data = n at answer body connected handler empty
  obtain ⟨rbBuf, -, fed⟩ := n.sendEthPacket_eq crc16 short 1
  have sent : s.tee.pleaseSendNext crc16 .full ms 0 =
      { n with rbBuf := rbBuf, rb := mark (.packet 1) (packetImage crc16 1 data) } := by
    rw [answer, fed, body, Net.ethFeed_fits (by exact connected) _ (by simpa [empty] using fits)]
    simp only [empty, List.nil_append]
  refine ⟨{ n with rbBuf := rbBuf, rb := [] }, ?_, rfl, handler⟩
  simp only [List.foldl, Sys.next, action, Net.perform, transferHooks, Net.sendFileViaEthHandler,
    sent, Net.drain_eq, rest, List.append_nil]

/-- A sum of bytes, in the place of the CRC where one must be computed. -/
def checksum (bs : List UInt8) : UInt16 := bs.foldl (fun sum b => sum + b.toUInt16) 0

/-- A file of three bytes arrives whole. -/
theorem transfer_safe_short :
    ∃ s, Run (Step checksum) (freshTransfer [1, 2, 3])
        [.teeRead 16 0, .teeDrain, .cliProcess 19 []] s ∧
      s.cli.closedFiles = [(ascii "a", [1, 2, 3])] ∧ Safe [1, 2, 3] s.cli.receiver := by
  have run : Run (Guarded (NoForeignPacket checksum) (Step checksum)) (freshTransfer [1, 2, 3])
      [.teeRead 16 0, .teeDrain, .cliProcess 19 []] _ :=
    ((Run.single ⟨trivial, ⟨by decide, by decide, by decide⟩, rfl⟩).tail
      ⟨trivial, trivial, rfl⟩).tail
        ⟨fun _ => .inl ⟨⟨0x54, .packet 1, true⟩, 1, by decide +kernel, rfl, rfl⟩,
          ⟨by decide, by decide, by decide +kernel⟩, rfl⟩
  exact ⟨_, run.of_guarded, by decide +kernel,
    transfer_safe (freshTransfer_start (by decide) (by decide)) run⟩

/-- A file that is itself the image of a packet: number 1, with one byte of payload. -/
def nestedFile (crc16 : List UInt8 → UInt16) : List UInt8 := packetImage crc16 1 [0x55]

/-- The Teensy sends the file, and the network delivers the packet's header before its payload. -/
def splitAtHeader : List Act :=
  [.teeRead 16 0, .teeDrain, .cliProcess 16 [], .cliProcess 17 []]

/--
A packet that arrives in two chunks makes the client write foreign bytes.

The header alone is answered by a NAK, and the payload is then taken for a packet of its own.
-/
theorem nestedFile_unsafe (crc16 : List UInt8 → UInt16) :
    Start (nestedFile crc16) (freshTransfer (nestedFile crc16)) ∧
      ∃ s, Run (Step crc16) (freshTransfer (nestedFile crc16)) splitAtHeader s ∧
        s.cli.theFile = some [0x55] ∧ ¬ Safe (nestedFile crc16) s.cli.receiver := by
  have nonempty : nestedFile crc16 ≠ [] := by simp [nestedFile, packetImage, packetHeader, tbwf]
  have size : (nestedFile crc16).length = 17 := rfl
  obtain ⟨tee, sent, -, -⟩ := first_packet crc16
    (freshTransfer_start nonempty (by rw [size]; decide)) rfl (by rw [size]; decide) 0
  -- The Teensy reads the request and sends its only packet.
  have request : Step crc16 (freshTransfer (nestedFile crc16)) (.teeRead 16 0) _ :=
    ⟨⟨by decide, by decide, (by decide : 16 ≤ (control tbwf 0).length)⟩, rfl⟩
  have drained := Run.tail (Run.single request) (a := Act.teeDrain) ⟨trivial, rfl⟩
  simp only [List.foldl] at sent
  have unread : (freshTransfer (nestedFile crc16)).down = [] := rfl
  rw [sent, unread, List.nil_append] at drained
  -- The header is on its way alone, and the client forgets it.
  have image : bytes (mark (.packet 1 : Origin) (packetImage crc16 1 (nestedFile crc16))) =
      packetHeader crc16 (nestedFile crc16).length 1 (nestedFile crc16) ++ nestedFile crc16 :=
    bytes_mark _ _
  generalize mark (.packet 1 : Origin) (packetImage crc16 1 (nestedFile crc16)) = down
    at drained image
  have front : (packetHeader crc16 (nestedFile crc16).length 1 (nestedFile crc16)).length = 16 := rfl
  have header : bytes (down.take 16) =
      packetHeader crc16 (nestedFile crc16).length 1 (nestedFile crc16) := by
    rw [bytes_take, image, List.take_left' front]
  -- The rest of the stream is the file itself, and so a packet.
  have payload : bytes ((down.drop 16).take 17) = packetImage crc16 1 [0x55] := by
    rw [bytes_take, bytes_drop, image, List.drop_left' front, List.take_of_length_le size.le,
      nestedFile]
  have length : down.length = 33 := by
    rw [← bytes_length, image]
    rfl
  have forgotten := Run.tail drained (a := Act.cliProcess 16 [])
    ⟨⟨by decide, by decide, by simp only [length]; omega⟩, rfl⟩
  obtain ⟨kept, -, left⟩ := Client.process_header crc16 succeeds_writes
    (c := (freshTransfer (nestedFile crc16)).cli) rfl rfl nonempty (by rw [size]; decide) (i := 1)
    (down.drop 16)
  simp only [Sys.next, header] at forgotten
  generalize Client.process crc16 _ _ _ _ = reply at forgotten kept left
  obtain ⟨cli, sock, out⟩ := reply
  simp only at kept left
  subst left
  -- What is left is taken for a packet that is due.
  have taken := Run.tail forgotten (a := Act.cliProcess 17 [])
    ⟨⟨by decide, by decide, by simp [length]⟩, rfl⟩
  have mode : cli.readingTheLogFile = 2 := congrArg Receiver.readingTheLogFile kept
  have runs : cli.pleaseStop = false := congrArg Receiver.pleaseStop kept
  have counter : cli.packetsCounter = 1 := congrArg Receiver.packetsCounter kept
  have received : cli.fileBytesCounter = 0 := congrArg Receiver.fileBytesCounter kept
  have promised : cli.fileSize = 17 := congrArg Receiver.fileSize kept
  have opened : cli.theFile = some [] := congrArg Receiver.theFile kept
  obtain ⟨written, -, -⟩ := cli.process_image crc16 succeeds_writes mode runs (i := 1)
    (by decide) (show [0x55].length ≤ blockSize by decide) (by rw [counter]; rfl)
    (by rw [received, promised]; decide) ⟨(down.drop 16).drop 17, []⟩
  simp only [Sys.next, payload] at taken
  have file := congrArg Receiver.theFile written
  simp only [Client.receiver, Receiver.write, opened, Option.map_some, List.nil_append] at file
  refine ⟨freshTransfer_start nonempty (by rw [size]; decide), _, taken, file, fun safe => ?_⟩
  -- The file begins with a 'T', and what was written with 'U'.
  have begins : [0x55] <+: nestedFile crc16 := safe.writing _ file
  have other : nestedFile crc16 = 0x54 :: (nestedFile crc16).tail := rfl
  rw [other, List.cons_prefix_cons] at begins
  exact absurd begins.1 (by decide)

/-- Whatever the CRC is, some transfer writes foreign bytes. -/
theorem transfer_unsafe : ¬ ∃ crc16 : List UInt8 → UInt16, ∀ data start s acts,
    Start data start → Run (Step crc16) start acts s → Safe data s.cli.receiver := by
  rintro ⟨crc16, safe⟩
  obtain ⟨start, s, run, -, foreign⟩ := nestedFile_unsafe crc16
  exact foreign (safe _ _ _ _ start run)

end

end Teetest
