import Teetest.Transfer.Safety

/-!
Progress of a file transfer: as long as the client receives, something is under way that moves a party.

No party has a timer, so a message that is swallowed is never made up for.
The runs considered swallow none: every read of the Teensy is one whole request whose answer fits the
ring, and no chunk of the client hides a packet or a TEEE behind something else.
-/

namespace Teetest

open Lib

/-- The messages a receiving client sends. -/
inductive Req
  | next (number : Nat)
  | again (number : Nat)
deriving DecidableEq

/-- The number in a message. -/
def Req.number : Req → Nat
  | .next k | .again k => k

/-- A message as it is written to the socket. -/
def Req.bytes : Req → List UInt8
  | .next k => control tbwf k
  | .again k => control tbwn k

/-- Whether a message asks for the next block. -/
def Req.asksNext : Req → Bool
  | .next _ => true
  | .again _ => false

/-- The bytes of messages on their way. -/
def flight (reqs : List Req) : List UInt8 := reqs.flatMap Req.bytes

theorem Req.bytes_length (r : Req) : r.bytes.length = ethHeaderSize := by
  cases r <;> simp [bytes, control, tbwf, tbwn, ethHeaderSize]

/-- Whether bytes of this origin move a receiving client. -/
def Origin.moves : Origin → Bool
  | .packet _ | .teee => true
  | _ => false

/-- The payload of the answer that a request gets: the block that is due, or the one in the buffer. -/
def Net.answerSize (n : Net) (request : List UInt8) : Nat :=
  if tbwf.isPrefixOf request then n.ethFile.elim 0 fun f => min blockSize (f.data.length - f.pos)
  else n.fileReadInfoSize

section

variable (crc16 : List UInt8 → UInt16)

/-- The client is handed nothing in which a packet or a TEEE could go unnoticed. -/
structure Separate (s : Sys) (n : Nat) (polls : List Poll) : Prop where
  genuine : PacketHead s.down ∨ ∀ number size, ¬ PacketAt crc16 (bytes s.down) number size
  discarded : classify 2 (bytes (s.down.take n)) ≠ .readingTheFile →
    ∀ m ∈ s.down.take n, m.kind.moves = false
  duplicate : ∀ number size, PacketAt crc16 (bytes s.down) number size →
    number < s.cli.packetsCounter → n ≤ size + ethHeaderSize
  ending : (∃ m ∈ s.down.take (n + arrivals polls), m.kind = .teee) →
    (∃ m, s.down.head? = some m ∧ m.first = true ∧ m.kind = .teee) ∧ 4 ≤ n ∧
      (n < ethHeaderSize ∨ ∀ p, polls.head? = some p → p.arrived = 0)

variable {crc16} {data : List UInt8} {n : Net}

/-- What a transfer that goes on rests on: a client, the handler, and no texts between the packets. -/
structure Net.Transferring (n : Net) : Prop where
  connected : n.clientConnected = true
  handler : n.infoHandler = true
  silent : n.enableEthOutput = false

/-- A packet that fits is in the ring after it was sent. -/
theorem Net.Transferring.sendEthPacket (going : n.Transferring)
    (small : n.fileReadInfoSize ≤ blockSize) (counter : Nat)
    (fits : n.rb.length + ethHeaderSize + n.fileReadInfoSize ≤ ethRbSize) :
    (n.sendEthPacket crc16 (wrap32 n.fileReadInfoSize) counter).Transferring ∧
      n.rb <+: (n.sendEthPacket crc16 (wrap32 n.fileReadInfoSize) counter).rb ∧
      ∃ m ∈ (n.sendEthPacket crc16 (wrap32 n.fileReadInfoSize) counter).rb,
        m.kind = .packet counter := by
  obtain ⟨rbBuf, -, fed⟩ := n.sendEthPacket_eq crc16 small counter
  have length : (packetImage crc16 counter
      (n.rbBuf.read ethHeaderSize n.fileReadInfoSize)).length =
        ethHeaderSize + n.fileReadInfoSize := by
    rw [packetImage_length, Mem.read_length]
  rw [fed, Net.ethFeed_fits (by exact going.connected) _ (by simp only [length]; omega)]
  refine ⟨⟨going.connected, going.handler, going.silent⟩, List.prefix_append _ _, ?_⟩
  -- The head of the packet is one of its bytes.
  refine ⟨⟨0x54, .packet counter, true⟩, List.mem_append_right _ ?_, rfl⟩
  simp [packetImage, packetHeader, tbwf, mark]

/-- When the Teensy ends a transfer, a TEEE that fits is in the ring. -/
theorem Net.sendFileViaEthComplete_fits (connected : n.clientConnected = true)
    (fits : n.rb.length + ethHeaderSize ≤ ethRbSize) (ms : Nat) :
    (n.sendFileViaEthComplete ms).clientConnected = true ∧
      (n.sendFileViaEthComplete ms).infoHandler = false ∧
      ∃ m ∈ (n.sendFileViaEthComplete ms).rb, m.kind = .teee := by
  have frame : (n.sendFileViaEthComplete ms).frame =
      { n with infoHandler := false, ethFile := none, enableEthOutput := true }.frame := by
    simp only [Net.sendFileViaEthComplete, Net.xmprintf_frame, Net.ethFeed_frame]
  refine ⟨(congrArg Net.clientConnected frame :).trans connected,
    (congrArg Net.infoHandler frame :), ⟨0x54, .teee, true⟩, ?_, rfl⟩
  unfold ethHeaderSize at fits
  simp only [Net.sendFileViaEthComplete]
  -- The texts that follow only make the ring longer.
  apply (Net.xmprintf_prefix _ _).subset
  apply (Net.xmprintf_prefix _ _).subset
  rw [Net.ethFeed_fits (by exact connected) _ (by simpa [teee] using fits)]
  exact List.mem_append_right _ (by simp [teee, mark])

/-- A repetition that fits sends the last packet again, or gives up with a TEEE. -/
theorem Net.Transferring.pleaseRepeat (going : n.Transferring)
    (small : n.fileReadInfoSize ≤ blockSize)
    (fits : n.rb.length + ethHeaderSize + n.fileReadInfoSize ≤ ethRbSize) (ms : Nat) :
    (n.pleaseRepeat crc16 ms).Transferring ∧ n.rb <+: (n.pleaseRepeat crc16 ms).rb ∧
        (∃ m ∈ (n.pleaseRepeat crc16 ms).rb, m.kind = .packet n.sendFilePacketsCounter) ∨
      (n.pleaseRepeat crc16 ms).clientConnected = true ∧
        (n.pleaseRepeat crc16 ms).infoHandler = false ∧
        ∃ m ∈ (n.pleaseRepeat crc16 ms).rb, m.kind = .teee := by
  simp only [Net.pleaseRepeat]
  split
  · -- The text about giving up is lost, and the TEEE follows the ring as it is.
    rw [Net.xmprintf_off (by exact going.silent)]
    refine .inr (Net.sendFileViaEthComplete_fits ?_ ?_ ms)
    · exact going.connected
    · simp only
      omega
  · exact .inl (Net.Transferring.sendEthPacket
      (n := { n with repeatSendCounter := n.repeatSendCounter + 1 })
      ⟨going.connected, going.handler, going.silent⟩ small _ fits)

/-- A request for the block that is due sends its packet, if it fits. -/
theorem Net.Transferring.pleaseSendNext (going : n.Transferring) (sends : Sends crc16 data n)
    (small : n.sendFilePacketsCounter < 2 ^ 32) {pn : Nat} (due : n.sendFilePacketsCounter ≤ pn)
    (more : blockSize * n.sendFilePacketsCounter < data.length)
    (fits : n.rb.length + ethHeaderSize + (block data n.sendFilePacketsCounter).length ≤ ethRbSize)
    (ms : Nat) :
    (n.pleaseSendNext crc16 .full ms pn).Transferring ∧
      (n.pleaseSendNext crc16 .full ms pn).sendFilePacketsCounter = n.sendFilePacketsCounter + 1 ∧
      ∃ m ∈ (n.pleaseSendNext crc16 .full ms pn).rb,
        m.kind = .packet (n.sendFilePacketsCounter + 1) := by
  -- The block that is due is not empty, so it is not the end of the file.
  have some_ : 0 < (block data n.sendFilePacketsCounter).length := by
    simp only [block, List.length_take, List.length_drop, blockSize, ethHeaderSize] at more ⊢
    omega
  rw [sends.pleaseSendNext_eq going.handler small due, if_pos some_]
  obtain ⟨-, counter⟩ := sends.afterRead.sendEthPacket going.handler
  obtain ⟨kept, -, sent⟩ := @Net.Transferring.sendEthPacket crc16 (n.afterRead data)
    ⟨going.connected, going.handler, going.silent⟩ (block_length_le _ _)
    (n.sendFilePacketsCounter + 1) fits
  exact ⟨kept, counter, sent⟩

variable (crc16 data)

/-- What is under way while the client receives and holds the first `k` blocks. -/
structure UnderWay (k : Nat) (s : Sys) (reqs : List Req) : Prop where
  up : s.up = flight reqs
  numbers : ∀ r ∈ reqs, r.number < 2 ^ 24
  going : s.tee.infoHandler = true → s.tee.Transferring
  connected : s.tee.clientConnected = true
  -- the Teensy has sent what the client holds, and one request for more is under way
  due : s.tee.infoHandler = true → s.tee.sendFilePacketsCounter = k →
    reqs.filter Req.asksNext = [.next k]
  -- the Teensy is one packet ahead
  sent : s.tee.infoHandler = true → s.tee.sendFilePacketsCounter = k + 1 →
    reqs.filter Req.asksNext = [] ∧
      (reqs = [] → ∃ m ∈ s.down ++ s.tee.rb, m.kind = .packet (k + 1))
  gone : s.tee.infoHandler = false → ∃ m ∈ s.down ++ s.tee.rb, m.kind = .teee

variable {crc16 data}

/-- The dispatch of a whole request for the next block. -/
theorem dispatch_next {k : Nat} (small : k < 2 ^ 24) :
    dispatch true (control tbwf k) = .handler .gfPleaseSendNext k := by
  have number := u32_control small
  -- The head of the message is that of a request, and its number is read back.
  rw [control_eq small] at number ⊢
  simp [dispatch, consoleWord, tbwf] at number ⊢
  exact number

/-- The dispatch of a whole request to repeat. -/
theorem dispatch_again {k : Nat} (small : k < 2 ^ 24) :
    ∃ pn, dispatch true (control tbwn k) = .handler .gfPleaseRepeat pn := by
  rw [control_eq small]
  simp [dispatch, consoleWord, tbwf, tbwn]

/-- Without a handler a message is taken for a command. -/
theorem dispatch_gone {r : Req} (small : r.number < 2 ^ 24) :
    ∃ text, dispatch false r.bytes = .command text := by
  cases r with
  | next k =>
    rw [Req.bytes, control_eq (show k < 2 ^ 24 from small)]
    simp [dispatch, consoleWord, tbwf]
  | again k =>
    rw [Req.bytes, control_eq (show k < 2 ^ 24 from small)]
    simp [dispatch, consoleWord, tbwn]

/-- A whole request leads to its answer, and something stays under way. -/
theorem UnderWay.teeRead {k ms : Nat} {s : Sys} {reqs : List Req}
    (receiving : Receiving crc16 data k s) (under : UnderWay k s reqs)
    (enabled : s.enabled (.teeRead ethHeaderSize ms))
    (fits : s.tee.infoHandler = true →
      s.tee.rb.length + ethHeaderSize + s.tee.answerSize s.up ≤ ethRbSize) :
    ∃ reqs, UnderWay k (s.next crc16 (.teeRead ethHeaderSize ms)) reqs := by
  obtain ⟨-, -, long⟩ := enabled
  -- The request at the head of the stream is what is read.
  cases reqs with
  | nil =>
    rw [under.up] at long
    simp [flight, ethHeaderSize] at long
  | cons r reqs =>
  have small := under.numbers r (by simp)
  have split : s.up = r.bytes ++ flight reqs := by rw [under.up]; rfl
  have read : s.up.take ethHeaderSize = r.bytes := by rw [split, List.take_left' r.bytes_length]
  have rest : s.up.drop ethHeaderSize = flight reqs := by rw [split, List.drop_left' r.bytes_length]
  have numbers : ∀ r ∈ reqs, r.number < 2 ^ 24 := fun r member => under.numbers r (by simp [member])
  refine ⟨reqs, ?_⟩
  simp only [Sys.next, read, rest]
  cases on : s.tee.infoHandler with
  | false =>
    -- The request goes to nobody, but the TEEE stays where it is.
    obtain ⟨text, command⟩ := dispatch_gone small
    rw [command]
    simp only [Net.perform, transferHooks, List.append_nil]
    exact ⟨rfl, numbers, fun on' => by simp [on] at on', under.connected,
      fun on' => by simp [on] at on', fun on' => by simp [on] at on', fun _ => under.gone on⟩
  | true =>
    have going := under.going on
    have fits := fits on
    cases r with
    | next j =>
      -- Only the request for the block that is due is under way, and the block is not empty.
      have behind : s.tee.sendFilePacketsCounter = k := by
        by_contra ahead
        have none_ := (under.sent on (by have := receiving.low; have := receiving.high; omega)).1
        simp [Req.asksNext] at none_
      have only := under.due on behind
      rw [List.filter_cons_of_pos (by rfl)] at only
      simp only [List.cons.injEq, Req.next.injEq] at only
      obtain ⟨rfl, none_⟩ := only
      have answer : s.tee.answerSize s.up = (block data s.tee.sendFilePacketsCounter).length := by
        have head : tbwf.isPrefixOf s.up = true := by
          rw [split]
          simp [Req.bytes, control, tbwf]
        obtain ⟨name, file⟩ := receiving.sends.file on
        simp only [Net.answerSize, head, if_true, file, Option.elim_some, block,
          List.length_take, List.length_drop]
        omega
      rw [answer] at fits
      have more := receiving.more
      rw [← behind] at more
      have tiny : j < 2 ^ 24 := small
      obtain ⟨going', counter, m, member, kind⟩ := @Net.Transferring.pleaseSendNext crc16 _ _ going
        receiving.sends (by omega) _ (le_of_eq behind) more fits ms
      rw [Req.bytes, dispatch_next tiny]
      simp only [Net.perform, transferHooks, List.append_nil, Net.sendFileViaEthHandler]
      refine ⟨rfl, numbers, fun _ => going', going'.connected, fun _ same => ?_, fun _ _ => ⟨none_,
        fun _ => ⟨m, List.mem_append_right _ member, by rw [kind, behind]⟩⟩, fun off => ?_⟩
      · have ahead := counter.symm.trans same
        omega
      · simp only [going'.handler] at off
        exact absurd off (by decide)
    | again j =>
      have answer : s.tee.answerSize s.up = s.tee.fileReadInfoSize := by
        have head : tbwf.isPrefixOf s.up = false := by
          rw [split]
          rfl
        simp [Net.answerSize, head]
      rw [answer] at fits
      obtain ⟨pn, repetition⟩ := dispatch_again (k := j) small
      have counter := (receiving.sends.pleaseRepeat on ms).2
      rw [Req.bytes, repetition]
      simp only [Net.perform, transferHooks, List.append_nil, Net.sendFileViaEthHandler]
      rcases @Net.Transferring.pleaseRepeat crc16 _ going (receiving.sends.size on) fits ms with
        ⟨going', grown, m, member, kind⟩ | ⟨connected, off, m, member, kind⟩
      · refine ⟨rfl, numbers, fun _ => going', going'.connected, fun _ same => ?_, fun _ ahead => ?_,
          fun off => ?_⟩
        · exact under.due on (counter.symm.trans same)
        · have ahead := counter.symm.trans ahead
          exact ⟨(under.sent on ahead).1,
            fun _ => ⟨m, List.mem_append_right _ member, by rw [kind, ahead]⟩⟩
        · simp only [going'.handler] at off
          exact absurd off (by decide)
      · -- The Teensy has given up, and its TEEE is in the ring.
        refine ⟨rfl, numbers, fun on' => ?_, connected, fun on' => ?_, fun on' => ?_,
          fun _ => ⟨m, List.mem_append_right _ member, kind⟩⟩ <;>
        · simp only [off] at on'
          exact absurd on' (by decide)

/-- A step that touches no request, no TEEE and no packet that is due keeps what is under way. -/
theorem UnderWay.keep {k : Nat} {s t : Sys} {reqs : List Req} (under : UnderWay k s reqs)
    (up : t.up = s.up) (handler : t.tee.infoHandler = s.tee.infoHandler)
    (connected : t.tee.clientConnected = s.tee.clientConnected)
    (silent : t.tee.enableEthOutput = s.tee.enableEthOutput)
    (counter : t.tee.sendFilePacketsCounter = s.tee.sendFilePacketsCounter)
    (members : ∀ m ∈ s.down ++ s.tee.rb, m.kind = .teee ∨ m.kind = .packet (k + 1) →
      m ∈ t.down ++ t.tee.rb) :
    UnderWay k t reqs where
  up := up.trans under.up
  numbers := under.numbers
  going on := by
    have going := under.going (handler.symm.trans on)
    exact ⟨connected.trans going.connected, handler.trans going.handler, silent.trans going.silent⟩
  connected := connected.trans under.connected
  due on same := under.due (handler.symm.trans on) (counter.symm.trans same)
  sent on ahead := by
    obtain ⟨none_, pending⟩ := under.sent (handler.symm.trans on) (counter.symm.trans ahead)
    refine ⟨none_, fun empty => ?_⟩
    obtain ⟨m, member, kind⟩ := pending empty
    exact ⟨m, members m member (.inr kind), kind⟩
  gone off := by
    obtain ⟨m, member, kind⟩ := under.gone (handler.symm.trans off)
    exact ⟨m, members m member (.inl kind), kind⟩

/-- Draining the ring keeps what is under way. -/
theorem UnderWay.teeDrain {k : Nat} {s : Sys} {reqs : List Req} (under : UnderWay k s reqs) :
    UnderWay k (s.next crc16 .teeDrain) reqs := by
  simp only [Sys.next, Net.drain_eq]
  exact under.keep rfl rfl rfl rfl rfl (by simp; tauto)

/-- A ping keeps what is under way. -/
theorem UnderWay.teePing {k : Nat} {s : Sys} {reqs : List Req} (under : UnderWay k s reqs) (ms : Nat) :
    UnderWay k (s.next crc16 (.teePing ms)) reqs := by
  simp only [Sys.next, Net.ping]
  split
  · exact under.keep rfl rfl rfl rfl rfl (by simp; tauto)
  · exact under.keep rfl rfl rfl rfl rfl (by simp; tauto)

/-- Without a TEEE among the bytes a call may read, every TEEE under way stays under way. -/
theorem teee_stays {n room j : Nat} {s : Sys} (within : j ≤ n + room)
    (absent : ¬ ∃ m ∈ s.down.take (n + room), m.kind = .teee) {m : WByte}
    (member : m ∈ s.down ++ s.tee.rb) (kind : m.kind = .teee) :
    m ∈ s.down.drop j ++ s.tee.rb := by
  rcases List.mem_append.mp member with unread | queued
  · rw [← List.take_append_drop j s.down] at unread
    rcases List.mem_append.mp unread with read | left
    · exact absurd ⟨m, (List.take_prefix_take_left within).subset read, kind⟩ absent
    · exact List.mem_append_left _ left
  · exact List.mem_append_right _ queued

/-- A call of `process` that hides nothing keeps something under way, or ends the transfer. -/
theorem UnderWay.cliProcess {k n : Nat} {polls : List Poll} {s : Sys} {reqs : List Req}
    (receiving : Receiving crc16 data k s) (under : UnderWay k s reqs)
    (enabled : s.enabled (.cliProcess n polls)) (separate : Separate crc16 s n polls) :
    (∃ k' reqs, Receiving crc16 data k' (s.next crc16 (.cliProcess n polls)) ∧
        UnderWay k' (s.next crc16 (.cliProcess n polls)) reqs) ∨
      Done data (s.next crc16 (.cliProcess n polls)) := by
  have genuine : NoForeignPacket crc16 s (.cliProcess n polls) := fun _ =>
    separate.genuine.imp id fun none_ number size packet => absurd packet (none_ number size)
  rcases receiving.cliProcess enabled genuine with ⟨k', receiving'⟩ | done
  · refine .inl ⟨k', ?_⟩
    obtain ⟨some_, small, bound⟩ := enabled
    have mode : s.cli.readingTheLogFile = 2 := congrArg Receiver.readingTheLogFile receiving.client
    have runs : s.cli.pleaseStop = false := congrArg Receiver.pleaseStop receiving.client
    have counter : s.cli.packetsCounter = k + 1 := congrArg Receiver.packetsCounter receiving.client
    have mode' : (s.next crc16 (.cliProcess n polls)).cli.receiver.readingTheLogFile = 2 :=
      congrArg Receiver.readingTheLogFile receiving'.client
    have counter' : (s.next crc16 (.cliProcess n polls)).cli.receiver.packetsCounter = k' + 1 :=
      congrArg Receiver.packetsCounter receiving'.client
    have short : n < bufSize := by
      unfold readSize at small
      unfold bufSize
      omega
    -- A TEEE would have ended the transfer.
    have absent : ¬ ∃ m ∈ s.down.take (n + arrivals polls), m.kind = .teee := by
      intro arrives
      obtain ⟨⟨m, starts, first, kind⟩, whole, idle⟩ := separate.ending arrives
      have ok := receiving.down.head starts first
      rw [kind] at ok
      have head : teee <+: bytes s.down := by
        obtain ⟨rest, image⟩ := ok
        exact ⟨List.replicate 12 0 ++ bytes rest, by rw [← image]; simp⟩
      have ended := s.cli.process_teee crc16 succeeds_writes mode runs head whole short bound idle
      exact absurd (mode'.symm.trans ended) (by decide)
    obtain ⟨j, rest, received⟩ := s.cli.process_received crc16 succeeds_writes mode runs some_ short
      bound polls
    simp only [Sys.next] at mode' counter' receiving' ⊢
    generalize s.cli.process crc16 succeeds (bytes (s.down.take n)) ⟨s.down.drop n, polls⟩ = reply
      at rest received mode' counter' receiving' ⊢
    obtain ⟨cli, sock, out⟩ := reply
    simp only at rest received mode' counter' receiving' ⊢
    have small : k + 1 < 2 ^ 24 := by
      have := receiving.size
      have := receiving.more
      unfold blockSize ethHeaderSize at this
      omega
    generalize cli.receiver = r at received mode' counter'
    cases received with
    | discarded handed =>
      -- What was discarded moved nobody.
      obtain rfl : k' = k := by
        have same : (s.cli.packetsCounter : Int) = k' + 1 := counter'
        omega
      have modeR : s.cli.receiver.readingTheLogFile = 2 := mode
      rw [modeR] at handed
      have other : classify 2 (bytes (s.down.take n)) ≠ .readingTheFile := by
        rcases handed with handed | handed <;> rw [handed] <;> decide
      refine ⟨reqs, receiving', under.keep (by simp) rfl rfl rfl rfl fun m member kind => ?_⟩
      have moves : m.kind.moves = true := by rcases kind with kind | kind <;> rw [kind] <;> rfl
      rcases List.mem_append.mp member with unread | queued
      · rw [← List.take_append_drop n s.down] at unread
        rcases List.mem_append.mp unread with read | left
        · rw [separate.discarded other m read] at moves
          exact absurd moves (by decide)
        · exact List.mem_append_left _ (rest ▸ left)
      · exact List.mem_append_right _ queued
    | duplicate packet behind start within exactly =>
      -- The duplicate was read and no more, and it is not the packet that is due.
      obtain rfl : k' = k := by
        have same : (s.cli.packetsCounter : Int) = k' + 1 := counter'
        omega
      have fits := separate.duplicate _ _ packet behind
      rcases separate.genuine with ⟨m₀, i, starts, first, kind₀⟩ | none_
      · have ok := receiving.down.head starts first
        rw [kind₀] at ok
        have range : i < 2 ^ 31 := by
          have := receiving.high
          obtain ⟨_, _, _, sent⟩ := ok
          omega
        obtain ⟨number_eq, payload, -, length, sized, ⟨later, image⟩, -⟩ := ok.found range packet
        have whole : j = (mark (Origin.packet i) (packetImage crc16 i payload)).length := by
          rw [← sized.packetEnd_eq] at fits
          have consumed := exactly fits
          rw [sized.packetEnd_eq] at consumed
          rw [mark_length, packetImage_length]
          omega
        refine ⟨reqs, receiving', under.keep (by simp) rfl rfl rfl rfl fun m member kind => ?_⟩
        simp only [rest]
        rcases kind with kind | kind
        · exact teee_stays within absent member kind
        · rcases List.mem_append.mp member with unread | queued
          · rw [← image, List.mem_append] at unread
            rcases unread with read | left
            · have own := kind_of_mem_mark read
              rw [kind, Origin.packet.injEq] at own
              have : s.cli.receiver.packetsCounter = k' + 1 := counter'
              omega
            · rw [← image, List.drop_left' whole.symm]
              exact List.mem_append_left _ left
          · exact List.mem_append_right _ queued
      · exact absurd packet (none_ _ _)
    | saved packet fresh written unfinished start within =>
      -- The packet that was due is answered by a request for the next one.
      have fresh' : (k : Int) + 1 ≤ _ := (le_of_eq counter.symm).trans fresh
      obtain ⟨number_eq, ahead, -, -, -⟩ := receiving.due (genuine mode) packet fresh'
      obtain rfl : k' = k + 1 := by
        have same := counter'
        simp only at same
        rw [wrap32_of_range (by omega) (by omega)] at same
        omega
      refine ⟨reqs ++ [.next (k + 1)], receiving', ?_, ?_, under.going, under.connected, ?_, ?_, ?_⟩
      · rw [number_eq, under.up]
        simp [flight, Req.bytes]
      · intro r member
        rcases List.mem_append.mp member with old | new
        · exact under.numbers r old
        · rw [List.mem_singleton.mp new]
          exact small
      · intro on _
        rw [List.filter_append, (under.sent on ahead).1]
        rfl
      · intro on further
        simp only at further
        omega
      · intro off
        obtain ⟨m, member, kind⟩ := under.gone off
        exact ⟨m, rest ▸ teee_stays within absent member kind, kind⟩
    | completed out packet fresh written finished start within =>
      exact absurd mode' (by simp [Receiver.close])
    | repeated start within =>
      obtain rfl : k' = k := by
        have same : (s.cli.packetsCounter : Int) = k' + 1 := counter'
        omega
      have number : s.cli.receiver.packetsCounter = ((k' + 1 : Nat) : Int) := counter
      refine ⟨reqs ++ [.again (k' + 1)], receiving', ?_, ?_, under.going, under.connected, ?_, ?_, ?_⟩
      · rw [number, under.up]
        simp [flight, Req.bytes]
      · intro r member
        rcases List.mem_append.mp member with old | new
        · exact under.numbers r old
        · rw [List.mem_singleton.mp new]
          exact small
      · intro on same
        rw [List.filter_append, under.due on same]
        rfl
      · intro on ahead
        rw [List.filter_append, (under.sent on ahead).1]
        exact ⟨rfl, by simp⟩
      · intro off
        obtain ⟨m, member, kind⟩ := under.gone off
        exact ⟨m, rest ▸ teee_stays within absent member kind, kind⟩
    | ended start within =>
      exact absurd mode' (by simp [Receiver.close])
  · exact .inr done

end

end Teetest
