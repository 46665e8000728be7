import Teetest.Transfer.System

/-!
What the Teensy's handler keeps while it sends a file.

Every packet in the ring carries the block of the file that its number names, and what a request to
repeat would send is the block that was read last.
-/

namespace Teetest

open Lib

/-- The `i`-th block of a file, which is the payload of packet `i + 1`. -/
def block (data : List UInt8) (i : Nat) : List UInt8 :=
  (data.drop (blockSize * i)).take blockSize

theorem block_length_le (data : List UInt8) (i : Nat) : (block data i).length ≤ blockSize := by
  simp [block]

/-- A block continues the blocks in front of it. -/
theorem take_append_block (data : List UInt8) (i : Nat) :
    data.take (blockSize * i) ++ block data i = data.take (blockSize * (i + 1)) := by
  rw [Nat.mul_add, Nat.mul_one, List.take_add, block]

/-- A position at or behind the end of a file is the end of the file. -/
theorem drop_min_length (data : List UInt8) (i : Nat) :
    data.drop (min i data.length) = data.drop i := by
  rcases Nat.le_total i data.length with inside | behind
  · rw [Nat.min_eq_left inside]
  · rw [Nat.min_eq_right behind, List.drop_length, List.drop_eq_nil_of_le behind]

/-- A block ends where the next one starts, or at the end of the file. -/
theorem block_end (data : List UInt8) (i : Nat) :
    min (blockSize * i) data.length + (block data i).length =
      min (blockSize * (i + 1)) data.length := by
  simp only [block, List.length_take, List.length_drop, Nat.mul_add]
  omega

section

variable (crc16 : List UInt8 → UInt16) (data : List UInt8)

/--
What the stream from the head of a message on begins with, when `c` packets were sent.

Packet 0 is what a request to repeat gets before the first block was read.
-/
def MessageOk (c : Nat) : Origin → List WByte → Prop
  | .packet i, u => ∃ payload, payload.length ≤ blockSize ∧
      mark (.packet i) (packetImage crc16 i payload) <+: u ∧
      (i = 0 ∨ i ≤ c ∧ payload = block data (i - 1))
  | .teee, u => mark .teee (teee ++ List.replicate 12 0) <+: u
  | _, _ => True

variable {crc16 data}

/-- Bytes behind a message do not matter. -/
theorem MessageOk.grows (c : Nat) (origin : Origin) (u more : List WByte)
    (ok : MessageOk crc16 data c origin u) : MessageOk crc16 data c origin (u ++ more) := by
  cases origin with
  | packet i =>
    obtain ⟨payload, small, begins, named⟩ := ok
    exact ⟨payload, small, begins.trans (List.prefix_append _ _), named⟩
  | teee => exact List.IsPrefix.trans ok (List.prefix_append _ _)
  | text | greeting | ping => trivial

/-- Packets sent later do not matter. -/
theorem MessageOk.later {c c' : Nat} (more : c ≤ c') (origin : Origin) (u : List WByte)
    (ok : MessageOk crc16 data c origin u) : MessageOk crc16 data c' origin u := by
  cases origin with
  | packet i =>
    obtain ⟨payload, small, begins, named⟩ := ok
    exact ⟨payload, small, begins, named.imp id fun ⟨sent, same⟩ => ⟨by omega, same⟩⟩
  | teee => exact ok
  | text | greeting | ping => trivial

variable (crc16) in
/-- `sendEthPacket` feeds the image of the packet whose payload stands in the buffer. -/
theorem Net.sendEthPacket_eq (n : Net) {k : Nat} (small : k ≤ blockSize) (counter : Nat) :
    ∃ rbBuf, (∀ j, rbBuf.read ethHeaderSize j = n.rbBuf.read ethHeaderSize j) ∧
      n.sendEthPacket crc16 (wrap32 k) counter =
        ({ n with rbBuf := rbBuf } : Net).ethFeed (.packet counter)
          (packetImage crc16 counter (n.rbBuf.read ethHeaderSize k)) := by
  have range : wrap32 k = (k : Int) := by
    have : blockSize = 1008 := rfl
    exact wrap32_of_range (by omega) (by omega)
  have behind : ∀ j, (n.rbBuf.write 0 (packetHeader crc16 k counter
      (n.rbBuf.read ethHeaderSize k))).read ethHeaderSize j = n.rbBuf.read ethHeaderSize j :=
    fun j => Mem.read_write_disjoint _ (.inr (by rw [packetHeader_length]; simp))
  refine ⟨_, behind, ?_⟩
  -- The bytes fed are the header just written and the payload behind it.
  have image := packetImage_read crc16 n.rbBuf k counter
  have total : ((k : Int) + ethHeaderSize).toNat = ethHeaderSize + k := by omega
  rw [range, sendEthPacket]
  simp only [Int.toNat_natCast, total, image]

variable (crc16 data)

/-- What the sender keeps: the file position, the block in the buffer and the messages in the ring. -/
structure Sends (n : Net) : Prop where
  file : n.infoHandler = true →
    ∃ name, n.ethFile = some ⟨name, data, min (blockSize * n.sendFilePacketsCounter) data.length⟩
  size : n.infoHandler = true → n.fileReadInfoSize ≤ blockSize
  held : n.infoHandler = true → 0 < n.sendFilePacketsCounter →
    n.fileReadInfoSize = (block data (n.sendFilePacketsCounter - 1)).length ∧
      n.rbBuf.read ethHeaderSize n.fileReadInfoSize = block data (n.sendFilePacketsCounter - 1)
  ring : Heads (MessageOk crc16 data n.sendFilePacketsCounter) n.rb

variable {crc16 data} {n : Net}

/-- Printing keeps what the messages in the ring begin with. -/
theorem Sends.print (ring : Heads (MessageOk crc16 data n.sendFilePacketsCounter) n.rb)
    (s : String) : (n.xmprintf s).sendFilePacketsCounter = n.sendFilePacketsCounter ∧
      Heads (MessageOk crc16 data (n.xmprintf s).sendFilePacketsCounter) (n.xmprintf s).rb := by
  have counter : (n.xmprintf s).sendFilePacketsCounter = n.sendFilePacketsCounter :=
    (congrArg Net.sendFilePacketsCounter (n.xmprintf_frame s) :)
  refine ⟨counter, ?_⟩
  rw [counter]
  exact Net.xmprintf_heads (MessageOk.grows _) (fun _ => trivial) ring s

/-- Ending the transfer removes the handler and leaves only texts and TEEE behind in the ring. -/
theorem Sends.complete (ring : Heads (MessageOk crc16 data n.sendFilePacketsCounter) n.rb) (ms : Nat) :
    Sends crc16 data (n.sendFileViaEthComplete ms) ∧
      (n.sendFileViaEthComplete ms).sendFilePacketsCounter = n.sendFilePacketsCounter := by
  have frame : (n.sendFileViaEthComplete ms).frame =
      { n with infoHandler := false, ethFile := none, enableEthOutput := true }.frame := by
    simp only [Net.sendFileViaEthComplete, Net.xmprintf_frame, Net.ethFeed_frame]
  have gone : (n.sendFileViaEthComplete ms).infoHandler = false :=
    (congrArg Net.infoHandler frame :)
  have counter : (n.sendFileViaEthComplete ms).sendFilePacketsCounter = n.sendFilePacketsCounter :=
    (congrArg Net.sendFilePacketsCounter frame :)
  refine ⟨⟨by simp [gone], by simp [gone], by simp [gone], ?_⟩, counter⟩
  rw [counter]
  have grows : ∀ origin u more, MessageOk crc16 data n.sendFilePacketsCounter origin u →
      MessageOk crc16 data n.sendFilePacketsCounter origin (u ++ more) := MessageOk.grows _
  simp only [Net.sendFileViaEthComplete]
  apply Net.xmprintf_heads grows (fun _ => trivial)
  apply Net.xmprintf_heads grows (fun _ => trivial)
  apply Net.ethFeed_heads grows
  · exact ring
  · exact List.prefix_refl _

/-- Feeding a packet that carries what its number names keeps what the sender keeps. -/
theorem Sends.feed (sends : Sends crc16 data n) {counter : Nat} {payload : List UInt8}
    (small : payload.length ≤ blockSize)
    (named : counter = 0 ∨
      counter ≤ n.sendFilePacketsCounter ∧ payload = block data (counter - 1)) :
    Sends crc16 data (n.ethFeed (.packet counter) (packetImage crc16 counter payload)) := by
  have frame := n.ethFeed_frame (.packet counter) (packetImage crc16 counter payload)
  have message : MessageOk crc16 data n.sendFilePacketsCounter (.packet counter)
      (mark (.packet counter) (packetImage crc16 counter payload)) := ⟨payload, small, List.prefix_refl _, named⟩
  have ring := n.ethFeed_heads (MessageOk.grows _) sends.ring message
  have handler := (congrArg Net.infoHandler frame :)
  have counterEq := (congrArg Net.sendFilePacketsCounter frame :)
  have file := (congrArg Net.ethFile frame :)
  have size := (congrArg Net.fileReadInfoSize frame :)
  have buf := (congrArg Net.rbBuf frame :)
  simp only [Net.frame] at handler counterEq file size buf
  constructor
  · rw [handler, file, counterEq]; exact sends.file
  · rw [handler, size]; exact sends.size
  · rw [handler, counterEq, size, buf]; exact sends.held
  · rw [counterEq]; exact ring

/-- Sending the packet whose block stands in the buffer keeps what the sender keeps. -/
theorem Sends.sendEthPacket (sends : Sends crc16 data n) (handler : n.infoHandler = true) :
    Sends crc16 data
        (n.sendEthPacket crc16 (wrap32 n.fileReadInfoSize) n.sendFilePacketsCounter) ∧
      (n.sendEthPacket crc16 (wrap32 n.fileReadInfoSize)
        n.sendFilePacketsCounter).sendFilePacketsCounter = n.sendFilePacketsCounter := by
  obtain ⟨rbBuf, same, fed⟩ := n.sendEthPacket_eq crc16 (sends.size handler)
    n.sendFilePacketsCounter
  rw [fed]
  have ready : Sends crc16 data { n with rbBuf := rbBuf } :=
    ⟨sends.file, sends.size, fun on sent => by simp only [same]; exact sends.held on sent, sends.ring⟩
  have counter := (congrArg Net.sendFilePacketsCounter (Net.ethFeed_frame { n with rbBuf := rbBuf }
    (.packet n.sendFilePacketsCounter) (packetImage crc16 n.sendFilePacketsCounter
      (n.rbBuf.read ethHeaderSize n.fileReadInfoSize))) :)
  refine ⟨ready.feed (by simpa using sends.size handler) ?_, counter⟩
  rcases Nat.eq_zero_or_pos n.sendFilePacketsCounter with none_ | some_
  · exact .inl none_
  · exact .inr ⟨le_refl _, (sends.held handler some_).2⟩

/-- A request to repeat sends what is in the buffer, or gives up. -/
theorem Sends.pleaseRepeat (sends : Sends crc16 data n) (handler : n.infoHandler = true) (ms : Nat) :
    Sends crc16 data (n.pleaseRepeat crc16 ms) ∧
      (n.pleaseRepeat crc16 ms).sendFilePacketsCounter = n.sendFilePacketsCounter := by
  simp only [Net.pleaseRepeat]
  split
  · -- Too many repetitions in a row end the transfer.
    have failed : Heads (MessageOk crc16 data n.sendFilePacketsCounter)
        { n with repeatSendCounter := n.repeatSendCounter + 1, sfwState := .sfwError }.rb :=
      sends.ring
    obtain ⟨counter, ring⟩ := Sends.print (n := { n with
      repeatSendCounter := n.repeatSendCounter + 1
      sfwState := .sfwError }) failed _
    obtain ⟨kept, same⟩ := Sends.complete ring ms
    exact ⟨kept, same.trans counter⟩
  · -- The packet is sent again as it stands in the buffer.
    have counted : Sends crc16 data { n with repeatSendCounter := n.repeatSendCounter + 1 } :=
      ⟨sends.file, sends.size, sends.held, sends.ring⟩
    exact counted.sendEthPacket handler

variable (data) in
/-- The state after the next block of the file was read into the buffer. -/
def Net.afterRead (n : Net) : Net :=
  { n with
    ethFile := n.ethFile.map fun f =>
      { f with pos := min (blockSize * (n.sendFilePacketsCounter + 1)) data.length }
    rbBuf := n.rbBuf.write ethHeaderSize (block data n.sendFilePacketsCounter)
    fileReadInfoSize := (block data n.sendFilePacketsCounter).length
    ethFileBytesCounter :=
      (n.ethFileBytesCounter + (block data n.sendFilePacketsCounter).length) % 2 ^ 32
    sendFilePacketsCounter := n.sendFilePacketsCounter + 1
    repeatSendCounter := 0 }

/-- A request that is not stale reads the next block, and sends it or ends the transfer. -/
theorem Net.pleaseSendNext_eq {name : String} {pn : Nat}
    (file : n.ethFile = some ⟨name, data, min (blockSize * n.sendFilePacketsCounter) data.length⟩)
    (due : ¬ n.sendFilePacketsCounter % 2 ^ 32 > pn) (ms : Nat) :
    n.pleaseSendNext crc16 .full ms pn =
      if 0 < (block data n.sendFilePacketsCounter).length then
        (n.afterRead data).sendEthPacket crc16
          (wrap32 (block data n.sendFilePacketsCounter).length) (n.sendFilePacketsCounter + 1)
      else { n.afterRead data with sfwState := .sfwError }.sendFileViaEthComplete ms := by
  have next : (data.drop (blockSize * n.sendFilePacketsCounter)).take blockSize =
    block data n.sendFilePacketsCounter := rfl
  have length : (((block data n.sendFilePacketsCounter).length : Int) % 2 ^ 32).toNat =
      (block data n.sendFilePacketsCounter).length := by
    have := block_length_le data n.sendFilePacketsCounter
    have : blockSize = 1008 := rfl
    omega
  simp only [Net.pleaseSendNext, file, readEthFile, OpenFile.read, drop_min_length, next, length,
    block_end]
  rw [if_neg due]
  simp only [Net.afterRead, file, Option.map_some]

/-- A request for a block that was not sent before reads it, and sends it or ends the transfer. -/
theorem Sends.pleaseSendNext_eq (sends : Sends crc16 data n) (on : n.infoHandler = true)
    (small : n.sendFilePacketsCounter < 2 ^ 32) {pn : Nat} (due : n.sendFilePacketsCounter ≤ pn)
    (ms : Nat) : n.pleaseSendNext crc16 .full ms pn =
      if 0 < (block data n.sendFilePacketsCounter).length then
        (n.afterRead data).sendEthPacket crc16
          (wrap32 (block data n.sendFilePacketsCounter).length) (n.sendFilePacketsCounter + 1)
      else { n.afterRead data with sfwState := .sfwError }.sendFileViaEthComplete ms := by
  obtain ⟨name, file⟩ := sends.file on
  exact Net.pleaseSendNext_eq file (by rw [Nat.mod_eq_of_lt small]; omega) ms

/-- What the sender keeps, it keeps when it reads the next block. -/
theorem Sends.afterRead (sends : Sends crc16 data n) : Sends crc16 data (n.afterRead data) where
  file on := by
    obtain ⟨name, file⟩ := sends.file on
    exact ⟨name, by simp only [Net.afterRead, file, Option.map_some]⟩
  size _ := block_length_le _ _
  held _ _ := ⟨rfl, Mem.read_write_same _ _ _⟩
  ring := sends.ring.imp fun origin u => MessageOk.later (Nat.le_succ _) origin u

/-- A request for the next block reads and sends it, unless it was sent before. -/
theorem Sends.pleaseSendNext (sends : Sends crc16 data n) (on : n.infoHandler = true)
    (small : n.sendFilePacketsCounter < 2 ^ 32) (ms pn : Nat) :
    Sends crc16 data (n.pleaseSendNext crc16 .full ms pn) ∧
      ((n.pleaseSendNext crc16 .full ms pn).sendFilePacketsCounter = n.sendFilePacketsCounter ∨
        n.sendFilePacketsCounter ≤ pn ∧
          (n.pleaseSendNext crc16 .full ms pn).sendFilePacketsCounter =
            n.sendFilePacketsCounter + 1) := by
  by_cases due : n.sendFilePacketsCounter ≤ pn
  · rw [sends.pleaseSendNext_eq on small due]
    split
    · -- The block that was read is the block in the buffer.
      obtain ⟨kept, counter⟩ := sends.afterRead.sendEthPacket on
      exact ⟨kept, .inr ⟨due, counter⟩⟩
    · -- An empty block ends the transfer.
      obtain ⟨kept, counter⟩ :=
        Sends.complete (n := { n.afterRead data with sfwState := .sfwError }) sends.afterRead.ring ms
      exact ⟨kept, .inr ⟨due, counter⟩⟩
  · -- The requested packet was sent before.
    simp only [Net.pleaseSendNext, Nat.mod_eq_of_lt small]
    rw [if_pos (by omega)]
    exact ⟨⟨sends.file, sends.size, sends.held, sends.ring⟩, .inl rfl⟩

/-- Every request to the handler keeps what the sender keeps, and moves its counter by at most one. -/
theorem Sends.handler (sends : Sends crc16 data n) (on : n.infoHandler = true)
    (small : n.sendFilePacketsCounter < 2 ^ 32) (ms : Nat) (r : GFrequest) (pn : Nat) :
    Sends crc16 data (n.sendFileViaEthHandler crc16 .full ms r pn) ∧
      ((n.sendFileViaEthHandler crc16 .full ms r pn).sendFilePacketsCounter =
          n.sendFilePacketsCounter ∨
        r = .gfPleaseSendNext ∧ n.sendFilePacketsCounter ≤ pn ∧
          (n.sendFileViaEthHandler crc16 .full ms r pn).sendFilePacketsCounter =
            n.sendFilePacketsCounter + 1) := by
  cases r with
  | gfFinish =>
    -- The text about TEEE goes out before the transfer ends.
    obtain ⟨counter, ring⟩ := Sends.print sends.ring "got TEEE from file receiver\r\n"
    obtain ⟨kept, same⟩ := Sends.complete ring ms
    exact ⟨kept, .inl (same.trans counter)⟩
  | gfPleaseSendNext =>
    obtain ⟨kept, moved⟩ := sends.pleaseSendNext on small ms pn
    exact ⟨kept, moved.imp id fun next => ⟨rfl, next⟩⟩
  | gfPleaseRepeat =>
    obtain ⟨kept, same⟩ := sends.pleaseRepeat on ms
    exact ⟨kept, .inl same⟩
  | gfEmpty => exact ⟨sends, .inl rfl⟩

end

end Teetest
