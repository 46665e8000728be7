import Teetest.Session.Ring
import Teetest.Session.Demux
import Teetest.Transfer.Safety

/-!
The format of the data packets, between the function that writes them and the one that checks them.

The check completes a packet from the socket, so its round trip is about every way of cutting one.
-/

namespace Teetest

open Lib

variable {crc16 : List UInt8 → UInt16}

/-- What `sendEthPacket` passes to `ethFeed` is the image of the packet in its buffer. -/
theorem Net.passed_sendEthPacket (n : Net) (size counter : Nat) :
    bytes (n.passed crc16 (.sendEthPacket size counter)) =
      packetImage crc16 counter (n.rbBuf.read ethHeaderSize size) := by
  have total : ((size : Int) + ethHeaderSize).toNat = ethHeaderSize + size := by omega
  simp only [passed, bytes_mark, Int.toNat_natCast, total]
  exact packetImage_read crc16 n.rbBuf size counter

/--
The polls of the socket that find pieces of a stream, one after the other.

At least the piece has arrived when the socket is polled, and the read returns the piece.
-/
def Delivered (pieces : List (List UInt8)) (polls : List Poll) : Prop :=
  List.Forall₂ (fun piece p => piece ≠ [] ∧ piece.length ≤ p.arrived ∧ p.got = piece.length)
    pieces polls

/-- The start of a stream whose bytes are known. -/
theorem bytes_take_of_append {inp : List WByte} {piece rest : List UInt8}
    (stream : bytes inp = piece ++ rest) : bytes (inp.take piece.length) = piece := by
  rw [bytes_take, stream, List.take_left]

/-- The rest of a stream whose start was read. -/
theorem bytes_drop_of_append {inp : List WByte} {piece rest : List UInt8}
    (stream : bytes inp = piece ++ rest) : bytes (inp.drop piece.length) = rest := by
  rw [bytes_drop, stream, List.drop_left]

/-- One poll of the inner loop that finds a piece of a packet which is not complete yet. -/
theorem fillInner_piece {size : Int} {p : Poll} {piece rest : List UInt8} {inp : List WByte}
    {len : Nat} (nonempty : piece ≠ []) (arrived : piece.length ≤ p.arrived)
    (got : p.got = piece.length) (stream : bytes inp = piece ++ rest)
    (needed : (len + piece.length : Int) ≤ packetEnd size)
    (space : packetEnd size ≤ bufSize) (polls : List Poll) (buf : Mem) :
    fillInner size (p :: polls) inp buf len =
      if (len + piece.length : Int) ≥ packetEnd size then
        ⟨piece.length, ⟨inp.drop piece.length, polls⟩, buf.write len piece, len + piece.length⟩
      else fillInner size polls (inp.drop piece.length) (buf.write len piece) (len + piece.length) := by
  have positive : 0 < piece.length := List.length_pos_iff.mpr nonempty
  have long : piece.length ≤ inp.length := by
    have lengths := congrArg List.length stream
    rw [bytes_length, List.length_append] at lengths
    omega
  have bytes_eq := bytes_take_of_append stream
  -- The space in the buffer and the bytes still needed both leave room for the piece.
  have neededT : (sizeT (wrap32 (packetEnd size - len)) : Int) = packetEnd size - len := by
    rw [needed_eq (by omega)]
    simp only [sizeT]
    have : (bufSize : Int) < 2 ^ 64 := by decide
    omega
  have enough : piece.length ≤ fillAsk size len (min p.arrived inp.length) := by
    rw [fillAsk_eq size (by omega)]
    omega
  have read : p.answer (fillAsk size len (min p.arrived inp.length)) = piece.length := by
    rw [Poll.answer, if_neg (by omega), Poll.readSome, got]
    omega
  rw [fillInner_cons]
  dsimp only
  rw [if_neg (by omega), read, bytes_eq]

/-- The inner loop reads one piece after the other, until the packet is complete. -/
theorem fillInner_pieces {size : Int} {pieces : List (List UInt8)} {polls : List Poll}
    (delivered : Delivered pieces polls) (more : List Poll) {inp : List WByte}
    {rest : List UInt8} (stream : bytes inp = pieces.flatten ++ rest) (some_ : pieces ≠ [])
    {len : Nat} (whole : (len + pieces.flatten.length : Int) = packetEnd size)
    (space : packetEnd size ≤ bufSize) (buf : Mem) :
    ∃ k, 0 < k ∧ ∃ buf', fillInner size (polls ++ more) inp buf len =
        ⟨k, ⟨inp.drop pieces.flatten.length, more⟩, buf', len + pieces.flatten.length⟩ ∧
      buf'.read 0 (len + pieces.flatten.length) = buf.read 0 len ++ pieces.flatten := by
  -- Each poll takes its piece off the stream and puts it behind the bytes in the buffer.
  induction delivered generalizing inp len buf with
  | nil => exact absurd rfl some_
  | cons head delivered ih =>
    rename_i piece p pieces polls
    obtain ⟨nonempty, arrived, got⟩ := head
    have positive : 0 < piece.length := List.length_pos_iff.mpr nonempty
    simp only [List.flatten_cons, List.length_append, List.append_assoc] at stream whole ⊢
    push_cast at whole
    rw [List.cons_append, fillInner_piece nonempty arrived got stream (by omega) space]
    have behind := Mem.read_write_behind buf 0 len piece
    rw [Nat.zero_add] at behind
    by_cases last : pieces = []
    · -- The last piece completes the packet.
      subst last
      cases delivered
      rw [if_pos (by simp at whole; omega)]
      exact ⟨piece.length, positive, buf.write len piece, by simp, by simpa using behind⟩
    · rw [if_neg]
      · have left : ((len + piece.length : ℕ) + pieces.flatten.length : Int) =
            packetEnd size := by
          push_cast
          omega
        obtain ⟨k, more', buf', filled, front⟩ := ih (bytes_drop_of_append stream) last left
          (buf.write len piece)
        refine ⟨k, more', buf', ?_, ?_⟩
        · rw [filled, List.drop_drop, Nat.add_assoc]
        · rw [← Nat.add_assoc, front, behind, List.append_assoc]
      · -- Another piece is still to come, and it is not empty.
        obtain ⟨next, later, rfl⟩ := List.exists_cons_of_ne_nil last
        cases delivered with
        | cons second _ =>
          have : 0 < next.length := List.length_pos_iff.mpr second.1
          simp only [List.flatten_cons, List.length_append, Nat.cast_add] at whole
          omega

/-- Once the packet is complete, a further round of the inner loop reads nothing. -/
theorem fillInner_complete {size : Int} {len : Nat} (complete : (len : Int) = packetEnd size)
    (polls : List Poll) (inp : List WByte) (buf : Mem) :
    ∃ polls', fillInner size polls inp buf len = ⟨0, ⟨inp, polls'⟩, buf, len⟩ := by
  have nothing (bs : Nat) : fillAsk size len bs = 0 := by
    have needed := fillAsk_le_needed complete.le bs
    omega
  have unchanged : buf.write len [] = buf := by
    funext i
    simp [Mem.write]
  cases polls with
  | nil => exact ⟨[], rfl⟩
  | cons p polls =>
    refine ⟨polls, ?_⟩
    rw [fillInner_cons]
    dsimp only
    rw [nothing]
    split
    · rfl
    · -- The read asks for no bytes, and the loop is left.
      simp [Poll.answer, complete, unchanged]

/-- The two loops together complete a packet whose pieces are there when they are asked for. -/
theorem fillOuter_pieces {size : Int} {pieces : List (List UInt8)} {polls : List Poll}
    (delivered : Delivered pieces polls) (more : List Poll) {inp : List WByte}
    {rest : List UInt8} (stream : bytes inp = pieces.flatten ++ rest) (some_ : pieces ≠ [])
    {len : Nat} (whole : (len + pieces.flatten.length : Int) = packetEnd size)
    (space : packetEnd size ≤ bufSize) (buf : Mem) :
    ∃ polls' buf', fillOuter size 5 ⟨0, ⟨inp, polls ++ more⟩, buf, len⟩ =
        ⟨0, ⟨inp.drop pieces.flatten.length, polls'⟩, buf', len + pieces.flatten.length⟩ ∧
      buf'.read 0 (len + pieces.flatten.length) = buf.read 0 len ++ pieces.flatten := by
  obtain ⟨k, positive, buf', filled, front⟩ :=
    fillInner_pieces delivered more stream some_ whole space buf
  have complete : ((len + pieces.flatten.length : ℕ) : Int) = packetEnd size := by
    push_cast
    omega
  obtain ⟨polls', again⟩ := fillInner_complete complete more (inp.drop pieces.flatten.length) buf'
  refine ⟨polls', buf', ?_, front⟩
  -- The first round completes the packet, and the second finds nothing left to do.
  rw [fillOuter, filled]
  simp only
  rw [if_neg (by omega), fillOuter]
  simp only [again]
  rw [if_pos (by omega)]

/-- A buffer that passes the checks as a packet which its header describes is accepted as that. -/
theorem acceptPacket_image {c : Client} {buf : Mem} {number : Nat} {payload : List UInt8}
    (image : ImageIn crc16 buf number payload) (size : c.incomingPacketSize = payload.length)
    (same : c.incomingPacketsCounter = wrap32 number) :
    ∃ c', acceptPacket crc16 c buf = (true, c') ∧ c'.incomingPacketsCounter = wrap32 number ∧
      c'.incomingPacketSize = payload.length ∧ c'.buf = buf := by
  simp only [acceptPacket, size, image.checks, if_true]
  -- The counter of packets follows, or stays; neither is a field of the packet.
  split <;> exact ⟨_, rfl, same, rfl, rfl⟩

/-- A packet that is cut anywhere behind its header is put together again. -/
theorem checkThePacket_pieces {number : Nat} {payload chunk : List UInt8}
    (small : payload.length ≤ blockSize) {pieces : List (List UInt8)} {polls : List Poll}
    (cut : chunk ++ pieces.flatten = packetImage crc16 number payload)
    (long : ethHeaderSize ≤ chunk.length) (delivered : Delivered pieces polls) (more : List Poll)
    {c : Client} (front : c.buf.read 0 chunk.length = chunk) {inp : List WByte} {rest : List UInt8}
    (stream : bytes inp = pieces.flatten ++ rest) :
    ∃ c' s', checkThePacket crc16 c ⟨inp, polls ++ more⟩ chunk.length =
        (true, c', s', ethHeaderSize + payload.length) ∧ bytes s'.inp = rest ∧
      c'.incomingPacketsCounter = wrap32 number ∧ c'.incomingPacketSize = payload.length ∧
      c'.buf.read ethHeaderSize payload.length = payload := by
  have : blockSize = 1008 := rfl
  have lengths : chunk.length + pieces.flatten.length = ethHeaderSize + payload.length := by
    rw [← List.length_append, cut, packetImage_length]
  have range : wrap32 payload.length = payload.length := wrap32_of_range (by omega) (by omega)
  -- The header stands in the first chunk already.
  have field : ∀ off k, off + k ≤ ethHeaderSize →
      c.buf.read off k = ((packetImage crc16 number payload).drop off).take k := by
    intro off k inside
    rw [c.buf.read_field (n := chunk.length) (by omega), front, ← cut,
      List.drop_append_of_le_length (by omega),
      List.take_append_of_le_length (by rw [List.length_drop]; omega)]
  have head : c.buf.read 0 4 = tbwf := field 0 4 (by decide)
  have size : c.readHeader.incomingPacketSize = payload.length := by
    rw [c.readHeader_size, field 4 4 (by decide), i32_take, ← range]
    exact i32_le32_wrap _ _
  have same : c.readHeader.incomingPacketsCounter = wrap32 number := by
    rw [c.readHeader_number, field 8 4 (by decide), i32_take]
    exact i32_le32_wrap _ _
  have kept := c.readHeader_buf
  unfold checkThePacket
  rw [if_neg (by omega), if_neg (not_not.mpr head)]
  simp only
  generalize c.readHeader = h at size same kept ⊢
  by_cases cutUp : pieces = []
  · -- The chunk is the whole packet, and the loops are not entered.
    subst cutUp
    simp only [List.flatten_nil, List.append_nil, List.nil_append, List.length_nil,
      Nat.add_zero] at cut stream lengths
    have image : ImageIn crc16 h.buf number payload := by
      apply imageIn_of_read
      rw [kept, ← lengths, front, cut]
    obtain ⟨c', accepted, result⟩ := acceptPacket_image image size same
    rw [if_neg (by rw [size, lengths]; push_cast; omega), accepted]
    exact ⟨c', _, by rw [lengths], stream, result.1, result.2.1, by rw [result.2.2]; exact image.body⟩
  · have positive : 0 < pieces.flatten.length := by
      cases delivered with
      | nil => exact absurd rfl cutUp
      | cons first _ =>
        have := List.length_pos_iff.mpr first.1
        simp only [List.flatten_cons, List.length_append]
        omega
    -- The payload is that of a packet, so nothing overflows at its end.
    have end_ : packetEnd h.incomingPacketSize = payload.length + ethHeaderSize := by
      rw [size]
      exact (Sized.of_fits (small.trans (by decide))).packetEnd_eq
    have whole : (chunk.length + pieces.flatten.length : Int) = packetEnd h.incomingPacketSize := by
      rw [end_]
      omega
    have space : packetEnd h.incomingPacketSize ≤ bufSize := by
      rw [end_]
      simp only [ethHeaderSize, bufSize]
      omega
    obtain ⟨polls', buf', filled, complete⟩ :=
      fillOuter_pieces delivered more stream cutUp whole space h.buf
    have image : ImageIn crc16 buf' number payload := by
      apply imageIn_of_read
      rw [← lengths, complete, kept, front, cut]
    obtain ⟨c', accepted, result⟩ := acceptPacket_image image size same
    rw [if_pos (by rw [size]; omega), filled]
    simp only
    rw [if_pos (by rw [end_]; omega), accepted]
    exact ⟨c', _, by rw [lengths], bytes_drop_of_append stream, result.1, result.2.1,
      by rw [result.2.2]; exact image.body⟩

/-- The loops that complete a packet leave its header in place. -/
theorem fillOuter_header {size : Int} {rounds len : Nat} (long : ethHeaderSize ≤ len) {s : Sock}
    {buf : Mem} {off k : Nat} (inside : off + k ≤ ethHeaderSize) :
    (fillOuter size rounds ⟨0, s, buf, len⟩).buf.read off k = buf.read off k := by
  -- The bytes in the buffer and those in the socket are one stream, which the loops read.
  let total : List WByte := mark .text (buf.read 0 len) ++ s.inp
  have split : (mark Origin.text (buf.read 0 len)).length = len := by simp
  have held : Held total s.inp buf len :=
    ⟨(List.drop_left' split).symm, by simp [total], by
      simp only [total, bytes_append, bytes_mark]
      rw [List.take_left' (by simp)]⟩
  have filling := fillOuter_filling size rounds (f := ⟨0, s, buf, len⟩) held
  have grown := filling.grown
  simp only at grown
  rw [filling.held.read_field (by omega), held.read_field (by omega)]

/-- What is known of the buffer when the check succeeds. -/
theorem checkThePacket_true {c c' : Client} {s s' : Sock} {len len' : Nat}
    (accepted : checkThePacket crc16 c s len = (true, c', s', len')) :
    c'.buf.read 0 4 = tbwf ∧ c'.incomingPacketsCounter = i32 (c'.buf.read 8 4) ∧
      c'.incomingPacketSize = i32 (c'.buf.read 4 4) ∧
      packetChecks crc16 c'.buf c'.incomingPacketSize = true := by
  -- The client that is returned has the buffer that was checked, and the fields of its header.
  have result : ∀ {h : Client} {buf : Mem}, (acceptPacket crc16 h buf).1 = true →
      (acceptPacket crc16 h buf).2 = c' → buf.read 0 4 = tbwf →
      h.incomingPacketsCounter = i32 (buf.read 8 4) → h.incomingPacketSize = i32 (buf.read 4 4) →
      c'.buf.read 0 4 = tbwf ∧ c'.incomingPacketsCounter = i32 (c'.buf.read 8 4) ∧
        c'.incomingPacketSize = i32 (c'.buf.read 4 4) ∧
        packetChecks crc16 c'.buf c'.incomingPacketSize = true := by
    intro h buf yes same head number size
    unfold acceptPacket at yes same
    dsimp only at yes same
    split at yes
    · rename_i checks
      rw [if_pos checks] at same
      subst same
      dsimp only
      split <;> exact ⟨head, number, size, checks⟩
    · simp at yes
  unfold checkThePacket at accepted
  split at accepted
  · simp at accepted
  rename_i long
  split at accepted
  · simp at accepted
  rename_i head
  have head := not_not.mp head
  have number := c.readHeader_number
  have size := c.readHeader_size
  rw [← c.readHeader_buf] at head number size
  simp only at accepted
  generalize c.readHeader = h at head number size accepted
  split at accepted
  · split at accepted
    · -- The packet was completed by the loops, behind its header.
      obtain ⟨yes, same, -, -⟩ := by simpa only [Prod.mk.injEq] using accepted
      have long : ethHeaderSize ≤ len := Nat.le_of_not_lt long
      refine result yes same ?_ ?_ ?_
      · rw [fillOuter_header long (by decide), head]
      · rw [fillOuter_header long (by decide), number]
      · rw [fillOuter_header long (by decide), size]
    · simp at accepted
  · obtain ⟨yes, same, -, -⟩ := by simpa only [Prod.mk.injEq] using accepted
    exact result yes same head number size

/-- A buffer that passes the checks begins with the image of a packet. -/
theorem packetImage_of_checks {buf : Mem} {size : Nat} (head : buf.read 0 4 = tbwf)
    (field : (size : Int) = i32 (buf.read 4 4)) (checks : packetChecks crc16 buf size = true) :
    buf.read 0 (ethHeaderSize + size) = packetImage crc16 (i32 (buf.read 8 4) % 2 ^ 32).toNat
      (buf.read ethHeaderSize size) := by
  simp only [packetChecks, Bool.and_eq_true, decide_eq_true_eq, Int.toNat_natCast] at checks
  obtain ⟨⟨crc, fourteen⟩, fifteen⟩ := checks
  have positive : 0 ≤ i32 (buf.read 8 4) % 2 ^ 32 := Int.emod_nonneg _ (by decide)
  -- The header is its five fields, one behind the other.
  have header : buf.read 0 ethHeaderSize =
      buf.read 0 4 ++ buf.read 4 4 ++ buf.read 8 4 ++ buf.read 12 2 ++ buf.read 14 2 := by
    rw [← Mem.read_append, ← Mem.read_append buf 0 8, ← Mem.read_append buf 0 12,
      ← Mem.read_append buf 0 14]
    rfl
  have closing : buf.read 14 2 = [0, 0] := by
    show [buf 14, buf 15] = [0, 0]
    rw [fourteen, fifteen]
  have sizeBytes : le32 (buf.read ethHeaderSize size).length = buf.read 4 4 := by
    rw [Mem.read_length, field, le32_i32 (by simp)]
  have numberBytes : le32 ((i32 (buf.read 8 4) % 2 ^ 32).toNat : Int) = buf.read 8 4 := by
    rw [Int.toNat_of_nonneg positive, le32_emod, le32_i32 (by simp)]
  have crcBytes : le16 (crc16 (buf.read ethHeaderSize size)).toNat = buf.read 12 2 := by
    rw [← crc, le16_u16 (by simp)]
  rw [Mem.read_append, Nat.zero_add, header, packetImage, packetHeader, sizeBytes, numberBytes,
    crcBytes, closing, head]

/--
The packet of any payload and number is put together from any pieces of it, and whatever is
accepted with a size that is not negative is the packet that is sent for its payload and number.
-/
theorem packet_round_trip :
    (∀ (n : Net) (size number : Nat) (chunk : List UInt8) (pieces : List (List UInt8))
      (polls more : List Poll) (c : Client) (inp : List WByte) (rest : List UInt8),
      1 ≤ size → size ≤ blockSize →
      chunk ++ pieces.flatten = bytes (n.passed crc16 (.sendEthPacket size number)) →
      ethHeaderSize ≤ chunk.length → c.buf.read 0 chunk.length = chunk →
      bytes inp = pieces.flatten ++ rest → Delivered pieces polls →
      ∃ c' s', checkThePacket crc16 c ⟨inp, polls ++ more⟩ chunk.length =
          (true, c', s', ethHeaderSize + size) ∧ bytes s'.inp = rest ∧
        c'.incomingPacketsCounter = wrap32 number ∧ c'.incomingPacketSize = size ∧
        c'.buf.read ethHeaderSize size = n.rbBuf.read ethHeaderSize size) ∧
    (∀ (c c' : Client) (s s' : Sock) (len len' : Nat),
      checkThePacket crc16 c s len = (true, c', s', len') → 0 ≤ c'.incomingPacketSize →
      ∀ n : Net, n.rbBuf = c'.buf →
        c'.buf.read 0 (ethHeaderSize + c'.incomingPacketSize.toNat) = bytes (n.passed crc16
          (.sendEthPacket c'.incomingPacketSize (c'.incomingPacketsCounter % 2 ^ 32).toNat))) := by
  constructor
  · intro n size number chunk pieces polls more c inp rest _ small cut long front stream delivered
    have length : (n.rbBuf.read ethHeaderSize size).length = size := Mem.read_length _ _ _
    rw [n.passed_sendEthPacket] at cut
    have result := checkThePacket_pieces (by rw [length]; exact small) cut long delivered more
      front stream
    rw [length] at result
    exact result
  · intro c c' s s' len len' accepted nonneg n same
    obtain ⟨head, number, field, checks⟩ := checkThePacket_true accepted
    obtain ⟨size, size_eq⟩ := Int.eq_ofNat_of_zero_le nonneg
    rw [size_eq] at field checks ⊢
    rw [n.passed_sendEthPacket, same, number, Int.toNat_natCast]
    exact packetImage_of_checks head field checks

/-- A state with a payload of two bytes in the buffer of the packets. -/
def twoBytes : Net := { Net.booted with rbBuf := Mem.write (fun _ => 0) ethHeaderSize [7, 9] }

/-- A client that has read the header of their packet. -/
def headerRead : Client :=
  { Client.started with buf := Mem.write (fun _ => 0) 0 (packetHeader checksum 2 3 [7, 9]) }

/-- A packet of two bytes is put together from its header and two pieces. -/
theorem packet_round_trip_two :
    ∃ c' s', checkThePacket checksum headerRead ⟨mark (.packet 3) [7, 9], [⟨1, 1⟩, ⟨1, 1⟩]⟩ 16 =
        (true, c', s', 18) ∧ c'.incomingPacketsCounter = 3 ∧
      c'.buf.read 0 18 =
        bytes ({ twoBytes with rbBuf := c'.buf }.passed checksum (.sendEthPacket 2 3)) := by
  obtain ⟨c', s', accepted, -, number, size, -⟩ := packet_round_trip.1 twoBytes 2 3
    (packetHeader checksum 2 3 [7, 9]) [[7], [9]] [⟨1, 1⟩, ⟨1, 1⟩] [] headerRead
    (mark (.packet 3) [7, 9]) [] (by decide) (by decide) rfl (by decide) rfl rfl
    (by simp [Delivered])
  have converse := packet_round_trip.2 _ c' _ s' _ _ accepted (by rw [size]; decide)
    { twoBytes with rbBuf := c'.buf } rfl
  rw [size, number] at converse
  exact ⟨c', s', accepted, number, converse⟩

end Teetest
