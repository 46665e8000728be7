import Teetest.Console.EthClient

/-!
What one call of `process` can do while a file is received.

The receiving client is seen through the fields a transfer depends on.
Every call is one of six events, each described by the bytes at the front of the unread stream.
-/

namespace Teetest

open Lib

/-- The bytes from the start of a stream that have been read so far stand in the buffer. -/
structure Held (total inp : List WByte) (buf : Mem) (len : Nat) : Prop where
  rest : inp = total.drop len
  bound : len ≤ total.length
  front : buf.read 0 len = (bytes total).take len

/-- Reading more bytes behind those in the buffer keeps the front of the stream there. -/
theorem Held.more {total inp : List WByte} {buf : Mem} {len k : Nat}
    (held : Held total inp buf len) (enough : k ≤ inp.length) :
    Held total (inp.drop k) (buf.write len (bytes (inp.take k))) (len + k) := by
  obtain ⟨rest, bound, front⟩ := held
  have left : inp.length = total.length - len := by rw [rest, List.length_drop]
  have size : (bytes (inp.take k)).length = k := by simp [enough]
  refine ⟨by rw [rest, List.drop_drop], by omega, ?_⟩
  -- The old bytes stay in place, and the new ones are the next of the stream.
  have behind := Mem.read_write_behind buf 0 len (bytes (inp.take k))
  rw [size, Nat.zero_add] at behind
  rw [behind, front, rest, bytes_take, bytes_drop, List.take_add]

/-- A shorter read of the buffer is a shorter piece of the stream. -/
theorem Held.read_take {total inp : List WByte} {buf : Mem} {len n : Nat}
    (held : Held total inp buf len) (short : n ≤ len) :
    buf.read 0 n = (bytes total).take n := by
  rw [← Mem.take_read buf 0 short, held.front, List.take_take, Nat.min_eq_left short]

/-- A field inside the bytes read is a field of the stream. -/
theorem Held.read_field {total inp : List WByte} {buf : Mem} {len off n : Nat}
    (held : Held total inp buf len) (inside : off + n ≤ len) :
    buf.read off n = ((bytes total).drop off).take n := by
  have whole := held.read_take (n := off + n) inside
  have field := congrArg (List.drop off) whole
  rwa [Mem.drop_read, Nat.zero_add, Nat.add_sub_cancel_left, List.drop_take,
    Nat.add_sub_cancel_left] at field

/-- A read of at least one byte returns no more than was asked for. -/
theorem Poll.readSome_le (p : Poll) {n : Nat} (positive : 0 < n) : p.readSome n ≤ n := by
  simp only [readSome]
  omega

/-- The bytes that arrive while a call polls the socket. -/
def arrivals (polls : List Poll) : Nat := (polls.map Poll.arrived).sum

@[simp] theorem arrivals_nil : arrivals [] = 0 := rfl

@[simp] theorem arrivals_cons (p : Poll) (ps : List Poll) :
    arrivals (p :: ps) = p.arrived + arrivals ps := by
  simp [arrivals]

/-- The drain loop reads some bytes from the front of what is unread. -/
theorem drainLoop_drop (cap : Option Nat) (positive : ∀ c, cap = some c → 0 < c)
    (polls : List Poll) (inp : List WByte) (buf : Mem) :
    ∃ k, k + arrivals (drainLoop cap polls inp buf).1.polls ≤ arrivals polls ∧
      (drainLoop cap polls inp buf).1.inp = inp.drop k := by
  induction polls generalizing inp buf with
  | nil => exact ⟨0, by simp [drainLoop], by simp [drainLoop]⟩
  | cons p ps ih =>
    by_cases nothing : min p.arrived inp.length = 0
    · exact ⟨0, by simp [drainLoop, nothing], by simp [drainLoop, nothing]⟩
    · -- One read takes at most what has arrived, and the later ones are bounded by induction.
      have small : 0 < capped cap (min p.arrived inp.length) ∧
          capped cap (min p.arrived inp.length) ≤ p.arrived := by
        cases cap with
        | none => simp only [capped]; omega
        | some c =>
          have := positive c rfl
          simp only [capped]
          split <;> omega
      have few := p.readSome_le small.1
      obtain ⟨k, bound, rest⟩ := ih (inp.drop (p.readSome (capped cap (min p.arrived inp.length))))
        (buf.write 0 (bytes (inp.take (p.readSome (capped cap (min p.arrived inp.length))))))
      simp only [drainLoop, if_neg nothing, arrivals_cons]
      exact ⟨p.readSome (capped cap (min p.arrived inp.length)) + k, by omega,
        by rw [rest, List.drop_drop]⟩

/-- When nothing has arrived at the first poll, the drain loop leaves everything as it is. -/
theorem drainLoop_idle (cap : Option Nat) {polls : List Poll} (inp : List WByte) (buf : Mem)
    (idle : ∀ p, polls.head? = some p → p.arrived = 0) :
    (drainLoop cap polls inp buf).1.inp = inp ∧ (drainLoop cap polls inp buf).2 = buf := by
  cases polls with
  | nil => exact ⟨rfl, rfl⟩
  | cons p ps => simp [drainLoop, idle p rfl]

/-- A size of a packet whose end is behind its header in the 32 bits of an `int`. -/
def Sized (size : Int) : Prop := 0 ≤ size ∧ size + ethHeaderSize < 2 ^ 31

instance (size : Int) : Decidable (Sized size) := by
  unfold Sized
  infer_instance

/-- The end of a packet whose size is in range does not overflow. -/
theorem Sized.packetEnd_eq {size : Int} (sized : Sized size) : packetEnd size = size + ethHeaderSize := by
  obtain ⟨nonneg, below⟩ := sized
  exact wrap32_of_range (by omega) below

/-- Whatever fits into the buffer has a size in range. -/
theorem Sized.of_fits {k : Nat} (fits : k ≤ bufSize) : Sized k := by
  unfold Sized ethHeaderSize
  unfold bufSize at fits
  omega

/-- The size field of a packet is in range exactly if the packet ends behind its header. -/
theorem sized_iff {size : Int} (low : -2 ^ 31 ≤ size) (high : size < 2 ^ 31) :
    Sized size ↔ (ethHeaderSize : Int) ≤ packetEnd size := by
  unfold Sized packetEnd wrap32 ethHeaderSize
  omega

/-- The end of a packet is a value of an `int`. -/
theorem packetEnd_lt (size : Int) : packetEnd size < 2 ^ 31 := (wrap32_range _).2

/-- Nothing overflows in what is needed of a packet that is not complete. -/
theorem needed_eq {size : Int} {len : Nat} (short : (len : Int) ≤ packetEnd size) :
    wrap32 (packetEnd size - len) = packetEnd size - len := by
  have below := packetEnd_lt size
  exact wrap32_of_range (by omega) (by omega)

/-- What the completion loops keep: the front of the stream, and the bounds on what they read. -/
structure Filling (total : List WByte) (size : Int) (len room : Nat) (f : Fill) : Prop where
  held : Held total f.sock.inp f.buf f.len
  grown : len ≤ f.len
  within : f.len + arrivals f.sock.polls ≤ len + room
  stops : (len : Int) ≤ packetEnd size → (f.len : Int) ≤ packetEnd size

/-- A conversion to `size_t` never makes a nonnegative number larger. -/
theorem sizeT_le {z : Int} (nonneg : 0 ≤ z) : (sizeT z : Int) ≤ z := by
  simp only [sizeT]
  omega

/-- What a `read_some` returns, also when it is asked for nothing. -/
def Poll.answer (p : Poll) (n : Nat) : Nat := if n = 0 then 0 else p.readSome n

/-- What the inner loop of `checkThePacket` asks for, of so many bytes that are there. -/
def fillAsk (size : Int) (len bs : Nat) : Nat :=
  let haveSpaceInBuffer : Int := bufSize - len
  let needed := wrap32 (packetEnd size - len)
  let bs := if bs < sizeT haveSpaceInBuffer then bs else sizeT haveSpaceInBuffer
  if bs < sizeT needed then bs else sizeT needed

/-- A read returns no more than it was asked for. -/
theorem Poll.answer_le (p : Poll) (n : Nat) : p.answer n ≤ n := by
  unfold answer
  split_ifs with nothing
  · exact Nat.zero_le _
  · exact p.readSome_le (Nat.pos_of_ne_zero nothing)

/-- A read that is asked for something returns something. -/
theorem Poll.answer_pos (p : Poll) {n : Nat} (positive : 0 < n) : 0 < p.answer n := by
  rw [answer, if_neg (by omega), readSome]
  omega

/-- What is asked for has arrived. -/
theorem fillAsk_le_arrived (size : Int) (len bs : Nat) : fillAsk size len bs ≤ bs := by
  -- Both bounds only make the number smaller.
  simp only [fillAsk]
  split_ifs <;> omega

/-- What is asked for does not go beyond the end of a packet that is not complete. -/
theorem fillAsk_le_needed {size : Int} {len : Nat} (short : (len : Int) ≤ packetEnd size)
    (bs : Nat) : ((len + fillAsk size len bs : Nat) : Int) ≤ packetEnd size := by
  have mod := sizeT_le (z := packetEnd size - len) (by omega)
  simp only [fillAsk, needed_eq short]
  split_ifs <;> omega

/-- What is asked for has arrived, is needed, and there is space for it in the buffer. -/
theorem fillAsk_eq (size : Int) {len : Nat} (fits : len ≤ bufSize) (bs : Nat) :
    fillAsk size len bs = min (min bs (bufSize - len)) (sizeT (wrap32 (packetEnd size - len))) := by
  have bound : bufSize = 2050 := rfl
  have space : sizeT (bufSize - len) = bufSize - len := by
    simp only [sizeT]
    omega
  simp only [fillAsk, space]
  split_ifs <;> omega

/-- A round of the inner loop, with what it asks for under a name. -/
theorem fillInner_cons (size : Int) (p : Poll) (ps : List Poll) (inp : List WByte) (buf : Mem)
    (len : Nat) :
    fillInner size (p :: ps) inp buf len =
      let bs := min p.arrived inp.length
      if bs = 0 then ⟨0, ⟨inp, ps⟩, buf, len⟩
      else
        let bs := fillAsk size len bs
        let k := p.answer bs
        if (len + k : Int) ≥ packetEnd size then
          ⟨k, ⟨inp.drop k, ps⟩, buf.write len (bytes (inp.take k)), len + k⟩
        else fillInner size ps (inp.drop k) (buf.write len (bytes (inp.take k))) (len + k) := rfl

/-- The inner completion loop reads on from the front of the stream, up to the packet's end. -/
theorem fillInner_filling {total : List WByte} (size : Int) (polls : List Poll)
    {inp : List WByte} {buf : Mem} {len : Nat} (held : Held total inp buf len) :
    Filling total size len (arrivals polls) (fillInner size polls inp buf len) := by
  induction polls generalizing inp buf len with
  | nil => exact ⟨held, le_refl _, by simp [fillInner], id⟩
  | cons p ps ih =>
    rw [fillInner_cons]
    dsimp only
    split_ifs with nothing complete
    · exact ⟨held, le_refl _, by simp, id⟩
    · -- The read is bounded by what has arrived, and by what is needed unless that is negative.
      have few := p.answer_le (fillAsk size len (min p.arrived inp.length))
      have arrived := fillAsk_le_arrived size len (min p.arrived inp.length)
      refine ⟨held.more (by omega), by simp, by rw [arrivals_cons]; simp only; omega, fun short => ?_⟩
      have needed := fillAsk_le_needed short (min p.arrived inp.length)
      simp only
      omega
    · have few := p.answer_le (fillAsk size len (min p.arrived inp.length))
      have arrived := fillAsk_le_arrived size len (min p.arrived inp.length)
      -- The later rounds go on behind what this one has read.
      have later := ih (held.more (k := p.answer (fillAsk size len (min p.arrived inp.length))) (by omega))
      have longer := later.grown
      have within := later.within
      refine ⟨later.held, by omega, by rw [arrivals_cons]; omega, fun short => later.stops ?_⟩
      have needed := fillAsk_le_needed short (min p.arrived inp.length)
      omega

/-- Five rounds of the inner loop keep what one keeps. -/
theorem fillOuter_filling {total : List WByte} (size : Int) (rounds : Nat) {f : Fill}
    (held : Held total f.sock.inp f.buf f.len) :
    Filling total size f.len (arrivals f.sock.polls) (fillOuter size rounds f) := by
  induction rounds generalizing f with
  | zero => exact ⟨held, le_refl _, le_refl _, id⟩
  | succ rounds ih =>
    have once := fillInner_filling size f.sock.polls held
    simp only [fillOuter]
    split
    · exact once
    · have later := ih once.held
      have := once.grown
      have := later.grown
      have := once.within
      have := later.within
      exact ⟨later.held, by omega, by omega, fun short => later.stops (once.stops short)⟩

/-- The size field of the header in the buffer. -/
def Client.sizeField (c : Client) : Int := i32 (c.buf.read 4 4)

/-- What the completion loops make of a chunk with a head, if its size is not that of its packet. -/
def Client.filled (c : Client) (s : Sock) (len : Nat) : Fill :=
  if c.sizeField ≠ (len : Int) - ethHeaderSize then fillOuter c.sizeField 5 ⟨0, s, c.buf, len⟩
  else ⟨0, s, c.buf, len⟩

/-- A chunk at the front of a stream, and what completes it, are the front of the stream. -/
theorem Client.filled_filling {total : List WByte} {c : Client} {s : Sock} {len : Nat}
    (held : Held total s.inp c.buf len) :
    Filling total c.sizeField len (arrivals s.polls) (c.filled s len) := by
  unfold Client.filled
  split_ifs
  · -- The loops try to complete the packet.
    exact fillOuter_filling c.sizeField 5 (f := ⟨0, s, c.buf, len⟩) held
  · -- The chunk is as long as its header says.
    exact ⟨held, le_refl _, le_refl _, id⟩

/-- Without a poll, nothing is found to complete a packet with. -/
theorem Client.filled_nil (c : Client) (inp : List WByte) (len : Nat) :
    c.filled ⟨inp, []⟩ len = ⟨0, ⟨inp, []⟩, c.buf, len⟩ := by
  unfold Client.filled
  split_ifs <;> rfl

/-- `checkThePacket` by the header: a chunk without a head is drained, and a packet is completed. -/
theorem checkThePacket_eq (crc16 : List UInt8 → UInt16) (c : Client) (s : Sock) (len : Nat) :
    checkThePacket crc16 c s len =
      if len < ethHeaderSize then (false, c, s, len)
      else if c.buf.read 0 4 ≠ tbwf then
        (false, { c with buf := (drainLoop none s.polls s.inp c.buf).2 },
          (drainLoop none s.polls s.inp c.buf).1, len)
      else if ((c.filled s len).len : Int) ≥ packetEnd c.sizeField then
        ((acceptPacket crc16 c.readHeader (c.filled s len).buf).1,
          (acceptPacket crc16 c.readHeader (c.filled s len).buf).2, (c.filled s len).sock,
          (c.filled s len).len)
      else
        (false, { c.readHeader with buf := (c.filled s len).buf }, (c.filled s len).sock,
          (c.filled s len).len) := by
  have size : c.readHeader.incomingPacketSize = c.sizeField := rfl
  have buf : c.readHeader.buf = c.buf := rfl
  unfold checkThePacket Client.filled
  simp only [size, buf]
  split_ifs with short head whole complete complete
  · rfl
  · rfl
  · rfl
  · rfl
  · rfl
  · -- A chunk of the size of its packet is complete.
    refine absurd (show ((len : Nat) : Int) ≥ packetEnd c.sizeField from ?_) complete
    unfold packetEnd wrap32
    omega

end Teetest
