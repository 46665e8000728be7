import Teetest.Console.Ending

/-!
The ranges of the buffer that a call asks the socket to write to, and those it reads as a packet.

There are three places that read from the socket, each with a bound of its own or none.
-/

namespace Teetest

open Lib

/-- A range of the buffer: its offset and its length. -/
abbrev Range := Nat × Nat

/-- A range lies inside the buffer. -/
def Inside (r : Range) : Prop := r.1 + r.2 ≤ bufSize

/-- A byte of the buffer that none of some ranges covers. -/
def Uncovered (i : Nat) (ranges : List Range) : Prop := ∀ r ∈ ranges, i < r.1 ∨ r.1 + r.2 ≤ i

/-- The answers of `available()` that a drain loop goes on with. -/
def drainAnswers (cap : Option Nat) : List Poll → List WByte → List Nat
  | [], _ => []
  | p :: ps, inp =>
    let bs := min p.arrived inp.length
    if bs = 0 then [] else bs :: drainAnswers cap ps (inp.drop (p.readSome (capped cap bs)))

/-- The ranges that a drain loop reads to. -/
def drainReads (cap : Option Nat) (polls : List Poll) (inp : List WByte) : List Range :=
  (drainAnswers cap polls inp).map fun bs => (0, capped cap bs)

/-- The ranges that the inner loop of `checkThePacket` reads to. -/
def fillInnerReads (size : Int) : List Poll → List WByte → Nat → List Range
  | [], _, _ => []
  | p :: ps, inp, len =>
    let bs := min p.arrived inp.length
    if bs = 0 then []
    else
      let bs := fillAsk size len bs
      let k := p.answer bs
      (len, bs) ::
        if (len + k : Int) ≥ packetEnd size then []
        else fillInnerReads size ps (inp.drop k) (len + k)

/-- The ranges that the outer loop of `checkThePacket` reads to. -/
def fillOuterReads (size : Int) : Nat → Fill → List Range
  | 0, _ => []
  | rounds + 1, f =>
    fillInnerReads size f.sock.polls f.sock.inp f.len ++
      let f := fillInner size f.sock.polls f.sock.inp f.buf f.len
      if f.bs < 1 then [] else fillOuterReads size rounds f

/-- What is asked for is there, and there is space for it. -/
theorem fillAsk_le (size : Int) {len : Nat} (fits : len ≤ bufSize) (bs : Nat) :
    fillAsk size len bs ≤ bufSize - len ∧ fillAsk size len bs ≤ bs := by
  -- Of the three bounds, two are kept here.
  rw [fillAsk_eq size fits]
  omega

/-- The drain loop changes only what it reads to. -/
theorem drainLoop_frame (cap : Option Nat) (polls : List Poll) (inp : List WByte) (buf : Mem) {i : Nat}
    (positive : ∀ n, cap = some n → 0 < n) (free : Uncovered i (drainReads cap polls inp)) :
    (drainLoop cap polls inp buf).2 i = buf i := by
  induction polls generalizing inp buf with
  | nil => rfl
  | cons p ps ih =>
    -- The induction follows the polls, and the ranges along with them.
    simp only [drainReads, drainAnswers] at free
    simp only [drainLoop]
    split_ifs at free ⊢ with nothing
    · -- Nothing was found, so nothing is written.
      rfl
    · simp only [List.map_cons] at free
      have asked : 0 < capped cap (min p.arrived inp.length) := by
        cases cap with
        | none => exact Nat.pos_of_ne_zero nothing
        | some n =>
          -- A clamp of some bytes still lets some through.
          have := positive n rfl
          simp only [capped]
          split_ifs <;> omega
      -- The byte is behind what was asked for, and so behind what was read.
      have behind := free _ List.mem_cons_self
      have few := p.readSome_le asked
      rw [ih _ _ fun r member => free r (List.mem_cons_of_mem _ member)]
      refine Mem.write_outside _ (.inr ?_)
      rw [bytes_length, List.length_take]
      omega

/-- The inner loop changes only what it reads to. -/
theorem fillInner_frame (size : Int) (polls : List Poll) (inp : List WByte) (buf : Mem) (len : Nat)
    {i : Nat} (free : Uncovered i (fillInnerReads size polls inp len)) :
    (fillInner size polls inp buf len).buf i = buf i := by
  induction polls generalizing inp buf len with
  | nil => rfl
  | cons p ps ih =>
    rw [fillInner_cons]
    simp only [fillInnerReads] at free
    dsimp only at free ⊢
    split_ifs at free ⊢ with nothing complete
    · -- Nothing was found, so nothing is written.
      rfl
    · -- The last read of the loop.
      have outside := free _ List.mem_cons_self
      have few := p.answer_le (fillAsk size len (min p.arrived inp.length))
      refine Mem.write_outside _ ?_
      rw [bytes_length, List.length_take]
      omega
    · -- The later rounds leave the byte alone, and so does this one.
      have outside := free _ List.mem_cons_self
      have few := p.answer_le (fillAsk size len (min p.arrived inp.length))
      rw [ih _ _ _ fun r member => free r (List.mem_cons_of_mem _ member)]
      refine Mem.write_outside _ ?_
      rw [bytes_length, List.length_take]
      omega

/-- The reads of the inner loop stay inside the buffer, and so does what it has received. -/
theorem fillInner_inside (size : Int) (polls : List Poll) (inp : List WByte) (buf : Mem) {len : Nat}
    (fits : len ≤ bufSize) :
    (∀ r ∈ fillInnerReads size polls inp len, Inside r) ∧
      len ≤ (fillInner size polls inp buf len).len ∧
      (fillInner size polls inp buf len).len ≤ bufSize := by
  induction polls generalizing inp buf len with
  | nil => exact ⟨by simp [fillInnerReads], le_refl _, fits⟩
  | cons p ps ih =>
    -- A read begins behind what was received, and its length is what there is space for.
    have ask := fillAsk_le size fits (min p.arrived inp.length)
    have few := p.answer_le (fillAsk size len (min p.arrived inp.length))
    have inside : Inside (len, fillAsk size len (min p.arrived inp.length)) := by
      unfold Inside
      omega
    rw [fillInner_cons]
    simp only [fillInnerReads]
    split_ifs with nothing complete
    · -- The loop is left before it reads.
      exact ⟨by simp, le_refl _, fits⟩
    · -- One read, which completes the packet.
      exact ⟨by simpa using inside, Nat.le_add_right _ _, by simp only; omega⟩
    · -- The later reads go on behind this one.
      obtain ⟨later, longer, bounded⟩ := ih
        (inp.drop (p.answer (fillAsk size len (min p.arrived inp.length))))
        (buf.write len (bytes (inp.take (p.answer (fillAsk size len (min p.arrived inp.length))))))
        (show len + p.answer (fillAsk size len (min p.arrived inp.length)) ≤ bufSize by omega)
      refine ⟨?_, by omega, bounded⟩
      intro r member
      rcases List.mem_cons.mp member with rfl | member
      · exact inside
      · exact later r member

/-- The reads of the outer loop stay inside the buffer, and so does what it has received. -/
theorem fillOuter_inside (size : Int) (rounds : Nat) {f : Fill} (fits : f.len ≤ bufSize) :
    (∀ r ∈ fillOuterReads size rounds f, Inside r) ∧ f.len ≤ (fillOuter size rounds f).len ∧
      (fillOuter size rounds f).len ≤ bufSize := by
  induction rounds generalizing f with
  | zero => exact ⟨by simp [fillOuterReads], le_refl _, fits⟩
  | succ rounds ih =>
    -- The reads of a round are those of its inner loop, and the next round begins where it ended.
    obtain ⟨reads, longer, bounded⟩ := fillInner_inside size f.sock.polls f.sock.inp f.buf fits
    simp only [fillOuterReads, fillOuter]
    split_ifs
    · -- The last round.
      exact ⟨by simpa using reads, longer, bounded⟩
    · obtain ⟨later, longer', bounded'⟩ := ih bounded
      refine ⟨?_, by omega, bounded'⟩
      intro r member
      rcases List.mem_append.mp member with member | member
      · exact reads r member
      · exact later r member

/-- The outer loop changes only what it reads to. -/
theorem fillOuter_frame (size : Int) (rounds : Nat) (f : Fill) {i : Nat}
    (free : Uncovered i (fillOuterReads size rounds f)) : (fillOuter size rounds f).buf i = f.buf i := by
  induction rounds generalizing f with
  | zero => rfl
  | succ rounds ih =>
    simp only [fillOuterReads] at free
    have once := fillInner_frame size f.sock.polls f.sock.inp f.buf f.len
      fun r member => free r (List.mem_append_left _ member)
    simp only [fillOuter]
    split_ifs at free ⊢
    · -- The last round.
      exact once
    · rw [ih _ fun r member => free r (List.mem_append_right _ member), once]

/-- The ranges that `checkThePacket` reads to. -/
def checkReads (c : Client) (s : Sock) (len : Nat) : List Range :=
  if len < ethHeaderSize then []
  else if c.buf.read 0 4 ≠ tbwf then drainReads none s.polls s.inp
  else if c.sizeField ≠ (len : Int) - ethHeaderSize then
    fillOuterReads c.sizeField 5 ⟨0, s, c.buf, len⟩
  else []

/-- The length of the payload that the CRC is computed of, and the number of bytes received until then. -/
def crcRange (c : Client) (s : Sock) (len : Nat) : Option (Int × Nat) :=
  if len < ethHeaderSize ∨ c.buf.read 0 4 ≠ tbwf then none
  else if ((c.filled s len).len : Int) ≥ packetEnd c.sizeField then
    some (c.sizeField, (c.filled s len).len)
  else none

section

variable (crc16 : List UInt8 → UInt16)

/-- The ranges that state 2 of `readingTheFile` reads to. -/
def Client.receivingReads (c : Client) (s : Sock) (len : Nat) : List Range :=
  let r := checkThePacket crc16 c s len
  checkReads c s len ++ if r.1 then [] else drainReads (some bufSize) r.2.2.1.polls r.2.2.1.inp

/-- A payload of this length was received with its header. -/
def Whole (size : Int) (received : Nat) : Prop := 0 ≤ size ∧ size + ethHeaderSize ≤ received

/-- A call touches the memory inside the buffer only, and what it takes for a payload was received. -/
structure Client.Contained (c : Client) (s : Sock) (len : Nat) : Prop where
  reads : ∀ r ∈ c.receivingReads crc16 s len, Inside r
  received : (checkThePacket crc16 c s len).2.2.2 ≤ bufSize
  crc : ∀ r ∈ crcRange c s len, Whole r.1 r.2
  fwrite : (checkThePacket crc16 c s len).1 = true →
    Whole (checkThePacket crc16 c s len).2.1.incomingPacketSize (checkThePacket crc16 c s len).2.2.2

/-- What the header and the socket have to grant to a call. -/
def Client.Harmless (c : Client) (s : Sock) (len : Nat) : Prop :=
  ethHeaderSize ≤ len →
    if c.buf.read 0 4 = tbwf then Sized c.sizeField
    else ∀ answer ∈ drainAnswers none s.polls s.inp, answer ≤ bufSize

instance (c : Client) (s : Sock) (len : Nat) : Decidable (c.Harmless s len) := by
  unfold Client.Harmless
  infer_instance

variable {crc16} {c : Client} {s : Sock} {len : Nat}

/-- Accepting a packet keeps the buffer and the two fields of its header. -/
theorem acceptPacket_kept (c : Client) (buf : Mem) :
    (acceptPacket crc16 c buf).2.buf = buf ∧
      (acceptPacket crc16 c buf).2.incomingPacketSize = c.incomingPacketSize ∧
      (acceptPacket crc16 c buf).2.incomingPacketsCounter = c.incomingPacketsCounter := by
  -- The counter is all that changes.
  simp only [acceptPacket]
  split_ifs <;> exact ⟨rfl, rfl, rfl⟩

/-- The fields of a packet that passes the checks are those of its header, and its end was received. -/
theorem checkThePacket_accepted (accepted : (checkThePacket crc16 c s len).1 = true) :
    ethHeaderSize ≤ len ∧ c.buf.read 0 4 = tbwf ∧
      (checkThePacket crc16 c s len).2.1.incomingPacketsCounter = i32 (c.buf.read 8 4) ∧
      (checkThePacket crc16 c s len).2.1.incomingPacketSize = c.sizeField ∧
      packetEnd c.sizeField ≤ (checkThePacket crc16 c s len).2.2.2 := by
  rw [checkThePacket_eq] at accepted ⊢
  by_cases short : len < ethHeaderSize
  · -- Too little for a header is not accepted.
    simp [short] at accepted
  by_cases head : c.buf.read 0 4 ≠ tbwf
  · -- A chunk without a head is not accepted.
    simp [short, head] at accepted
  by_cases complete : ((c.filled s len).len : Int) ≥ packetEnd c.sizeField
  · -- The header is read before the checks, which keep it.
    simp only [if_neg short, if_neg head, if_pos complete, acceptPacket_kept]
    exact ⟨not_lt.mp short, not_not.mp head, rfl, rfl, complete⟩
  · -- A packet that is not complete is not accepted.
    simp [short, head, complete] at accepted

/-- A packet that passes the checks is the one that the CRC was computed of. -/
theorem crcRange_of_accepted (accepted : (checkThePacket crc16 c s len).1 = true) :
    crcRange c s len = some ((checkThePacket crc16 c s len).2.1.incomingPacketSize,
      (checkThePacket crc16 c s len).2.2.2) := by
  obtain ⟨long, head, -, size, complete⟩ := checkThePacket_accepted accepted
  have received : (checkThePacket crc16 c s len).2.2.2 = (c.filled s len).len := by
    rw [checkThePacket_eq, if_neg (by omega), if_neg (not_not.mpr head)]
    split_ifs <;> rfl
  rw [received] at complete
  rw [crcRange, if_neg (by simp [head, not_lt.mpr long]), if_pos complete, size, received]

/-- Outside the ranges that it reads to, `checkThePacket` changes no byte of the memory. -/
theorem checkThePacket_frame {i : Nat} (free : Uncovered i (checkReads c s len)) :
    (checkThePacket crc16 c s len).2.1.buf i = c.buf i := by
  rw [checkThePacket_eq]
  unfold checkReads at free
  by_cases short : len < ethHeaderSize
  · rw [if_pos short]
  by_cases head : c.buf.read 0 4 ≠ tbwf
  · -- The drain loop writes from the start of the buffer.
    rw [if_neg short, if_pos head] at free ⊢
    exact drainLoop_frame none s.polls s.inp c.buf (by simp) free
  rw [if_neg short, if_neg head] at free ⊢
  -- Both ends of a completed packet keep the buffer that the loops have filled.
  have same : (c.filled s len).buf i = c.buf i := by
    unfold Client.filled
    split_ifs at free ⊢
    · exact fillOuter_frame c.sizeField 5 _ free
    · rfl
  split_ifs
  · simp only [acceptPacket_kept]
    exact same
  · exact same

/-- The drain of a bad chunk is clamped to the buffer. -/
theorem drainReads_inside (polls : List Poll) (inp : List WByte) :
    ∀ r ∈ drainReads (some bufSize) polls inp, Inside r := by
  intro r member
  obtain ⟨bs, -, rfl⟩ := List.mem_map.mp member
  -- What is asked for is at most the size of the buffer.
  simp only [Inside, capped]
  split_ifs <;> omega

/-- The drain of a chunk without a head is clamped by nothing. -/
theorem drainReads_inside_iff (polls : List Poll) (inp : List WByte) :
    (∀ r ∈ drainReads none polls inp, Inside r) ↔
      ∀ answer ∈ drainAnswers none polls inp, answer ≤ bufSize := by
  simp [drainReads, Inside, capped]

/-- The completion loops stay inside the buffer, and so does what they have received. -/
theorem Client.filled_inside (fits : len ≤ bufSize) :
    len ≤ (c.filled s len).len ∧ (c.filled s len).len ≤ bufSize := by
  -- The loops are entered only if the chunk is not as long as its header says.
  unfold Client.filled
  split_ifs
  · exact (fillOuter_inside c.sizeField 5 (f := ⟨0, s, c.buf, len⟩) fits).2
  · exact ⟨le_refl _, fits⟩

/-- The reads of `checkThePacket` stay inside the buffer, unless a chunk without a head is drained. -/
theorem checkReads_inside_iff (fits : len ≤ bufSize) :
    (∀ r ∈ checkReads c s len, Inside r) ↔
      (ethHeaderSize ≤ len → c.buf.read 0 4 ≠ tbwf →
        ∀ answer ∈ drainAnswers none s.polls s.inp, answer ≤ bufSize) := by
  unfold checkReads
  split_ifs with short head whole
  · -- Too little for a header: nothing is read.
    simp [short]
  · -- No head: what the drain loop asks for is the answer it got.
    rw [drainReads_inside_iff]
    exact ⟨fun bounded _ _ => bounded, fun bounded => bounded (not_lt.mp short) head⟩
  · -- A head: the completion loops are bounded by the space that is left.
    have inside := (fillOuter_inside c.sizeField 5 (f := ⟨0, s, c.buf, len⟩) fits).1
    exact ⟨fun _ _ other => absurd other head, fun _ => inside⟩
  · -- A whole packet: nothing is read.
    exact ⟨fun _ _ other => absurd other head, fun _ => by simp⟩

/-- A packet is whole when the CRC is computed of it, if its size is in range. -/
theorem crcRange_whole_iff (fits : len ≤ bufSize) :
    (∀ r ∈ crcRange c s len, Whole r.1 r.2) ↔
      (ethHeaderSize ≤ len → c.buf.read 0 4 = tbwf → Sized c.sizeField) := by
  have int := wrap32_range (u32 (c.buf.read 4 4))
  have sized : Sized c.sizeField ↔ (ethHeaderSize : Int) ≤ packetEnd c.sizeField := sized_iff int.1 int.2
  -- The loops only add to what was received, so at least the header is there.
  have grown := (Client.filled_inside (c := c) (s := s) fits).1
  unfold crcRange
  split_ifs with other complete
  · -- Without a header no CRC is computed.
    refine ⟨fun _ long head => ?_, fun _ => by simp⟩
    rcases other with short | differs
    · omega
    · exact absurd head differs
  · -- The packet is complete, so only the range of its size is open.
    simp only [Option.mem_def, Option.some.injEq, forall_eq', Whole]
    have few : bufSize = 2050 := rfl
    constructor
    · exact fun whole _ _ => ⟨whole.1, by have := (Client.filled_inside (c := c) (s := s) fits).2; omega⟩
    · intro inRange
      simp only [not_or, not_lt, not_not] at other
      have end_ := (inRange other.1 other.2).packetEnd_eq
      exact ⟨(inRange other.1 other.2).1, by omega⟩
  · -- A packet whose size is out of range is complete at once.
    refine ⟨fun _ long _ => sized.mpr (by omega), fun _ => by simp⟩

variable (crc16) in
/-- The reads of state 2 stay inside the buffer, unless a chunk without a head is drained. -/
theorem receivingReads_inside_iff (fits : len ≤ bufSize) :
    (∀ r ∈ c.receivingReads crc16 s len, Inside r) ↔
      (ethHeaderSize ≤ len → c.buf.read 0 4 ≠ tbwf →
        ∀ answer ∈ drainAnswers none s.polls s.inp, answer ≤ bufSize) := by
  rw [← checkReads_inside_iff fits]
  constructor
  · exact fun inside r member => inside r (List.mem_append_left _ member)
  · intro inside r member
    rcases List.mem_append.mp member with member | member
    · exact inside r member
    · -- Behind a bad packet, the drain is clamped.
      split_ifs at member
      · simp at member
      · exact drainReads_inside _ _ r member

/--
State 2 stays inside its buffer exactly if the size field of a packet is in range and no more than the
buffer's size is found at once when a chunk without a head is drained.
-/
theorem receiving_contained_iff (small : len ≤ readSize) :
    c.Contained crc16 s len ↔ c.Harmless s len := by
  -- The reads and the CRC are each decided by the header and the answers.
  have fits : len ≤ bufSize := small.trans (by decide)
  have reads_iff := receivingReads_inside_iff crc16 (c := c) (s := s) fits
  have crc_iff := crcRange_whole_iff (c := c) (s := s) fits
  constructor
  · intro contained long
    split_ifs with head
    · exact crc_iff.mp contained.crc long head
    · exact reads_iff.mp contained.reads long head
  · intro harmless
    have crc := crc_iff.mpr fun long head => by simpa [head] using harmless long
    refine ⟨?_, ?_, crc, fun accepted => crc _ (crcRange_of_accepted accepted)⟩
    · exact reads_iff.mpr fun long head => by simpa [head] using harmless long
    · -- What was received stands in the buffer, whatever branch it came through.
      rw [checkThePacket_eq]
      split_ifs
      · exact fits
      · exact fits
      · exact (Client.filled_inside fits).2
      · exact (Client.filled_inside fits).2

end

/-- A packet of three bytes, of which the header has come as a chunk. -/
theorem receiving_contained_short :
    (headed 3).Contained (fun _ => 0) ⟨zeros 3, [⟨3, 3⟩]⟩ 16 :=
  (receiving_contained_iff (by decide)).mpr (by decide)

/-- A chunk without a head, behind which more has arrived than fits into the buffer. -/
theorem receiving_not_contained : ¬ ∀ (crc16 : List UInt8 → UInt16) (c : Client) (s : Sock) (len : Nat),
    1 ≤ len → len ≤ readSize → c.Contained crc16 s len := by
  intro contained
  have reads := (contained (fun _ => 0) .started ⟨zeros 2051, [⟨2051, 2051⟩]⟩ 16 (by decide)
    -- The drain loop asks for all that was found.
    (by decide)).reads
  have length : (zeros 2051).length = 2051 := List.length_replicate
  have inside := reads (0, 2051) (List.mem_append_left _ ?_)
  · exact absurd (show 2051 ≤ bufSize by simpa [Inside] using inside) (by decide)
  · rw [checkReads, if_neg (by decide), if_pos (by decide), drainReads, drainAnswers, length]
    exact List.mem_cons_self

end Teetest
