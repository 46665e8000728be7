import Teetest.Console.Received

/-!
Whether a call of `checkThePacket` comes to its end.

Every round of its loops begins with a call of `socket.available()`.
A call has ended when it leaves a poll unanswered, and one that answers every poll goes on for ever.
-/

namespace Teetest

open Lib

/-- When the bytes arrive that follow a chunk, and what the reads return, by the polls of a call. -/
structure Arrival (total : Nat) where
  -- the bytes that have arrived when the socket is polled, and what its read would return
  arrived : Nat → Nat
  got : Nat → Nat
  grows : Monotone arrived
  bounded : ∀ i, arrived i ≤ total

/-- The first polls of a call, where `taken` tells how many bytes it takes on a list of polls. -/
def Arrival.polls {total : Nat} (a : Arrival total) (taken : List Poll → Nat) : Nat → List Poll
  | 0 => []
  | n + 1 =>
    let before := a.polls taken n
    -- what has arrived and was not read on the polls before
    before ++ [⟨a.arrived n - taken before, a.got n⟩]

section

variable (crc16 : List UInt8 → UInt16) (c : Client) (inp : List WByte) (len : Nat)

/-- What a call of `checkThePacket` leaves of the socket, on a list of polls. -/
def leaves (polls : List Poll) : Sock := (checkThePacket crc16 c ⟨inp, polls⟩ len).2.2.1

/-- A call of `checkThePacket` ends, when the bytes behind its chunk arrive like this. -/
def Arrival.Ends (a : Arrival inp.length) : Prop :=
  ∃ n, (leaves crc16 c inp len
    (a.polls (fun ps => inp.length - (leaves crc16 c inp len ps).inp.length) n)).polls ≠ []

end

/-- There are as many polls as were asked for. -/
theorem Arrival.polls_length {total : Nat} (a : Arrival total) (taken : List Poll → Nat) (n : Nat) :
    (a.polls taken n).length = n := by
  -- Each recursion adds one poll at the end.
  induction n with
  | zero => rfl
  | succ n ih => simp [polls, ih]

/-- Every round of the drain loop but the last reads something. -/
theorem drainLoop_polls (cap : Option Nat) (polls : List Poll) (inp : List WByte) (buf : Mem) :
    (drainLoop cap polls inp buf).1.inp.length ≤ inp.length ∧
      polls.length + (drainLoop cap polls inp buf).1.inp.length ≤
        (drainLoop cap polls inp buf).1.polls.length + inp.length + 1 := by
  induction polls generalizing inp buf with
  | nil => exact ⟨le_refl _, by simp [drainLoop]⟩
  | cons p ps ih =>
    -- The induction follows the polls, one round of the loop after the other.
    simp only [drainLoop]
    split_ifs with nothing
    · -- A poll that finds nothing ends the loop, and is used up by that.
      exact ⟨le_refl _, by simp only [List.length_cons]; omega⟩
    · -- A byte at least was taken out of the stream.
      have taken : 0 < p.readSome (capped cap (min p.arrived inp.length)) := by
        simp only [Poll.readSome]
        omega
      have some_ : 0 < inp.length := by omega
      obtain ⟨shorter, few⟩ := ih
        (inp.drop (p.readSome (capped cap (min p.arrived inp.length))))
        (buf.write 0 (bytes (inp.take (p.readSome (capped cap (min p.arrived inp.length))))))
      rw [List.length_drop] at shorter few
      simp only [List.length_cons]
      omega

/-- A packet that fits into the buffer, or a stream that does, leaves room for every byte that is needed. -/
def Roomy (size : Int) (len : Nat) (inp : List WByte) : Prop :=
  len ≤ bufSize ∧ (packetEnd size ≤ bufSize ∨ len + inp.length ≤ bufSize)

/-- With room in the buffer, a round that finds something and does not end the loop reads a byte. -/
theorem fillInner_polls (size : Int) (polls : List Poll) {inp : List WByte} (buf : Mem) {len : Nat}
    (roomy : Roomy size len inp) :
    Roomy size (fillInner size polls inp buf len).len (fillInner size polls inp buf len).sock.inp ∧
      (fillInner size polls inp buf len).sock.inp.length ≤ inp.length ∧
      polls.length + (fillInner size polls inp buf len).sock.inp.length ≤
        (fillInner size polls inp buf len).sock.polls.length + inp.length + 1 := by
  induction polls generalizing inp buf len with
  | nil => exact ⟨roomy, le_refl _, by simp [fillInner]⟩
  | cons p ps ih =>
    obtain ⟨fits, room⟩ := roomy
    -- The read is described by three facts: what is asked for, and that it is met in part at least.
    have header : ethHeaderSize = 16 := rfl
    have asked := fillAsk_eq size fits (min p.arrived inp.length)
    have few := p.answer_le (fillAsk size len (min p.arrived inp.length))
    have some_ := p.answer_pos (n := fillAsk size len (min p.arrived inp.length))
    rw [fillInner_cons]
    dsimp only
    generalize p.answer (fillAsk size len (min p.arrived inp.length)) = k at few some_ ⊢
    have roomy' : Roomy size (len + k) (inp.drop k) := by
      refine ⟨by omega, ?_⟩
      rw [List.length_drop]
      omega
    have left : (inp.drop k).length = inp.length - k := List.length_drop
    split_ifs with nothing complete
    · -- Nothing has arrived: the poll is used up, and nothing is read.
      exact ⟨⟨fits, room⟩, le_refl _, by simp only [List.length_cons]; omega⟩
    · -- The last round of the loop uses up its poll.
      exact ⟨roomy', left.le.trans (Nat.sub_le _ _), by simp only [List.length_cons, left]; omega⟩
    · -- The packet is not complete, so something was needed, and there was room for it.
      have below := packetEnd_lt size
      have needed : 0 < sizeT (wrap32 (packetEnd size - len)) := by
        rw [needed_eq (by omega)]
        simp only [sizeT]
        omega
      have read : 0 < k := some_ (by omega)
      obtain ⟨kept, shorter, later⟩ := ih (buf.write len (bytes (inp.take k))) roomy'
      refine ⟨kept, by omega, ?_⟩
      simp only [List.length_cons]
      omega

/-- The rounds of the outer loop use up one poll each, and one for every byte that is read. -/
theorem fillOuter_polls (size : Int) (rounds : Nat) {f : Fill} (roomy : Roomy size f.len f.sock.inp) :
    (fillOuter size rounds f).sock.inp.length ≤ f.sock.inp.length ∧
      f.sock.polls.length + (fillOuter size rounds f).sock.inp.length ≤
        (fillOuter size rounds f).sock.polls.length + f.sock.inp.length + rounds := by
  induction rounds generalizing f with
  | zero => exact ⟨le_refl _, le_refl _⟩
  | succ rounds ih =>
    -- One round of the outer loop is a whole inner loop, and leaves as much room.
    obtain ⟨kept, shorter, few⟩ := fillInner_polls size f.sock.polls f.buf roomy
    simp only [fillOuter]
    split_ifs
    · -- A round that ends with nothing read is the last one.
      exact ⟨shorter, by omega⟩
    · obtain ⟨shorter', few'⟩ := ih kept
      exact ⟨by omega, by omega⟩

section

variable (crc16 : List UInt8 → UInt16) {c : Client} {inp : List WByte} {len : Nat}

/-- What is left of the socket depends on the header and on the loop it leads to. -/
theorem leaves_eq (polls : List Poll) :
    leaves crc16 c inp len polls =
      if len < ethHeaderSize then ⟨inp, polls⟩
      else if c.buf.read 0 4 ≠ tbwf then (drainLoop none polls inp c.buf).1
      else (c.filled ⟨inp, polls⟩ len).sock := by
  unfold leaves
  rw [checkThePacket_eq]
  -- Each branch of the check hands its socket on.
  split_ifs <;> rfl

/-- Without a poll, none is left unanswered. -/
theorem leaves_nil : (leaves crc16 c inp len []).polls = [] := by
  -- No loop takes a poll out of an empty list.
  rw [leaves_eq, Client.filled]
  split_ifs <;> rfl

/--
A header whose packet fits into the buffer, with the stream behind it or without.

The end of a packet that overflows is negative, and fits.
-/
def Fitting (c : Client) (inp : List WByte) (len : Nat) : Prop :=
  len < ethHeaderSize ∨ c.buf.read 0 4 ≠ tbwf ∨ packetEnd c.sizeField ≤ bufSize ∨
    len + inp.length ≤ bufSize

/-- With a fitting header, a call uses a few polls, and one for every byte that it reads. -/
theorem leaves_polls (small : len ≤ readSize) (fitting : Fitting c inp len) (polls : List Poll) :
    polls.length ≤ (leaves crc16 c inp len polls).polls.length + inp.length + 5 := by
  -- The chunk itself fits into the buffer, as every read of it does.
  have room : readSize ≤ bufSize := by decide
  rw [leaves_eq, Client.filled]
  split_ifs with short head whole
  · -- Too little for a header: no poll is made.
    simp only
    omega
  · -- No head: the drain loop uses one poll more than it reads bytes.
    have := drainLoop_polls none polls inp c.buf
    omega
  · -- Five rounds of the completion loops.
    have roomy : Roomy c.sizeField len inp := by
      refine ⟨by omega, ?_⟩
      rcases fitting with little | other | fits | fits
      · exact absurd little short
      · exact absurd other head
      · exact .inl fits
      · exact .inr fits
    -- Of the start with the chunk in the buffer, this is the bound of the outer loop.
    have := fillOuter_polls c.sizeField 5 (f := ⟨0, ⟨inp, polls⟩, c.buf, len⟩) roomy
    simp only at this
    omega
  · -- The chunk is a whole packet, and no poll is made.
    simp only
    omega

/-- The bytes behind a chunk arrive at once. -/
def atOnce (total : Nat) : Arrival total where
  arrived _ := total
  got _ := total
  grows := monotone_const
  bounded _ := le_refl _

/-- Once the buffer is full, polls that find something are answered by reads of nothing. -/
theorem fillInner_full {size : Int} (large : bufSize < packetEnd size) (inp : List WByte)
    (left : inp ≠ []) (polls : List Poll) (arrived : ∀ p ∈ polls, 0 < p.arrived) (buf : Mem) :
    ∃ buf', fillInner size polls inp buf bufSize = ⟨0, ⟨inp, []⟩, buf', bufSize⟩ := by
  induction polls generalizing buf with
  | nil => exact ⟨buf, rfl⟩
  | cons p ps ih =>
    -- The bytes that are left do not fit, and never get shorter.
    have positive := arrived p (by simp)
    have some_ := List.length_pos_iff.mpr left
    -- No space is left, so nothing is read, and the packet is not complete.
    have none : fillAsk size bufSize (min p.arrived inp.length) = 0 := by
      rw [fillAsk_eq size (le_refl _)]
      omega
    rw [fillInner_cons]
    dsimp only
    rw [if_neg (by omega), none, Poll.answer, if_pos rfl, if_neg (by simp; omega)]
    exact ih (fun p member => arrived p (by simp [member])) _

/-- A full buffer answers every poll, and the packet is never complete. -/
theorem fillOuter_full {size : Int} (large : bufSize < packetEnd size) {inp : List WByte}
    (more : bufSize < len + inp.length) (small : len < bufSize) (first : Poll)
    (whole : inp.length ≤ first.arrived ∧ inp.length ≤ first.got) (polls : List Poll)
    (arrived : ∀ p ∈ polls, 0 < p.arrived) (buf : Mem) :
    (fillOuter size 5 ⟨0, ⟨inp, first :: polls⟩, buf, len⟩).sock = ⟨inp.drop (bufSize - len), []⟩ := by
  have header : ethHeaderSize = 16 := rfl
  have bound : bufSize = 2050 := rfl
  have filled : ∃ buf', fillInner size (first :: polls) inp buf len =
      fillInner size polls (inp.drop (bufSize - len)) buf' bufSize := by
    -- More is needed than there is space for, so the space decides.
    have below := packetEnd_lt size
    have needed : bufSize - len < sizeT (wrap32 (packetEnd size - len)) := by
      rw [needed_eq (by omega)]
      simp only [sizeT]
      omega
    have ask : fillAsk size len (min first.arrived inp.length) = bufSize - len := by
      rw [fillAsk_eq size (by omega)]
      omega
    have read : first.answer (bufSize - len) = bufSize - len := by
      rw [Poll.answer, if_neg (by omega), Poll.readSome]
      omega
    -- The first read fills the buffer.
    rw [fillInner_cons]
    dsimp only
    rw [if_neg (by omega), ask, read, if_neg (by omega), show len + (bufSize - len) = bufSize by omega]
    exact ⟨_, rfl⟩
  -- From then on every poll is answered in vain, until the list of them is over.
  obtain ⟨buf', step⟩ := filled
  obtain ⟨buf'', stuck⟩ := fillInner_full large (inp.drop (bufSize - len))
    (List.ne_nil_of_length_pos (by rw [List.length_drop]; omega)) polls arrived buf'
  rw [fillOuter]
  simp only [step, stuck]
  rfl

/-- When all bytes are there at once and overfill the buffer, the polls of a call are these. -/
theorem atOnce_polls (small : len ≤ readSize) (unfit : ¬ Fitting c inp len) (n : Nat) :
    (atOnce inp.length).polls
      (fun ps => inp.length - (leaves crc16 c inp len ps).inp.length) (n + 1) =
        ⟨inp.length, inp.length⟩ ::
          List.replicate n ⟨inp.length - (bufSize - len), inp.length⟩ ∧
      leaves crc16 c inp len ((atOnce inp.length).polls
        (fun ps => inp.length - (leaves crc16 c inp len ps).inp.length) (n + 1)) =
          ⟨inp.drop (bufSize - len), []⟩ := by
  have room : readSize < bufSize := by decide
  have header : ethHeaderSize = 16 := rfl
  simp only [Fitting, not_or, not_lt, not_not, not_le] at unfit
  obtain ⟨long, head, large, more⟩ := unfit
  -- The header leads to the completion loops.
  have differs : c.sizeField ≠ (len : Int) - ethHeaderSize := by
    -- A chunk as long as its header says would end inside the buffer.
    intro whole
    rw [packetEnd, whole, Int.sub_add_cancel, wrap32_of_range (by omega) (by unfold readSize at small; omega)]
      at large
    omega
  have loops (polls : List Poll) : leaves crc16 c inp len polls =
      (fillOuter c.sizeField 5 ⟨0, ⟨inp, polls⟩, c.buf, len⟩).sock := by
    rw [leaves_eq, if_neg (by omega), if_neg (by simpa using head), Client.filled, if_pos differs]
  -- With the stream there at once, the first poll fills the buffer and the others find the rest.
  have stuck (k : Nat) : leaves crc16 c inp len (⟨inp.length, inp.length⟩ ::
      List.replicate k ⟨inp.length - (bufSize - len), inp.length⟩) =
        ⟨inp.drop (bufSize - len), []⟩ := by
    rw [loops]
    refine fillOuter_full large more (by omega) _ ⟨le_refl _, le_refl _⟩ _ ?_ _
    intro p member
    rw [List.eq_of_mem_replicate member]
    simp only
    omega
  have same : (atOnce inp.length).polls
      (fun ps => inp.length - (leaves crc16 c inp len ps).inp.length) (n + 1) =
        ⟨inp.length, inp.length⟩ ::
          List.replicate n ⟨inp.length - (bufSize - len), inp.length⟩ := by
    induction n with
    | zero =>
      -- The first poll finds the whole stream.
      have start : leaves crc16 c inp len [] = ⟨inp, []⟩ := by
        rw [loops]
        rfl
      simp [Arrival.polls, atOnce, start]
    | succ n ih =>
      -- The next poll finds what did not fit.
      rw [Arrival.polls, ih]
      simp only [stuck, List.length_drop, atOnce, List.cons_append, List.replicate_succ']
      congr 4
      omega
  exact ⟨same, by rw [same, stuck]⟩

/-- With an unfit header, a call never ends when all bytes are there at once. -/
theorem not_ends_of_unfit (small : len ≤ readSize) (unfit : ¬ Fitting c inp len) :
    ¬ (atOnce inp.length).Ends crc16 c inp len := by
  rintro ⟨n, unanswered⟩
  cases n with
  | zero =>
    -- No poll was made yet, so there is none to leave unanswered.
    exact unanswered (leaves_nil crc16)
  | succ n =>
    rw [(atOnce_polls crc16 small unfit n).2] at unanswered
    exact unanswered rfl

/--
A call of `checkThePacket` ends, however the bytes behind its chunk arrive, exactly if its packet or
all of these bytes fit into the buffer, where the end of the packet is the 32-bit sum that is compared.
-/
theorem checkThePacket_ends_iff (small : len ≤ readSize) :
    (∀ a : Arrival inp.length, a.Ends crc16 c inp len) ↔ Fitting c inp len := by
  constructor
  · intro ends
    by_contra unfit
    exact not_ends_of_unfit crc16 small unfit (ends _)
  · intro fitting a
    -- One poll for every byte, one for each round of the outer loop, and one that is left.
    refine ⟨inp.length + 6, fun none => ?_⟩
    have few := leaves_polls crc16 small fitting (a.polls
      (fun ps => inp.length - (leaves crc16 c inp len ps).inp.length) (inp.length + 6))
    rw [none, a.polls_length, List.length_nil] at few
    omega

end

/-- A client whose buffer begins with a header that gives this size. -/
def headed (size : Int) : Client :=
  { Client.started with buf := Client.started.buf.write 0 (tbwf ++ le32 size) }

/-- Zeros behind a header. -/
def zeros (n : Nat) : List WByte := List.replicate n ⟨0, .packet 1, false⟩

/-- A full packet of which only the header has come: the call ends, whatever follows it. -/
theorem checkThePacket_ends_full :
    16 ≤ readSize ∧
      ∀ a : Arrival (zeros 1008).length, a.Ends (fun _ => 0) (headed 1008) (zeros 1008) 16 :=
  ⟨by decide, (checkThePacket_ends_iff (fun _ => 0) (by decide)).mpr (.inr (.inr (.inl (by decide))))⟩

/-- A header with the size 3000 and enough bytes behind it: the call never ends. -/
theorem checkThePacket_endless : ¬ ∀ (crc16 : List UInt8 → UInt16) (c : Client) (inp : List WByte)
    (len : Nat), len ≤ readSize → ∀ a : Arrival inp.length, a.Ends crc16 c inp len := by
  intro ends
  refine not_ends_of_unfit (fun _ => 0) (show 16 ≤ readSize by decide) ?_
    (ends _ (headed 3000) (zeros 2050) 16 (by decide) _)
  -- Chunk and stream are 2066 bytes, and the packet would be 3016.
  have length : (zeros 2050).length = 2050 := List.length_replicate
  rw [Fitting, length]
  decide

end Teetest
