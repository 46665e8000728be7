import Teetest.Commands.Receiver
import Teetest.Commands.Remote

/-!
The frames of the remote control, from the lamp of the sender to the command that is processed.

The interrupt takes its samples at its own times, and the receiver lengthens marks at the cost of spaces.
What it recorded is still the frame that was sent. Only `irProces` asks the wrong receiver for it.
-/

namespace Teetest

open Lib

/-- A mark or a space as the receiver passes it on, a mark longer by some time and a space shorter. -/
def heard (excess : ℤ) (held : Bool × ℕ) : Bool × ℕ :=
  (held.1, ((held.2 : ℤ) + if held.1 then excess else -excess).toNat)

/-- The times by which a receiver may lengthen the marks, in microseconds. -/
structure Tolerable (excess : ℤ) : Prop where
  least : -140 ≤ excess
  most : excess ≤ 160

section

variable {excess : ℤ} {n : ℕ} {data : BitVec 32}

/--
A mark is recognized if the window around it leaves room for the excess and for the phase of the samples.

The window counts samples of 50 µs, and a run of samples is less than one of them too long or too short.
-/
theorem matchMark_heard (tolerable : Tolerable excess) {d : ℕ} (low : 50 * ((d + 20) / 67) + 140 ≤ d)
    (high : d + 210 ≤ 50 * ((d + 20) / 40 + 2)) (lasts : Lasts microsPerTick (heard excess (true, d)) n) :
    matchMark n d = true := by
  obtain ⟨least, most⟩ := tolerable
  have longer : ((d : ℤ) + excess).toNat < 50 * n + 50 := lasts.1
  have shorter : 50 * n < ((d : ℤ) + excess).toNat + 50 := lasts.2
  rw [matchMark, matchTicks, Bool.and_eq_true, decide_eq_true_eq, decide_eq_true_eq]
  change n ≥ (d + 20) / 67 ∧ n ≤ (d + 20) / 40 + 1
  omega

/-- So is a space, of which the excess is missing. -/
theorem matchSpace_heard (tolerable : Tolerable excess) {d : ℕ} (low : 50 * ((d - 20) / 67) + 160 ≤ d)
    (high : d + 190 ≤ 50 * ((d - 20) / 40 + 2)) (lasts : Lasts microsPerTick (heard excess (false, d)) n) :
    matchSpace n d = true := by
  obtain ⟨least, most⟩ := tolerable
  have longer : ((d : ℤ) + -excess).toNat < 50 * n + 50 := lasts.1
  have shorter : 50 * n < ((d : ℤ) + -excess).toNat + 50 := lasts.2
  rw [matchSpace, matchTicks, Bool.and_eq_true, decide_eq_true_eq, decide_eq_true_eq]
  change n ≥ (d - 20) / 67 ∧ n ≤ (d - 20) / 40 + 1
  omega

/-- The mark of a bit is recognized. -/
theorem bit_mark (tolerable : Tolerable excess)
    (lasts : Lasts microsPerTick (heard excess (true, necBitMark)) n) : matchMark n necBitMark = true :=
  matchMark_heard tolerable (by decide) (by decide) lasts

/-- The space of a bit that is set is recognized. -/
theorem one_space (tolerable : Tolerable excess)
    (lasts : Lasts microsPerTick (heard excess (false, necOneSpace)) n) : matchSpace n necOneSpace = true :=
  matchSpace_heard tolerable (by decide) (by decide) lasts

/-- The space of a bit that is not set is recognized, and not taken for the other one. -/
theorem zero_space (tolerable : Tolerable excess)
    (lasts : Lasts microsPerTick (heard excess (false, necZeroSpace)) n) :
    matchSpace n necZeroSpace = true ∧ matchSpace n necOneSpace = false := by
  refine ⟨matchSpace_heard tolerable (by decide) (by decide) lasts, ?_⟩
  -- The window of the longer space begins ten samples behind this one.
  obtain ⟨least, most⟩ := tolerable
  have shorter : 50 * n < ((560 : ℤ) + -excess).toNat + 50 := lasts.2
  rw [matchSpace, matchTicks, Bool.and_eq_false_iff, decide_eq_false_iff_not, decide_eq_false_iff_not]
  change ¬ n ≥ 24 ∨ ¬ n ≤ 42
  omega

/-- The mark that a frame begins with is recognized. -/
theorem header_mark (tolerable : Tolerable excess)
    (lasts : Lasts microsPerTick (heard excess (true, necHeaderMark)) n) :
    matchMark n necHeaderMark = true :=
  matchMark_heard tolerable (by decide) (by decide) lasts

/-- The space behind it is recognized. -/
theorem header_space (tolerable : Tolerable excess)
    (lasts : Lasts microsPerTick (heard excess (false, necHeaderSpace)) n) :
    matchSpace n necHeaderSpace = true :=
  matchSpace_heard tolerable (by decide) (by decide) lasts

/-- The bits of a word from one place on, as they are sent. -/
def sentBits (n : ℕ) (data : BitVec 32) : List (Bool × ℕ) :=
  sendPulseDistanceBits necOneSpace necZeroSpace necBitMark n data

/-- One bit after the other is sent. -/
theorem sentBits_succ (n : ℕ) (data : BitVec 32) :
    sentBits (n + 1) data =
      (true, necBitMark) :: (false, if data.getLsbD 0 then necOneSpace else necZeroSpace) ::
        sentBits n (data >>> 1) :=
  rfl

/-- A mark and a space for each bit. -/
theorem sentBits_length (n : ℕ) (data : BitVec 32) : (sentBits n data).length = 2 * n := by
  induction n generalizing data with
  | zero => rfl
  | succ n ih =>
    rw [sentBits_succ, List.length_cons, List.length_cons, ih]
    rfl

/-- The decoder of the bits collects those that were sent. -/
theorem pulseDistanceBits_sent (tolerable : Tolerable excess) {j : ℕ} (all : j + n = 32) {ns : List ℕ}
    (lasts : List.Forall₂ (Lasts microsPerTick) ((sentBits n (data >>> j)).map (heard excess)) ns)
    {rawbuf : ℕ → ℕ} {at_ : ℕ} (entries : ∀ i, (inside : i < ns.length) → rawbuf (at_ + i) = ns[i])
    {acc : BitVec 32} (known : ∀ i, acc.getLsbD i = (decide (i < j) && data.getLsbD i)) :
    pulseDistanceBits rawbuf necBitMark necOneSpace necZeroSpace n at_ (BitVec.twoPow 32 j) acc =
      some data := by
  induction n generalizing j ns at_ acc with
  | zero =>
    -- All bits are known.
    refine congrArg some (BitVec.eq_of_getLsbD_eq fun i inside => ?_)
    rw [known, decide_eq_true (by omega), Bool.true_and]
  | succ n ih =>
    rw [sentBits_succ, List.map_cons, List.map_cons, ← BitVec.shiftRight_add, BitVec.getLsbD_ushiftRight,
      Nat.add_zero] at lasts
    obtain ⟨m, _, mark, lasts', rfl⟩ := List.forall₂_cons_left_iff.mp lasts
    obtain ⟨s, rest, space, lasts'', rfl⟩ := List.forall₂_cons_left_iff.mp lasts'
    have entry_mark : rawbuf at_ = m := entries 0 (by simp)
    have entry_space : rawbuf (at_ + 1) = s := entries 1 (by simp)
    have entries' : ∀ i, (inside : i < rest.length) → rawbuf (at_ + 2 + i) = rest[i] := fun i inside => by
      rw [Nat.add_assoc, Nat.add_comm 2 i]
      exact entries (i + 2) (by simpa using inside)
    have next : BitVec.twoPow 32 j <<< 1 = BitVec.twoPow 32 (j + 1) := by
      rw [BitVec.twoPow_eq, BitVec.twoPow_eq, BitVec.shiftLeft_add]
    unfold pulseDistanceBits
    rw [entry_mark, entry_space, bit_mark tolerable mark, next]
    cases bit : data.getLsbD j with
    | true =>
      rw [bit, if_pos rfl] at space
      rw [one_space tolerable space]
      refine ih (by omega) lasts'' entries' fun i => ?_
      -- The bit is added to those below it.
      rw [BitVec.getLsbD_or, known, BitVec.getLsbD_twoPow]
      by_cases here : j = i
      · subst here
        simp [bit, show j < 32 by omega]
      · have order : (i < j + 1) ↔ i < j := by omega
        simp [here, order]
    | false =>
      rw [bit, if_neg Bool.false_ne_true] at space
      obtain ⟨zero, not_one⟩ := zero_space tolerable space
      rw [zero, not_one]
      refine ih (by omega) lasts'' entries' fun i => ?_
      rw [known]
      by_cases here : j = i
      · subst here
        simp [bit]
      · have order : (i < j + 1) ↔ i < j := by omega
        simp [order]

/-- Marks and spaces alternate in the bits, and in what comes behind them. -/
theorem alternates_sentBits (n : ℕ) (data : BitVec 32) {signal : List (Bool × ℕ)}
    (rest : Alternates true signal) :
    Alternates true ((sentBits n data).map (heard excess) ++ signal) := by
  induction n generalizing data with
  | zero => exact rest
  | succ n ih => exact ⟨rfl, rfl, ih (data >>> 1)⟩

/-- A mark or a space of a frame. -/
theorem mem_sentBits {held : Bool × ℕ} (member : held ∈ sentBits n data) :
    held ∈ [(true, necBitMark), (false, necOneSpace), (false, necZeroSpace)] := by
  induction n generalizing data with
  | zero => cases member
  | succ n ih =>
    rw [sentBits_succ, List.mem_cons, List.mem_cons] at member
    obtain rfl | rfl | member := member
    · simp
    · split_ifs <;> simp
    · exact ih member

/-- A frame as the receiver passes it on. -/
def frame (excess : ℤ) (data : BitVec 32) : List (Bool × ℕ) := (sendNECRaw data).map (heard excess)

/-- What a frame consists of. -/
theorem frame_eq (excess : ℤ) (data : BitVec 32) :
    frame excess data =
      heard excess (true, necHeaderMark) :: heard excess (false, necHeaderSpace) ::
        ((sentBits necBits data).map (heard excess) ++ [heard excess (true, necBitMark)]) := by
  unfold frame sendNECRaw
  rw [List.map_append]
  rfl

/-- The header, the bits and the stop bit. -/
theorem frame_length (excess : ℤ) (data : BitVec 32) : (frame excess data).length = 67 := by
  rw [frame_eq, List.length_cons, List.length_cons, List.length_append, List.length_map, sentBits_length]
  rfl

/-- A frame begins and ends with a mark. -/
theorem alternates_frame (excess : ℤ) (data : BitVec 32) : Alternates true (frame excess data) := by
  rw [frame_eq]
  exact ⟨rfl, rfl, alternates_sentBits necBits data ⟨rfl, trivial⟩⟩

/-- The level changes with every entry. -/
theorem levelAfter_eq (level : Bool) (ns : List ℕ) :
    levelAfter level ns = (level ^^ decide (ns.length % 2 = 1)) := by
  induction ns generalizing level with
  | nil => exact (Bool.xor_false level).symm
  | cons n ns ih =>
    rw [levelAfter, ih, List.length_cons]
    obtain even | odd := Nat.mod_two_eq_zero_or_one ns.length
    · rw [even, show (ns.length + 1) % 2 = 1 by omega]
      cases level <;> rfl
    · rw [odd, show (ns.length + 1) % 2 = 0 by omega]
      cases level <;> rfl

/-- A mark or a space that leaves room for the excess can be recorded. -/
theorem recordable_heard (tolerable : Tolerable excess) {b : Bool} {d : ℕ} (least : 210 ≤ d)
    (most : d + 160 ≤ 50 * (followers b + 1)) : Recordable (heard excess (b, d)) := by
  obtain ⟨low, high⟩ := tolerable
  cases b with
  | true =>
    change 50 ≤ ((d : ℤ) + excess).toNat ∧ ((d : ℤ) + excess).toNat ≤ 50 * (followers true + 1)
    omega
  | false =>
    change 50 ≤ ((d : ℤ) + -excess).toNat ∧ ((d : ℤ) + -excess).toNat ≤ 50 * (followers false + 1)
    omega

/-- All that a frame consists of is long enough to be seen, and too short to be missed. -/
theorem recordable_frame (tolerable : Tolerable excess) {held : Bool × ℕ}
    (member : held ∈ frame excess data) : Recordable held := by
  obtain ⟨sent, sent_member, rfl⟩ := List.mem_map.mp member
  have five : sent ∈ [(true, necHeaderMark), (false, necHeaderSpace), (true, necBitMark),
      (false, necOneSpace), (false, necZeroSpace)] := by
    unfold sendNECRaw at sent_member
    rw [List.mem_append, List.mem_cons, List.mem_cons] at sent_member
    obtain (rfl | rfl | among) | last := sent_member
    · simp
    · simp
    · have bits := mem_sentBits among
      simp only [List.mem_cons, List.not_mem_nil, or_false] at bits ⊢
      exact Or.inr (Or.inr bits)
    · rw [List.mem_singleton] at last
      subst last
      simp
  simp only [List.mem_cons, List.not_mem_nil, or_false] at five
  -- The longest space is that of the header, and the shortest that of a bit.
  obtain rfl | rfl | rfl | rfl | rfl := five
  · exact recordable_heard tolerable (by decide) (by decide)
  · exact recordable_heard tolerable (by decide) (by decide)
  · exact recordable_heard tolerable (by decide) (by decide)
  · exact recordable_heard tolerable (by decide) (by decide)
  · exact recordable_heard tolerable (by decide) (by decide)

/-- The runs of samples of a frame: those of the header, of the bits and of the stop bit. -/
theorem runs_of_frame {ns : List ℕ} (lasts : List.Forall₂ (Lasts microsPerTick) (frame excess data) ns) :
    ∃ a b bits stop, ns = a :: b :: (bits ++ [stop]) ∧
      Lasts microsPerTick (heard excess (true, necHeaderMark)) a ∧
      Lasts microsPerTick (heard excess (false, necHeaderSpace)) b ∧
      List.Forall₂ (Lasts microsPerTick) ((sentBits necBits data).map (heard excess)) bits ∧
      Lasts microsPerTick (heard excess (true, necBitMark)) stop := by
  rw [frame_eq] at lasts
  obtain ⟨a, _, header, lasts_gap, rfl⟩ := List.forall₂_cons_left_iff.mp lasts
  obtain ⟨b, ms, gap, lasts_bits, rfl⟩ := List.forall₂_cons_left_iff.mp lasts_gap
  have length_bits : ((sentBits necBits data).map (heard excess)).length = 64 := by
    rw [List.length_map, sentBits_length]
    rfl
  have bits := List.forall₂_take 64 lasts_bits
  have behind := List.forall₂_drop 64 lasts_bits
  rw [List.take_left' length_bits] at bits
  rw [List.drop_left' length_bits] at behind
  obtain ⟨stop, rest, stop_bit, none_, last⟩ := List.forall₂_cons_left_iff.mp behind
  rw [List.forall₂_nil_left_iff.mp none_] at last
  exact ⟨a, b, ms.take 64, stop, by rw [← last, List.take_append_drop], header, gap, bits, stop_bit⟩

/-- The decoder accepts a frame that was recorded, and finds its bits. -/
theorem IrParams.decodeNEC_frame (tolerable : Tolerable excess) {q : IrParams} {ns : List ℕ}
    (lasts : List.Forall₂ (Lasts microsPerTick) (frame excess data) ns) (rawlen : q.rawlen = 1 + ns.length)
    (entries : ∀ i, (inside : i < ns.length) → q.rawbuf (1 + i) = ns[i]) (r : IRrecv) :
    r.decodeNEC q =
      (true, { r with decodedIRData := { r.decodedIRData with decodedRawData := data }.ofNEC }) := by
  obtain ⟨a, b, bits, stop, rfl, header, gap, lasts_bits, stop_bit⟩ := runs_of_frame lasts
  have count := lasts_bits.length_eq
  rw [List.length_map, sentBits_length, necBits] at count
  have length : q.rawlen = 68 := by
    rw [rawlen, List.length_cons, List.length_cons, List.length_append, ← count]
    rfl
  have entry_mark : q.rawbuf 1 = a := entries 0 (by simp)
  have entry_space : q.rawbuf 2 = b := entries 1 (by simp)
  have entry_stop : q.rawbuf 67 = stop := by
    have entry := entries 66 (by simp; omega)
    rw [List.getElem_cons_succ, List.getElem_cons_succ, List.getElem_append_right (by omega)] at entry
    simpa [← count] using entry
  have entry_bits : ∀ i, (inside : i < bits.length) → q.rawbuf (3 + i) = bits[i] := by
    intro i inside
    have entry := entries (i + 2) (by simp; omega)
    rw [List.getElem_cons_succ, List.getElem_cons_succ, List.getElem_append_left inside] at entry
    rw [← entry]
    congr 1
    omega
  have decoded : q.decodePulseDistanceData necBits 3 necBitMark necOneSpace necZeroSpace = some data :=
    pulseDistanceBits_sent tolerable (j := 0) rfl lasts_bits entry_bits fun i => by simp
  unfold IRrecv.decodeNEC
  rw [length, entry_mark, entry_space, header_mark tolerable header, header_space tolerable gap, decoded]
  dsimp only
  rw [show 3 + 2 * necBits = 67 from rfl, entry_stop, bit_mark tolerable stop_bit]
  rfl

/-- A receiver before it decodes a frame. -/
def IRrecv.cleared (r : IRrecv) : IRrecv where
  decodedIRData := ⟨.UNKNOWN, 0, 0, 0, irdataFlagsEmpty, 0⟩
  lastDecodedProtocol := r.decodedIRData.protocol
  lastDecodedAddress := r.decodedIRData.address
  lastDecodedCommand := r.decodedIRData.command

/-- A frame that the decoder accepts is that decoder's. -/
theorem IRrecv.decode_accepted {others : IRrecv → IrParams → IRrecv} {r r' : IRrecv} {q : IrParams}
    (stop : q.stateForISR = .STOP) (overflow : q.overflowFlag = false)
    (accepted : r.cleared.decodeNEC q = (true, r')) : r.decode others q = (true, r', q) := by
  have init : r.initDecodedIRData q = (r.cleared, q) := by
    unfold initDecodedIRData
    rw [overflow]
    rfl
  unfold decode
  have no_flags : ¬ r.cleared.decodedIRData.flags = irdataFlagsWasOverflow :=
    show irdataFlagsEmpty ≠ irdataFlagsWasOverflow by decide
  rw [if_neg (not_not_intro stop), init]
  dsimp only
  rw [if_neg no_flags, accepted]
  rfl

/--
A frame of the protocol arrives bit for bit.

The receiver may lengthen or shorten its marks, the samples may fall anywhere, and whatever comes behind the
frame leaves it alone.
-/
theorem frame_decoded (others : IRrecv → IrParams → IRrecv) (r : IRrecv) {p : IrParams}
    (idle : p.stateForISR = .IDLE) {lead : ℕ} (gap : recordGapTicks ≤ lead) (tolerable : Tolerable excess)
    {phase : ℕ} (early : phase < microsPerTick)
    (enough : ((frame excess data).map Prod.snd).sum + microsPerTick * (recordGapTicks + 3) ≤
      phase + microsPerTick * n) (later : List Bool) :
    ∃ q r', p.ticks (List.replicate lead false ++
        (sampled false (frame excess data) microsPerTick phase n ++ later)) = some q ∧
      r.decode others q = (true, r', q) ∧
      r'.decodedIRData = IRData.ofNEC ⟨.UNKNOWN, 0, 0, 0, irdataFlagsEmpty, data⟩ := by
  have short : (frame excess data).length < rawBufferLength := by
    rw [frame_length]
    decide
  obtain ⟨ns, q, lasts, recorded, stop, overflow, rawlen, entries⟩ :=
    IrParams.ticks_signal idle gap (alternates_frame excess data) (fun _ => recordable_frame tolerable) short
      (fun ns size => by rw [levelAfter_eq, size, frame_length]; rfl) early enough later
  have accepted := IrParams.decodeNEC_frame tolerable lasts rawlen entries r.cleared
  exact ⟨q, _, recorded, IRrecv.decode_accepted stop overflow accepted, rfl⟩

end

/-- A frame of the button 0x45, with marks that are 50 µs too long. -/
theorem frame_decoded_button :
    ∃ q r', IrState.setup.irparams.ticks (List.replicate 100 false ++
        (sampled false (frame 50 (necRawData 0 0x45)) microsPerTick 7 2000 ++ [true])) = some q ∧
      IRrecv.init.decode (fun r _ => r) q = (true, r', q) ∧
      r'.decodedIRData = IRData.ofNEC ⟨.UNKNOWN, 0, 0, 0, irdataFlagsEmpty, necRawData 0 0x45⟩ :=
  frame_decoded (fun r _ => r) .init rfl (by decide) ⟨by decide, by decide⟩ (by decide) (by decide +kernel)
    [true]

section

variable (a : BitVec 16) (c : BitVec 8)

/-- The protocol can tell an address: it is a byte, or it looks like none and like no other protocol's. -/
def Addressable (a : BitVec 16) : Prop :=
  a &&& 0xFF00 = 0 ∨ a ≠ appleAddress ∧ a.extractLsb' 0 8 ≠ ~~~ a.extractLsb' 8 8

/-- The command is sent with its complement behind it. -/
theorem necRawData_command : midHighByte (necRawData a c) = c ∧ highByte (necRawData a c) = ~~~ c := by
  unfold midHighByte highByte necRawData
  dsimp only
  constructor
  · rw [BitVec.extractLsb'_append_eq_of_le (by decide), BitVec.extractLsb'_append_eq_right]
  · rw [BitVec.extractLsb'_append_eq_of_le (by decide), BitVec.extractLsb'_append_eq_left]

/-- The address is sent with its complement behind it if it is a byte, and else as it is. -/
theorem necRawData_address :
    lowWord (necRawData a c) =
      if a &&& 0xFF00 = 0 then ~~~ a.setWidth 8 ++ a.setWidth 8 else a := by
  unfold lowWord necRawData
  exact BitVec.extractLsb'_append_eq_right

/-- The bytes of the address are those of its word. -/
theorem lowByte_lowWord (v : BitVec 32) :
    lowByte v = (lowWord v).extractLsb' 0 8 ∧ midLowByte v = (lowWord v).extractLsb' 8 8 := by
  constructor
  · refine BitVec.eq_of_getLsbD_eq fun i inside => ?_
    simp [lowByte, lowWord, inside]
  · refine BitVec.eq_of_getLsbD_eq fun i inside => ?_
    simp [midLowByte, lowWord, inside]

variable {a}

/-- An address of a byte is its lower byte. -/
theorem setWidth_of_byte (byte : a &&& 0xFF00 = 0) : (a.setWidth 8).setWidth 16 = a := by
  refine BitVec.eq_of_getLsbD_eq fun i inside => ?_
  rw [BitVec.getLsbD_setWidth, BitVec.getLsbD_setWidth, decide_eq_true inside, Bool.true_and]
  by_cases low : i < 8
  · rw [decide_eq_true low, Bool.true_and]
  · -- The mask has all the bits above.
    have masked := congrArg (fun v => v.getLsbD i) byte
    have mask : ∀ i < 16, ¬ i < 8 → (0xFF00 : BitVec 16).getLsbD i = true := by decide
    simp only [BitVec.getLsbD_and, mask i inside low, Bool.and_true] at masked
    rw [masked, decide_eq_false low, Bool.false_and]
    simp

/-- An address that is its lower byte is a byte. -/
theorem byte_of_setWidth (low : (a.extractLsb' 0 8).setWidth 16 = a) : a &&& 0xFF00 = 0 := by
  rw [← low]
  refine BitVec.eq_of_getLsbD_eq fun i inside => ?_
  have mask : ∀ i < 8, (0xFF00 : BitVec 16).getLsbD i = false := by decide
  by_cases below : i < 8
  · rw [BitVec.getLsbD_and, mask i below]
    simp
  · simp [below]

/-- A command with its complement behind it belongs to the protocol, or to that of Apple. -/
theorem IRData.ofNEC_complement {d : IRData} {c : BitVec 8} (command : midHighByte d.decodedRawData = c)
    (complement : highByte d.decodedRawData = ~~~ c) :
    d.ofNEC.command = c.setWidth 16 ∧
      (lowWord d.decodedRawData = appleAddress → d.ofNEC.protocol = .APPLE) ∧
      (lowWord d.decodedRawData ≠ appleAddress → d.ofNEC.protocol = .NEC ∧ d.ofNEC.address =
        if lowByte d.decodedRawData = ~~~ midLowByte d.decodedRawData then
          (lowByte d.decodedRawData).setWidth 16
        else lowWord d.decodedRawData) := by
  have pair : midHighByte d.decodedRawData = ~~~ highByte d.decodedRawData := by
    rw [command, complement, BitVec.not_not]
  unfold ofNEC
  dsimp only
  rw [if_pos pair, command]
  refine ⟨?_, fun apple => ?_, fun other => ?_⟩
  · split_ifs <;> rfl
  · rw [if_pos apple]
  · rw [if_neg other]
    refine ⟨rfl, ?_⟩
    split_ifs <;> rfl

/-- An address and a command arrive exactly if the protocol can tell the address. -/
theorem nec_round_trip (a : BitVec 16) (c : BitVec 8) (d : IRData) :
    let received := IRData.ofNEC { d with decodedRawData := necRawData a c }
    (received.protocol = .NEC ∧ received.address = a ∧ received.command = c.setWidth 16) ↔ Addressable a := by
  obtain ⟨command, complement⟩ := necRawData_command a c
  obtain ⟨low, high⟩ := lowByte_lowWord (necRawData a c)
  have word := necRawData_address a c
  obtain ⟨same, of_apple, of_other⟩ := IRData.ofNEC_complement
    (d := { d with decodedRawData := necRawData a c }) command complement
  dsimp only at same of_apple of_other ⊢
  rw [low, high] at of_other
  by_cases byte : a &&& 0xFF00 = 0
  · refine iff_of_true ?_ (.inl byte)
    rw [if_pos byte] at word
    -- The two bytes are complements, which those of Apple's address are not.
    have other : lowWord (necRawData a c) ≠ appleAddress := by
      intro apple
      have bytes : appleAddress.extractLsb' 0 8 = ~~~ appleAddress.extractLsb' 8 8 := by
        rw [← apple, word, BitVec.extractLsb'_append_eq_right, BitVec.extractLsb'_append_eq_left,
          BitVec.not_not]
      exact absurd bytes (by decide)
    obtain ⟨protocol, address⟩ := of_other other
    refine ⟨protocol, ?_, same⟩
    rw [address, word, BitVec.extractLsb'_append_eq_right, BitVec.extractLsb'_append_eq_left, BitVec.not_not,
      if_pos rfl, setWidth_of_byte byte]
  · rw [if_neg byte] at word
    rw [word] at of_apple of_other
    constructor
    · rintro ⟨protocol, address, -⟩
      refine .inr ⟨fun apple => ?_, fun pair => ?_⟩
      · rw [of_apple apple] at protocol
        cases protocol
      · -- The lower byte alone would be taken for the address.
        by_cases apple : a = appleAddress
        · rw [of_apple apple] at protocol
          cases protocol
        · rw [(of_other apple).2, if_pos pair] at address
          exact byte (byte_of_setWidth address)
    · rintro (none_ | ⟨other, pair⟩)
      · exact absurd none_ byte
      · obtain ⟨protocol, address⟩ := of_other other
        rw [if_neg pair] at address
        exact ⟨protocol, address, same⟩

end

section

variable {s t : IrState}

/-- What decoding leaves of the recording is the recording, or nothing of it. -/
theorem IRrecv.decode_irparams (others : IRrecv → IrParams → IRrecv) (r : IRrecv) (p : IrParams) :
    (r.decode others p).2.2 = p ∨
      (r.decode others p).2.2 = { p with overflowFlag := false, rawlen := 0 } := by
  unfold decode initDecodedIRData
  by_cases stop : p.stateForISR ≠ .STOP
  · rw [if_pos stop]
    exact .inl rfl
  · rw [if_neg stop]
    cases overflow : p.overflowFlag with
    | true => exact .inr rfl
    | false => exact .inl rfl

/-- A recording that is dropped leaves room. -/
theorem IrParams.room_dropped {p : IrParams} (stop : p.stateForISR = .STOP) :
    ({ p with overflowFlag := false, rawlen := 0 } : IrParams).Room := by
  unfold Room
  dsimp only
  rw [stop]
  exact Nat.zero_le _

/-- A receiver that is resumed has the room it had. -/
theorem IrParams.Room.resume {p : IrParams} (room : p.Room) : p.resume.Room := by
  unfold IrParams.resume
  split_ifs with stop
  · unfold Room at room ⊢
    rw [stop] at room
    exact room
  · exact room

/-- Only a frame is taken up by `irProces`. -/
theorem IrState.irProces_cases (others : IRrecv → IrParams → IRrecv) (s : IrState) (msNow : UInt32) :
    s.irProces others msNow = s ∨ s.irparams.stateForISR = .STOP ∧
      ∃ r p, s.irrecv.decode others s.irparams = (true, r, p) ∧
        s.irProces others msNow =
          { s with
            irrecv := r
            irparams := p.resume
            ciTime :=
              (Teetest.irProces s.ciTime (.ofBitVec (s.irReceiver.decodedIRData.command.setWidth 32)) msNow).1
            processed := s.processed ++
              (Teetest.irProces s.ciTime (.ofBitVec (s.irReceiver.decodedIRData.command.setWidth 32))
                msNow).2.toList } := by
  unfold irProces
  by_cases stop : s.irparams.stateForISR = .STOP
  · obtain ⟨known, r, p⟩ := s.irrecv.decode others s.irparams
    cases known with
    | false => exact .inl rfl
    | true => exact .inr ⟨stop, r, p, rfl, rfl⟩
  · refine .inl ?_
    unfold IRrecv.decode
    rw [if_pos stop]

/-- Every event keeps the room that the interrupt needs. -/
theorem IrStep.room {e : IrEvent} (step : IrStep s e t) (room : s.irparams.Room) :
    t.irparams.Room := by
  cases e with
  | isr mark =>
    obtain ⟨p, ran, rfl⟩ := Option.map_eq_some_iff.mp step
    obtain ⟨q, ran', room'⟩ := room.isr mark
    rw [ran] at ran'
    rw [Option.some.inj ran']
    exact room'
  | irProces msNow others =>
    obtain rfl := Option.some.inj step
    obtain same | ⟨stop, r, p, decoded, taken⟩ := s.irProces_cases others msNow
    · rw [same]
      exact room
    · rw [taken]
      have left := s.irrecv.decode_irparams others s.irparams
      rw [decoded] at left
      obtain rfl | rfl := left
      · exact room.resume
      · exact (IrParams.room_dropped stop).resume

/-- Room is never more than the buffer. -/
theorem IrParams.Room.rawlen_le {p : IrParams} (room : p.Room) : p.rawlen ≤ rawBufferLength := by
  unfold Room at room
  split at room
  · exact room
  · exact room
  · exact room.2.le
  · exact room.2

/-- Whatever has happened, the next interrupt stays inside the buffer. -/
theorem buffer_kept {events : List IrEvent} {s : IrState} (run : Run IrStep .setup events s) (mark : Bool) :
    s.irparams.rawlen ≤ rawBufferLength ∧ ∃ p, s.irparams.isr mark = some p := by
  have room : s.irparams.Room :=
    run.invariant (P := fun s => s.irparams.Room) (Nat.zero_le rawBufferLength)
      fun _ _ _ room step => IrStep.room step room
  obtain ⟨p, ran, -⟩ := room.isr mark
  exact ⟨room.rawlen_le, p, ran⟩

/-- A gap, and then marks and spaces of one sample each, until one entry of the buffer is left. -/
def shortMarks : List IrEvent :=
  (List.replicate 101 false ++ (List.range 111).map fun k => k % 2 == 0).map IrEvent.isr

theorem shortMarks_isSome : (shortMarks.foldlM IrState.step .setup).isSome = true := by decide +kernel

/-- The buffer is nearly full, and the mark that is recorded next takes its last entry. -/
theorem buffer_kept_nearlyFull :
    let s := (shortMarks.foldlM IrState.step .setup).get shortMarks_isSome
    s.irparams.rawlen = 111 ∧ s.irparams.rawlen ≤ rawBufferLength ∧ ∃ p, s.irparams.isr false = some p := by
  intro s
  have run : Run IrStep .setup shortMarks s :=
    .foldlM IrState.step (fun _ _ _ moves => moves) (Option.some_get shortMarks_isSome).symm
  exact ⟨by decide +kernel, buffer_kept run false⟩

/-- No command of the remote control is ever processed: the receiver that is asked for it never decodes. -/
theorem remote_unheard {events : List IrEvent} {s : IrState} (run : Run IrStep .setup events s) :
    s.processed = [] ∧ s.ciTime = irSetup ∧ s.irReceiver = .init := by
  refine run.invariant (P := fun s => s.processed = [] ∧ s.ciTime = irSetup ∧ s.irReceiver = .init)
    ⟨rfl, rfl, rfl⟩ ?_
  rintro s e t ⟨none_, times, idle⟩ step
  cases e with
  | isr mark =>
    obtain ⟨p, -, rfl⟩ := Option.map_eq_some_iff.mp step
    exact ⟨none_, times, idle⟩
  | irProces msNow others =>
    obtain rfl := Option.some.inj step
    obtain same | ⟨-, r, p, -, taken⟩ := s.irProces_cases others msNow
    · rw [same]
      exact ⟨none_, times, idle⟩
    · -- The other receiver still has the command of power-up, which is no button's.
      have nothing : cIndex (.ofBitVec (s.irReceiver.decodedIRData.command.setWidth 32)) = none := by
        rw [idle]
        decide
      rw [taken, irProces_unknown nothing, none_]
      exact ⟨rfl, times, idle⟩

/-- The samples of a whole frame of the button 0x45, between two gaps, and a call that takes it up. -/
def buttonPressed : List IrEvent :=
  (List.replicate 101 false ++ (expand ((sendNECRaw (necRawData 0 0x45)).map fun held =>
    (held.1, held.2 / microsPerTick)) ++ List.replicate 102 false)).map
      IrEvent.isr ++ [.irProces 300 fun r _ => r]

/-- The frame is decoded, but its command is not processed. -/
theorem remote_unheard_button : ∃ s, Run IrStep .setup buttonPressed s ∧
    s.irrecv.decodedIRData.command = 0x45 ∧ s.processed = [] ∧ s.ciTime = irSetup ∧
      s.irReceiver = .init := by
  have decoded : (buttonPressed.foldlM IrState.step .setup).any
      (fun s => s.irrecv.decodedIRData.command = 0x45) = true := by
    decide +kernel
  obtain ⟨s, accepted, command⟩ := (Option.any_eq_true _ _).mp decoded
  have run : Run IrStep .setup buttonPressed s :=
    .foldlM IrState.step (fun _ _ _ moves => moves) accepted
  exact ⟨s, run, by simpa using command, remote_unheard run⟩

end

end Teetest
