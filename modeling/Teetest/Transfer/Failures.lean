import Teetest.Transfer.Blocks

/-!
What a failure leaves behind: a `get` that is refused, and a read of the card that fails during a transfer.

Opening through `ethFile` closes what it held, and the result of a read is kept in an unsigned variable.
-/

namespace Teetest

open Lib

/-- A `get` was refused: the answer and a text for the user went out, and nothing else happened. -/
def Net.Refused (n m : Net) : Prop := ∃ text, m = (n.ethACK false 0).xmprintf text

/-- The text of a failed assertion gets into the ring: a file is open, and printing finds room. -/
def GetIn.Asserts (g : GetIn) (n : Net) : Prop :=
  n.ethFile.isSome = true ∧ n.enableEthOutput = true ∧ n.clientConnected = true ∧
    ∃ file str, g.mxat = some (file, str) ∧
      n.rb.length + (cstr (sbufText (ascii (assertFailed file 77 str)))).length ≤ ethRbSize

/--
When a `get` that fails does no harm: it is refused before the file object is used, or there is
nothing to lose in the file object and nothing is said about that.
-/
def GetIn.Harmless (g : GetIn) (name : String) (n : Net) : Prop :=
  g.lfWriting = true ∨ g.lfState ≠ .lfSGood ∨
    match g.opened with
    | none => n.ethFile = none
    | some data => data = [] → n.ethFile = some ⟨name, [], 0⟩ ∧ n.ethFileSize = 0 ∧ ¬ g.Asserts n

/-- A refused `get` leaves everything but the ring. -/
theorem Net.Refused.frame {n m : Net} (refused : n.Refused m) : m.frame = n.frame := by
  -- The answer and the text only go through the ring.
  obtain ⟨text, rfl⟩ := refused
  simp [ethACK]

/-- A failed assertion prints neither a short text nor one that begins like a refusal. -/
theorem assertFailed_text (file : String) (line : Nat) (str : String) :
    ∃ c rest, cstr (sbufText (ascii (assertFailed file line str))) = c :: rest ∧ c ≠ 0x6E ∧
      6 ≤ rest.length := by
  unfold sbufText
  split_ifs
  · -- A text that is too long is replaced by another one.
    exact ⟨_, _, rfl, by decide, by decide⟩
  · -- The nine characters in front of the file name are always there.
    simp only [assertFailed, String.append_assoc, ascii_append "AF: file "]
    generalize ascii (file ++ _) = more
    have front : (ascii "AF: file " ++ more).take 510 = ascii "AF: file " ++ more.take 501 := by
      rw [List.take_append, show (ascii "AF: file ").length = 9 by decide]
      rfl
    rw [front, cstr_append (by decide)]
    exact ⟨0x41, ascii "F: file " ++ cstr (more.take 501), rfl, by decide, by
      rw [List.length_append]
      exact Nat.le_add_right_of_le (by decide)⟩

/-- An assertion that fails and is printed puts such a text into the ring, and changes nothing else. -/
theorem GetIn.Asserts.text {g : GetIn} {n : Net} (asserts : g.Asserts n) :
    ∃ c rest, c ≠ 0x6E ∧ 6 ≤ rest.length ∧ n.rb.length + (c :: rest).length ≤ ethRbSize ∧
      n.mxatClosed g = { n with rb := n.rb ++ mark .text (c :: rest) } := by
  obtain ⟨held, on, connected, file, str, compiled, room⟩ := asserts
  obtain ⟨c, rest, text, other, long⟩ := assertFailed_text file 77 str
  rw [text] at room
  refine ⟨c, rest, other, long, room, ?_⟩
  unfold Net.mxatClosed
  rw [if_pos held, compiled]
  dsimp only
  rw [Net.xmprintf, if_pos on, text, Net.ethFeed_fits connected _ room]

/-- Otherwise the assertion does nothing. -/
theorem Net.mxatClosed_silent {g : GetIn} {n : Net} (silent : ¬ g.Asserts n) : n.mxatClosed g = n := by
  unfold mxatClosed
  by_cases held : n.ethFile.isSome = true
  · rw [if_pos held]
    cases compiled : g.mxat with
    | none => rfl
    | some arguments =>
      obtain ⟨file, str⟩ := arguments
      dsimp only
      unfold xmprintf ethFeed
      -- Printing is off, nobody is connected, or there is no room.
      by_cases on : n.enableEthOutput = true
      · rw [if_pos on]
        by_cases connected : n.clientConnected = true
        · rw [if_neg (by simp [connected]), if_neg]
          exact fun room => silent ⟨held, on, connected, file, str, compiled, room⟩
        · rw [if_pos (by simp [connected])]
      · rw [if_neg on]
  · rw [if_neg held]

/-- A refusal is not what is left when the text of an assertion came first. -/
theorem Net.Refused.silent {g : GetIn} {n m : Net} (refused : n.Refused m)
    (behind : (n.mxatClosed g).rb <+: m.rb) : ¬ g.Asserts n := by
  intro asserts
  have connected : n.clientConnected = true := asserts.2.2.1
  obtain ⟨c, rest, other, long, room, printed⟩ := asserts.text
  obtain ⟨text, rfl⟩ := refused
  -- Where that text fits the refusal does, and both would begin at the same place of the ring.
  have nak : ascii ("nak," ++ toString (0 : Int) ++ "\r\n") = 0x6E :: ascii "ak,0\r\n" := by decide +kernel
  have fits : n.rb.length + (0x6E :: ascii "ak,0\r\n").length ≤ ethRbSize := by
    have short : (0x6E :: ascii "ak,0\r\n").length ≤ (c :: rest).length := by
      simp only [List.length_cons]
      exact Nat.succ_le_succ (le_trans (by decide) long)
    omega
  have refusal : n.rb ++ mark .text (0x6E :: ascii "ak,0\r\n") <+: ((n.ethACK false 0).xmprintf text).rb := by
    have fed : (n.ethACK false 0).rb = n.rb ++ mark .text (0x6E :: ascii "ak,0\r\n") := by
      simp only [ethACK, Bool.false_eq_true, if_false, nak]
      rw [ethFeed_fits connected _ fits]
    rw [← fed]
    exact xmprintf_prefix _ _
  rw [printed] at behind
  obtain ⟨after, first⟩ := behind
  obtain ⟨after', second⟩ := refusal
  have same := congrArg bytes (first.trans second.symm)
  simp only [bytes_append, bytes_mark, List.append_assoc, List.append_cancel_left_eq, List.cons_append,
    List.cons.injEq] at same
  exact other same.1

/-- Behind the assertion, the answer and a text only add to the ring. -/
theorem Net.answer_prefix {n m : Net} (rb : m.rb = n.rb) (yes : Bool) (info : Int) (s : String) :
    n.rb <+: ((m.ethACK yes info).xmprintf s).rb := by
  rw [← rb]
  have answered : m.rb <+: (m.ethACK yes info).rb := m.ethFeed_prefix _ _
  refine answered.trans ?_
  exact xmprintf_prefix _ _

/-- A `get` that fails changes nothing but the ring exactly when it does no harm. -/
theorem get_fails_unchanged_iff (g : GetIn) (name : String) (n : Net) :
    ((n.lfGetFile g name).1 ≠ 0 → n.Refused (n.lfGetFile g name).2) ↔ g.Harmless name n := by
  -- By the exits of `lfGetFile`, in their order.
  unfold GetIn.Harmless
  by_cases writing : g.lfWriting = true
  · -- A log is being written.
    simp only [Net.lfGetFile, writing, if_true, true_or, iff_true]
    exact fun _ => ⟨_, rfl⟩
  by_cases bad : g.lfState ≠ .lfSGood
  · -- The card is not started, or in error.
    simp only [Net.lfGetFile, if_neg writing, if_pos bad]
    exact ⟨fun _ => .inr (.inl bad), fun _ _ => ⟨_, rfl⟩⟩
  cases opened : g.opened with
  | none =>
    -- The file cannot be opened, but what was open is closed by now.
    simp only [Net.lfGetFile, if_neg writing, if_neg bad, opened]
    constructor
    · -- The file object is empty afterwards, so it must have been empty before.
      intro unchanged
      have same := congrArg Net.ethFile (unchanged (by decide)).frame
      simp only [Net.xmprintf_frame, Net.ethACK, Net.ethFeed_frame] at same
      exact .inr (.inr same.symm)
    · rintro (on | error | closed) _
      · exact absurd on writing
      · exact absurd error bad
      · -- Nothing was open, so the assertion holds, and closing changed nothing.
        rw [Net.mxatClosed_silent fun asserts => by simp [closed, GetIn.Asserts] at asserts]
        cases n
        obtain rfl := closed
        exact ⟨_, rfl⟩
  | some data =>
    by_cases empty : data.length = 0
    · -- An empty file is opened, and takes the place of the one before it.
      obtain rfl := List.eq_nil_of_length_eq_zero empty
      simp only [Net.lfGetFile, if_neg writing, if_neg bad, opened, List.length_nil, if_true]
      constructor
      · intro unchanged
        have refused := unchanged (by decide)
        -- Whatever the assertion has printed stands in front of the answer.
        have behind := Net.answer_prefix (n := n.mxatClosed g) (m := { n.mxatClosed g with
          ethFile := some ⟨name, [], 0⟩
          ethFileSize := 0 }) rfl false 0 "file empty \r\n"
        -- File and size are those of the empty file afterwards, so they must have been so before.
        have same := refused.frame
        simp only [Net.xmprintf_frame, Net.ethACK, Net.ethFeed_frame] at same
        exact .inr (.inr fun _ => ⟨(congrArg Net.ethFile same).symm, (congrArg Net.ethFileSize same).symm,
          refused.silent behind⟩)
      · rintro (on | error | held) _
        · exact absurd on writing
        · exact absurd error bad
        · obtain ⟨file, size, silent⟩ := held trivial
          rw [Net.mxatClosed_silent silent]
          cases n
          obtain rfl := file
          obtain rfl := size
          exact ⟨_, rfl⟩
    · -- The request succeeds.
      simp only [Net.lfGetFile, if_neg writing, if_neg bad, opened, if_neg empty]
      constructor
      · exact fun _ => .inr (.inr fun none => absurd (by simp [none]) empty)
      · exact fun _ failed => absurd rfl failed

/-- A Teensy that was just started and is sending a file of one byte. -/
def Net.sending : Net := (Net.booted.lfGetFile ⟨false, .lfSGood, "", some [1], 0, none⟩ "a").2

/-- A `get` of a file that does not exist closes the file of the transfer that is running. -/
theorem get_fails_closing : ¬ ∀ (g : GetIn) (name : String),
    (Net.sending.lfGetFile g name).1 ≠ 0 → Net.sending.Refused (Net.sending.lfGetFile g name).2 := by
  intro unchanged
  -- The file object is closed, although a transfer was using it.
  have same := congrArg Net.ethFile (unchanged ⟨false, .lfSGood, "", none, 0, none⟩ "b" (by decide)).frame
  revert same
  decide +kernel

section

variable (crc16 : List UInt8 → UInt16) (ms : Nat)

/-- The next packet is fed with a block in it, and the bytes of the block are counted. -/
def Net.SendsBlock (block : List UInt8) (n m : Net) : Prop :=
  ∃ asked : Net, asked.rb = n.rb ∧ asked.clientConnected = n.clientConnected ∧
    asked.infoHandler = n.infoHandler ∧
    asked.ethFileBytesCounter = (n.ethFileBytesCounter + block.length) % 2 ^ 32 ∧
    m = asked.ethFeed (.packet (n.sendFilePacketsCounter + 1))
      (packetImage crc16 (n.sendFilePacketsCounter + 1) block)

/-- The transfer is completed, and no packet was fed and no byte counted before that. -/
def Net.EndsUnsent (n m : Net) : Prop :=
  ∃ asked : Net, asked.rb = n.rb ∧ asked.clientConnected = n.clientConnected ∧
    asked.ethFileBytesCounter = n.ethFileBytesCounter % 2 ^ 32 ∧
    m = asked.sendFileViaEthComplete ms

/-- A request for the next packet is answered by the result of its read: with a block, or by the end. -/
def Net.AnswersRead (sd : ReadIo) (n m : Net) : Prop :=
  let (k, block, _) := readEthFile n.ethFile sd
  if 0 < k then k = block.length ∧ n.SendsBlock crc16 block m else n.EndsUnsent ms m

variable {crc16} {ms}

/-- A read that succeeds returns the number of bytes it read, at most a block of them. -/
theorem OpenFile.read_of_answers (f : OpenFile) {sd : ReadIo} (answers : sd ≠ .error) :
    (f.read sd).1 = (f.read sd).2.1.length ∧ (f.read sd).2.1.length ≤ blockSize := by
  -- A read that is cut short takes the front of the block.
  cases sd with
  | full => simp [read]
  | short k => simp [read]
  | error => exact absurd rfl answers

/-- A read succeeds exactly when a file is open and the card answers. -/
theorem readEthFile_negative_iff (f : Option OpenFile) (sd : ReadIo) :
    (readEthFile f sd).1 = -1 ↔ ¬ (f.isSome ∧ sd ≠ .error) := by
  cases f with
  | none =>
    -- A closed file object answers as a card that fails.
    simp [readEthFile]
  | some f =>
    by_cases answers : sd = .error
    · subst answers
      simp [readEthFile, OpenFile.read]
    · -- A length is not negative.
      have read := f.read_of_answers answers
      simp only [readEthFile, read.1]
      simp only [Option.isSome_some, ne_eq, answers, not_false_eq_true, and_self, not_true_eq_false,
        iff_false]
      omega

variable {n : Net} {sd : ReadIo} {pn : Nat}

/-- A request that is due and whose read succeeds is answered as it should be. -/
theorem Net.pleaseSendNext_answers {f : OpenFile} (held : n.ethFile = some f) (answers : sd ≠ .error)
    (due : ¬ n.sendFilePacketsCounter % 2 ^ 32 > pn) :
    n.AnswersRead crc16 ms sd (n.pleaseSendNext crc16 sd ms pn) := by
  -- A block is small, so its length survives the unsigned variable.
  obtain ⟨result, small⟩ := f.read_of_answers answers
  have bound : blockSize = 1008 := rfl
  have unsigned : (((f.read sd).2.1.length : Int) % 2 ^ 32).toNat = (f.read sd).2.1.length := by omega
  simp only [AnswersRead, pleaseSendNext, held, readEthFile, if_neg due, result, unsigned]
  by_cases positive : 0 < (f.read sd).2.1.length
  · rw [if_pos (by omega), if_pos positive]
    -- What is fed is the header and the block that was read behind it.
    obtain ⟨rbBuf, -, fed⟩ := Net.sendEthPacket_eq crc16 { n with
      repeatSendCounter := 0
      ethFile := some (f.read sd).2.2
      rbBuf := n.rbBuf.write ethHeaderSize (f.read sd).2.1
      fileReadInfoSize := (f.read sd).2.1.length
      ethFileBytesCounter := (n.ethFileBytesCounter + (f.read sd).2.1.length) % 2 ^ 32
      sendFilePacketsCounter := n.sendFilePacketsCounter + 1 } small (n.sendFilePacketsCounter + 1)
    rw [Mem.read_write_same] at fed
    exact ⟨trivial, _, by rfl, by rfl, by rfl, by rfl, fed⟩
  · rw [if_neg (by omega), if_neg positive]
    -- The end of the file: nothing is counted, and the transfer ends.
    have zero : (f.read sd).2.1.length = 0 := by omega
    exact ⟨_, by rfl, by rfl, by simp [zero], rfl⟩

variable (crc16 ms) in
/-- A request that is due and whose read fails is answered by a packet, and the transfer goes on. -/
theorem Net.pleaseSendNext_fails (failed : (readEthFile n.ethFile sd).1 = -1)
    (due : ¬ n.sendFilePacketsCounter % 2 ^ 32 > pn) :
    (n.pleaseSendNext crc16 sd ms pn).infoHandler = n.infoHandler := by
  -- As an unsigned number, -1 is positive.
  simp only [pleaseSendNext, failed, if_neg due]
  rw [if_pos (by decide)]
  simp [sendEthPacket]

/--
During a transfer, a request that is due is answered by the result of its read exactly when a file is
open and the card answers.
-/
theorem read_answered_iff (on : n.infoHandler = true) (due : ¬ n.sendFilePacketsCounter % 2 ^ 32 > pn) :
    n.AnswersRead crc16 ms sd (n.pleaseSendNext crc16 sd ms pn) ↔
      n.ethFile.isSome ∧ sd ≠ .error := by
  constructor
  · -- Otherwise the read fails, and its result is -1.
    intro answered
    by_contra fails
    have failed := (readEthFile_negative_iff _ _).mpr fails
    have goesOn := (Net.pleaseSendNext_fails crc16 ms failed due).trans on
    -- Nothing was read, so the transfer would have to end.
    simp only [Net.AnswersRead, failed] at answered
    rw [if_neg (by decide)] at answered
    obtain ⟨asked, -, -, -, same⟩ := answered
    rw [same] at goesOn
    exact absurd goesOn (by simp [(asked.sendFileViaEthComplete_terminated ms).infoHandler])
  · rintro ⟨held, answers⟩
    obtain ⟨f, held⟩ := Option.isSome_iff_exists.mp held
    exact Net.pleaseSendNext_answers held answers due

end

/-- The first request for a packet of the only byte. -/
theorem read_answered_sending :
    Net.sending.AnswersRead checksum 0 .full (Net.sending.pleaseSendNext checksum .full 0 0) :=
  (read_answered_iff (by decide +kernel) (by decide +kernel)).mpr ⟨by decide +kernel, by decide⟩

/-- The card fails at the first request: a packet with the size -1 goes out, and the transfer goes on. -/
theorem read_failure_sent : ¬ ∀ (crc16 : List UInt8 → UInt16) (ms : Nat) (sd : ReadIo) (pn : Nat),
    Net.sending.AnswersRead crc16 ms sd (Net.sending.pleaseSendNext crc16 sd ms pn) := by
  intro answered
  -- The handler stays installed, which a transfer that ended does not leave behind.
  have ends := answered checksum 0 .error 0
  simp only [Net.AnswersRead] at ends
  rw [if_neg (by decide +kernel)] at ends
  obtain ⟨asked, -, -, -, same⟩ := ends
  have off := (asked.sendFileViaEthComplete_terminated 0).infoHandler
  rw [← same] at off
  revert off
  decide +kernel

end Teetest
