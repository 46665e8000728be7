import Teetest.Log.Stream

/-!
The sizes of log files, over starts, changes of files and stops.

A file is written in blocks of `tmpSize` bytes up to the change of files, and a stop adds what is left in
the ring.
-/

namespace Teetest

open Lib

/-- What happens next: a log is started, or a step of the machine. -/
inductive SizeAct
  | lfStart (fileName : Option FileName)
  | act (a : LogAct)

section

variable (x : XMessage) (sectorCount : UInt32)

/-- The state after a step, if it can be taken. -/
def Machine.sizeStep (m : Machine) : SizeAct → Option Machine
  | .lfStart fileName =>
    if m.stack = [] ∧ m.main = .idle then some { m with log := m.log.lfStart goodCard fileName }
    else none
  | .act a => m.step x sectorCount a

/-- The step relation, starts included. -/
def SizeStep (m : Machine) (a : SizeAct) (m' : Machine) : Prop := m.sizeStep x sectorCount a = some m'

end

/-- The counter is the number of bytes in the file that is open, which is in its preallocated space. -/
def LogFile.CurrentFits (s : LogFile) : Prop :=
  ∀ h, s.sd.file = some h → ∃ content, s.sd.card.get h.name = some content ∧
    h.pos = content.length ∧ s.fileBytesCounter = content.length ∧ content.length ≤ fileSize

/-- The file that is open is written at its end, and its bytes are counted. -/
def LogFile.Counted (s : LogFile) : Prop :=
  ∃ name content, s.sd.file = some ⟨name, content.length⟩ ∧ s.sd.card.get name = some content ∧
    s.fileBytesCounter = content.length

/-- It was written in blocks, up to a limit. -/
def LogFile.InBlocks (limit : ℕ) (s : LogFile) : Prop :=
  s.Counted ∧ tmpSize ∣ s.fileBytesCounter ∧ s.fileBytesCounter ≤ limit

/-- What goes with each place in which the main loop can stand. -/
def Machine.SizePhase (m : Machine) : Prop :=
  match m.main with
  | .idle =>
    m.log.lfWriting = true ∧ m.log.InBlocks fileSize2 ∨
      m.log.lfWriting = false ∧ m.log.sd.file = none ∧ m.log.rb = []
  | .process => m.log.lfWriting = true ∧ m.log.InBlocks fileSize2
  | .look n => m.log.lfWriting = true ∧ n ≤ m.log.rb.length ∧ m.log.InBlocks fileSize2
  | .taken tmpBuf n =>
    m.log.lfWriting = true ∧ n ≤ m.log.rb.length ∧ m.log.InBlocks fileSize2 ∧ tmpBuf.length = tmpSize
  | .written n =>
    m.log.lfWriting = true ∧ n ≤ m.log.rb.length ∧ m.log.InBlocks (fileSize2 + tmpSize)
  | .between n =>
    m.log.lfWriting = true ∧ n ≤ m.log.rb.length ∧ m.log.sd.file = none ∧ m.log.fileBytesCounter = 0
  | .stopLook n =>
    m.log.lfWriting = false ∧ n = m.log.rb.length ∧
      (m.log.Counted ∧ m.log.fileBytesCounter + n ≤ fileSize2 + rbSize ∨ m.log.sd.file = none ∧ n = 0)
  | .stopTaken tmpBuf n =>
    m.log.lfWriting = false ∧ n = m.log.rb.length ∧ m.log.Counted ∧
      m.log.fileBytesCounter + tmpBuf.length + n ≤ fileSize2 + rbSize

/-- The invariant of the sizes. -/
structure Machine.Sized (m : Machine) : Prop where
  ring : m.log.rb.length ≤ rbSize
  phase : m.SizePhase
  -- a call that has found the log on does not outlive it
  off : m.log.lfWriting = false → ∀ f ∈ m.stack, f.passed = false

variable {x : XMessage} {sectorCount : UInt32} {m m' : Machine} {s : LogFile} {limit : ℕ}

/-- A block is appended, and counted. -/
theorem LogFile.Counted.writeBlock (counted : s.Counted) (block : List UInt8) :
    (s.writeBlock block block.length).Counted := by
  obtain ⟨name, content, file, held, size⟩ := counted
  refine ⟨name, content ++ block, ?_, ?_, ?_⟩
  · simp [LogFile.writeBlock, Sd.write, file]
  · -- The position is the end of the file, so the block comes behind everything.
    simp only [LogFile.writeBlock, Sd.write, file, List.take_length]
    rw [Files.get_update_same, held, Option.map_some, List.take_length, List.drop_of_length_le (by omega),
      List.append_nil]
  · rw [List.length_append, ← size]
    rfl

/-- Ending a file that is written at its end changes nothing in it. -/
theorem LogFile.Counted.endFile (counted : s.Counted) {h : Handle} (open_ : s.sd.file = some h) :
    ∃ content, (s.endFile true).sd.card.get h.name = some content ∧
      content.length = s.fileBytesCounter := by
  obtain ⟨name, content, file, held, size⟩ := counted
  -- The open file is the counted one, and it is cut at its own end.
  obtain rfl := Option.some.inj (open_.symm.trans file)
  refine ⟨content, ?_, size.symm⟩
  simp only [LogFile.endFile, Sd.truncate, file, if_true, Sd.close]
  rw [Files.get_update_same, held, Option.map_some, List.take_length]

/-- A file that was just created is empty. -/
theorem counted_create (s : LogFile) (name : FileName) (zero : s.fileBytesCounter = 0) :
    { s with sd := (s.sd.create true name).2 }.Counted :=
  ⟨name, [], rfl, Files.get_create_same _ _, zero⟩

/-- A counted file within the limit fits. -/
theorem LogFile.Counted.currentFits (counted : s.Counted) (within : s.fileBytesCounter ≤ fileSize) :
    s.CurrentFits := by
  intro h open_
  obtain ⟨name, content, file, held, size⟩ := counted
  obtain rfl := Option.some.inj (open_.symm.trans file)
  exact ⟨content, held, rfl, size, size ▸ within⟩

/-- Without an open file there is nothing to fit. -/
theorem LogFile.currentFits_closed (closed : s.sd.file = none) : s.CurrentFits := by
  intro h open_
  rw [closed] at open_
  cases open_

/-- In every phase the file that is open fits. -/
theorem Machine.Sized.currentFits (sized : m.Sized) : m.log.CurrentFits := by
  have phase := sized.phase
  -- The margin below the preallocated size is more than a block, and more than the ring.
  have block : fileSize2 + tmpSize ≤ fileSize := by decide
  have ring : fileSize2 + rbSize ≤ fileSize := by decide
  unfold Machine.SizePhase at phase
  cases main : m.main with
  | idle =>
    simp only [main] at phase
    -- The loop is idle with a log that is on, or with none.
    rcases phase with ⟨-, counted, -, within⟩ | ⟨-, closed, -⟩
    · exact counted.currentFits (by omega)
    · exact LogFile.currentFits_closed closed
  | process =>
    simp only [main] at phase
    obtain ⟨-, counted, -, within⟩ := phase
    exact counted.currentFits (by omega)
  | look n =>
    simp only [main] at phase
    obtain ⟨-, -, counted, -, within⟩ := phase
    exact counted.currentFits (by omega)
  | taken tmpBuf n =>
    simp only [main] at phase
    obtain ⟨-, -, ⟨counted, -, within⟩, -⟩ := phase
    exact counted.currentFits (by omega)
  | written n =>
    simp only [main] at phase
    obtain ⟨-, -, counted, -, within⟩ := phase
    exact counted.currentFits (by omega)
  | between n =>
    simp only [main] at phase
    exact LogFile.currentFits_closed phase.2.2.1
  | stopLook n =>
    simp only [main] at phase
    -- A stop adds what the ring still holds.
    rcases phase.2.2 with ⟨counted, within⟩ | ⟨closed, -⟩
    · exact counted.currentFits (by omega)
    · exact LogFile.currentFits_closed closed
  | stopTaken tmpBuf n =>
    simp only [main] at phase
    obtain ⟨-, -, counted, within⟩ := phase
    exact counted.currentFits (by omega)

/-- Two states with the same file, counter and flag. -/
theorem LogFile.SameFiles.counted {t : LogFile} (same : s.SameFiles t) (counted : s.Counted) :
    t.Counted := by
  obtain ⟨name, content, file, held, size⟩ := counted
  refine ⟨name, content, ?_, ?_, ?_⟩
  · rw [same.sd]
    exact file
  · rw [same.sd]
    exact held
  · rw [same.bytes]
    exact size

/-- The blocks of a file are no business of the calls. -/
theorem LogFile.SameFiles.inBlocks {t : LogFile} (same : s.SameFiles t) (blocks : s.InBlocks limit) :
    t.InBlocks limit := by
  refine ⟨same.counted blocks.1, ?_, ?_⟩
  · rw [same.bytes]
    exact blocks.2.1
  · rw [same.bytes]
    exact blocks.2.2

/-- While the log is on, no place of the main loop minds a longer ring. -/
theorem Machine.SizePhase.put (phase : m.SizePhase) (writing : m.log.lfWriting = true)
    (main : m'.main = m.main) (same : m.log.SameFiles m'.log)
    (longer : m.log.rb.length ≤ m'.log.rb.length) : m'.SizePhase := by
  have still : m'.log.lfWriting = true := same.writing.trans writing
  unfold Machine.SizePhase at phase ⊢
  rw [main]
  cases place : m.main with
  | idle =>
    simp only [place, writing] at phase
    rcases phase with ⟨-, blocks⟩ | ⟨off, -⟩
    · exact .inl ⟨still, same.inBlocks blocks⟩
    · exact absurd off (by decide)
  | process =>
    simp only [place] at phase
    exact ⟨still, same.inBlocks phase.2⟩
  | look n =>
    simp only [place] at phase
    exact ⟨still, phase.2.1.trans longer, same.inBlocks phase.2.2⟩
  | taken tmpBuf n =>
    simp only [place] at phase
    obtain ⟨-, left, blocks, size⟩ := phase
    exact ⟨still, left.trans longer, same.inBlocks blocks, size⟩
  | written n =>
    simp only [place] at phase
    exact ⟨still, phase.2.1.trans longer, same.inBlocks phase.2.2⟩
  | between n =>
    simp only [place] at phase
    obtain ⟨-, left, closed, zero⟩ := phase
    exact ⟨still, left.trans longer, by rw [same.sd]; exact closed, by rw [same.bytes]; exact zero⟩
  | stopLook n | stopTaken tmpBuf n =>
    -- A stop has switched the log off.
    simp only [place, writing] at phase
    exact absurd phase.1 (by decide)

/-- A section with interrupts disabled never fills more than the ring. -/
theorem LogFile.exclusive_ring (x : XMessage) (ring : s.rb.length ≤ rbSize) (p : Put) :
    s.rb.length ≤ (s.exclusive x p).2.rb.length ∧ (s.exclusive x p).2.rb.length ≤ rbSize := by
  cases p with
  | message data type count seen =>
    simp only [LogFile.exclusive, LogFile.putMessage_eq]
    -- What does not fit is dropped as a whole.
    split_ifs with full
    · exact ⟨le_rfl, ring⟩
    · simp only [List.length_append]
      omega
  | feed data =>
    simp only [LogFile.exclusive, LogFile.put]
    split_ifs with full
    · exact ⟨le_rfl, ring⟩
    · simp only [List.length_append]
      omega

/-- A section with interrupts disabled keeps the sizes. -/
theorem Machine.Sized.enter (sized : m.Sized) (p : Put) (writing : m.log.lfWriting = true)
    (rest : List Frame) : (m.enter x p rest).Sized := by
  have same := m.log.exclusive_sameFiles x p
  obtain ⟨longer, within⟩ := LogFile.exclusive_ring x sized.ring p
  refine ⟨within, sized.phase.put writing rfl same longer, fun off => ?_⟩
  exact absurd (writing.symm.trans (same.writing.symm.trans off)) (by decide)

/-- A step of a call keeps the sizes. -/
theorem Machine.Sized.producer (sized : m.Sized) {f : Frame} {rest : List Frame}
    (calls : m.stack = f :: rest) : (m.producer x rest f).Sized := by
  rcases Machine.producer_cases x sized.off calls with ⟨stack, made, same, off⟩ | ⟨p, same, writing⟩
  · -- Outside its section a call touches nothing of the log.
    rw [same]
    exact ⟨sized.ring, sized.phase, off⟩
  · rw [same]
    exact sized.enter p writing rest

/-- A block is written, if there is room. -/
theorem Machine.write_eq {tmpBuf : List UInt8} {next : MainPc}
    (written : m.write sectorCount tmpBuf next = some m') :
    m' = { m with log := m.log.writeBlock tmpBuf tmpBuf.length, main := next } := by
  simp only [Machine.write, Option.ite_none_right_eq_some, Option.some.injEq] at written
  exact written.2.symm

/-- One block more. -/
theorem LogFile.InBlocks.writeBlock (blocks : s.InBlocks limit) {block : List UInt8}
    (size : block.length = tmpSize) :
    (s.writeBlock block block.length).InBlocks (limit + tmpSize) := by
  obtain ⟨counted, whole, within⟩ := blocks
  refine ⟨counted.writeBlock block, ?_, ?_⟩
  · show tmpSize ∣ s.fileBytesCounter + block.length
    rw [size]
    exact Nat.dvd_add_self_right.mpr whole
  · show s.fileBytesCounter + block.length ≤ _
    omega

/-- The next file starts with no block. -/
theorem LogFile.openNext_inBlocks (zero : s.fileBytesCounter = 0) :
    (s.openNext (.good tmpSize)).2.InBlocks limit := by
  refine ⟨counted_create s s.nextName zero, ?_, ?_⟩
  · show tmpSize ∣ s.fileBytesCounter
    rw [zero]
    exact dvd_zero _
  · show s.fileBytesCounter ≤ limit
    omega

/-- A step of the main loop keeps the sizes. -/
theorem Machine.Sized.mainStep (sized : m.Sized) (empty : m.stack = [])
    (stepped : m.mainStep sectorCount = some m') : m'.Sized := by
  have same := Machine.mainStep_sameCalls stepped
  have off : m'.log.lfWriting = false → ∀ f ∈ m'.stack, f.passed = false := by
    rw [same.stack, empty]
    simp
  have ring := sized.ring
  have phase := sized.phase
  unfold Machine.SizePhase at phase
  -- One case for each place where the main loop can stand.
  unfold Machine.mainStep at stepped
  cases main : m.main with
  | idle => simp [main] at stepped
  | process =>
    simp only [main, Option.some.injEq] at stepped phase
    subst stepped
    exact ⟨ring, ⟨phase.1, le_rfl, phase.2⟩, off⟩
  | look n =>
    simp only [main] at stepped phase
    obtain ⟨writing, left, blocks⟩ := phase
    -- A block is taken if the ring holds one; otherwise the loop goes back to idle.
    split_ifs at stepped with some_left
    · obtain rfl := Option.some.inj stepped
      refine ⟨?_, ⟨writing, le_rfl, blocks, ?_⟩, off⟩
      · show (m.log.rb.drop tmpSize).length ≤ rbSize
        rw [List.length_drop]
        omega
      · rw [List.length_take]
        omega
    · obtain rfl := Option.some.inj stepped
      exact ⟨ring, .inl ⟨writing, blocks⟩, off⟩
  | taken tmpBuf n =>
    simp only [main] at stepped phase
    obtain ⟨writing, left, blocks, size⟩ := phase
    obtain rfl := Machine.write_eq stepped
    exact ⟨ring, ⟨writing, left, blocks.writeBlock size⟩, off⟩
  | written n =>
    simp only [main] at stepped phase
    obtain ⟨writing, left, counted, whole, within⟩ := phase
    -- A file above the threshold is ended, and the counter starts anew.
    split_ifs at stepped with full
    · obtain rfl := Option.some.inj stepped
      exact ⟨ring, ⟨writing, left, rfl, rfl⟩, off⟩
    · obtain rfl := Option.some.inj stepped
      exact ⟨ring, ⟨writing, left, counted, whole, not_lt.mp full⟩, off⟩
  | between n =>
    simp only [main, Option.some.injEq] at stepped phase
    obtain ⟨writing, left, closed, zero⟩ := phase
    subst stepped
    exact ⟨ring, ⟨writing, left, LogFile.openNext_inBlocks zero⟩, off⟩
  | stopLook n =>
    simp only [main] at stepped phase
    obtain ⟨stopped, count, files⟩ := phase
    split_ifs at stepped with some_left
    · obtain rfl := Option.some.inj stepped
      obtain ⟨counted, within⟩ := files.resolve_right fun closed => by omega
      -- A stop takes blocks, and at last the rest.
      have part : stopSize n ≤ n := by
        unfold stopSize
        split_ifs <;> omega
      refine ⟨?_, ⟨stopped, rfl, counted, ?_⟩, off⟩
      · show (m.log.rb.drop (stopSize n)).length ≤ rbSize
        rw [List.length_drop]
        omega
      · -- What is taken out of the ring is in `tmpBuf`.
        show m.log.fileBytesCounter + (m.log.rb.take (stopSize n)).length +
          (m.log.rb.drop (stopSize n)).length ≤ _
        rw [List.length_drop, List.length_take]
        omega
    · obtain rfl := Option.some.inj stepped
      refine ⟨ring, .inr ⟨stopped, rfl, ?_⟩, off⟩
      exact List.eq_nil_of_length_eq_zero (by show m.log.rb.length = 0; omega)
  | stopTaken tmpBuf n =>
    simp only [main] at stepped phase
    obtain ⟨stopped, count, counted, within⟩ := phase
    obtain rfl := Machine.write_eq stepped
    exact ⟨ring, ⟨stopped, count, .inl ⟨counted.writeBlock tmpBuf, within⟩⟩, off⟩

/-- The call of a function by the main loop keeps the sizes. -/
theorem Machine.Sized.called (sized : m.Sized) (empty : m.stack = []) (idle : m.main = .idle)
    (called : m' = m.lfProcess ∨ m' = m.lfStop) : m'.Sized := by
  have ring := sized.ring
  have phase := sized.phase
  unfold Machine.SizePhase at phase
  simp only [idle] at phase
  rcases called with rfl | rfl
  · unfold Machine.lfProcess
    split_ifs with off
    · exact sized
    · -- The log is on, so its file is open.
      have writing : m.log.lfWriting = true := by
        by_contra stopped
        exact off (.inr (by simpa using stopped))
      obtain ⟨-, blocks⟩ := phase.resolve_right fun stopped =>
        absurd (writing.symm.trans stopped.1) (by decide)
      exact ⟨ring, ⟨writing, blocks⟩, sized.off⟩
  · -- A stop starts with what the ring holds at this time.
    unfold Machine.lfStop
    split_ifs
    · exact sized
    · refine ⟨ring, ⟨rfl, rfl, ?_⟩, by simp [empty]⟩
      rcases phase with ⟨-, counted, -, within⟩ | ⟨-, closed, none⟩
      · exact .inl ⟨counted, Nat.add_le_add within ring⟩
      · exact .inr ⟨closed, by rw [none]; rfl⟩

/-- Where everything succeeds, a log that is started opens its file. -/
theorem LogFile.lfStart_opens (stopped : s.lfWriting = false) (fileName : Option FileName) :
    ∃ t : LogFile, s.lfStart goodCard fileName = t.openLogFile goodCard := by
  -- The card is there, or it starts now.
  have card : (s.tryCard true).sdStarted = true := by
    unfold LogFile.tryCard
    split_ifs with started
    · exact started
    · rfl
  have start : s.lfStart goodCard fileName = (s.tryCard true).startLog goodCard fileName := by
    unfold LogFile.lfStart
    rw [if_neg (by simp [stopped])]
    exact if_neg (by simp [goodCard, card])
  rw [start]
  cases fileName with
  | some name => exact ⟨_, rfl⟩
  | none =>
    -- A free number is found, as creating the number file succeeds.
    have found : ((s.tryCard true).nextNumber goodCard).1 = true := by
      unfold LogFile.nextNumber
      dsimp only
      split_ifs with _ unmade
      · simp [Sd.create, goodCard] at unmade
      · rfl
      · rfl
    exact ⟨_, if_neg (by simp [found])⟩

/-- The file of a log is opened empty, with an empty ring. -/
theorem LogFile.openLogFile_sized (s : LogFile) : (s.openLogFile goodCard).lfWriting = true ∧
    (s.openLogFile goodCard).rb = [] ∧ (s.openLogFile goodCard).InBlocks fileSize2 := by
  refine ⟨rfl, rfl, ?_, dvd_zero _, Nat.zero_le _⟩
  exact ⟨s.fileNameCopy, [], rfl, Files.get_create_same _ _, rfl⟩

/-- A start keeps the sizes. -/
theorem Machine.Sized.lfStart (sized : m.Sized) (empty : m.stack = []) (idle : m.main = .idle)
    (fileName : Option FileName) : { m with log := m.log.lfStart goodCard fileName }.Sized := by
  cases writing : m.log.lfWriting with
  | true =>
    -- A log that is on already says so, and that is all.
    have same : m.log.lfStart goodCard fileName = m.log.xmprintf
        (ascii "writing file " ++ m.log.fileNameCopy ++ ascii " already \r\n") := by
      rw [LogFile.lfStart, if_pos writing]
    rw [same]
    exact ⟨sized.ring, sized.phase.put writing rfl ⟨rfl, rfl, rfl, rfl, rfl⟩ le_rfl, sized.off⟩
  | false =>
    -- Otherwise a new file is opened, whatever was in the ring.
    obtain ⟨t, opens⟩ := LogFile.lfStart_opens writing fileName
    obtain ⟨on, ring, blocks⟩ := t.openLogFile_sized
    rw [opens]
    refine ⟨?_, ?_, by simp [empty]⟩
    · show (t.openLogFile goodCard).rb.length ≤ rbSize
      rw [ring]
      exact Nat.zero_le _
    · unfold Machine.SizePhase
      simp only [idle]
      exact .inl ⟨on, blocks⟩

/-- Every step keeps the sizes. -/
theorem Machine.Sized.step (sized : m.Sized) {a : SizeAct} (stepped : SizeStep x sectorCount m a m') :
    m'.Sized := by
  cases a with
  | lfStart fileName =>
    simp only [SizeStep, Machine.sizeStep, Option.ite_none_right_eq_some, Option.some.injEq] at stepped
    obtain ⟨⟨empty, idle⟩, rfl⟩ := stepped
    exact sized.lfStart empty idle fileName
  | act a =>
    have stepped : MachineStep x sectorCount m a m' := stepped
    rcases stepped.cases with ⟨c, rfl⟩ | ⟨f, rest, calls, rfl⟩ | ⟨empty, idle, called⟩ | ⟨empty, moved⟩
    · -- A call that begins has not looked at the flag yet.
      refine ⟨sized.ring, sized.phase, fun off f member => ?_⟩
      rcases List.mem_cons.mp member with rfl | old
      · rfl
      · exact sized.off off f old
    · exact sized.producer calls
    · exact sized.called empty idle called
    · exact sized.mainStep empty moved

/-- The length of a file that was full. -/
theorem rotated_isLeast {n : ℕ} (whole : tmpSize ∣ n) (full : fileSize2 < n)
    (within : n ≤ fileSize2 + tmpSize) : IsLeast {n | tmpSize ∣ n ∧ fileSize2 < n} n := by
  refine ⟨⟨whole, full⟩, fun k larger => ?_⟩
  -- The threshold is itself a multiple of the size of a block.
  have size : fileSize2 = 204784 * tmpSize := by decide
  obtain ⟨block, above⟩ := larger
  unfold tmpSize at *
  omega

/-- What is known of a file that is closed. -/
def ClosedFile (m m' : Machine) (h : Handle) : Prop :=
  ∃ content, m'.log.sd.card.get h.name = some content ∧
    content.length = m.log.fileBytesCounter ∧ content.length ≤ fileSize ∧
    (m.log.lfWriting = true → IsLeast {n | tmpSize ∣ n ∧ fileSize2 < n} content.length)

/-- The main loop closes a file where it is full, or at the end of a stop. -/
theorem Machine.Sized.mainStep_closes (sized : m.Sized) (stepped : m.mainStep sectorCount = some m')
    {h : Handle} (open_ : m.log.sd.file = some h) (closed : m'.log.sd.file = none) :
    ClosedFile m m' h := by
  have still (same : m'.log.sd.file = m.log.sd.file) : ClosedFile m m' h := by
    rw [same, open_] at closed
    cases closed
  have phase := sized.phase
  unfold Machine.SizePhase at phase
  -- One case for each place where the main loop can stand.
  unfold Machine.mainStep at stepped
  cases main : m.main with
  | idle => simp [main] at stepped
  | process =>
    simp only [main, Option.some.injEq] at stepped
    subst stepped
    exact still rfl
  | look n =>
    simp only [main] at stepped
    split_ifs at stepped
    · obtain rfl := Option.some.inj stepped
      exact still rfl
    · obtain rfl := Option.some.inj stepped
      exact still rfl
  | taken tmpBuf n | stopTaken tmpBuf n =>
    simp only [main] at stepped
    obtain rfl := Machine.write_eq stepped
    -- A write leaves the file open.
    simp [LogFile.writeBlock, Sd.write, open_] at closed
  | written n =>
    simp only [main] at stepped phase
    -- Here a full file is closed, at the first block above the threshold.
    obtain ⟨writing, -, counted, whole, within⟩ := phase
    split_ifs at stepped with full
    · obtain rfl := Option.some.inj stepped
      obtain ⟨content, held, size⟩ := counted.endFile open_
      have block : fileSize2 + tmpSize ≤ fileSize := by decide
      exact ⟨content, held, size, by omega, fun _ => size ▸ rotated_isLeast whole full within⟩
    · obtain rfl := Option.some.inj stepped
      exact still rfl
  | between n =>
    simp only [main] at phase
    rw [phase.2.2.1] at open_
    cases open_
  | stopLook n =>
    simp only [main] at stepped phase
    -- A stop that has drained the ring closes what is open.
    obtain ⟨stopped, -, files⟩ := phase
    split_ifs at stepped
    · obtain rfl := Option.some.inj stepped
      exact still rfl
    · obtain rfl := Option.some.inj stepped
      rcases files with ⟨counted, within⟩ | ⟨none, -⟩
      · obtain ⟨content, held, size⟩ := counted.endFile open_
        have ring : fileSize2 + rbSize ≤ fileSize := by decide
        exact ⟨content, held, size, by omega, fun writing => absurd (writing.symm.trans stopped) (by decide)⟩
      · rw [none] at open_
        cases open_

/-- No step closes a file but those of the main loop. -/
theorem Machine.Sized.closes (sized : m.Sized) {a : SizeAct} (stepped : SizeStep x sectorCount m a m')
    {h : Handle} (open_ : m.log.sd.file = some h) (closed : m'.log.sd.file = none) :
    ClosedFile m m' h := by
  have still (same : m'.log.sd.file = m.log.sd.file) : ClosedFile m m' h := by
    rw [same, open_] at closed
    cases closed
  cases a with
  | lfStart fileName =>
    simp only [SizeStep, Machine.sizeStep, Option.ite_none_right_eq_some, Option.some.injEq] at stepped
    obtain ⟨⟨empty, idle⟩, rfl⟩ := stepped
    have phase := sized.phase
    unfold Machine.SizePhase at phase
    simp only [idle] at phase
    rcases phase with ⟨writing, -⟩ | ⟨-, none, -⟩
    · -- A log that is on is not started again.
      refine still ?_
      show (m.log.lfStart goodCard fileName).sd.file = _
      rw [LogFile.lfStart, if_pos writing]
      rfl
    · rw [none] at open_
      cases open_
  | act a =>
    have stepped : MachineStep x sectorCount m a m' := stepped
    rcases stepped.cases with ⟨c, rfl⟩ | ⟨f, rest, calls, rfl⟩ | ⟨-, -, rfl | rfl⟩ | ⟨-, moved⟩
    · exact still rfl
    · rcases Machine.producer_cases x sized.off calls with ⟨stack, made, same, -⟩ | ⟨p, same, -⟩
      · exact still (by rw [same])
      · refine still ?_
        rw [same]
        exact congrArg Sd.file (m.log.exclusive_sameFiles x p).sd
    · refine still ?_
      unfold Machine.lfProcess
      split_ifs <;> rfl
    · refine still ?_
      unfold Machine.lfStop
      split_ifs <;> rfl
    · exact sized.mainStep_closes moved open_ closed

/--
In every run of starts, calls, `lfProcess` and `lfStop`, whatever preempts what: the counter is the number
of bytes in the file that is open, and this file fits into its preallocated space. A file that is closed
has as many bytes as were counted, and if the log goes on in another file, their number is the smallest
multiple of 512 above `fileSize2`.
-/
theorem log_files_fit (card : Files FileName UInt8) (created : List FileName) {acts : List SizeAct}
    (run : Run (SizeStep x sectorCount) (.session ((LogFile.powerUp card created).lfInit true)) acts m) :
    m.log.CurrentFits ∧ ∀ a m' h, SizeStep x sectorCount m a m' → m.log.sd.file = some h →
      m'.log.sd.file = none → ClosedFile m m' h := by
  have sized : m.Sized := by
    refine Run.invariant ⟨Nat.zero_le _, ?_, ?_⟩ (fun _ _ _ sized stepped => sized.step stepped) run
    · -- After the setup no log is on, and no call is in progress.
      exact Or.inr ⟨rfl, rfl, rfl⟩
    · simp [Machine.session]
  exact ⟨sized.currentFits, fun a m' h stepped open_ closed => sized.closes stepped open_ closed⟩

/-- A log with fed bytes, up to its first block. -/
theorem log_files_fit_block : ∃ m : Machine,
    m.log.sd.file = some ⟨ascii "a.xq", 512⟩ ∧ m.log.fileBytesCounter = 512 ∧ m.log.CurrentFits := by
  let acts : List SizeAct := [.lfStart (some (ascii "a.xq")),
    .act (.call (.lfFeed (List.replicate 600 7))), .act .producer, .act .producer,
    .act .lfProcess, .act .main, .act .main, .act .main]
  let last := acts.foldlM (Machine.sizeStep plainMessage 1000)
    (.session ((LogFile.powerUp [] []).lfInit true))
  -- 600 bytes are fed, and one block of them is written.
  have seen : last.map (fun m => (m.log.sd.file, m.log.fileBytesCounter)) =
      some (some ⟨ascii "a.xq", 512⟩, 512) := by
    decide +kernel
  obtain ⟨m, ran, state⟩ := Option.map_eq_some_iff.mp seen
  simp only [Prod.mk.injEq] at state
  have run : Run (SizeStep plainMessage 1000) (.session ((LogFile.powerUp [] []).lfInit true)) acts m :=
    Run.foldlM _ (fun _ _ _ stepped => stepped) ran
  exact ⟨m, state.1, state.2, (log_files_fit [] [] run).1⟩

end Teetest
