import Teetest.Lib.Trace
import Teetest.Src.LogFile

/-!
The flags and the file object of the log module.

Between operations they agree exactly as long as every change of files succeeds, every opened log file
gets its space, and the module is not initialised while it writes.
-/

namespace Teetest

open Lib

/-- An operation of the log module, with the answers of the card to it. -/
inductive LogOp
  | lfInit (begins : Bool)
  | lfStart (io : StartIo) (fileName : Option FileName)
  | lfStop (io : StopIo)
  | lfProcess (io : Nat → BlockIo)
  | lfFeed (data : List UInt8)
  | lfSendMessage (data : List UInt8) (type : UInt8)

/-- The state after an operation. -/
def LogFile.op (x : XMessage) (s : LogFile) : LogOp → LogFile
  | .lfInit begins => s.lfInit begins
  | .lfStart io fileName => s.lfStart io fileName
  | .lfStop io => s.lfStop io
  | .lfProcess io => s.lfProcess io
  | .lfFeed data => s.lfFeed data
  | .lfSendMessage data type => (s.lfSendMessage x data type).2

/-- The log file is open exactly while the module writes, and then card and state are good. -/
structure LogFile.Consistent (s : LogFile) : Prop where
  opened : s.sd.file.isSome = s.lfWriting
  good : s.lfWriting = true → s.sdStarted = true ∧ s.lfState = .lfSGood

/-- An `lfStart` that gets as far as opening the log file. -/
def LogFile.OpensLog (io : StartIo) (fileName : Option FileName) (s : LogFile) : Prop :=
  s.lfWriting = false ∧ (s.sdStarted = true ∨ io.begins = true) ∧
    (fileName = none →
      io.openNumber = true ∧ (s.sd.card.get fnTxt).isSome = true ∨ io.createNumber = true)

/-- An `lfProcess` that changes files in a round. -/
def LogFile.ChangesAt (round : Nat) (s : LogFile) : Prop :=
  (round + 1) * tmpSize ≤ s.rb.length ∧ s.fileBytesCounter + round * tmpSize ≤ fileSize2 ∧
    fileSize2 < s.fileBytesCounter + (round + 1) * tmpSize

/-- A change of files that succeeds. -/
def BlockIo.Changes (io : BlockIo) : Prop :=
  io.truncated = true ∧ io.openNext = true ∧ io.preAllocated = true

/-- What the card and the caller have to grant to an operation. -/
def LogFile.Granted (s : LogFile) : LogOp → Prop
  | .lfInit _ => s.lfWriting = false
  | .lfStart io fileName => s.OpensLog io fileName → io.openLog = true → io.preAllocated = true
  | .lfProcess io => s.lfWriting = true → ∀ round, s.ChangesAt round → (io round).Changes
  | _ => True

/-- The ring is within its capacity, and a log file that is written is not yet full. -/
structure LogFile.Bounded (s : LogFile) : Prop where
  ring : s.rb.length ≤ rbSize
  file : s.lfWriting = true → s.fileBytesCounter ≤ fileSize2

variable {s : LogFile}

/-- What a new file object holds is open. -/
theorem Sd.create_file (sd : Sd) (ok : Bool) (name : FileName) :
    (sd.create ok name).1 = ok ∧ (sd.create ok name).2.file.isSome = ok := by
  cases ok <;> simp [create]

/-- Writing neither opens nor closes. -/
theorem Sd.write_file (sd : Sd) (data : List UInt8) (written : Nat) :
    (sd.write data written).file.isSome = sd.file.isSome := by
  unfold write
  split
  · rfl
  · rename_i h held
    simp [held]

/-- A truncation succeeds as the card says, if there is a file. -/
theorem Sd.truncate_fst (sd : Sd) (ok : Bool) : (sd.truncate ok).1 = (sd.file.isSome && ok) := by
  unfold truncate
  split
  · rename_i held
    simp [held]
  · rename_i h held
    cases ok <;> simp [held]

section round

variable (io : BlockIo)

/-- A round leaves the flag alone. -/
theorem LogFile.processBlock_writing (s : LogFile) :
    (s.processBlock io).2.lfWriting = s.lfWriting := by
  simp only [processBlock, openNext]
  split_ifs <;> rfl

/-- A round takes one block out of the ring. -/
theorem LogFile.processBlock_rb (s : LogFile) :
    (s.processBlock io).2.rb = s.rb.drop tmpSize := by
  simp only [processBlock, openNext]
  split_ifs <;> rfl

/-- No round mends a bad state. -/
theorem LogFile.processBlock_error (bad : s.lfState = .lfSError) :
    (s.processBlock io).2.lfState = .lfSError := by
  simp only [processBlock, openNext]
  split_ifs
  · rfl
  · -- The state is not touched where the change of files succeeds.
    simp only [endFull, endFile, writeBlock, dropBlock, bad, ite_self]
  · exact bad

/-- A round without a change of files. -/
theorem LogFile.processBlock_same (room : s.fileBytesCounter + tmpSize ≤ fileSize2)
    (block : tmpSize ≤ s.rb.length) :
    s.processBlock io = (true, (s.dropBlock tmpSize).writeBlock (s.rb.take tmpSize) io.written) := by
  have size : (s.rb.take tmpSize).length = tmpSize := by
    rw [List.length_take]
    omega
  simp only [processBlock]
  rw [if_neg]
  simp only [writeBlock, dropBlock, size]
  omega

/-- A round with a change of files. -/
theorem LogFile.processBlock_change (full : fileSize2 < s.fileBytesCounter + tmpSize)
    (block : tmpSize ≤ s.rb.length) :
    s.processBlock io =
      ((((s.dropBlock tmpSize).writeBlock (s.rb.take tmpSize) io.written).endFull
        io.truncated).openNext io) := by
  have size : (s.rb.take tmpSize).length = tmpSize := by
    rw [List.length_take]
    omega
  simp only [processBlock]
  rw [if_pos]
  simp only [writeBlock, dropBlock, size]
  omega

end round

section loop

variable (io : Nat → BlockIo)

/-- The loop leaves the flag alone. -/
theorem LogFile.processLoop_writing (fuel i : Nat) (s : LogFile) :
    (s.processLoop io fuel i).lfWriting = s.lfWriting := by
  induction fuel generalizing s i with
  | zero => rfl
  | succ fuel ih =>
    simp only [processLoop]
    split_ifs
    · rw [ih, processBlock_writing]
    · exact s.processBlock_writing (io i)
    · rfl

/-- The loop only takes bytes out of the ring. -/
theorem LogFile.processLoop_rb (fuel i : Nat) (s : LogFile) :
    (s.processLoop io fuel i).rb.length ≤ s.rb.length := by
  induction fuel generalizing s i with
  | zero => exact le_rfl
  | succ fuel ih =>
    simp only [processLoop]
    split_ifs
    · refine (ih _ _).trans ?_
      simp [processBlock_rb]
    · simp [processBlock_rb]
    · exact le_rfl

/-- The loop does not mend a bad state. -/
theorem LogFile.processLoop_error (fuel i : Nat) (bad : s.lfState = .lfSError) :
    (s.processLoop io fuel i).lfState = .lfSError := by
  induction fuel generalizing s i with
  | zero => exact bad
  | succ fuel ih =>
    simp only [processLoop]
    split_ifs
    · exact ih _ (processBlock_error _ bad)
    · exact processBlock_error _ bad
    · exact bad

/-- A round leaves the counter of a file within its bound. -/
theorem LogFile.processBlock_counter (io : BlockIo) (s : LogFile) :
    (s.processBlock io).2.fileBytesCounter ≤ fileSize2 := by
  simp only [processBlock, openNext]
  split_ifs with full
  · exact Nat.zero_le _
  · exact Nat.zero_le _
  · exact Nat.le_of_not_lt full

/-- The loop leaves the counter of a file within its bound. -/
theorem LogFile.processLoop_counter (fuel i : Nat) (room : s.fileBytesCounter ≤ fileSize2) :
    (s.processLoop io fuel i).fileBytesCounter ≤ fileSize2 := by
  induction fuel generalizing s i with
  | zero => exact room
  | succ fuel ih =>
    simp only [processLoop]
    split_ifs
    · exact ih _ (s.processBlock_counter (io i))
    · exact s.processBlock_counter (io i)
    · exact room

end loop

/-- What is written while the module writes goes to an open file. -/
theorem LogFile.Consistent.writeBlock (consistent : s.Consistent) (tmpBuf : List UInt8)
    (written : Nat) : (s.writeBlock tmpBuf written).Consistent :=
  ⟨(s.sd.write_file tmpBuf written).trans consistent.opened, consistent.good⟩

/-- Taking bytes out of the ring touches neither flags nor file. -/
theorem LogFile.Consistent.dropBlock (consistent : s.Consistent) (bs : Nat) :
    (s.dropBlock bs).Consistent :=
  ⟨consistent.opened, consistent.good⟩

/-- A state that writes without being good is not consistent. -/
theorem LogFile.not_consistent (writing : s.lfWriting = true) (bad : s.lfState = .lfSError) :
    ¬s.Consistent := by
  intro consistent
  have good := (consistent.good writing).2
  rw [bad] at good
  exact absurd good (by decide)

section change

variable (io : BlockIo)

/-- The next file is opened. -/
theorem LogFile.openNext_of_changes (changes : io.Changes) (s : LogFile) :
    s.openNext io = (true, { s with sd := (s.sd.create true s.nextName).2 }) := by
  simp [openNext, changes.2.1, changes.2.2, Sd.create]

/-- A change of files that succeeds goes on with a new and empty file. -/
theorem LogFile.Consistent.change (consistent : s.Consistent) (writing : s.lfWriting = true)
    (changes : io.Changes) :
    ((s.endFull io.truncated).openNext io).1 = true ∧
      ((s.endFull io.truncated).openNext io).2.Consistent := by
  have held : s.sd.file.isSome = true := consistent.opened.trans writing
  -- The file is open, so it is cut, and the state stays good.
  have ended : (s.endFull io.truncated).lfState = s.lfState := by
    simp [endFull, endFile, Sd.truncate_fst, held, changes.1]
  rw [openNext_of_changes io changes]
  refine ⟨rfl, (Sd.create_file _ _ _).2.trans writing.symm, fun _ => ?_⟩
  exact ⟨(consistent.good writing).1, ended.trans (consistent.good writing).2⟩

/-- A change of files that fails leaves a bad state. -/
theorem LogFile.change_error (fails : ¬io.Changes) :
    ((s.endFull io.truncated).openNext io).2.lfState = .lfSError := by
  have made := (s.endFull io.truncated).sd.create_file io.openNext (s.endFull io.truncated).nextName
  simp only [openNext, made.1]
  split_ifs with later
  · rfl
  · -- The new file is there, so it was the old one that could not be cut.
    have uncut : io.truncated = false := by
      simp only [Bool.not_eq_true', not_or, Bool.not_eq_false] at later
      by_contra cut
      exact fails ⟨by simpa using cut, later.1, later.2⟩
    simp [endFull, endFile, Sd.truncate_fst, uncut]

end change

/-- Without a whole block in the ring there is no change of files. -/
theorem LogFile.not_changesAt_of_short (short : s.rb.length < tmpSize) (round : Nat) :
    ¬s.ChangesAt round := by
  rintro ⟨blocks, -, -⟩
  rw [Nat.add_mul] at blocks
  omega

/-- A round without a change of files counts its block, and stays consistent. -/
theorem LogFile.Consistent.round_same (consistent : s.Consistent) (io : BlockIo)
    (block : tmpSize ≤ s.rb.length) (room : s.fileBytesCounter + tmpSize ≤ fileSize2) :
    (s.processBlock io).1 = true ∧ (s.processBlock io).2.Consistent ∧
      (s.processBlock io).2.fileBytesCounter = s.fileBytesCounter + tmpSize := by
  have size : (s.rb.take tmpSize).length = tmpSize := by
    rw [List.length_take]
    omega
  rw [processBlock_same io room block]
  refine ⟨rfl, (consistent.dropBlock tmpSize).writeBlock _ _, ?_⟩
  show s.fileBytesCounter + (s.rb.take tmpSize).length = _
  rw [size]

/-- A round with a change of files that succeeds starts to count anew, and stays consistent. -/
theorem LogFile.Consistent.round_change (consistent : s.Consistent) {io : BlockIo}
    (block : tmpSize ≤ s.rb.length) (full : fileSize2 < s.fileBytesCounter + tmpSize)
    (writing : s.lfWriting = true) (changes : io.Changes) :
    (s.processBlock io).1 = true ∧ (s.processBlock io).2.Consistent ∧
      (s.processBlock io).2.fileBytesCounter = 0 := by
  have written := (consistent.dropBlock tmpSize).writeBlock (s.rb.take tmpSize) io.written
  obtain ⟨goes, kept⟩ := written.change io writing changes
  rw [processBlock_change io full block]
  refine ⟨goes, kept, ?_⟩
  rw [openNext_of_changes io changes]
  rfl

/-- A round with a change of files that fails leaves a bad state. -/
theorem LogFile.round_error {io : BlockIo} (block : tmpSize ≤ s.rb.length)
    (full : fileSize2 < s.fileBytesCounter + tmpSize) (fails : ¬io.Changes) :
    (s.processBlock io).2.lfState = .lfSError := by
  rw [processBlock_change io full block]
  exact change_error io fails

/-- A loop on a consistent state stays consistent exactly if its change of files succeeds. -/
theorem LogFile.processLoop_consistent (io : Nat → BlockIo) {fuel i : Nat}
    (enough : s.rb.length ≤ fuel * tmpSize) (consistent : s.Consistent)
    (writing : s.lfWriting = true) (ring : s.rb.length ≤ rbSize)
    (room : s.fileBytesCounter ≤ fileSize2) :
    (s.processLoop io fuel i).Consistent ↔
      ∀ round, s.ChangesAt round → (io (i + round)).Changes := by
  induction fuel generalizing s i with
  | zero =>
    -- The ring is empty.
    have short : s.rb.length < tmpSize := by
      rw [Nat.zero_mul] at enough
      exact Nat.lt_of_le_of_lt enough (by decide)
    exact ⟨fun _ round changes => absurd changes (not_changesAt_of_short short round),
      fun _ => consistent⟩
  | succ fuel ih =>
    simp only [processLoop]
    by_cases block : tmpSize ≤ s.rb.length
    · rw [if_pos block]
      have rest : (s.processBlock (io i)).2.rb.length = s.rb.length - tmpSize := by
        rw [processBlock_rb, List.length_drop]
      have still := (s.processBlock_writing (io i)).trans writing
      rw [Nat.add_mul] at enough
      by_cases full : fileSize2 < s.fileBytesCounter + tmpSize
      · -- The change of files comes in this round, and no other follows it.
        have here : s.ChangesAt 0 := ⟨by omega, by omega, by omega⟩
        have only : ∀ round, s.ChangesAt round → round = 0 := by
          rintro round ⟨-, before, -⟩
          by_contra later
          have : tmpSize ≤ round * tmpSize := Nat.le_mul_of_pos_left _ (Nat.pos_of_ne_zero later)
          omega
        by_cases changes : (io i).Changes
        · obtain ⟨goes, kept, counter⟩ := consistent.round_change block full writing changes
          rw [if_pos goes]
          refine ⟨fun _ round at_round => by simpa [only round at_round] using changes, fun _ => ?_⟩
          refine (ih (by omega) kept still (by omega) (by omega)).mpr ?_
          -- What is left in the ring does not fill the new file.
          rintro round ⟨blocks, -, fills⟩
          rw [rest] at blocks
          rw [counter] at fills
          have : fileSize2 < rbSize := by omega
          exact absurd this (by decide)
        · -- A change that fails is seen in the end.
          have bad := round_error block full changes
          refine ⟨fun kept => absurd kept ?_, fun all => absurd (all 0 here) changes⟩
          split_ifs
          · exact not_consistent (by rw [processLoop_writing]; exact still)
              (processLoop_error _ _ _ bad)
          · exact not_consistent still bad
      · -- The block fits into the current file, and the rest of the loop decides.
        obtain ⟨goes, kept, counter⟩ := consistent.round_same (io i) block (by omega)
        rw [if_pos goes]
        -- The rounds are counted from the next one.
        have shift : ∀ round, (s.processBlock (io i)).2.ChangesAt round ↔ s.ChangesAt (round + 1) := by
          intro round
          simp only [ChangesAt, rest, counter, Nat.add_mul, Nat.one_mul]
          omega
        rw [ih (by omega) kept still (by omega) (by omega)]
        constructor
        · intro all round changes
          cases round with
          | zero =>
            obtain ⟨-, -, fills⟩ := changes
            omega
          | succ round =>
            have := all round ((shift round).mpr changes)
            rwa [Nat.add_assoc, Nat.add_comm 1 round] at this
        · intro all round changes
          have := all (round + 1) ((shift round).mp changes)
          rwa [Nat.add_assoc, Nat.add_comm 1 round]
    · rw [if_neg block]
      exact ⟨fun _ round changes => absurd changes (not_changesAt_of_short (by omega) round),
        fun _ => consistent⟩

section start

variable (io : StartIo)

/-- Writing the number closes fn.txt, and touches no flag. -/
theorem LogFile.saveNumber_flags (s : LogFile) :
    (s.saveNumber io).sd.file = none ∧ (s.saveNumber io).lfWriting = s.lfWriting ∧
      (s.saveNumber io).sdStarted = s.sdStarted :=
  ⟨rfl, rfl, rfl⟩

/-- Reading the number touches no flag. -/
theorem LogFile.takeNumber_flags (stmp : List UInt8) (s : LogFile) :
    (s.takeNumber stmp).lfWriting = s.lfWriting ∧ (s.takeNumber stmp).sdStarted = s.sdStarted := by
  unfold takeNumber
  split <;> exact ⟨rfl, rfl⟩

/-- However the number is found, fn.txt is closed after it, and no flag is touched. -/
theorem LogFile.nextNumber_flags (s : LogFile) :
    (s.nextNumber io).2.sd.file = none ∧ (s.nextNumber io).2.lfWriting = s.lfWriting ∧
      (s.nextNumber io).2.sdStarted = s.sdStarted := by
  simp only [nextNumber]
  split_ifs with unopened unmade
  · -- Neither is there an old file, nor can a new one be made.
    refine ⟨?_, rfl, rfl⟩
    have made := (s.sd.open io.openNumber fnTxt).2.create_file io.createNumber fnTxt
    have refused : io.createNumber = false := by
      rw [made.1] at unmade
      simpa using unmade
    simpa [refused, xmprintf] using made.2
  · exact saveNumber_flags io _
  · obtain ⟨writing, started⟩ := takeNumber_flags
      ((s.sd.open io.openNumber fnTxt).2.rewind.fgets io.readNumber).1
      { s with sd := ((s.sd.open io.openNumber fnTxt).2.rewind.fgets io.readNumber).2 }
    obtain ⟨closed, writing', started'⟩ := saveNumber_flags io _
    exact ⟨closed, writing'.trans writing, started'.trans started⟩

/-- Reading the number leaves the ring alone. -/
theorem LogFile.takeNumber_rb (stmp : List UInt8) (s : LogFile) : (s.takeNumber stmp).rb = s.rb := by
  unfold takeNumber
  split <;> rfl

/-- The automatic branch leaves the ring alone. -/
theorem LogFile.nextNumber_rb (s : LogFile) : (s.nextNumber io).2.rb = s.rb := by
  simp only [nextNumber]
  split_ifs
  · rfl
  · rfl
  · exact takeNumber_rb _ _

/-- There is a number as soon as fn.txt can be opened or made. -/
theorem LogFile.nextNumber_fst (s : LogFile) :
    (s.nextNumber io).1 = true ↔
      io.openNumber = true ∧ (s.sd.card.get fnTxt).isSome = true ∨ io.createNumber = true := by
  have found : (s.sd.open io.openNumber fnTxt).1 =
      (io.openNumber && (s.sd.card.get fnTxt).isSome) := by
    simp only [Sd.open]
    split_ifs with both
    · exact both.symm
    · simpa using both
  simp only [nextNumber, found, Sd.create_file]
  split_ifs with unopened unmade
  · simp only [Bool.not_eq_true'] at unopened unmade
    simpa [unmade] using unopened
  · simp only [Bool.not_eq_true', Bool.not_eq_false] at unmade
    simp [unmade]
  · simp only [Bool.not_eq_true', Bool.not_eq_false, Bool.and_eq_true] at unopened
    simp [unopened]

/-- Opening the log file stays consistent exactly if the opened file gets its space. -/
theorem LogFile.openLogFile_consistent (idle : s.lfWriting = false)
    (started : s.sdStarted = true) :
    (s.openLogFile io).Consistent ↔ (io.openLog = true → io.preAllocated = true) := by
  have held : ∀ name, (s.sd.create io.openLog name).2.file.isSome = io.openLog :=
    fun name => (s.sd.create_file io.openLog name).2
  have made : ∀ name, (s.sd.create io.openLog name).1 = io.openLog :=
    fun name => (s.sd.create_file io.openLog name).1
  simp only [openLogFile, made]
  split_ifs with closed short
  · -- No log file was opened.
    have refused : io.openLog = false := by simpa using closed
    refine ⟨fun _ opened => absurd opened (by simp [refused]), fun _ => ⟨?_, ?_⟩⟩
    · exact (held _).trans (refused.trans idle.symm)
    · exact fun writing => absurd (idle.symm.trans writing) (by decide)
  · -- The log file stays open, although the module does not write.
    have opened : io.openLog = true := by simpa using closed
    constructor
    · intro consistent
      have := consistent.opened
      exact absurd ((held _).symm.trans (this.trans idle)) (by simp [opened])
    · intro grant
      exact absurd (grant opened) (by simpa using short)
  · have opened : io.openLog = true := by simpa using closed
    have allocated : io.preAllocated = true := by simpa using short
    exact ⟨fun _ _ => allocated, fun _ => ⟨(held _).trans opened, fun _ => ⟨started, rfl⟩⟩⟩

end start

/-- A state that neither writes nor holds a file is consistent. -/
theorem LogFile.Consistent.idle (closed : s.sd.file = none) (idle : s.lfWriting = false) :
    s.Consistent :=
  ⟨by rw [closed, idle]; rfl, fun writing => absurd (idle.symm.trans writing) (by decide)⟩

/-- Where the module does not write, no file is open. -/
theorem LogFile.Consistent.closed (consistent : s.Consistent) (idle : s.lfWriting = false) :
    s.sd.file = none := by
  have := consistent.opened
  rw [idle] at this
  simpa using this

/-- An initialisation clears the flag, and leaves the file object alone. -/
theorem LogFile.lfInit_flags (begins : Bool) (s : LogFile) :
    (s.lfInit begins).lfWriting = false ∧ (s.lfInit begins).sd = s.sd ∧
      (s.lfInit begins).sdStarted = begins := by
  cases begins <;> exact ⟨rfl, rfl, rfl⟩

/-- An initialisation stays consistent exactly if nothing is being written. -/
theorem LogFile.lfInit_consistent (begins : Bool) (consistent : s.Consistent) :
    (s.lfInit begins).Consistent ↔ s.lfWriting = false := by
  obtain ⟨cleared, same, -⟩ := s.lfInit_flags begins
  constructor
  · intro kept
    have := kept.opened
    rw [same, cleared, consistent.opened] at this
    exact this
  · intro idle
    exact .idle (by rw [same]; exact consistent.closed idle) cleared

/-- A start that tries the card keeps what it finds, but for the mark of a started card. -/
theorem LogFile.tryCard_flags (begins : Bool) (idle : s.lfWriting = false) :
    (s.tryCard begins).lfWriting = false ∧ (s.tryCard begins).sd = s.sd ∧
      ((s.tryCard begins).sdStarted = true ↔ s.sdStarted = true ∨ begins = true) := by
  obtain ⟨cleared, same, began⟩ := s.lfInit_flags begins
  unfold tryCard
  split_ifs with started
  · exact ⟨idle, rfl, by simp [started]⟩
  · exact ⟨cleared, same, by simp [started, began]⟩

/-- On a started card, a start stays consistent exactly if the log file it opens gets its space. -/
theorem LogFile.startLog_consistent (io : StartIo) (fileName : Option FileName)
    (idle : s.lfWriting = false) (started : s.sdStarted = true) :
    (s.startLog io fileName).Consistent ↔
      ((fileName = none → io.openNumber = true ∧ (s.sd.card.get fnTxt).isSome = true ∨
        io.createNumber = true) → io.openLog = true → io.preAllocated = true) := by
  cases fileName with
  | some fileName =>
    rw [startLog, openLogFile_consistent io (by exact idle) (by exact started)]
    simp
  | none =>
    obtain ⟨closed, idle', started'⟩ := s.nextNumber_flags io
    have found := s.nextNumber_fst io
    simp only [startLog, true_imp_iff, ← found]
    split_ifs with missing
    · -- fn.txt can neither be opened nor made.
      have none : ¬(s.nextNumber io).1 = true := by simpa using missing
      exact ⟨fun _ number => absurd number none, fun _ => .idle closed (idle'.trans idle)⟩
    · have number : (s.nextNumber io).1 = true := by simpa using missing
      rw [openLogFile_consistent io (idle'.trans idle) (started'.trans started)]
      exact ⟨fun grant _ => grant, fun grant => grant number⟩

/-- A start stays consistent exactly if the log file it opens gets its space. -/
theorem LogFile.lfStart_consistent (io : StartIo) (fileName : Option FileName)
    (consistent : s.Consistent) :
    (s.lfStart io fileName).Consistent ↔
      (s.OpensLog io fileName → io.openLog = true → io.preAllocated = true) := by
  simp only [lfStart]
  split_ifs with writing missing
  · -- A second start changes nothing.
    refine ⟨fun _ opens => absurd (opens.1.symm.trans writing) (by decide), fun _ => ?_⟩
    exact ⟨consistent.opened, consistent.good⟩
  all_goals
    have idle : s.lfWriting = false := by simpa using writing
    obtain ⟨idle', same, started⟩ := s.tryCard_flags io.begins idle
  · -- There is no card.
    have none : ¬(s.tryCard io.begins).sdStarted = true := by simpa using missing
    refine ⟨fun _ opens => absurd (started.mpr opens.2.1) none, fun _ => .idle ?_ idle'⟩
    exact (congrArg Sd.file same).trans (consistent.closed idle)
  · have began : (s.tryCard io.begins).sdStarted = true := by simpa using missing
    rw [startLog_consistent io fileName idle' began, same]
    exact ⟨fun grant opens => grant opens.2.2, fun grant name => grant ⟨idle, started.mp began, name⟩⟩

/-- The loop of a stop touches neither flag nor state. -/
theorem LogFile.drain_flags (written : Nat → Nat) (fuel i : Nat) (s : LogFile) :
    (s.drain written fuel i).lfWriting = s.lfWriting ∧
      (s.drain written fuel i).sdStarted = s.sdStarted := by
  induction fuel generalizing s i with
  | zero => exact ⟨rfl, rfl⟩
  | succ fuel ih =>
    simp only [drain]
    split_ifs
    · exact ih _ _
    · exact ⟨rfl, rfl⟩

/-- A stop stays consistent, however the card answers. -/
theorem LogFile.Consistent.lfStop (consistent : s.Consistent) (io : StopIo) :
    (s.lfStop io).Consistent := by
  -- What is said about a module that does not write changes nothing.
  have said : (if !s.lfWriting then s.xmprintf (ascii "not writing now \r\n") else s).Consistent := by
    split_ifs
    · exact ⟨consistent.opened, consistent.good⟩
    · exact consistent
  unfold LogFile.lfStop
  revert said
  generalize (if !s.lfWriting then s.xmprintf (ascii "not writing now \r\n") else s) = t
  intro said
  dsimp only
  split_ifs
  · exact ⟨said.opened, said.good⟩
  · exact ⟨said.opened, said.good⟩
  · -- The file is closed whether or not it can be cut.
    exact .idle rfl (drain_flags _ _ _ _).1

/-- A stretch of bytes is put into the ring or refused, and nothing else is touched. -/
theorem LogFile.Consistent.put (consistent : s.Consistent) (image : List UInt8) :
    (s.put image).2.Consistent := by
  unfold LogFile.put
  split_ifs <;> exact ⟨consistent.opened, consistent.good⟩

/-- An operation on a consistent state stays consistent exactly if it is granted what it needs. -/
theorem LogFile.op_consistent (x : XMessage) (bounded : s.Bounded) (consistent : s.Consistent)
    (o : LogOp) : (s.op x o).Consistent ↔ s.Granted o := by
  cases o with
  | lfInit begins => exact lfInit_consistent begins consistent
  | lfStart io fileName => exact lfStart_consistent io fileName consistent
  | lfStop io => exact ⟨fun _ => trivial, fun _ => consistent.lfStop io⟩
  | lfProcess io =>
    simp only [op, lfProcess, Granted]
    by_cases writing : s.lfWriting = true
    · have good := (consistent.good writing).2
      rw [if_neg (by simp [good, writing])]
      rw [processLoop_consistent io (Nat.le_mul_of_pos_right _ (by decide)) consistent writing
        bounded.ring (bounded.file writing)]
      simp [writing]
    · rw [if_pos (by simp [writing])]
      exact ⟨fun _ now => absurd now writing, fun _ => consistent⟩
  | lfFeed data =>
    refine ⟨fun _ => trivial, fun _ => ?_⟩
    simp only [op, lfFeed]
    split_ifs
    · exact consistent
    · exact consistent.put data
  | lfSendMessage data type =>
    refine ⟨fun _ => trivial, fun _ => ?_⟩
    have put := consistent.put (x.image s.counter type data)
    simp only [op, lfSendMessage, putMessage]
    -- The counter of messages is not a flag.
    split_ifs <;> first | exact consistent | exact ⟨put.opened, put.good⟩

/-- Putting bytes into the ring keeps it within its capacity. -/
theorem LogFile.Bounded.put (bounded : s.Bounded) (image : List UInt8) : (s.put image).2.Bounded := by
  unfold LogFile.put
  split_ifs with full
  · exact ⟨bounded.ring, bounded.file⟩
  · refine ⟨?_, bounded.file⟩
    have := bounded.ring
    show (s.rb ++ image).length ≤ rbSize
    rw [List.length_append]
    omega

/-- An initialisation empties the ring. -/
theorem LogFile.lfInit_bounded (begins : Bool) (s : LogFile) : (s.lfInit begins).Bounded := by
  cases begins <;> exact ⟨Nat.zero_le _, fun writing => absurd writing (by simp [lfInit, xmprintf])⟩

/-- Opening a log file empties the ring and starts to count anew. -/
theorem LogFile.openLogFile_bounded (io : StartIo) (s : LogFile) : (s.openLogFile io).Bounded := by
  simp only [openLogFile]
  split_ifs <;> exact ⟨Nat.zero_le _, fun _ => Nat.zero_le _⟩

/-- A start keeps the bounds: a state that does not write has an empty counter to keep. -/
theorem LogFile.startLog_bounded (io : StartIo) (fileName : Option FileName)
    (bounded : s.Bounded) (idle : s.lfWriting = false) : (s.startLog io fileName).Bounded := by
  cases fileName with
  | some fileName => exact openLogFile_bounded io _
  | none =>
    simp only [startLog]
    split_ifs
    · -- Without a number, the module does not write.
      refine ⟨?_, fun writing => absurd writing ?_⟩
      · rw [nextNumber_rb]
        exact bounded.ring
      · rw [(s.nextNumber_flags io).2.1, idle]
        decide
    · exact openLogFile_bounded io _

/-- A start keeps the bounds. -/
theorem LogFile.Bounded.lfStart (bounded : s.Bounded) (io : StartIo) (fileName : Option FileName) :
    (s.lfStart io fileName).Bounded := by
  simp only [LogFile.lfStart]
  split_ifs with writing missing
  · exact ⟨bounded.ring, bounded.file⟩
  all_goals
    have ready : (s.tryCard io.begins).Bounded := by
      unfold tryCard
      split_ifs
      · exact bounded
      · exact s.lfInit_bounded io.begins
  · exact ⟨ready.ring, ready.file⟩
  · exact startLog_bounded io fileName ready (tryCard_flags io.begins (by simpa using writing)).1

/-- The loop of a stop only takes bytes out of the ring. -/
theorem LogFile.drain_rb (written : Nat → Nat) (fuel i : Nat) (s : LogFile) :
    (s.drain written fuel i).rb.length ≤ s.rb.length := by
  induction fuel generalizing s i with
  | zero => exact le_rfl
  | succ fuel ih =>
    simp only [drain]
    split_ifs
    · refine (ih _ _).trans ?_
      simp [writeBlock, dropBlock]
    · exact le_rfl

/-- A stop keeps the bounds. -/
theorem LogFile.Bounded.lfStop (bounded : s.Bounded) (io : StopIo) : (s.lfStop io).Bounded := by
  have said : (if !s.lfWriting then s.xmprintf (ascii "not writing now \r\n") else s).Bounded := by
    split_ifs
    · exact ⟨bounded.ring, bounded.file⟩
    · exact bounded
  unfold LogFile.lfStop
  revert said
  generalize (if !s.lfWriting then s.xmprintf (ascii "not writing now \r\n") else s) = t
  intro said
  dsimp only
  split_ifs
  · exact ⟨said.ring, said.file⟩
  · exact ⟨said.ring, said.file⟩
  · refine ⟨(drain_rb _ _ _ _).trans said.ring, fun writing => ?_⟩
    -- The flag was cleared before the loop.
    exact absurd ((drain_flags _ _ _ _).1.symm.trans writing) Bool.false_ne_true

/-- Every operation keeps the bounds. -/
theorem LogFile.Bounded.op (x : XMessage) (bounded : s.Bounded) (o : LogOp) : (s.op x o).Bounded := by
  cases o with
  | lfInit begins => exact s.lfInit_bounded begins
  | lfStart io fileName => exact bounded.lfStart io fileName
  | lfStop io => exact bounded.lfStop io
  | lfProcess io =>
    simp only [LogFile.op, lfProcess]
    split_ifs with off
    · exact bounded
    · refine ⟨(processLoop_rb _ _ _ _).trans bounded.ring, fun writing => ?_⟩
      rw [processLoop_writing] at writing
      exact processLoop_counter _ _ _ (bounded.file writing)
  | lfFeed data =>
    simp only [LogFile.op, lfFeed]
    split_ifs
    · exact bounded
    · exact bounded.put data
  | lfSendMessage data type =>
    have put := bounded.put (x.image s.counter type data)
    simp only [LogFile.op, lfSendMessage, putMessage]
    split_ifs <;> first | exact bounded | exact ⟨put.ring, put.file⟩

/-- The state after a sequence of operations. -/
def LogFile.run (x : XMessage) (s : LogFile) (ops : List LogOp) : LogFile := ops.foldl (op x) s

/-- The bounds hold in every state that is reached. -/
theorem LogFile.Bounded.run (x : XMessage) (bounded : s.Bounded) (ops : List LogOp) :
    (s.run x ops).Bounded := by
  induction ops generalizing s with
  | nil => exact bounded
  | cons o ops ih => exact ih (bounded.op x o)

/-- From power-up, the states between the operations of a sequence are all consistent exactly if each
operation is granted what it needs in the state it starts from. -/
theorem LogFile.run_consistent_iff (x : XMessage) (card : Files FileName UInt8)
    (created : List FileName) (ops : List LogOp) :
    (∀ past, past <+: ops → ((powerUp card created).run x past).Consistent) ↔
      ∀ past o, past ++ [o] <+: ops → ((powerUp card created).run x past).Granted o := by
  have bounded : (powerUp card created).Bounded := ⟨Nat.zero_le _, fun _ => Nat.zero_le _⟩
  refine forall_prefix_iff (P := fun past => ((powerUp card created).run x past).Consistent)
    (.idle rfl rfl) ?_ ops
  intro past o consistent
  -- The operation leads from one consistent state to another.
  have last : (powerUp card created).run x (past ++ [o]) =
      ((powerUp card created).run x past).op x o := by
    simp [run]
  rw [last]
  exact op_consistent x (bounded.run x past) consistent o

/-- The card accepts the log file, but has no space left to allocate for it. -/
def fullCard : StartIo where
  begins := true
  openNumber := true
  createNumber := true
  readNumber := true
  truncated := true
  written := 64
  openLog := true
  preAllocated := false

/-- A named log on a full card leaves its file open, although the module does not write. -/
theorem LogFile.not_always_consistent : ¬∀ (x : XMessage) (card : Files FileName UInt8)
    (ops : List LogOp), ((powerUp card []).run x ops).Consistent := by
  intro all
  have one := (all ⟨0, fun _ _ _ => [], fun _ _ _ => rfl, fun _ => 0⟩ []
    [.lfInit true, .lfStart fullCard (some (ascii "run.xq"))]).opened
  exact absurd one (by decide)

/-- A module that is stuck: it writes in a bad state. -/
def LogFile.Stuck (s : LogFile) : Prop := s.lfWriting = true ∧ s.lfState = .lfSError

/-- A failed change of files leaves the module stuck. -/
theorem LogFile.stuck_of_fails {io : BlockIo} (writing : s.lfWriting = true)
    (block : tmpSize ≤ s.rb.length) (full : fileSize2 < s.fileBytesCounter + tmpSize)
    (fails : ¬io.Changes) : (s.processBlock io).2.Stuck :=
  ⟨(s.processBlock_writing io).trans writing, round_error block full fails⟩

/-- Only an initialisation gets the module out of being stuck. -/
theorem LogFile.Stuck.op (x : XMessage) (stuck : s.Stuck) {o : LogOp}
    (other : ∀ begins, o ≠ .lfInit begins) : (s.op x o).Stuck := by
  obtain ⟨writing, bad⟩ := stuck
  cases o with
  | lfInit begins => exact absurd rfl (other begins)
  | lfStart io fileName =>
    -- "writing file already"
    simp only [LogFile.op, LogFile.lfStart, writing, if_true]
    exact ⟨writing, bad⟩
  | lfStop io =>
    -- "state not good"
    simp only [LogFile.op, LogFile.lfStop, writing, Bool.not_true, Bool.false_eq_true, if_false]
    split_ifs
    · exact ⟨writing, bad⟩
    · exact ⟨writing, bad⟩
    · rename_i good
      rw [bad] at good
      exact absurd good (by decide)
  | lfProcess io => simpa [LogFile.op, lfProcess, bad] using ⟨writing, bad⟩
  | lfFeed data => simpa [LogFile.op, lfFeed, bad] using ⟨writing, bad⟩
  | lfSendMessage data type => simpa [LogFile.op, lfSendMessage, bad] using ⟨writing, bad⟩

/-- Two states that differ at most in the texts for the user. -/
def LogFile.SameBut (s t : LogFile) : Prop := { t with printed := s.printed } = s

/-- The loop of a stop neither opens nor closes the file. -/
theorem LogFile.drain_file (written : Nat → Nat) (fuel i : Nat) (s : LogFile) :
    (s.drain written fuel i).sd.file.isSome = s.sd.file.isSome := by
  induction fuel generalizing s i with
  | zero => rfl
  | succ fuel ih =>
    simp only [drain]
    split_ifs
    · -- A block goes through the open file, if there is one.
      rw [ih]
      exact Sd.write_file _ _ _
    · rfl

/-- A stop of a module that does not write says so. -/
theorem LogFile.stop_said (idle : s.lfWriting = false) :
    (if !s.lfWriting then s.xmprintf (ascii "not writing now \r\n") else s) =
      s.xmprintf (ascii "not writing now \r\n") :=
  if_pos (by simp [idle])

/-- A stop on a card that is started and good tries to end a file. -/
theorem LogFile.lfStop_good (idle : s.lfWriting = false) (started : s.sdStarted = true)
    (good : s.lfState = .lfSGood) (io : StopIo) :
    (s.lfStop io).sd.file = none ∧ ((s.lfStop io).lfState = .lfSGood → s.sd.file.isSome = true) := by
  unfold LogFile.lfStop
  rw [stop_said idle]
  simp only [LogFile.xmprintf, started, good, Bool.not_true, Bool.false_eq_true, ne_eq,
    not_true_eq_false, if_false]
  refine ⟨rfl, fun still => ?_⟩
  simp only [endFile, Sd.truncate_fst, drain_file] at still
  -- A file that is closed cannot be cut.
  split_ifs at still with failed
  simp only [Bool.not_eq_true', Bool.not_eq_false, Bool.and_eq_true] at failed
  exact failed.1

/--
A stop of a module that does not write changes nothing but the texts exactly when it leaves early.

Otherwise it ends a file that is not there, and the failure puts the module into its error state.
-/
theorem LogFile.lfStop_idle_iff (idle : s.lfWriting = false) (io : StopIo) :
    s.SameBut (s.lfStop io) ↔ s.sdStarted = false ∨ s.lfState ≠ .lfSGood := by
  constructor
  · intro same
    by_contra good
    simp only [not_or, Bool.not_eq_false, ne_eq, not_not] at good
    obtain ⟨closed, held⟩ := lfStop_good idle good.1 good.2 io
    unfold SameBut at same
    have file : (s.lfStop io).sd.file = s.sd.file := (congrArg (fun t : LogFile => t.sd.file) same :)
    have state : (s.lfStop io).lfState = s.lfState := (congrArg LogFile.lfState same :)
    -- The file would have to be both open and closed.
    have some_ := held (state.trans good.2)
    rw [← file, closed] at some_
    exact absurd some_ (by decide)
  · intro early
    unfold SameBut LogFile.lfStop
    rw [stop_said idle]
    dsimp only [LogFile.xmprintf]
    split_ifs with none bad
    · rfl
    · rfl
    · -- A module that goes on is neither.
      rcases early with missing | other
      · exact absurd missing (by simpa using none)
      · exact absurd other bad

/-- The module after a start that opened its file, and could not reserve the space for it. -/
def LogFile.unreserved : LogFile :=
  ((powerUp [] []).lfInit true).lfStart { goodCard with preAllocated := false }
    (some (ascii "run.xq"))

/-- A stop after a failed start changes nothing, although the card is started and a file is open. -/
theorem LogFile.lfStop_idle_iff_unreserved : unreserved.sdStarted = true ∧
    unreserved.sd.file = some ⟨ascii "run.xq", 0⟩ ∧
      unreserved.SameBut (unreserved.lfStop ⟨fun _ => 512, true⟩) :=
  ⟨by decide, by decide, (lfStop_idle_iff (by decide) _).mpr (.inr (by decide))⟩

/-- After a log was stopped, a second stop puts the module into its error state. -/
theorem LogFile.second_stop_fails : ¬∀ (x : XMessage) (ops : List LogOp) (io : StopIo),
    ((powerUp [] []).run x ops).lfWriting = false →
      ((powerUp [] []).run x ops).SameBut (((powerUp [] []).run x ops).lfStop io) := by
  intro same
  have state := congrArg LogFile.lfState (same ⟨0, fun _ _ _ => [], fun _ _ _ => rfl, fun _ => 0⟩
    [.lfInit true, .lfStart goodCard (some (ascii "run.xq")), .lfStop ⟨fun _ => 512, true⟩]
    ⟨fun _ => 512, true⟩ (by decide))
  revert state
  decide

end Teetest
