import Teetest.Log.Consistent

/-! When the log module writes, and that its ring is empty while it does not. -/

namespace Teetest

open Lib

/-- While no log is written, nothing is queued. -/
def LogFile.Emptied (s : LogFile) : Prop := s.lfWriting = false → s.rb = []

variable {s : LogFile}

/-- Opening the log file empties the ring, and the module writes if that succeeds. -/
theorem LogFile.openLogFile_writing (io : StartIo) (idle : s.lfWriting = false) :
    (s.openLogFile io).rb = [] ∧ ((s.openLogFile io).lfWriting = true ↔
      io.openLog = true ∧ io.preAllocated = true) := by
  -- The file is created first, and then its space is allocated.
  have held := Sd.create_file s.sd io.openLog s.fileNameCopy
  simp only [openLogFile]
  split_ifs with closed short
  · -- The file could not be created.
    refine ⟨rfl, iff_of_false (by simp [xmprintf, idle]) fun fine => ?_⟩
    rw [held.1, fine.1] at closed
    cases closed
  · refine ⟨rfl, iff_of_false (by simp [xmprintf, idle]) fun fine => ?_⟩
    rw [fine.2] at short
    cases short
  · -- Both succeeded, and the flag is set last.
    have opened : io.openLog = true := by simpa [held.1] using closed
    have allocated : io.preAllocated = true := by simpa using short
    exact ⟨rfl, iff_of_true rfl ⟨opened, allocated⟩⟩

/-- A start on a started card. -/
theorem LogFile.startLog_writing (io : StartIo) (name : Option FileName) (idle : s.lfWriting = false)
    (empty : s.rb = []) :
    (s.startLog io name).rb = [] ∧ ((s.startLog io name).lfWriting = true ↔
      (name = none → io.openNumber = true ∧ (s.sd.card.get fnTxt).isSome = true ∨
        io.createNumber = true) ∧ io.openLog = true ∧ io.preAllocated = true) := by
  cases name with
  | some name =>
    -- A name that is given is used as it is.
    obtain ⟨rb, writing⟩ := LogFile.openLogFile_writing
      (s := { s.xmprintf (ascii "lfStart! " ++ name ++ ascii " \r\n") with fileNameCopy := name.take 64 })
      io idle
    refine ⟨rb, writing.trans ?_⟩
    simp
  | none =>
    -- A number is looked for, which leaves the flag and the ring alone.
    obtain ⟨-, idle', -⟩ := s.nextNumber_flags io
    have found := s.nextNumber_fst io
    simp only [startLog, true_imp_iff, ← found]
    split_ifs with missing
    · -- Without a number nothing is opened.
      have none_ : ¬ (s.nextNumber io).1 = true := by simpa using missing
      refine ⟨by rw [nextNumber_rb, empty], iff_of_false ?_ fun fine => none_ fine.1⟩
      rw [idle', idle]
      decide
    · -- With a number the file is opened under the name made of it.
      have number : (s.nextNumber io).1 = true := by simpa using missing
      obtain ⟨rb, writing⟩ := LogFile.openLogFile_writing (s := (s.nextNumber io).2) io (idle'.trans idle)
      exact ⟨rb, writing.trans ⟨fun fine => ⟨number, fine⟩, fun fine => fine.2⟩⟩

/-- A start makes the module write exactly if the card lets it open a log file. -/
theorem LogFile.lfStart_writing (io : StartIo) (name : Option FileName) (idle : s.lfWriting = false)
    (empty : s.rb = []) :
    (s.lfStart io name).rb = [] ∧ ((s.lfStart io name).lfWriting = true ↔
      s.OpensLog io name ∧ io.openLog = true ∧ io.preAllocated = true) := by
  -- The card is started first, if it is not.
  obtain ⟨idle', same, started⟩ := s.tryCard_flags io.begins idle
  have empty' : (s.tryCard io.begins).rb = [] := by
    unfold tryCard
    split_ifs
    · exact empty
    · cases io.begins <;> rfl
  have start : s.lfStart io name =
      if !(s.tryCard io.begins).sdStarted then
        (s.tryCard io.begins).xmprintf (ascii "cannot2 start CD card (no card in slot?)\r\n")
      else (s.tryCard io.begins).startLog io name := by
    unfold lfStart
    rw [if_neg (by simp [idle])]
  rw [start]
  by_cases missing : (s.tryCard io.begins).sdStarted = true
  · -- With a card the log is started on it.
    obtain ⟨rb, writing⟩ := LogFile.startLog_writing (s := s.tryCard io.begins) io name idle' empty'
    rw [if_neg (by simp [missing])]
    refine ⟨rb, writing.trans ?_⟩
    rw [same]
    have card := started.mp missing
    exact ⟨fun fine => ⟨⟨idle, card, fine.1⟩, fine.2⟩, fun fine => ⟨fine.1.2.2, fine.2⟩⟩
  · -- Without a card only a text is printed.
    rw [if_pos (by simp [missing])]
    refine ⟨empty', iff_of_false ?_ fun fine => missing (started.mpr fine.1.2.1)⟩
    show ¬ (s.tryCard io.begins).lfWriting = true
    rw [idle']
    decide

/-- A start leaves nothing queued, unless a log is written. -/
theorem LogFile.Emptied.lfStart (emptied : s.Emptied) (io : StartIo) (name : Option FileName) :
    (s.lfStart io name).Emptied := by
  intro off
  by_cases writing : s.lfWriting = true
  · -- A second start changes nothing.
    unfold LogFile.lfStart at off
    rw [if_pos writing] at off
    exact absurd (writing.symm.trans off) (by decide)
  · -- Any other start goes on from an empty ring to an empty ring.
    have idle : s.lfWriting = false := by simpa using writing
    exact (LogFile.lfStart_writing io name idle (emptied idle)).1

/-- The loop of a stop ends with an empty ring. -/
theorem LogFile.drain_empty (written : Nat → Nat) (fuel i : Nat) (enough : s.rb.length ≤ fuel) :
    (s.drain written fuel i).rb = [] := by
  -- Every round makes the ring shorter, so the fuel is enough.
  induction fuel generalizing s i with
  | zero => exact List.length_eq_zero_iff.mp (Nat.le_zero.mp enough)
  | succ fuel ih =>
    simp only [drain]
    split_ifs with more
    · refine ih _ ?_
      -- A block of at least one byte was taken out.
      have some_ : 0 < stopSize s.rb.length := by
        unfold stopSize tmpSize
        split <;> omega
      simp only [writeBlock, dropBlock, List.length_drop]
      omega
    · exact List.length_eq_zero_iff.mp (by omega)

/-- A stop does not start to write, and leaves nothing queued if it stopped. -/
theorem LogFile.lfStop_writing (emptied : s.Emptied) (io : StopIo) :
    (s.lfStop io).Emptied ∧ ((s.lfStop io).lfWriting = true → s.lfWriting = true) := by
  -- Behind the text nothing has changed.
  have said : (if !s.lfWriting then s.xmprintf (ascii "not writing now \r\n") else s).Emptied ∧
      (if !s.lfWriting then s.xmprintf (ascii "not writing now \r\n") else s).lfWriting =
        s.lfWriting := by
    split_ifs
    · exact ⟨emptied, rfl⟩
    · exact ⟨emptied, rfl⟩
  unfold lfStop
  revert said
  generalize (if !s.lfWriting then s.xmprintf (ascii "not writing now \r\n") else s) = t
  rintro ⟨kept, same⟩
  dsimp only
  split_ifs
  · -- No card, or a card in error: the stop is left early.
    exact ⟨kept, fun writing => same ▸ writing⟩
  · exact ⟨kept, fun writing => same ▸ writing⟩
  · refine ⟨fun _ => drain_empty _ _ _ (le_refl _), fun writing => ?_⟩
    -- The flag was cleared before the loop.
    exact absurd ((drain_flags _ _ _ _).1.symm.trans writing) Bool.false_ne_true

/-- A pass of `lfProcess` keeps the flag, and queues nothing. -/
theorem LogFile.lfProcess_writing (emptied : s.Emptied) (io : Nat → BlockIo) :
    (s.lfProcess io).Emptied ∧ (s.lfProcess io).lfWriting = s.lfWriting := by
  unfold lfProcess
  split_ifs with off
  · exact ⟨emptied, rfl⟩
  · -- The loop runs only while a log is written, and leaves the flag alone.
    have writing : s.lfWriting = true := by
      simp only [Bool.not_eq_true', not_or, Bool.not_eq_false] at off
      exact off.2
    have kept := @processLoop_writing io s.rb.length 0 s
    refine ⟨fun stopped => ?_, kept⟩
    rw [kept, writing] at stopped
    cases stopped

/-- A message is queued only while a log is written. -/
theorem LogFile.lfSendMessage_writing (x : XMessage) (emptied : s.Emptied) (data : List UInt8)
    (type : UInt8) :
    (s.lfSendMessage x data type).2.Emptied ∧
      (s.lfSendMessage x data type).2.lfWriting = s.lfWriting ∧
      (s.lfWriting = false → s.lfSendMessage x data type = (0, s)) := by
  -- A message is put into the ring or not, and the flag stays.
  have same : (s.lfSendMessage x data type).2.lfWriting = s.lfWriting := by
    unfold lfSendMessage
    dsimp only
    rw [putMessage_eq]
    split_ifs <;> rfl
  have off : s.lfWriting = false → s.lfSendMessage x data type = (0, s) := by
    intro idle
    unfold lfSendMessage
    exact if_pos (by simp [idle])
  refine ⟨fun idle => ?_, same, off⟩
  rw [same] at idle
  rw [off idle]
  exact emptied idle

end Teetest
