import Teetest.Lib.Trace
import Teetest.Src.LogFile

/-!
The numbers of automatic logs over the life of a card.

The last number used is kept in fn.txt, which every start empties before it writes the next one.
-/

namespace Teetest

open Lib

/-- What happens to the log of a card: an automatic start, a stop, or the power fails and comes back. -/
inductive LifeEvent
  | lfStart (io : StartIo)
  | lfStop (io : StopIo)
  | powerCycle (begins : Bool)

/-- The state after an event.

Where the power fails in the middle of an operation, what is left of it has no effect on the card:
the card answers its remaining operations with failures, and a power cycle follows. -/
def LogFile.live (s : LogFile) : LifeEvent → LogFile
  | .lfStart io => s.lfStart io none
  | .lfStop io => s.lfStop io
  | .powerCycle begins => (powerUp s.sd.card s.sd.created).lfInit begins

/-- The step relation of the life of a card. -/
def LifeStep (s : LogFile) (e : LifeEvent) (t : LogFile) : Prop := t = s.live e

/-- The names of the logs that were opened with `O_TRUNC`, in order. -/
def LogFile.logs (s : LogFile) : List FileName := s.sd.created.filter (· ≠ fnTxt)

/-- The number that a start finds in fn.txt, if the card lets it be read. -/
def LogFile.stored (s : LogFile) : Option Int :=
  (s.sd.card.get fnTxt).bind fun c => scanInt (cstr (fgetsLine 63 c).1)

/-- A start that replaces the number in fn.txt by the next one before it opens a log, or touches
neither. -/
def LogFile.KeepsNumber (io : StartIo) (s : LogFile) : Prop :=
  match s.stored with
  | some k =>
    k < 2 ^ 31 - 1 ∧
      (io.openNumber = true ∧ io.readNumber = true ∧ io.truncated = true ∧
          (decimal (k.toNat + 1)).length ≤ io.written ∨
        -- the power fails before the truncation
        io.openNumber = true ∧ io.truncated = false ∧ io.written = 0 ∧ io.openLog = false ∨
        io.openNumber = false ∧ io.createNumber = false)
  -- no log was opened yet, and the number is 0
  | none => io.openLog = true → 0 < io.written

/-- An event of which the numbers survive: every start that comes to fn.txt keeps its number. -/
def LogFile.Keeps (s : LogFile) : LifeEvent → Prop
  | .lfStart io =>
    s.lfWriting = false → s.sdStarted = true ∨ io.begins = true → s.KeepsNumber io
  | _ => True

/-- The line end behind the number in fn.txt. -/
def lineEnd : List UInt8 := [0x0D, 0x0A]

/-- The text of a number in fn.txt. -/
theorem numberText (n : Nat) : ascii (toString (n : Int) ++ "\r\n") = decimal n ++ lineEnd := by
  have ends : ascii "\r\n" = lineEnd := by decide
  rw [← ends, decimal, ascii, ascii, ascii, String.toList_append, List.map_append]
  rfl

/-- A log never has the name fn.txt. -/
theorem logName_ne (n : Int) : logName n ≠ fnTxt := by
  intro same
  -- The two names differ in their first letter.
  have first := congrArg List.head? same
  rw [logName, ascii, String.toList_append, String.toList_append] at first
  exact absurd first (by simp [fnTxt, ascii])

/-- Logs with different numbers have different names. -/
theorem logName_injective {m n : Nat} (same : logName m = logName n) : m = n := by
  have digits : ascii (toString m) = ascii (toString n) := by
    simp only [logName, ascii, String.toList_append, List.map_append, List.append_assoc] at same
    exact List.append_cancel_right (List.append_cancel_left same)
  exact decimal_injective digits

/-- A line of digits is read up to its end. -/
theorem fgetsLine_digits {digits rest : List UInt8} (all : ∀ b ∈ digits, IsDigit b) {room : Nat}
    (fits : digits.length ≤ room) :
    (fgetsLine room (digits ++ rest)).1 = digits ++ (fgetsLine (room - digits.length) rest).1 := by
  induction digits generalizing room with
  | nil => simp
  | cons b digits ih =>
    obtain ⟨low, -⟩ := all b (by simp)
    -- A digit is neither a carriage return nor a line feed.
    have noReturn : b ≠ 0x0D := by
      rintro rfl
      exact absurd low (by decide)
    have noFeed : b ≠ 0x0A := by
      rintro rfl
      exact absurd low (by decide)
    cases room with
    | zero => simp at fits
    | succ room =>
      simp only [List.length_cons, Nat.add_le_add_iff_right] at fits
      rw [List.cons_append, fgetsLine, if_neg noReturn, if_neg noFeed,
        ih (fun d later => all d (List.mem_cons_of_mem _ later)) fits]
      simp

/-- Contents of fn.txt that hold a number: its digits, and as much of the line end as was written. -/
def HoldsNumber (contents : List UInt8) (k : Nat) : Prop :=
  k < 2 ^ 31 ∧ ∃ rest, rest <+: lineEnd ∧ contents = decimal k ++ rest

/-- A number is read back from fn.txt. -/
theorem HoldsNumber.scan {contents : List UInt8} {k : Nat} (holds : HoldsNumber contents k) :
    scanInt (cstr (fgetsLine 63 contents).1) = some (k : Int) := by
  obtain ⟨small, rest, line, rfl⟩ := holds
  -- A number below 2^31 has ten digits at most, so the line is not cut.
  have length : (decimal k).length ≤ 10 :=
    decimal_length_le (by decide) (Nat.lt_trans small (by decide))
  rw [fgetsLine_digits (fun b => isDigit_of_mem_decimal) (by omega)]
  obtain ⟨room, free⟩ : ∃ room, 63 - (decimal k).length = room + 1 :=
    ⟨62 - (decimal k).length, by omega⟩
  -- Of the line end, at most the line feed is left.
  have tail : (fgetsLine (63 - (decimal k).length) rest).1 = [] ∨
      (fgetsLine (63 - (decimal k).length) rest).1 = [0x0A] := by
    rw [free]
    rcases List.prefix_cons_iff.mp line with rfl | ⟨rest, rfl, feed⟩
    · exact .inl rfl
    · rcases List.prefix_cons_iff.mp feed with rfl | ⟨rest, rfl, -⟩
      · exact .inl (by simp [fgetsLine])
      · exact .inr (by simp [fgetsLine])
  -- Neither a digit nor a line feed is NUL.
  have text : (0 : UInt8) ∉ decimal k ++ (fgetsLine (63 - (decimal k).length) rest).1 := by
    rw [List.mem_append, not_or]
    constructor
    · intro member
      exact absurd (isDigit_of_mem_decimal member).1 (by decide)
    · rcases tail with none | feed
      · simp [none]
      · simp [feed]
  rw [cstr_of_text text]
  apply scanInt_decimal small
  rcases tail with none | feed
  · simp [none]
  · rw [feed]
    simp [IsDigit]

/-- Nothing is read from an empty fn.txt. -/
theorem scan_empty : scanInt (cstr (fgetsLine 63 []).1) = none := by
  decide

/-- What is written of a number holds it as soon as all digits are written. -/
theorem HoldsNumber.written {k w : Nat} (small : k < 2 ^ 31) (digits : (decimal k).length ≤ w) :
    HoldsNumber ((decimal k ++ lineEnd).take w) k := by
  refine ⟨small, lineEnd.take (w - (decimal k).length), List.take_prefix _ _, ?_⟩
  rw [List.take_append, List.take_of_length_le digits]

/-- The numbers of the logs that were opened, with what is kept of them. -/
structure LogFile.Kept (s : LogFile) (numbers : List Nat) : Prop where
  logs : s.logs = numbers.map fun n : Nat => logName n
  increasing : numbers.Pairwise (· < ·)
  -- fn.txt holds a number that is not below any of them, or there is none yet
  number : (∃ contents k, s.sd.card.get fnTxt = some contents ∧ HoldsNumber contents k ∧
      ∀ n ∈ numbers, n ≤ k) ∨
    numbers = [] ∧ s.fileNumber = 0 ∧ (s.sd.card.get fnTxt).getD [] = []
  -- between operations, the file object is not used for fn.txt
  aside : ∀ h ∈ s.sd.file, h.name ≠ fnTxt

variable {s t : LogFile} {numbers : List Nat}

section card

variable {sd : Sd}

/-- Opening a file that is there. -/
theorem Sd.open_some {contents : List UInt8} {name : FileName} (there : sd.card.get name = some contents) :
    sd.open true name = (true, { sd with file := some ⟨name, 0⟩ }) := by
  simp [Sd.open, there]

/-- Opening a file that is not there, or that the card refuses. -/
theorem Sd.open_none {ok : Bool} {name : FileName}
    (refused : ok = false ∨ sd.card.get name = none) :
    sd.open ok name = (false, { sd with file := none }) := by
  rcases refused with rfl | missing
  · simp [Sd.open]
  · simp [Sd.open, missing]

/-- Writing to another file leaves fn.txt alone. -/
theorem Sd.write_aside (aside : ∀ h ∈ sd.file, h.name ≠ fnTxt) (data : List UInt8) (written : Nat) :
    (sd.write data written).card.get fnTxt = sd.card.get fnTxt ∧
      (sd.write data written).created = sd.created ∧
      ∀ h ∈ (sd.write data written).file, h.name ≠ fnTxt := by
  unfold Sd.write
  split
  · exact ⟨rfl, rfl, aside⟩
  · -- The file that is open is another one.
    rename_i h held
    have other : h.name ≠ fnTxt := aside h (by rw [held]; rfl)
    refine ⟨by dsimp only; exact Files.get_update_ne _ other.symm _, rfl, ?_⟩
    rintro _ ⟨⟩
    exact other

/-- Cutting another file leaves fn.txt alone. -/
theorem Sd.truncate_aside (aside : ∀ h ∈ sd.file, h.name ≠ fnTxt) (ok : Bool) :
    (sd.truncate ok).2.card.get fnTxt = sd.card.get fnTxt ∧
      (sd.truncate ok).2.created = sd.created := by
  unfold Sd.truncate
  split
  · exact ⟨rfl, rfl⟩
  · rename_i h held
    have other : h.name ≠ fnTxt := aside h (by rw [held]; rfl)
    split_ifs
    · exact ⟨Files.get_update_ne _ other.symm _, rfl⟩
    · exact ⟨rfl, rfl⟩

/-- fn.txt is emptied before a number is written to it. -/
theorem Sd.get_rewrite {contents : List UInt8} {pos : Nat} (held : sd.file = some ⟨fnTxt, pos⟩)
    (there : sd.card.get fnTxt = some contents) (text : List UInt8) (written : Nat) :
    ((sd.rewind.truncate true).2.write text written).card.get fnTxt = some (text.take written) := by
  -- Going back to the start and cutting there leaves nothing.
  have emptied : (sd.rewind.truncate true).2 =
      { sd with card := sd.card.update fnTxt fun c => c.take 0, file := some ⟨fnTxt, 0⟩ } := by
    simp [Sd.rewind, Sd.truncate, held]
  rw [emptied]
  simp only [Sd.write, Files.get_update_same, there, Option.map_some]
  simp

/-- A file that cannot be cut stays as it is. -/
theorem Sd.truncate_uncut : (sd.truncate false).2 = sd := by
  unfold Sd.truncate
  split <;> rfl

/-- Where nothing is written, nothing changes. -/
theorem Sd.get_write_zero (text : List UInt8) (name : FileName) :
    (sd.write text 0).card.get name = sd.card.get name := by
  unfold Sd.write
  split
  · rfl
  · rename_i h held
    -- Even in the open file, no byte is replaced.
    by_cases same : name = h.name
    · rw [same, Files.get_update_same]
      cases sd.card.get h.name <;> simp
    · rw [Files.get_update_ne _ same]

/-- A number is written to the start of an empty fn.txt. -/
theorem Sd.get_write_empty (held : sd.file = some ⟨fnTxt, 0⟩) (there : sd.card.get fnTxt = some [])
    (text : List UInt8) (written : Nat) :
    (sd.write text written).card.get fnTxt = some (text.take written) := by
  simp only [Sd.write, held, Files.get_update_same, there, Option.map_some]
  simp

end card

/-- The logs that are recorded when more files are. -/
theorem LogFile.logs_of_created {more : List FileName} (created : t.sd.created = s.sd.created ++ more) :
    t.logs = s.logs ++ more.filter (· ≠ fnTxt) := by
  simp only [LogFile.logs, created, List.filter_append]

/-- What is kept depends on the card, the file object and the number alone. -/
theorem LogFile.Kept.of_eq (kept : s.Kept numbers) (sd : t.sd = s.sd)
    (number : t.fileNumber = s.fileNumber) : t.Kept numbers := by
  refine ⟨?_, kept.increasing, ?_, ?_⟩
  · rw [LogFile.logs, sd]
    exact kept.logs
  · rw [sd, number]
    exact kept.number
  · rw [sd]
    exact kept.aside

/-- What is kept stays, where a log is written. -/
theorem LogFile.Kept.of_aside (kept : s.Kept numbers)
    (same : t.sd.card.get fnTxt = s.sd.card.get fnTxt) (created : t.sd.created = s.sd.created)
    (aside : ∀ h ∈ t.sd.file, h.name ≠ fnTxt) (number : t.fileNumber = s.fileNumber) :
    t.Kept numbers := by
  refine ⟨?_, kept.increasing, ?_, aside⟩
  · rw [LogFile.logs, created]
    exact kept.logs
  · rw [same, number]
    exact kept.number

/-- Opening the log: its name is recorded, and fn.txt is left alone. -/
theorem LogFile.openLogFile_sd (io : StartIo) (s : LogFile) (other : s.fileNameCopy ≠ fnTxt) :
    (s.openLogFile io).sd.card.get fnTxt = s.sd.card.get fnTxt ∧
      (s.openLogFile io).sd.created = s.sd.created ++ (if io.openLog then [s.fileNameCopy] else []) ∧
      (∀ h ∈ (s.openLogFile io).sd.file, h.name ≠ fnTxt) ∧
      (s.openLogFile io).fileNumber = s.fileNumber := by
  -- Of the two operations on the card, only creating the file counts.
  have sd : (s.openLogFile io).sd = (s.sd.create io.openLog s.fileNameCopy).2 := by
    simp only [openLogFile]
    split_ifs <;> rfl
  have number : (s.openLogFile io).fileNumber = s.fileNumber := by
    simp only [openLogFile]
    split_ifs <;> rfl
  rw [sd]
  cases opened : io.openLog with
  | true =>
    refine ⟨Files.get_create_ne _ other.symm, rfl, ?_, number⟩
    rintro _ ⟨⟩
    exact other
  | false => exact ⟨rfl, by simp [Sd.create], by simp [Sd.create], number⟩

/-- A start that has written a number above all others keeps it, with the log it opens. -/
theorem LogFile.Kept.opened (logs : s.logs = numbers.map fun n : Nat => logName n)
    (increasing : numbers.Pairwise (· < ·)) (io : StartIo) {contents : List UInt8} {n : Nat}
    (written : s.sd.card.get fnTxt = some contents) (holds : HoldsNumber contents n)
    (above : ∀ m ∈ numbers, m < n) (name : s.fileNameCopy = logName n) :
    ∃ numbers, (s.openLogFile io).Kept numbers := by
  obtain ⟨same, opened, aside, -⟩ := s.openLogFile_sd io (by rw [name]; exact logName_ne n)
  rw [name] at opened
  rw [written] at same
  cases log : io.openLog with
  | true =>
    -- The log is there, and its number is the largest.
    refine ⟨numbers ++ [n], ?_, ?_, .inl ⟨contents, n, same, holds, ?_⟩, aside⟩
    · rw [log, if_pos rfl] at opened
      rw [logs_of_created opened, logs]
      simp [logName_ne]
    · rw [List.pairwise_append]
      refine ⟨increasing, by simp, ?_⟩
      intro m member k last
      obtain rfl : k = n := by simpa using last
      exact above m member
    · intro m member
      rcases List.mem_append.mp member with old | new
      · exact (above m old).le
      · exact le_of_eq (by simpa using new)
  | false =>
    refine ⟨numbers, ?_, increasing, .inl ⟨contents, n, same, holds, fun m member =>
      (above m member).le⟩, aside⟩
    rw [log] at opened
    rw [logs_of_created opened, logs]
    simp

/-- What `saveNumber` leaves apart from the contents of fn.txt. -/
theorem LogFile.saveNumber_sd (io : StartIo) (held : ∃ pos, s.sd.file = some ⟨fnTxt, pos⟩) :
    (s.saveNumber io).sd.created = s.sd.created ∧ (s.saveNumber io).sd.file = none ∧
      (s.saveNumber io).fileNameCopy = logName s.fileNumber := by
  obtain ⟨pos, held⟩ := held
  refine ⟨?_, rfl, rfl⟩
  simp only [saveNumber, Sd.close]
  cases io.truncated <;> simp [Sd.write, Sd.truncate, Sd.rewind, held]

/-- The number that a start takes from a line that holds one. -/
theorem LogFile.takeNumber_some {stmp : List UInt8} {k : Nat} (small : k < 2 ^ 31 - 1)
    (read : scanInt (cstr stmp) = some (k : Int)) (s : LogFile) :
    (s.takeNumber stmp).fileNumber = (k + 1 : Nat) ∧ (s.takeNumber stmp).sd = s.sd := by
  simp only [takeNumber, read]
  exact ⟨wrap32_of_range (by omega) (by omega), rfl⟩

/-- Without a number in the line, the old one stays. -/
theorem LogFile.takeNumber_none {stmp : List UInt8} (read : scanInt (cstr stmp) = none)
    (s : LogFile) : s.takeNumber stmp = s := by
  simp only [takeNumber, read]

/-- Reading the number leaves the card alone. -/
theorem LogFile.takeNumber_sd (stmp : List UInt8) (s : LogFile) : (s.takeNumber stmp).sd = s.sd := by
  unfold takeNumber
  split <;> rfl

/-- Reading fn.txt from its start. -/
theorem Sd.fgets_fnTxt {sd : Sd} {contents : List UInt8} (there : sd.card.get fnTxt = some contents)
    (held : sd.file = some ⟨fnTxt, 0⟩) (ok : Bool) :
    ∃ pos, sd.fgets ok =
        (if ok then (fgetsLine 63 contents).1 else [], { sd with file := some ⟨fnTxt, pos⟩ }) ∧
      (contents = [] → pos = 0) := by
  cases ok with
  | true =>
    refine ⟨0 + (fgetsLine 63 contents).2, by simp [fgets, held, there], ?_⟩
    rintro rfl
    rfl
  | false =>
    refine ⟨0, ?_, fun _ => rfl⟩
    cases sd
    simp only at held
    simp [fgets, held]

/-- What fn.txt holds is what a start finds there. -/
theorem LogFile.stored_of_holds {contents : List UInt8} {k : Nat}
    (there : s.sd.card.get fnTxt = some contents) (holds : HoldsNumber contents k) :
    s.stored = some (k : Int) := by
  rw [stored, there, Option.bind_some, holds.scan]

/-- Where fn.txt is empty or missing, a start finds no number. -/
theorem LogFile.stored_of_empty (empty : (s.sd.card.get fnTxt).getD [] = []) : s.stored = none := by
  rw [stored]
  cases there : s.sd.card.get fnTxt with
  | none => rfl
  | some contents =>
    rw [there] at empty
    obtain rfl : contents = [] := by simpa using empty
    exact scan_empty

/-- The automatic branch with fn.txt open: a line is read from it, and a number written to it. -/
theorem LogFile.nextNumber_open (io : StartIo) {contents : List UInt8}
    (there : s.sd.card.get fnTxt = some contents) (ok : io.openNumber = true) :
    ∃ pos, (contents = [] → pos = 0) ∧
      s.nextNumber io = (true, ({ s with sd := { s.sd with file := some ⟨fnTxt, pos⟩ } }.takeNumber
        (if io.readNumber then (fgetsLine 63 contents).1 else [])).saveNumber io) := by
  let opened : Sd := { s.sd with file := some ⟨fnTxt, 0⟩ }
  have found : opened.card.get fnTxt = some contents := there
  obtain ⟨pos, read, start⟩ := Sd.fgets_fnTxt found rfl io.readNumber
  refine ⟨pos, start, ?_⟩
  have atStart : ({ s.sd with file := some ⟨fnTxt, 0⟩ } : Sd).rewind = opened := rfl
  simp only [nextNumber, ok, Sd.open_some there, Bool.not_true, Bool.false_eq_true, if_false,
    atStart, read]
  rfl

/-- The automatic branch where fn.txt cannot be opened. -/
theorem LogFile.nextNumber_closed (io : StartIo)
    (refused : io.openNumber = false ∨ s.sd.card.get fnTxt = none) :
    s.nextNumber io =
      if io.createNumber then
        (true, { s with
          sd := ⟨some ⟨fnTxt, 0⟩, s.sd.card.create fnTxt, s.sd.created ++ [fnTxt]⟩ }.saveNumber io)
      else
        (false, { s with sd := { s.sd with file := none }, lfState := .lfSError }.xmprintf
          (ascii "ERROR: cannot create a file fn.txt \r\n")) := by
  simp only [nextNumber, Sd.open_none refused]
  cases io.createNumber <;> simp [Sd.create]

/-- A start that neither opens nor makes fn.txt keeps what there is. -/
theorem LogFile.Kept.unmade (kept : s.Kept numbers) (io : StartIo)
    (refused : io.openNumber = false ∨ s.sd.card.get fnTxt = none)
    (unmade : io.createNumber = false) : (s.startLog io none).Kept numbers := by
  have branch := nextNumber_closed io refused
  rw [unmade] at branch
  simp only [Bool.false_eq_true, if_false] at branch
  simp only [startLog, branch, Bool.not_false, if_true]
  exact kept.of_aside rfl rfl (by simp [xmprintf]) rfl

/-- A start on a card without a number writes the first one. -/
theorem LogFile.Kept.first (io : StartIo) (logs : s.logs = []) (zero : s.fileNumber = 0)
    (empty : s.sd.card.get fnTxt = some []) (held : s.sd.file = some ⟨fnTxt, 0⟩)
    (keeps : io.openLog = true → 0 < io.written) :
    ∃ numbers, ((s.saveNumber io).openLogFile io).Kept numbers := by
  obtain ⟨created, -, name⟩ := s.saveNumber_sd io ⟨0, held⟩
  rw [zero] at name
  have text := numberText 0
  -- Whether or not it is cut, the file was empty before.
  have written : (s.saveNumber io).sd.card.get fnTxt =
      some ((decimal 0 ++ lineEnd).take io.written) := by
    simp only [saveNumber, Sd.close, zero]
    rw [← text]
    cases io.truncated with
    | true => exact Sd.get_rewrite held empty _ _
    | false =>
      -- The position is the start already.
      have start : s.sd.rewind.file = some ⟨fnTxt, 0⟩ := by simp [Sd.rewind, held]
      rw [Sd.truncate_uncut]
      exact Sd.get_write_empty start empty _ _
  have logs' : (s.saveNumber io).logs = [] := by
    rw [LogFile.logs, created]
    exact logs
  by_cases some_written : 0 < io.written
  · have digits : (decimal 0).length ≤ io.written := some_written
    have none : (s.saveNumber io).logs = ([] : List Nat).map fun n : Nat => logName n := logs'
    exact Kept.opened none .nil io written (HoldsNumber.written (by decide) digits) (by simp) name
  · -- Nothing is written, and no log is opened.
    have closed : io.openLog = false := by
      by_contra log
      exact some_written (keeps (by simpa using log))
    obtain ⟨same, opened, aside, number⟩ := (s.saveNumber io).openLogFile_sd io
      (by rw [name]; exact logName_ne 0)
    have nothing : io.written = 0 := by omega
    rw [written, nothing] at same
    refine ⟨[], ?_, .nil, .inr ⟨rfl, number.trans zero, by rw [same]; rfl⟩, aside⟩
    rw [closed] at opened
    rw [logs_of_created opened, logs']
    simp

/-- A start that keeps the number in fn.txt keeps the numbers increasing. -/
theorem LogFile.Kept.startLog (kept : s.Kept numbers) (io : StartIo) (keeps : s.KeepsNumber io) :
    ∃ numbers, (s.startLog io none).Kept numbers := by
  rcases kept.number with ⟨contents, k, there, holds, below⟩ | ⟨rfl, zero, empty⟩
  · rw [KeepsNumber, stored_of_holds there holds] at keeps
    obtain ⟨small, replaced | untouched | unmade⟩ := keeps
    · -- The number is read, and the next one takes its place.
      obtain ⟨opens, reads, cut, digits⟩ := replaced
      obtain ⟨pos, -, branch⟩ := nextNumber_open io there opens
      simp only [reads, if_true] at branch
      simp only [LogFile.startLog, branch, Bool.not_true, Bool.false_eq_true, if_false]
      obtain ⟨number, sd⟩ := takeNumber_some (by omega) holds.scan
        { s with sd := { s.sd with file := some ⟨fnTxt, pos⟩ } }
      generalize LogFile.takeNumber (fgetsLine 63 contents).1
        { s with sd := { s.sd with file := some ⟨fnTxt, pos⟩ } } = t at number sd ⊢
      have held : t.sd.file = some ⟨fnTxt, pos⟩ := by rw [sd]
      obtain ⟨created, -, name⟩ := t.saveNumber_sd io ⟨pos, held⟩
      have written : (t.saveNumber io).sd.card.get fnTxt =
          some ((decimal (k + 1) ++ lineEnd).take io.written) := by
        simp only [saveNumber, Sd.close, number, cut]
        rw [numberText]
        exact Sd.get_rewrite held (by rw [sd]; exact there) _ _
      refine Kept.opened ?_ kept.increasing io written (HoldsNumber.written (by omega) digits)
        (fun m member => Nat.lt_succ_of_le (below m member)) (by rw [name, number])
      rw [LogFile.logs, created, sd]
      exact kept.logs
    · -- The power fails before anything is written.
      obtain ⟨opens, uncut, nothing, closed⟩ := untouched
      obtain ⟨pos, -, branch⟩ := nextNumber_open io there opens
      simp only [LogFile.startLog, branch, Bool.not_true, Bool.false_eq_true, if_false]
      have sd := takeNumber_sd (if io.readNumber then (fgetsLine 63 contents).1 else [])
        { s with sd := { s.sd with file := some ⟨fnTxt, pos⟩ } }
      generalize LogFile.takeNumber _ _ = t at sd ⊢
      obtain ⟨created, -, name⟩ := t.saveNumber_sd io ⟨pos, by rw [sd]⟩
      obtain ⟨same, opened, aside, -⟩ := (t.saveNumber io).openLogFile_sd io
        (by rw [name]; exact logName_ne _)
      have unwritten : (t.saveNumber io).sd.card.get fnTxt = some contents := by
        simp only [saveNumber, Sd.close, uncut, nothing]
        rw [Sd.get_write_zero, Sd.truncate_uncut, Sd.rewind, sd]
        exact there
      rw [closed, created, sd] at opened
      refine ⟨numbers, ?_, kept.increasing, .inl ⟨contents, k, same.trans unwritten, holds, below⟩,
        aside⟩
      rw [logs_of_created (s := s) opened, kept.logs]
      simp
    · exact ⟨numbers, kept.unmade io (.inl unmade.1) unmade.2⟩
  · rw [KeepsNumber, stored_of_empty empty] at keeps
    have none_logged : s.logs = [] := kept.logs
    by_cases opens : io.openNumber = true ∧ (s.sd.card.get fnTxt).isSome = true
    · -- fn.txt is there, but empty.
      obtain ⟨opens, present⟩ := opens
      have there : s.sd.card.get fnTxt = some [] := by
        cases found : s.sd.card.get fnTxt with
        | none => rw [found] at present; exact absurd present (by decide)
        | some contents =>
          rw [found] at empty
          exact congrArg some (by simpa using empty)
      obtain ⟨pos, start, branch⟩ := nextNumber_open io there opens
      obtain rfl := start rfl
      simp only [LogFile.startLog, branch, Bool.not_true, Bool.false_eq_true, if_false]
      rw [takeNumber_none (by split_ifs <;> decide)]
      exact Kept.first io none_logged zero there rfl keeps
    · -- Either fn.txt is not there, or the card does not open it.
      have refused : io.openNumber = false ∨ s.sd.card.get fnTxt = none := by
        by_cases off : io.openNumber = true
        · refine .inr ?_
          by_contra present
          exact opens ⟨off, Option.isSome_iff_ne_none.mpr present⟩
        · exact .inl (by simpa using off)
      cases made : io.createNumber with
      | false => exact ⟨[], kept.unmade io refused made⟩
      | true =>
        -- A new fn.txt is made.
        have branch := nextNumber_closed io refused
        rw [made] at branch
        simp only [if_true] at branch
        simp only [LogFile.startLog, branch, Bool.not_true, Bool.false_eq_true, if_false]
        refine Kept.first io ?_ zero (Files.get_create_same _ _) rfl keeps
        rw [logs_of_created (s := s) rfl, none_logged]
        simp

/-- The card is tried without a change to it. -/
theorem LogFile.tryCard_sd (begins : Bool) (s : LogFile) :
    (s.tryCard begins).sd = s.sd ∧ (s.tryCard begins).fileNumber = s.fileNumber ∧
      ((s.tryCard begins).sdStarted = true → s.sdStarted = true ∨ begins = true) := by
  unfold tryCard
  -- A card that was begun is not tried again.
  split_ifs with started
  · exact ⟨rfl, rfl, fun _ => .inl started⟩
  · cases begins
    · exact ⟨rfl, rfl, fun now => absurd now (by simp [lfInit, xmprintf])⟩
    · exact ⟨rfl, rfl, fun _ => .inr rfl⟩

/-- The loop of a stop writes to the log, and leaves fn.txt alone. -/
theorem LogFile.Kept.drain (kept : s.Kept numbers) (written : Nat → Nat) (fuel i : Nat) :
    (s.drain written fuel i).Kept numbers := by
  induction fuel generalizing s i with
  | zero => exact kept
  | succ fuel ih =>
    simp only [LogFile.drain]
    split_ifs
    · refine ih ?_ _
      -- One part of the ring goes to the log, which is not fn.txt.
      obtain ⟨same, created, aside⟩ :=
        Sd.write_aside kept.aside (s.rb.take (stopSize s.rb.length)) (written i)
      exact kept.of_aside same created aside rfl
    · exact kept

/-- A stop leaves fn.txt alone. -/
theorem LogFile.Kept.lfStop (kept : s.Kept numbers) (io : StopIo) : (s.lfStop io).Kept numbers := by
  -- What is printed first has nothing to do with the card.
  have said : (if !s.lfWriting then s.xmprintf (ascii "not writing now \r\n") else s).Kept numbers := by
    split_ifs
    · exact kept.of_eq rfl rfl
    · exact kept
  unfold LogFile.lfStop
  revert said
  generalize (if !s.lfWriting then s.xmprintf (ascii "not writing now \r\n") else s) = t
  intro said
  dsimp only
  split_ifs
  · exact said.of_eq rfl rfl
  · exact said.of_eq rfl rfl
  · have idle : { t with lfWriting := false }.Kept numbers := said.of_eq rfl rfl
    have drained := idle.drain io.written t.rb.length 0
    -- The log is cut and closed.
    obtain ⟨same, created⟩ := Sd.truncate_aside drained.aside io.truncated
    refine drained.of_aside same created ?_ rfl
    simp [endFile, Sd.close, xmprintf]

/-- Every event that the numbers survive keeps them increasing. -/
theorem LogFile.Kept.live (kept : s.Kept numbers) {e : LifeEvent} (keeps : s.Keeps e) :
    ∃ numbers, (s.live e).Kept numbers := by
  cases e with
  | lfStart io =>
    simp only [LogFile.live, LogFile.lfStart]
    obtain ⟨sd, number, began⟩ := s.tryCard_sd io.begins
    have tried := kept.of_eq sd number
    split_ifs with writing missing
    · exact ⟨numbers, kept.of_eq rfl rfl⟩
    · exact ⟨numbers, tried.of_eq rfl rfl⟩
    · refine tried.startLog io ?_
      have started : (s.tryCard io.begins).sdStarted = true := by simpa using missing
      have now := keeps (by simpa using writing) (began started)
      rwa [KeepsNumber, stored, sd]
  | lfStop io => exact ⟨numbers, kept.lfStop io⟩
  | powerCycle begins =>
    -- The card is as it was, and the number in memory is 0 again.
    refine ⟨numbers, ?_⟩
    have sd : (s.live (.powerCycle begins)).sd = ⟨none, s.sd.card, s.sd.created⟩ := by
      cases begins <;> rfl
    have zero : (s.live (.powerCycle begins)).fileNumber = 0 := by
      cases begins <;> rfl
    refine ⟨?_, kept.increasing, ?_, by rw [sd]; simp⟩
    · rw [LogFile.logs, sd]
      exact kept.logs
    · rw [sd, zero]
      rcases kept.number with held | ⟨none, -, empty⟩
      · exact .inl held
      · exact .inr ⟨none, rfl, empty⟩

/-- On a card of its own, the numbers of automatic logs strictly increase and no log is opened twice,
as long as every start keeps the number in fn.txt. -/
theorem numbers_increase {events : List LifeEvent} {s : LogFile}
    (run : Run (Guarded LogFile.Keeps LifeStep) (LogFile.powerUp [] []) events s) :
    s.logs.Nodup ∧
      ∃ numbers : List Nat, s.logs = numbers.map (fun n : Nat => logName n) ∧
        numbers.Pairwise (· < ·) := by
  have kept : ∃ numbers, s.Kept numbers := by
    -- On an empty card there is no number to keep.
    refine Run.invariant (P := fun s => ∃ numbers, s.Kept numbers) ?_ ?_ run
    · exact ⟨[], rfl, .nil, .inr ⟨rfl, rfl, rfl⟩, by simp [LogFile.powerUp]⟩
    · rintro s e t ⟨numbers, kept⟩ ⟨keeps, rfl⟩
      exact kept.live keeps
  obtain ⟨numbers, kept⟩ := kept
  refine ⟨?_, numbers, kept.logs, kept.increasing⟩
  -- Different numbers make different names.
  rw [kept.logs]
  refine List.Nodup.map ?_ (kept.increasing.imp fun less => Nat.ne_of_lt less)
  intro m n same
  exact logName_injective same

/-- Two logs with a power cycle between them. -/
theorem numbers_increase_twice :
    ∃ s : LogFile, s.logs = [logName 0, logName 1] ∧ s.logs.Nodup := by
  let s1 := (LogFile.powerUp [] []).live (.powerCycle true)
  let s2 := s1.live (.lfStart goodCard)
  let s3 := s2.live (.powerCycle true)
  let s4 := s3.live (.lfStart goodCard)
  -- On the first start there is no fn.txt.
  have none : s1.KeepsNumber goodCard := by
    rw [LogFile.KeepsNumber, LogFile.stored_of_empty (by decide +kernel)]
    decide
  -- On the second start the number 0 is read from it.
  have zero : s3.KeepsNumber goodCard := by
    have holds : HoldsNumber (decimal 0 ++ lineEnd) 0 := ⟨by decide, lineEnd, List.prefix_rfl, rfl⟩
    rw [LogFile.KeepsNumber, LogFile.stored_of_holds (by decide +kernel) holds]
    exact ⟨by decide, .inl ⟨rfl, rfl, rfl, by decide +kernel⟩⟩
  have keeps1 : s1.Keeps (.lfStart goodCard) := fun _ _ => none
  have keeps3 : s3.Keeps (.lfStart goodCard) := fun _ _ => zero
  have run : Run (Guarded LogFile.Keeps LifeStep) (LogFile.powerUp [] [])
      [.powerCycle true, .lfStart goodCard, .powerCycle true, .lfStart goodCard] s4 :=
    .tail (.tail (.tail (.tail .refl (t := s1) ⟨trivial, rfl⟩) (t := s2) ⟨keeps1, rfl⟩)
      (t := s3) ⟨trivial, rfl⟩) ⟨keeps3, rfl⟩
  exact ⟨s4, by decide +kernel, (numbers_increase run).1⟩

/-- The power fails after fn.txt was emptied: the next start opens the first log again. -/
theorem numbers_not_kept : ¬∀ events : List LifeEvent,
    (events.foldl LogFile.live (LogFile.powerUp [] [])).logs.Nodup := by
  intro all
  have twice := all [.powerCycle true, .lfStart goodCard, .lfStop ⟨fun _ => 512, true⟩,
    .lfStart { goodCard with written := 0, openLog := false, preAllocated := false },
    .powerCycle true, .lfStart goodCard]
  revert twice
  decide +kernel

end Teetest
