import Teetest.Src.LogName

/-!
Which log names and numbers keep the buffers of file names within their bounds.
-/

namespace Teetest

open Lib

/-- A log name of a command: what follows "log " in a line, up to its end. -/
structure GivenName where
  bytes : List UInt8
  plain : 0 ∉ bytes
  some_ : bytes ≠ []
  -- an Ethernet command has 510 bytes at most, and a line of USB 86
  short : bytes.length ≤ 506

/-- The name of a log. -/
def baseName (given : Option GivenName) (fileNumber : ℤ) : List UInt8 :=
  (given.map GivenName.bytes).getD (logName fileNumber)

/-- All buffers made from `fileNameCopy` hold their names, with an end. -/
structure NamesHeld (base : List UInt8) (fileCounter : ℤ) (fileNameCopy : Cells) : Prop where
  ended : fileNameCopy.text.isSome
  before : ((logSetupCopy fileNameCopy).bind Cells.text).isSome
  after : ((logSetupName fileNameCopy).bind Cells.text).isSome
  rotated : (lfProcessName fileNameCopy fileCounter).bind Cells.text =
    some (base ++ (ascii "_" ++ intText fileCounter))

/-- No character of a decimal number is NUL. -/
theorem intText_plain (z : ℤ) : 0 ∉ intText z := by
  have digits (n : ℕ) : 0 ∉ decimal n := fun member => by
    have digit := isDigit_of_mem_decimal member
    exact absurd digit.1 (by decide)
  cases z with
  | ofNat n => exact digits n
  | negSucc n =>
    -- The sign is no NUL either.
    have sign : intText (Int.negSucc n) = 0x2D :: decimal (n + 1) := by
      show ascii ("-" ++ toString (n + 1)) = _
      rw [ascii, String.toList_append, List.map_append]
      rfl
    rw [sign]
    exact List.not_mem_cons_of_ne_of_not_mem (by decide) (digits _)

/-- The automatic name around its number. -/
theorem logName_eq (fileNumber : ℤ) :
    logName fileNumber = ascii "log_" ++ intText fileNumber ++ ascii ".xq" := by
  simp only [logName, ascii, intText, String.toList_append, List.map_append]

/-- No character of a log name is NUL. -/
theorem baseName_plain (given : Option GivenName) (fileNumber : ℤ) : 0 ∉ baseName given fileNumber := by
  cases given with
  | some given => exact given.plain
  | none =>
    show 0 ∉ logName fileNumber
    rw [logName_eq]
    simp only [List.mem_append, not_or]
    exact ⟨⟨by decide, intText_plain fileNumber⟩, by decide⟩

/-- `fileNameCopy` holds a name as far as its 64 bytes go. -/
structure Named (base : List UInt8) (fileNameCopy : Cells) : Prop where
  text : fileNameCopy.text = if base.length < 64 then some base else none
  upTo : ∀ n ≤ 64, fileNameCopy.textUpTo n = some (base.take n)

section

variable (copy : Vector UInt8 64)

/-- A name of a command is copied up to 64 bytes. -/
theorem lfStartName_given (given : GivenName) (fileNumber : ℤ) :
    ∃ name, lfStartName copy (some given.bytes) fileNumber = some name ∧ Named given.bytes name := by
  have plain := given.plain
  have read : Cells.textUpTo 64 (given.bytes.map some ++ [some 0]) = some (given.bytes.take 64) :=
    Cells.textUpTo_take plain (.inr rfl)
  refine ⟨_, strncpy_eq read (List.length_take_le _ _) (by simp), ?_, ?_⟩
  · -- All 64 bytes are written, so nothing is left that could end a long name.
    rw [text_strncpy plain, List.drop_eq_nil_of_le (by simp)]
    rfl
  · intro n within
    rw [List.map_append, List.append_assoc, Cells.textUpTo_take, List.take_take, min_eq_left within]
    · exact fun member => plain (List.mem_of_mem_take member)
    · rw [List.length_take]
      -- A short name is followed by a zero, and a long one is read to its limit.
      rcases Nat.lt_or_ge given.bytes.length 64 with short | long
      · obtain ⟨k, room⟩ : ∃ k, 64 - min 64 given.bytes.length = k + 1 :=
          ⟨63 - given.bytes.length, by omega⟩
        rw [room]
        exact .inr rfl
      · exact .inl (by omega)

/-- An automatic name is copied if it fits. -/
theorem lfStartName_automatic {fileNumber : ℤ} (fits : (logName fileNumber).length < 64) :
    ∃ name, lfStartName copy none fileNumber = some name ∧ Named (logName fileNumber) name := by
  have plain : 0 ∉ logName fileNumber := baseName_plain none fileNumber
  have room : 0 + (logName fileNumber ++ [0]).length ≤ (copy.toList.map some).length := by
    simp
    omega
  refine ⟨_, if_pos room, ?_, ?_⟩
  · -- The printed text ends with its own zero.
    rw [if_pos fits, List.take_zero, List.nil_append, List.map_append, List.append_assoc]
    exact Cells.text_ended plain
  · intro n _
    rw [List.take_zero, List.nil_append, List.map_append, List.append_assoc]
    exact Cells.textUpTo_take plain (.inr rfl)

/-- And it is copied in no other case. -/
theorem length_of_lfStartName {fileNumber : ℤ} {name : Cells}
    (copied : lfStartName copy none fileNumber = some name) : (logName fileNumber).length < 64 := by
  simp only [lfStartName, sprintf, Cells.put] at copied
  -- Printing more than 64 bytes would be out of bounds.
  split_ifs at copied with room
  simp at room
  omega

end

section

variable {base : List UInt8} {name : Cells}

/-- The first buffer of `logSetup` holds the name exactly if that is shorter than 16 characters. -/
theorem Named.logSetupCopy_text (named : Named base name) (plain : 0 ∉ base) :
    ∃ fn, logSetupCopy name = some fn ∧ fn.length = 32 ∧
      fn.text = if base.length < 16 then some base else none := by
  refine ⟨_, strncpy_eq (named.upTo 16 (by omega)) (List.length_take_le _ _) (by simp [Cells.fresh]), ?_, ?_⟩
  · simp [Cells.fresh]
    omega
  · -- The cells behind the name were not written.
    rw [text_strncpy plain]
    rfl

/-- With a short name, the replaced suffix fits. -/
theorem Named.logSetupName_text (named : Named base name) (plain : 0 ∉ base) (short : base.length < 16) :
    ((logSetupName name).bind Cells.text).isSome := by
  obtain ⟨fn, copied, size, text⟩ := named.logSetupCopy_text plain
  rw [if_pos short] at text
  have suffix : 0 ∉ ascii "_s.txt" := by decide
  have room : (ascii "_s.txt").length = 6 := by decide
  simp only [logSetupName, copied, text, Option.map_some, Option.bind_eq_bind, Option.bind_some]
  by_cases long : base.length > 3
  · obtain ⟨cut, put, cutText, cutSize⟩ := Cells.put_end text (Nat.sub_le base.length 3)
    have fits : (base.take (base.length - 3)).length + (ascii "_s.txt").length < cut.length := by
      rw [List.length_take, cutSize, size, room]
      omega
    obtain ⟨out, cat, outText, -⟩ := strcat_text cutText suffix fits
    rw [if_pos long, put, Option.bind_some, cat, Option.bind_some, outText]
    rfl
  · have fits : base.length + (ascii "_s.txt").length < fn.length := by
      rw [size, room]
      omega
    obtain ⟨out, cat, outText, -⟩ := strcat_text text suffix fits
    rw [if_neg long, cat, Option.bind_some, outText]
    rfl

/-- The buffer of `lfProcess` holds the name and seven characters of the number. -/
theorem Named.lfProcessName_text (named : Named base name) (plain : 0 ∉ base) (fits : base.length < 64)
    (fileCounter : ℤ) :
    (lfProcessName name fileCounter).bind Cells.text =
      some (base ++ (ascii "_" ++ intText fileCounter).take 8) := by
  obtain ⟨fn, copied, size, text⟩ : ∃ fn, strncpy (Cells.fresh 75) name 64 = some fn ∧ fn.length = 75 ∧
      fn.text = some base := by
    refine ⟨_, strncpy_eq (named.upTo 64 le_rfl) (List.length_take_le _ _) (by simp [Cells.fresh]), ?_, ?_⟩
    · simp [Cells.fresh]
      omega
    · rw [text_strncpy plain, if_pos fits]
  have number : 0 ∉ ascii "_" ++ intText fileCounter := by
    rw [List.mem_append, not_or]
    exact ⟨by decide, intText_plain fileCounter⟩
  -- Of the 15 characters that are printed, 8 are appended.
  have part : ((ascii "_" ++ intText fileCounter).take 15).take 8 =
      (ascii "_" ++ intText fileCounter).take 8 := by
    rw [List.take_take]
    rfl
  have room : base.length + ((ascii "_" ++ intText fileCounter).take 8).length < fn.length := by
    have eight := List.length_take_le 8 (ascii "_" ++ intText fileCounter)
    omega
  obtain ⟨out, cat, outText, -⟩ :=
    strcat_text text (fun member => number (List.mem_of_mem_take member)) room
  simp only [lfProcessName, copied, Option.bind_eq_bind, Option.bind_some, strncat, part]
  rw [← strcat, cat, Option.bind_some, outText]

end

/--
The buffers of a log hold their names exactly if its name is shorter than 16 characters and the number
of the file has at most seven.
-/
theorem names_held_iff (copy : Vector UInt8 64) (given : Option GivenName) (fileNumber fileCounter : ℤ) :
    (∃ name, lfStartName copy (given.map GivenName.bytes) fileNumber = some name ∧
        NamesHeld (baseName given fileNumber) fileCounter name) ↔
      (baseName given fileNumber).length < 16 ∧ (intText fileCounter).length < 8 := by
  have plain := baseName_plain given fileNumber
  have number : (ascii "_" ++ intText fileCounter).length = (intText fileCounter).length + 1 := by
    rw [List.length_append, Nat.add_comm]
    rfl
  constructor
  · intro held
    obtain ⟨name, copied, held⟩ := held
    -- However it came there, the copy holds the name as far as it goes.
    have named : Named (baseName given fileNumber) name := by
      cases given with
      | some given =>
        obtain ⟨other, same, named⟩ := lfStartName_given copy given fileNumber
        obtain rfl := Option.some.inj (copied.symm.trans same)
        exact named
      | none =>
        obtain ⟨other, same, named⟩ := lfStartName_automatic copy (length_of_lfStartName copy copied)
        obtain rfl := Option.some.inj (copied.symm.trans same)
        exact named
    -- A longer name has no end in the buffer of `logSetup`.
    have short : (baseName given fileNumber).length < 16 := by
      by_contra long
      obtain ⟨fn, first, -, text⟩ := named.logSetupCopy_text plain
      have read := held.before
      rw [first, Option.bind_some, text, if_neg long] at read
      cases read
    refine ⟨short, ?_⟩
    -- The number in the buffer is as long as it should be.
    have whole := held.rotated
    rw [named.lfProcessName_text plain (by omega)] at whole
    have lengths := congrArg List.length (List.append_cancel_left (Option.some.inj whole))
    rw [List.length_take] at lengths
    omega
  · intro small
    -- Both copies are whole, and so is the number.
    obtain ⟨short, few⟩ := small
    obtain ⟨name, copied, named⟩ : ∃ name,
        lfStartName copy (given.map GivenName.bytes) fileNumber = some name ∧
          Named (baseName given fileNumber) name := by
      cases given with
      | some given => exact lfStartName_given copy given fileNumber
      | none => exact lfStartName_automatic copy (show (logName fileNumber).length < 64 by
          exact short.trans (by decide))
    obtain ⟨fn, first, -, text⟩ := named.logSetupCopy_text plain
    refine ⟨name, copied, ?_, ?_, named.logSetupName_text plain short, ?_⟩
    · rw [named.text, if_pos (by omega)]
      rfl
    · rw [first, Option.bind_some, text, if_pos short]
      rfl
    · rw [named.lfProcessName_text plain (by omega), List.take_of_length_le (by omega)]

/-- The first bytes of `fileNameCopy`. -/
def zeroCopy : Vector UInt8 64 := Vector.replicate 64 0

/-- A name of 16 characters. -/
def longName : GivenName := ⟨ascii "abcdefghijklm.xq", by decide, by decide, by decide⟩

/--
The buffer of `logSetup` has no end with this name, and that of `lfProcess` loses a digit of the number
10000000.
-/
theorem not_names_held :
    (¬ ∀ given : GivenName, ∃ name, lfStartName zeroCopy (some given.bytes) 0 = some name ∧
        NamesHeld given.bytes 1 name) ∧
      ¬ ∀ fileCounter, ∃ name, lfStartName zeroCopy none 0 = some name ∧
        NamesHeld (logName 0) fileCounter name := by
  constructor
  · intro all
    obtain ⟨name, copied, held⟩ := all longName
    -- Nothing was written behind the 16 characters.
    have unread : (lfStartName zeroCopy (some longName.bytes) 0).bind (fun name =>
        (logSetupCopy name).bind Cells.text) = none := by decide
    rw [copied, Option.bind_some] at unread
    have read := held.before
    rw [unread] at read
    cases read
  · intro all
    obtain ⟨name, copied, held⟩ := all 10000000
    -- The eighth digit is not appended.
    have cut : (lfStartName zeroCopy none 0).bind (fun name =>
        (lfProcessName name 10000000).bind Cells.text) = some (logName 0 ++ ascii "_1000000") := by decide
    rw [copied, Option.bind_some, held.rotated] at cut
    exact absurd cut (by decide)

end Teetest
