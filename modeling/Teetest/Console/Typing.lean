import Teetest.Lib.Bytes
import Teetest.Lib.Memory

/-!
The keyboard of the console in inproc.cpp: how keys become the commands that are sent.

The line buffer is a ring that starts again from its front, and the text in front of that is lost. What
the terminal shows, and the list of past commands that nothing reads, are left out.
-/

namespace Teetest

open Lib

/-- `cmdSize`. -/
def cmdSize : ℕ := 256

/-- `ERR`, the answer of `getch` when no key was pressed. -/
def keyErr : Int := -1

/-- The key F12. -/
def keyF12 : Int := 276

/-- A key that ends a line. -/
def isEnter (ch : Int) : Bool := ch = 0x0A || ch = 0x0D

/-- The byte that a key is stored as. -/
def keyByte (ch : Int) : UInt8 := UInt8.ofInt ch

/-- The variables of `inputProc`, and the strings that it gave to its callback. -/
structure InputProc where
  cmd : Mem
  cmdIndex : ℕ
  inpExitRequest : Bool
  sent : List (List UInt8)

/-- The start of `inputProc`; the buffer holds anything. -/
def InputProc.start (cmd : Mem) : InputProc := ⟨cmd, 0, false, []⟩

/-- An assignment to `cmd`, which must not be outside the array. -/
def InputProc.store (s : InputProc) (i : ℕ) (b : UInt8) : Option InputProc :=
  if i < cmdSize then some { s with cmd := s.cmd.write i [b] } else none

/-- "cls", at the head of a line that is not sent. -/
def clsWord : List UInt8 := [0x63, 0x6C, 0x73]

/-- What follows a line end that was stored: the line is closed and, as a rule, sent. -/
def InputProc.enter (s : InputProc) : Option InputProc :=
  if s.cmdIndex < 1 then some s
  else do
    let s ← s.store (s.cmdIndex - 1) 0
    let line := cstr (s.cmd.read 0 cmdSize)
    if clsWord.isPrefixOf line then some { s with cmdIndex := 0 }
    else some { s with cmdIndex := 0, sent := s.sent ++ [line] }

/-- A round of the loop in `inputProc`, with the answer of `getch`. -/
def InputProc.key (s : InputProc) (ch : Int) : Option InputProc :=
  -- the loop was left
  if s.inpExitRequest then some s
  else if ch = keyErr then some s
  else do
    let cmdIndex := if s.cmdIndex > cmdSize - 3 then 0 else s.cmdIndex
    let s ← s.store cmdIndex (keyByte ch)
    let s := { s with cmdIndex := cmdIndex + 1 }
    if ch = keyF12 then some { s with inpExitRequest := true }
    else if isEnter ch then s.enter
    else some s

/-- The characters of a line after which the buffer starts from its front again. -/
def lineRoom : ℕ := 254

/-- What is sent of a line: the characters since the buffer last started from its front. -/
def typedText (line : List Int) : List UInt8 :=
  cstr ((line.drop (line.length - line.length % lineRoom)).map keyByte)

/-- How much of a line that is being typed the buffer holds. -/
def heldOf (n : ℕ) : ℕ := if n = 0 then 0 else (n - 1) % lineRoom + 1

/-- The buffer holds the end of the line that is being typed. -/
structure InputProc.Holds (s : InputProc) (line : List Int) : Prop where
  running : s.inpExitRequest = false
  index : s.cmdIndex = heldOf line.length
  text : s.cmd.read 0 s.cmdIndex = (line.drop (line.length - s.cmdIndex)).map keyByte
  open_ : ∀ ch ∈ line, isEnter ch = false

/-- Where the next character goes. -/
theorem heldOf_next (n : ℕ) : (if heldOf n > cmdSize - 3 then 0 else heldOf n) = n % lineRoom := by
  unfold heldOf cmdSize lineRoom
  split_ifs <;> omega

/-- A closed text is a C string up to its NUL, or to one before. -/
theorem cstr_append_zero (text rest : List UInt8) : cstr (text ++ 0 :: rest) = cstr text := by
  by_cases closed : 0 ∈ text
  · exact cstr_append_of_mem closed _
  · rw [cstr_closed closed, cstr_of_text closed]

variable {s t : InputProc} {line : List Int}

/-- In front of the place for the next character is the text since the last reset. -/
theorem InputProc.Holds.front (holds : s.Holds line) :
    s.cmd.read 0 (line.length % lineRoom) =
      (line.drop (line.length - line.length % lineRoom)).map keyByte := by
  have next := heldOf_next line.length
  rw [← holds.index] at next
  split at next
  · -- The buffer starts from its front, and nothing is in front of that.
    rw [← next, Nat.sub_zero, List.drop_length]
    rfl
  · rw [← next]
    exact holds.text

/-- A character is stored behind that text, within the array. -/
theorem InputProc.Holds.stored (holds : s.Holds line) (ch : Int) :
    let i := line.length % lineRoom
    s.store i (keyByte ch) = some { s with cmd := s.cmd.write i [keyByte ch] } ∧
      (s.cmd.write i [keyByte ch]).read 0 (i + 1) =
        (line.drop (line.length - i)).map keyByte ++ [keyByte ch] := by
  intro i
  have inside : i < lineRoom := Nat.mod_lt _ (by decide)
  have array : i < cmdSize := inside.trans (by decide)
  refine ⟨if_pos array, ?_⟩
  have behind := s.cmd.read_write_behind 0 i [keyByte ch]
  rw [Nat.zero_add, holds.front] at behind
  exact behind

/-- The state after a character was stored behind so many others. -/
def InputProc.typed (s : InputProc) (n : ℕ) (ch : Int) : InputProc :=
  { s with cmd := s.cmd.write (n % lineRoom) [keyByte ch], cmdIndex := n % lineRoom + 1 }

/-- A round for a key that was pressed begins with storing it. -/
theorem InputProc.Holds.key_eq (holds : s.Holds line) {ch : Int} (pressed : ch ≠ keyErr) :
    s.key ch =
      if ch = keyF12 then some { s.typed line.length ch with inpExitRequest := true }
      else if isEnter ch then (s.typed line.length ch).enter
      else some (s.typed line.length ch) := by
  unfold InputProc.key
  rw [if_neg (by rw [holds.running]; exact Bool.false_ne_true), if_neg pressed]
  simp only [holds.index, heldOf_next]
  rw [(holds.stored ch).1]
  rfl

/-- A character that ends no line is added to it. -/
theorem InputProc.Holds.char (holds : s.Holds line) {ch : Int} (pressed : ch ≠ keyErr)
    (other : ch ≠ keyF12) (within : isEnter ch = false) :
    ∃ t, s.key ch = some t ∧ t.Holds (line ++ [ch]) ∧ t.sent = s.sent := by
  have step := holds.key_eq pressed
  rw [if_neg other, if_neg (by rw [within]; exact Bool.false_ne_true)] at step
  refine ⟨_, step, ⟨holds.running, ?_, ?_, ?_⟩, rfl⟩
  · rw [List.length_append, List.length_singleton, heldOf, if_neg (by omega), Nat.add_sub_cancel]
    rfl
  · have text := (holds.stored ch).2
    have short : line.length % lineRoom ≤ line.length := Nat.mod_le _ _
    have from_ : (line ++ [ch]).length - (line.length % lineRoom + 1) =
        line.length - line.length % lineRoom := by
      rw [List.length_append, List.length_singleton]
      omega
    show (s.cmd.write _ _).read 0 (line.length % lineRoom + 1) =
      ((line ++ [ch]).drop ((line ++ [ch]).length - (line.length % lineRoom + 1))).map keyByte
    rw [text, from_, List.drop_append_of_le_length (by omega), List.map_append]
    rfl
  · intro c member
    rcases List.mem_append.mp member with old | new
    · exact holds.open_ c old
    · rw [List.mem_singleton.mp new]
      exact within

/-- The lines that reach the callback. -/
def sentLines (lines : List (List Int)) : List (List UInt8) :=
  (lines.map typedText).filter fun s => !clsWord.isPrefixOf s

/-- A line end sends the line. -/
theorem InputProc.Holds.enter (holds : s.Holds line) {ch : Int} (ends : isEnter ch = true) :
    ∃ t, s.key ch = some t ∧ t.Holds [] ∧ t.sent = s.sent ++ sentLines [line] := by
  have pressed : ch ≠ keyErr := by
    rintro rfl
    exact absurd ends (by decide)
  have other : ch ≠ keyF12 := by
    rintro rfl
    exact absurd ends (by decide)
  have step := holds.key_eq pressed
  rw [if_neg other, if_pos ends] at step
  set i := line.length % lineRoom with i_eq
  have inside : i < lineRoom := Nat.mod_lt _ (by decide)
  have array : i < cmdSize := inside.trans (by decide)
  -- The NUL replaces the line end that was just stored.
  set cmd := (s.cmd.write i [keyByte ch]).write i [0] with cmd_eq
  have front : cmd.read 0 i = (line.drop (line.length - i)).map keyByte := by
    rw [cmd_eq, Mem.read_write_disjoint _ (.inl (by omega)),
      Mem.read_write_disjoint _ (.inl (by omega)), holds.front]
  have closed : cstr (cmd.read 0 cmdSize) = typedText line := by
    have zero : cmd.read i 1 = [0] := Mem.read_write_same _ i [0]
    have split_ : cmd.read 0 cmdSize =
        cmd.read 0 i ++ (cmd.read i 1 ++ cmd.read (i + 1) (cmdSize - i - 1)) := by
      have first := cmd.read_append 0 i (cmdSize - i)
      have second := cmd.read_append i 1 (cmdSize - i - 1)
      rw [Nat.zero_add, Nat.add_sub_cancel' array.le] at first
      rw [Nat.add_sub_cancel' (by omega)] at second
      rw [first, second]
    rw [split_, zero, front, List.singleton_append, cstr_append_zero]
    rfl
  have entered : (s.typed line.length ch).enter =
      if clsWord.isPrefixOf (typedText line) then some { s with cmd := cmd, cmdIndex := 0 }
      else some { s with cmd := cmd, cmdIndex := 0, sent := s.sent ++ [typedText line] } := by
    unfold InputProc.enter InputProc.store InputProc.typed
    dsimp only
    rw [← i_eq, if_neg (by omega), Nat.add_sub_cancel, if_pos array]
    simp only [Option.bind_eq_bind, Option.bind_some, ← cmd_eq, closed]
  rw [entered] at step
  have empty : ∀ sent, InputProc.Holds ⟨cmd, 0, s.inpExitRequest, sent⟩ [] := fun sent =>
    ⟨holds.running, rfl, rfl, fun ch member => absurd member List.not_mem_nil⟩
  by_cases cls : clsWord.isPrefixOf (typedText line) = true
  · rw [if_pos cls] at step
    refine ⟨_, step, empty _, ?_⟩
    simp [sentLines, cls]
  · rw [if_neg cls] at step
    refine ⟨_, step, empty _, ?_⟩
    simp [sentLines, cls]

/-- The loop does nothing more once it was left. -/
theorem InputProc.foldlM_left (left : s.inpExitRequest = true) (keys : List Int) :
    keys.foldlM InputProc.key s = some s := by
  induction keys with
  | nil => rfl
  | cons ch keys ih =>
    rw [List.foldlM_cons, InputProc.key, if_pos left]
    exact ih

/-- The keys that count: those that were pressed before the console was left. -/
def keysPressed (keys : List Int) : List Int := (keys.takeWhile (· ≠ keyF12)).filter (· ≠ keyErr)

/-- The lines of some more keys, when a part of the first line is in the buffer. -/
theorem InputProc.Holds.run (holds : s.Holds line) (keys : List Int) :
    ∃ t, keys.foldlM InputProc.key s = some t ∧
      t.sent = s.sent ++ sentLines ((line ++ keysPressed keys).splitOnP isEnter).dropLast := by
  induction keys generalizing s line with
  | nil =>
    refine ⟨s, rfl, ?_⟩
    simp [keysPressed, List.splitOnP_eq_singleton holds.open_, sentLines]
  | cons ch keys ih =>
    rw [List.foldlM_cons]
    by_cases left : ch = keyF12
    · -- The loop is left before the line is complete.
      subst left
      have step := holds.key_eq (by decide : keyF12 ≠ keyErr)
      rw [if_pos rfl] at step
      rw [step]
      refine ⟨_, InputProc.foldlM_left rfl keys, ?_⟩
      simp [keysPressed, List.splitOnP_eq_singleton holds.open_, sentLines, InputProc.typed]
    by_cases silent : ch = keyErr
    · subst silent
      have same : s.key keyErr = some s := by
        rw [InputProc.key, if_neg (by rw [holds.running]; exact Bool.false_ne_true), if_pos rfl]
      rw [same]
      have skipped : keysPressed (keyErr :: keys) = keysPressed keys := by
        simp [keysPressed, left]
      rw [skipped]
      exact ih holds
    have counted : keysPressed (ch :: keys) = ch :: keysPressed keys := by
      simp [keysPressed, left, silent]
    rw [counted]
    cases ends : isEnter ch with
    | false =>
      obtain ⟨t, step, longer, same⟩ := holds.char silent left ends
      rw [step]
      obtain ⟨u, run, sent⟩ := ih longer
      refine ⟨u, run, ?_⟩
      rw [sent, same, List.append_assoc, List.singleton_append]
    | true =>
      obtain ⟨t, step, empty, sent⟩ := holds.enter ends
      rw [step]
      obtain ⟨u, run, later⟩ := ih empty
      refine ⟨u, run, ?_⟩
      have more : (keysPressed keys).splitOnP isEnter ≠ [] := List.splitOnP_ne_nil _ _
      rw [later, sent, List.splitOnP_append_cons_of_forall_mem holds.open_ _ ends,
        List.dropLast_cons_of_ne_nil more, List.append_assoc, List.nil_append, sentLines, sentLines,
        sentLines, ← List.filter_append, ← List.map_append, List.singleton_append]

/--
Whatever is typed, nothing is written outside the buffer, and the lines that are complete before the
console is left are sent in order: those shorter than 254 characters as they were typed, of a longer
one the characters behind the last full buffer, and none that begins with "cls".
-/
theorem typed_lines_sent (cmd : Mem) (keys : List Int) :
    ∃ t, keys.foldlM InputProc.key (.start cmd) = some t ∧
      t.sent = sentLines ((keysPressed keys).splitOnP isEnter).dropLast := by
  have start : (InputProc.start cmd).Holds [] :=
    ⟨rfl, rfl, rfl, fun ch member => absurd member List.not_mem_nil⟩
  exact start.run keys

end Teetest
