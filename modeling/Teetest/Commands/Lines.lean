import Teetest.Src.CmdHandler

/-!
The assembly of command lines from the pieces in which USB delivers them.

The line buffer is reset by the sum of two indices, of which one depends on the cutting.
-/

namespace Teetest

open Lib

/-- The longest line that the buffer has room for. -/
def longestLine : Nat := 86

/-- The strings that should be dispatched: the lines of a stream that are not too long. -/
def expectedCommands (stream : List UInt8) : List (List UInt8) :=
  -- what stands behind the last line end is not a line yet
  (stream.splitOnP isLineEnd).dropLast.filter (·.length ≤ longestLine)

/-- The lines of a stream with their ends, when a part of the first was read before. -/
def linesFrom (current : List (UInt8 × Nat)) : List (UInt8 × Nat) → List (List (UInt8 × Nat))
  | [] => []
  | p :: rest =>
    if isLineEnd p.1 then (current ++ [p]) :: linesFrom [] rest else linesFrom (current ++ [p]) rest

/-- The index of a byte in its line and its index in its chunk never add up to more than the buffer. -/
def FitsLine (row : List (UInt8 × Nat)) : Prop :=
  ∀ p ∈ row.zipIdx, p.1.2 + p.2 ≤ longestLine

instance (row : List (UInt8 × Nat)) : Decidable (FitsLine row) :=
  inferInstanceAs (Decidable (∀ p ∈ row.zipIdx, p.1.2 + p.2 ≤ longestLine))

/-- Every line of a cutting, with its end, fits. -/
def FitsCutting (reads : List (List UInt8)) : Prop :=
  ∀ line ∈ linesFrom [] (positions reads), FitsLine line

instance (reads : List (List UInt8)) : Decidable (FitsCutting reads) :=
  inferInstanceAs (Decidable (∀ line ∈ linesFrom [] (positions reads), FitsLine line))

/-- The characters of a line, without its end. -/
def lineText (line : List (UInt8 × Nat)) : List UInt8 := line.dropLast.map Prod.fst

/-- Longer by a byte, a line fits if it did before and the byte does. -/
theorem fitsLine_snoc (line : List (UInt8 × Nat)) (b : UInt8) (i : Nat) :
    FitsLine (line ++ [(b, i)]) ↔ FitsLine line ∧ i + line.length ≤ longestLine := by
  -- The new byte stands at the index that the line is long.
  simp [FitsLine, List.zipIdx_append, or_imp, forall_and]

/-- What a line buffer holds of the line that is being read. -/
inductive Buffered (current : List (UInt8 × Nat)) (info : List UInt8) : Prop
  -- nothing was reset yet
  | whole (fits : FitsLine current) (same : info = current.map Prod.fst)
  -- a reset lost the beginning of the line
  | cut (reset : ¬ FitsLine current) (short : info.length < current.length)

/-- What a line is dispatched as. -/
structure Dispatched (line : List (UInt8 × Nat)) (call : List UInt8) : Prop where
  whole : FitsLine line → call = lineText line
  cut : ¬ FitsLine line → call.length < (lineText line).length

/-- One byte of a line keeps what the buffer holds, and a line end dispatches it. -/
theorem Buffered.step {current : List (UInt8 × Nat)} {info : List UInt8}
    (buffered : Buffered current info) (b : UInt8) {i : Nat} (chunk : i < infoSize - 1) :
    let info' := if i + info.length ≥ infoSize - 1 then [] else info
    Dispatched (current ++ [(b, i)]) info' ∧ Buffered (current ++ [(b, i)]) (info' ++ [b]) := by
  have size : infoSize - 1 = longestLine + 1 := rfl
  have text : lineText (current ++ [(b, i)]) = current.map Prod.fst := by simp [lineText]
  intro info'
  cases buffered with
  | whole fits same =>
    have length : info.length = current.length := by rw [same, List.length_map]
    by_cases reset : i + info.length ≥ infoSize - 1
    · -- The reset loses what was read of the line, which is not nothing.
      have empty : info' = [] := if_pos reset
      have lost : ¬ FitsLine (current ++ [(b, i)]) := by
        rw [fitsLine_snoc]
        omega
      have some_ : 0 < current.length := by omega
      rw [empty]
      refine ⟨⟨fun fits => absurd fits lost, fun _ => ?_⟩, .cut lost ?_⟩
      · rw [text, List.length_map]
        exact some_
      · simp only [List.nil_append, List.length_append, List.length_singleton]
        omega
    · have kept : info' = info := if_neg reset
      have fits' : FitsLine (current ++ [(b, i)]) := by
        rw [fitsLine_snoc]
        exact ⟨fits, by omega⟩
      rw [kept]
      refine ⟨⟨fun _ => by rw [text, same], fun lost => absurd fits' lost⟩, .whole fits' ?_⟩
      rw [same, List.map_append]
      rfl
  | cut reset short =>
    -- Once cut, a line is not made whole again.
    have lost : ¬ FitsLine (current ++ [(b, i)]) := by
      rw [fitsLine_snoc]
      exact fun both => reset both.1
    have length : info'.length ≤ info.length := by
      simp only [info']
      split <;> simp
    refine ⟨⟨fun fits => absurd fits lost, fun _ => ?_⟩, .cut lost ?_⟩
    · rw [text, List.length_map]
      omega
    · simp only [List.length_append, List.length_singleton]
      omega

/-- Every line of a stream is dispatched once, in order. -/
theorem onIncomingBytes_dispatched (ps : List (UInt8 × Nat)) (chunks : ∀ p ∈ ps, p.2 < infoSize - 1)
    {current : List (UInt8 × Nat)} {info : List UInt8} (buffered : Buffered current info) :
    List.Forall₂ Dispatched (linesFrom current ps) (onIncomingBytes info ps).2 := by
  induction ps generalizing current info with
  | nil => exact .nil
  | cons p ps ih =>
    obtain ⟨b, i⟩ := p
    obtain ⟨dispatched, kept⟩ := buffered.step b (chunks (b, i) (by simp))
    have later : ∀ p ∈ ps, p.2 < infoSize - 1 := fun p member => chunks p (by simp [member])
    cases ends : isLineEnd b with
    | true =>
      -- The buffer is dispatched, and the next line starts with an empty one.
      have fresh : Buffered [] [] := .whole (by simp [FitsLine]) rfl
      simp only [linesFrom, onIncomingBytes, onIncomingByte, ends, if_true, List.singleton_append]
      exact .cons dispatched (ih later fresh)
    | false =>
      simp only [linesFrom, onIncomingBytes, onIncomingByte, ends, Bool.false_eq_true, if_false,
        List.nil_append]
      exact ih later kept

/-- The text of a line that is still open has no line end in it. -/
theorem text_open {current : List (UInt8 × Nat)} (open_ : ∀ p ∈ current, isLineEnd p.1 = false) :
    ∀ b ∈ current.map Prod.fst, isLineEnd b = false := by
  intro b member
  obtain ⟨p, found, rfl⟩ := List.mem_map.mp member
  exact open_ p found

/-- The texts of the lines are the pieces between line ends, up to the last of these. -/
theorem linesFrom_text (current ps : List (UInt8 × Nat))
    (open_ : ∀ p ∈ current, isLineEnd p.1 = false) :
    (linesFrom current ps).map lineText =
      (((current ++ ps).map Prod.fst).splitOnP isLineEnd).dropLast := by
  induction ps generalizing current with
  | nil =>
    simp [linesFrom, List.splitOnP_eq_singleton (text_open open_)]
  | cons p ps ih =>
    obtain ⟨b, i⟩ := p
    cases ends : isLineEnd b with
    | true =>
      have more : (ps.map Prod.fst).splitOnP isLineEnd ≠ [] := List.splitOnP_ne_nil _ _
      simp only [linesFrom, ends, if_true, List.map_cons, List.map_append]
      rw [List.splitOnP_append_cons_of_forall_mem (text_open open_) _ ends,
        List.dropLast_cons_of_ne_nil more, ih [] (by simp)]
      simp [lineText]
    | false =>
      -- The line goes on with this byte.
      simp only [linesFrom, ends, Bool.false_eq_true, if_false]
      have longer : ∀ p ∈ current ++ [(b, i)], isLineEnd p.1 = false := by
        intro p member
        rcases List.mem_append.mp member with old | new
        · exact open_ p old
        · rw [List.mem_singleton.mp new]
          exact ends
      rw [ih _ longer]
      simp

/-- The bytes with their indices are the bytes of the stream. -/
theorem positions_bytes (reads : List (List UInt8)) :
    (positions reads).map Prod.fst = reads.flatten := by
  induction reads with
  | nil => rfl
  | cons s reads ih =>
    rw [positions] at ih
    simp [positions, ih, List.zipIdx_map_fst]

/-- The end of a line that fits leaves room for at most the longest line. -/
theorem FitsLine.length {line : List (UInt8 × Nat)} (fits : FitsLine line) (some_ : line ≠ []) :
    (lineText line).length ≤ longestLine := by
  obtain ⟨front, p, rfl⟩ := List.eq_nil_or_concat line |>.resolve_left some_
  obtain ⟨b, i⟩ := p
  have last := ((fitsLine_snoc front b i).mp (by simpa using fits)).2
  simp only [lineText, List.concat_eq_append, List.dropLast_concat, List.length_map]
  omega

/-- No line is without its end. -/
theorem linesFrom_ne_nil {current ps line : List (UInt8 × Nat)} (member : line ∈ linesFrom current ps) :
    line ≠ [] := by
  induction ps generalizing current with
  | nil => simp [linesFrom] at member
  | cons p ps ih =>
    simp only [linesFrom] at member
    split at member
    · rcases List.mem_cons.mp member with rfl | later
      · simp
      · exact ih later
    · exact ih member

/-- All lines are dispatched as they are, exactly if every line of the cutting fits. -/
theorem dispatched_iff {reads : List (List UInt8)}
    (chunks : ∀ s ∈ reads, s.length ≤ incomingUsbSerialInfoSize) :
    (h_usb_serial [] reads).2 = expectedCommands reads.flatten ↔ FitsCutting reads := by
  have index : ∀ p ∈ positions reads, p.2 < infoSize - 1 := by
    rintro ⟨b, i⟩ member
    obtain ⟨s, isRead, inside⟩ := List.mem_flatMap.mp member
    have := chunks s isRead
    have := (List.mem_zipIdx' inside).1
    simp only [incomingUsbSerialInfoSize, infoSize] at *
    omega
  have fresh : Buffered [] [] := .whole (by simp [FitsLine]) rfl
  have dispatched := onIncomingBytes_dispatched (positions reads) index fresh
  have texts := linesFrom_text [] (positions reads) (by simp)
  rw [List.nil_append, positions_bytes] at texts
  rw [h_usb_serial_eq, expectedCommands, ← texts]
  constructor
  · intro same row member
    -- Every line is dispatched once, so none of them was left out as too long.
    have all : ((linesFrom [] (positions reads)).map lineText).filter (·.length ≤ longestLine) =
        (linesFrom [] (positions reads)).map lineText := by
      apply List.Sublist.eq_of_length List.filter_sublist
      rw [← same, ← dispatched.length_eq, List.length_map]
    rw [same, all, List.forall₂_map_right_iff, List.forall₂_same] at dispatched
    by_contra lost
    exact absurd ((dispatched row member).cut lost) (lt_irrefl _)
  · intro fits
    have whole : (onIncomingBytes [] (positions reads)).2 =
        (linesFrom [] (positions reads)).map lineText := by
      rw [← List.forall₂_eq_eq_eq, List.forall₂_map_right_iff]
      -- Each line that fits is dispatched as it is.
      have pairs := List.Forall₂.flip dispatched
      refine List.forall₂_iff_zip.mpr ⟨pairs.length_eq, fun {call row} pair => ?_⟩
      exact ((List.forall₂_iff_zip.mp pairs).2 pair).whole (fits row (List.of_mem_zip pair).2)
    rw [whole, List.filter_eq_self.mpr]
    intro text member
    obtain ⟨row, isLine, rfl⟩ := List.mem_map.mp member
    exact decide_eq_true ((fits row isLine).length (linesFrom_ne_nil isLine))

/--
Two cuttings of a stream give the same commands, and these are the lines of the stream that are not
too long, exactly if every line of either cutting fits.
-/
theorem assembled_iff {first second : List (List UInt8)} (same : first.flatten = second.flatten)
    (chunks₁ : ∀ s ∈ first, 1 ≤ s.length ∧ s.length ≤ incomingUsbSerialInfoSize)
    (chunks₂ : ∀ s ∈ second, 1 ≤ s.length ∧ s.length ≤ incomingUsbSerialInfoSize) :
    ((h_usb_serial [] first).2 = (h_usb_serial [] second).2 ∧
        (h_usb_serial [] first).2 = expectedCommands first.flatten) ↔
      FitsCutting first ∧ FitsCutting second := by
  rw [← dispatched_iff fun s member => (chunks₁ s member).2,
    ← dispatched_iff fun s member => (chunks₂ s member).2, ← same]
  constructor
  · rintro ⟨alike, expected⟩
    exact ⟨expected, alike ▸ expected⟩
  · rintro ⟨expected₁, expected₂⟩
    exact ⟨expected₁.trans expected₂.symm, expected₁⟩

/-- `stop` and a line feed are assembled alike, in one piece and in two. -/
theorem assembled_stop :
    (h_usb_serial [] [ascii "stop\n"]).2 = (h_usb_serial [] [ascii "sto", ascii "p\n"]).2 ∧
      (h_usb_serial [] [ascii "stop\n"]).2 = expectedCommands [ascii "stop\n"].flatten :=
  (assembled_iff (by decide) (by decide) (by decide)).mpr ⟨by decide, by decide⟩

/-- A line of 64 bytes in two full reads, of which only the last four bytes make a command. -/
def sixtyFour : List (List UInt8) :=
  [List.replicate 32 0x78, List.replicate 28 0x78 ++ ascii "play", ascii "\n"]

/-- The tail of a line that is not too long is executed as `play`. -/
theorem tail_is_executed :
    ¬ ∀ first second : List (List UInt8), first.flatten = second.flatten →
      (∀ s ∈ first, 1 ≤ s.length ∧ s.length ≤ incomingUsbSerialInfoSize) →
      (∀ s ∈ second, 1 ≤ s.length ∧ s.length ≤ incomingUsbSerialInfoSize) →
        (h_usb_serial [] first).2 = (h_usb_serial [] second).2 ∧
          (h_usb_serial [] first).2 = expectedCommands first.flatten := by
  intro assembled
  have wrong := (assembled sixtyFour sixtyFour rfl (by decide) (by decide)).2
  -- The line is expected as a whole, and `play` is what is dispatched.
  have played : (h_usb_serial [] sixtyFour).2 = [ascii "play"] := by decide +kernel
  have lines : (expectedCommands sixtyFour.flatten).map List.length = [64] := by decide +kernel
  rw [← wrong, played] at lines
  exact absurd lines (by decide)

end Teetest
