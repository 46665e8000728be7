import Mathlib.Tactic

/-! Strings in arrays of characters, some cells of which may not have been written. -/

namespace Teetest.Lib

/-- An array of characters; a cell that was not written has no value. -/
abbrev Cells := List (Option UInt8)

/-- An array that was not written. -/
def Cells.fresh (n : ℕ) : Cells := List.replicate n none

/-- The string in an array, if its end comes before that of the array and every cell up to it was written. -/
def Cells.text : Cells → Option (List UInt8)
  | some b :: rest => if b = 0 then some [] else (text rest).map (b :: ·)
  | _ => none

/-- At most so many characters of the string in an array. -/
def Cells.textUpTo : ℕ → Cells → Option (List UInt8)
  | 0, _ => some []
  | n + 1, some b :: rest => if b = 0 then some [] else (textUpTo n rest).map (b :: ·)
  | _ + 1, _ => none

/-- An array with bytes written at an offset, if they fit. -/
def Cells.put (c : Cells) (off : ℕ) (bs : List UInt8) : Option Cells :=
  if off + bs.length ≤ c.length then some (c.take off ++ bs.map some ++ c.drop (off + bs.length)) else none

/-- `strncpy` fills up what the string leaves with zeros, and does not end a long one. -/
def strncpy (dst src : Cells) (n : ℕ) : Option Cells :=
  (src.textUpTo n).bind fun s => dst.put 0 (s ++ List.replicate (n - s.length) 0)

/-- `strncat`. -/
def strncat (dst : Cells) (s : List UInt8) (n : ℕ) : Option Cells :=
  dst.text.bind fun t => dst.put t.length (s.take n ++ [0])

/-- `strcat`. -/
def strcat (dst : Cells) (s : List UInt8) : Option Cells :=
  dst.text.bind fun t => dst.put t.length (s ++ [0])

/-- `sprintf`, with the text that its format gives. -/
def sprintf (dst : Cells) (s : List UInt8) : Option Cells := dst.put 0 (s ++ [0])

variable {c rest : Cells} {s t : List UInt8} {n : ℕ}

/-- A string that is ended is read. -/
theorem Cells.text_ended (plain : 0 ∉ s) : Cells.text (s.map some ++ some 0 :: rest) = some s := by
  induction s with
  | nil => rfl
  | cons b s ih =>
    -- No character of the string is its end.
    obtain ⟨other, plain⟩ := not_or.mp (List.mem_cons.not.mp plain)
    rw [List.map_cons, List.cons_append, text, if_neg (Ne.symm other), ih plain]
    rfl

/-- Behind a string that is not ended, the next cells decide. -/
theorem Cells.text_open (plain : 0 ∉ s) :
    Cells.text (s.map some ++ rest) = (Cells.text rest).map (s ++ ·) := by
  induction s with
  | nil => simp
  | cons b s ih =>
    obtain ⟨other, plain⟩ := not_or.mp (List.mem_cons.not.mp plain)
    rw [List.map_cons, List.cons_append, text, if_neg (Ne.symm other), ih plain, Option.map_map]
    rfl

/-- A string that is read is ended. -/
theorem Cells.text_eq_some (read : c.text = some t) :
    0 ∉ t ∧ ∃ rest, c = t.map some ++ some 0 :: rest := by
  induction c generalizing t with
  | nil => cases read
  | cons cell c ih =>
    cases cell with
    | none => cases read
    | some b =>
      rw [text] at read
      -- A zero ends the string, and any other character is one more.
      split_ifs at read with zero
      · obtain rfl := Option.some.inj read
        exact ⟨List.not_mem_nil, c, by rw [zero]; rfl⟩
      · obtain ⟨u, tail, rfl⟩ := Option.map_eq_some_iff.mp read
        obtain ⟨plain, rest, rfl⟩ := ih tail
        exact ⟨by simp [plain, Ne.symm zero], rest, rfl⟩

/-- So many characters of a string are read, whether it is ended behind them or not. -/
theorem Cells.textUpTo_take (plain : 0 ∉ s) (known : n ≤ s.length ∨ rest.head? = some (some 0)) :
    Cells.textUpTo n (s.map some ++ rest) = some (s.take n) := by
  induction s generalizing n with
  | nil =>
    cases n with
    | zero => rfl
    | succ n =>
      -- The end of the string is the first cell.
      match rest, known with
      | some b :: rest, .inr first =>
        obtain rfl : b = 0 := by simpa using first
        simp [textUpTo]
  | cons b s ih =>
    obtain ⟨other, plain⟩ := not_or.mp (List.mem_cons.not.mp plain)
    cases n with
    | zero => rfl
    | succ n =>
      rw [List.map_cons, List.cons_append, textUpTo, if_neg (Ne.symm other),
        ih plain (known.imp_left Nat.le_of_succ_le_succ)]
      rfl

/-- What is written behind a string is read as its continuation. -/
theorem Cells.put_text (front : c.take t.length = t.map some) (plain : 0 ∉ t) (more : 0 ∉ s)
    (fits : t.length + s.length < c.length) :
    ∃ d, c.put t.length (s ++ [0]) = some d ∧ d.text = some (t ++ s) ∧ d.length = c.length := by
  have room : t.length + (s ++ [0]).length ≤ c.length := by
    rw [List.length_append, List.length_singleton]
    omega
  refine ⟨_, if_pos room, ?_, ?_⟩
  · -- In front of the offset the string is left as it was.
    rw [front, List.map_append, List.append_assoc, List.append_assoc, text_open plain]
    show Option.map _ (text (s.map some ++ some 0 :: _)) = _
    rw [text_ended more]
    rfl
  · simp only [List.length_append, List.length_take, List.length_map, List.length_drop,
      List.length_singleton] at room ⊢
    omega

/-- `strcat` puts its text behind the string, if there is room. -/
theorem strcat_text (read : c.text = some t) (more : 0 ∉ s) (fits : t.length + s.length < c.length) :
    ∃ d, strcat c s = some d ∧ d.text = some (t ++ s) ∧ d.length = c.length := by
  obtain ⟨plain, rest, rfl⟩ := Cells.text_eq_some read
  rw [strcat, read, Option.bind_some]
  exact Cells.put_text (List.take_left' (by simp)) plain more fits

/-- A string is cut by an end within it. -/
theorem Cells.put_end (read : c.text = some t) {k : ℕ} (within : k ≤ t.length) :
    ∃ d, c.put k [0] = some d ∧ d.text = some (t.take k) ∧ d.length = c.length := by
  obtain ⟨plain, rest, rfl⟩ := text_eq_some read
  have size : (t.take k).length = k := List.length_take_of_le within
  -- The first part of the string is followed by no other.
  have cut := put_text (c := t.map some ++ some 0 :: rest) (t := t.take k) (s := []) ?_
    (fun member => plain (List.mem_of_mem_take member)) List.not_mem_nil ?_
  · rwa [size, List.append_nil] at cut
  · rw [size, List.take_append_of_le_length (by simpa using within), List.map_take]
  · rw [size]
    simp
    omega

/-- `strncpy` writes its characters and the zeros behind them, and leaves the other cells as they are. -/
theorem strncpy_eq {src : Cells} (read : src.textUpTo n = some t) (short : t.length ≤ n)
    (fits : n ≤ c.length) :
    strncpy c src n = some ((t ++ List.replicate (n - t.length) 0).map some ++ c.drop n) := by
  have size : (t ++ List.replicate (n - t.length) (0 : UInt8)).length = n := by
    rw [List.length_append, List.length_replicate]
    omega
  rw [strncpy, read, Option.bind_some, Cells.put, size, if_pos (by omega), List.take_zero,
    List.nil_append, Nat.zero_add]

/-- After a `strncpy` the string is read if it is shorter than the limit, and else its end is missing. -/
theorem text_strncpy (plain : 0 ∉ s) (n : ℕ) (rest : Cells) :
    Cells.text ((s.take n ++ List.replicate (n - (s.take n).length) 0).map some ++ rest) =
      if s.length < n then some s else (Cells.text rest).map (s.take n ++ ·) := by
  rw [List.map_append, List.append_assoc]
  split_ifs with short
  · obtain ⟨k, room⟩ : ∃ k, n - s.length = k + 1 := ⟨n - s.length - 1, by omega⟩
    rw [List.take_of_length_le (by omega), room, List.replicate_succ, List.map_cons, List.cons_append]
    exact Cells.text_ended plain
  · -- A long string takes the whole room, and no zero follows.
    have full : n - (s.take n).length = 0 := by rw [List.length_take]; omega
    rw [full, List.replicate_zero, List.map_nil, List.nil_append]
    exact Cells.text_open fun member => plain (List.mem_of_mem_take member)

end Teetest.Lib
