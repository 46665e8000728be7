import Teetest.Lib.Sampling
import Teetest.Lib.Trace
import Teetest.Src.IrReceiver

/-!
What the interrupt of the infrared receiver records.

It writes an entry for each mark and each space. That the buffer has an even length is what keeps it inside:
only before a space is recorded does the code ask whether there is room.
-/

namespace Teetest

open Lib

section

variable {p q : IrParams} {level : Bool} {r : ℕ}

/-- There is room for what the interrupt will write before it asks again. -/
def IrParams.Room (p : IrParams) : Prop :=
  match p.stateForISR with
  | .IDLE | .STOP => p.rawlen ≤ rawBufferLength
  | .MARK => p.rawlen % 2 = 1 ∧ p.rawlen < rawBufferLength
  | .SPACE => p.rawlen % 2 = 0 ∧ p.rawlen ≤ rawBufferLength

/-- The counter of the ticks, clipped. -/
def ticked (c : ℕ) : ℕ := if c < 0xFFFF then c + 1 else c

/-- The interrupt counts, and then looks at its state. -/
theorem IrParams.isr_ticked (p : IrParams) (mark : Bool) :
    p.isr mark =
      match p.stateForISR with
      | .IDLE =>
        if mark then
          if ticked p.tickCounterForISR > recordGapTicks then
            some { p with
              overflowFlag := false
              rawbuf := Function.update p.rawbuf 0 (ticked p.tickCounterForISR)
              rawlen := 1
              stateForISR := .MARK
              tickCounterForISR := 0 }
          else some { p with tickCounterForISR := 0 }
        else some { p with tickCounterForISR := ticked p.tickCounterForISR }
      | .MARK =>
        if mark then some { p with tickCounterForISR := ticked p.tickCounterForISR }
        else (p.record (ticked p.tickCounterForISR)).map fun p =>
          { p with stateForISR := .SPACE, tickCounterForISR := 0 }
      | .SPACE =>
        if mark then
          if p.rawlen ≥ rawBufferLength then
            some { p with overflowFlag := true, stateForISR := .STOP, tickCounterForISR := 0 }
          else (p.record (ticked p.tickCounterForISR)).map fun p =>
            { p with stateForISR := .MARK, tickCounterForISR := 0 }
        else if ticked p.tickCounterForISR > recordGapTicks then
          some { p with tickCounterForISR := ticked p.tickCounterForISR, stateForISR := .STOP }
        else some { p with tickCounterForISR := ticked p.tickCounterForISR }
      | .STOP =>
        if mark then some { p with tickCounterForISR := 0 }
        else some { p with tickCounterForISR := ticked p.tickCounterForISR } := by
  have counted : (if p.tickCounterForISR < 0xFFFF then
      { p with tickCounterForISR := p.tickCounterForISR + 1 } else p) =
        { p with tickCounterForISR := ticked p.tickCounterForISR } := by
    unfold ticked
    split <;> rfl
  unfold isr
  rw [counted]
  -- What is recorded does not depend on the counter itself.
  cases p.stateForISR with
  | MARK =>
    unfold record
    dsimp only
    split
    · rfl
    · split <;> rfl
  | SPACE =>
    unfold record
    dsimp only
    split
    · split
      · rfl
      · split <;> rfl
    · rfl
  | _ => rfl

/-- An entry is written where there is room. -/
theorem IrParams.record_eq (room : p.rawlen < rawBufferLength) (ticks : ℕ) :
    p.record ticks =
      some { p with rawbuf := Function.update p.rawbuf p.rawlen ticks, rawlen := p.rawlen + 1 } :=
  if_pos room

/-- The interrupt finds the room it needs, and leaves enough of it. -/
theorem IrParams.Room.isr (room : p.Room) (mark : Bool) : ∃ q, p.isr mark = some q ∧ q.Room := by
  have even : rawBufferLength % 2 = 0 := rfl
  rw [isr_ticked]
  cases state : p.stateForISR with
  | IDLE =>
    simp only [Room, state] at room
    dsimp only
    split_ifs
    · exact ⟨_, rfl, rfl, show 1 < rawBufferLength by decide⟩
    · exact ⟨_, rfl, by simpa only [Room, state] using room⟩
    · exact ⟨_, rfl, by simpa only [Room, state] using room⟩
  | MARK =>
    simp only [Room, state] at room
    dsimp only
    rw [record_eq room.2, Option.map_some]
    split_ifs
    · exact ⟨_, rfl, by simpa only [Room, state] using room⟩
    · -- Behind an odd number of entries there is room for one more.
      refine ⟨_, rfl, ?_, ?_⟩
      · show (p.rawlen + 1) % 2 = 0
        omega
      · show p.rawlen + 1 ≤ rawBufferLength
        omega
  | SPACE =>
    simp only [Room, state] at room
    dsimp only
    split_ifs with marked full gap
    · exact ⟨_, rfl, room.2⟩
    · rw [record_eq (by omega), Option.map_some]
      refine ⟨_, rfl, ?_, ?_⟩
      · show (p.rawlen + 1) % 2 = 1
        omega
      · -- An even number that is not the length is at least two below it.
        show p.rawlen + 1 < rawBufferLength
        omega
    · exact ⟨_, rfl, room.2⟩
    · exact ⟨_, rfl, by simpa only [Room, state] using room⟩
  | STOP =>
    simp only [Room, state] at room
    dsimp only
    split_ifs
    · exact ⟨_, rfl, by simpa only [Room, state] using room⟩
    · exact ⟨_, rfl, by simpa only [Room, state] using room⟩

/-- Until the receiver is resumed the interrupt leaves a recorded frame alone. -/
theorem IrParams.isr_stop (stop : p.stateForISR = .STOP) (mark : Bool) :
    ∃ c, p.isr mark = some { p with tickCounterForISR := c } := by
  rw [isr_ticked, stop]
  dsimp only
  split_ifs
  · exact ⟨_, rfl⟩
  · exact ⟨_, rfl⟩

/-- The interrupt over a list of samples. -/
def IrParams.ticks (p : IrParams) (levels : List Bool) : Option IrParams := levels.foldlM IrParams.isr p

/-- The samples of one list after those of another. -/
theorem IrParams.ticks_append (first later : List Bool) :
    p.ticks (first ++ later) = (p.ticks first).bind fun q => q.ticks later :=
  List.foldlM_append

/-- The first sample of a mark or a space was just seen. -/
structure IrParams.Within (level : Bool) (r : ℕ) (p : IrParams) : Prop where
  state : p.stateForISR = if level then .MARK else .SPACE
  counter : p.tickCounterForISR = 0
  rawlen : p.rawlen = r
  overflow : p.overflowFlag = false

/-- How many samples may follow the first one: the counter is clipped, and a space must not become a gap. -/
def followers (level : Bool) : ℕ := if level then 0xFFFE else recordGapTicks

/-- The counter does not reach its limit. -/
theorem followers_le (level : Bool) : followers level ≤ 0xFFFE := by
  cases level <;> decide

/-- Further samples of a mark or a space are counted. -/
theorem IrParams.ticks_same (state : p.stateForISR = if level then .MARK else .SPACE) {n : ℕ}
    (short : p.tickCounterForISR + n ≤ followers level) :
    p.ticks (List.replicate n level) = some { p with tickCounterForISR := p.tickCounterForISR + n } := by
  have limit := followers_le level
  induction n generalizing p with
  | zero => rfl
  | succ n ih =>
    have clip : ticked p.tickCounterForISR = p.tickCounterForISR + 1 := if_pos (by omega)
    have step : p.isr level = some { p with tickCounterForISR := p.tickCounterForISR + 1 } := by
      rw [isr_ticked, state, clip]
      cases level with
      | true => rfl
      | false =>
        have within : p.tickCounterForISR + (n + 1) ≤ recordGapTicks := short
        have no_gap : ¬ p.tickCounterForISR + 1 > recordGapTicks := by omega
        exact if_neg no_gap
    rw [List.replicate_succ, ticks, List.foldlM_cons, step]
    -- One sample less is left, and the counter is one further.
    have rest := ih (p := { p with tickCounterForISR := p.tickCounterForISR + 1 }) state
      (by dsimp only; omega)
    rw [show p.tickCounterForISR + (n + 1) = p.tickCounterForISR + 1 + n by omega]
    exact rest

/-- A mark or a space ends, and its duration is recorded. -/
theorem IrParams.Within.turn (within : p.Within level r) (room : r < rawBufferLength) {n : ℕ}
    (short : n ≤ followers level) :
    ∃ q, p.ticks (List.replicate n level ++ [!level]) = some q ∧ q.Within (!level) (r + 1) ∧
      q.rawbuf = Function.update p.rawbuf r (ticked n) := by
  obtain ⟨state, counter, rawlen, overflow⟩ := within
  rw [ticks_append, ticks_same state (by rw [counter, Nat.zero_add]; exact short), Option.bind_some, ticks,
    List.foldlM_cons, isr_ticked, counter, Nat.zero_add]
  dsimp only
  rw [record_eq (by rw [← rawlen] at room; exact room), state]
  cases level with
  | true => exact ⟨_, rfl, ⟨rfl, rfl, congrArg (· + 1) rawlen, overflow⟩, by rw [← rawlen]⟩
  | false =>
    have some_ : ¬ p.rawlen ≥ rawBufferLength := by omega
    simp only [Bool.false_eq_true, if_false, Bool.not_false, if_true, if_neg some_]
    exact ⟨_, rfl, ⟨rfl, rfl, congrArg (· + 1) rawlen, overflow⟩, by rw [← rawlen]⟩

/-- The samples of alternating marks and spaces behind the first one, up to the first one behind them. -/
def turns (level : Bool) : List ℕ → List Bool
  | [] => []
  | n :: ns => List.replicate (n - 1) level ++ [!level] ++ turns (!level) ns

/-- The level behind alternating marks and spaces. -/
def levelAfter (level : Bool) : List ℕ → Bool
  | [] => level
  | _ :: ns => levelAfter (!level) ns

/-- Marks and spaces of which the interrupt can tell the durations. -/
def Fits (level : Bool) : List ℕ → Prop
  | [] => True
  | n :: ns => (0 < n ∧ n ≤ followers level + 1) ∧ Fits (!level) ns

/-- Alternating marks and spaces are recorded one after the other. -/
theorem IrParams.Within.turns {ns : List ℕ} (within : p.Within level r) (fits : Fits level ns)
    (room : r + ns.length ≤ rawBufferLength) :
    ∃ q, p.ticks (turns level ns) = some q ∧ q.Within (levelAfter level ns) (r + ns.length) ∧
      (∀ i < r, q.rawbuf i = p.rawbuf i) ∧ ∀ i, (inside : i < ns.length) → q.rawbuf (r + i) = ns[i] := by
  induction ns generalizing p level r with
  | nil => exact ⟨p, rfl, within, fun _ _ => rfl, fun i inside => absurd inside (Nat.not_lt_zero i)⟩
  | cons n ns ih =>
    obtain ⟨⟨positive, short⟩, fits⟩ := fits
    rw [List.length_cons] at room
    have limit := followers_le level
    obtain ⟨m, first, within', entry⟩ := within.turn (n := n - 1) (by omega) (by omega)
    obtain ⟨q, later, final, below, entries⟩ := ih within' fits (by omega)
    have clip : ticked (n - 1) = n := by
      rw [ticked, if_pos (by omega)]
      omega
    refine ⟨q, ?_, ?_, fun i inside => ?_, fun i inside => ?_⟩
    · rw [Teetest.turns, ticks_append, first, Option.bind_some, later]
    · rw [List.length_cons, ← Nat.add_assoc, Nat.add_right_comm]
      exact final
    · rw [below i (by omega), entry, Function.update_of_ne (by omega)]
    · cases i with
      | zero =>
        rw [Nat.add_zero, below r (by omega), entry, Function.update_self, clip]
        rfl
      | succ i =>
        rw [List.length_cons] at inside
        rw [← Nat.add_assoc, Nat.add_right_comm, entries i (by omega)]
        rfl

/-- While the receiver waits for a frame it counts spaces. -/
theorem IrParams.ticks_idle (idle : p.stateForISR = .IDLE) (n : ℕ) :
    ∃ c, p.ticks (List.replicate n false) = some { p with tickCounterForISR := c } ∧ min n 0xFFFF ≤ c := by
  induction n generalizing p with
  | zero => exact ⟨p.tickCounterForISR, rfl, Nat.zero_le _⟩
  | succ n ih =>
    rw [List.replicate_succ', ticks_append]
    obtain ⟨c, counted, enough⟩ := ih idle
    refine ⟨ticked c, ?_, ?_⟩
    · rw [counted, Option.bind_some, ticks, List.foldlM_cons, isr_ticked, idle]
      rfl
    · unfold ticked
      split_ifs
      · omega
      · omega

/-- A mark behind a gap begins a frame. -/
theorem IrParams.ticks_begin (idle : p.stateForISR = .IDLE) {lead : ℕ} (gap : recordGapTicks ≤ lead) :
    ∃ q, p.ticks (List.replicate lead false ++ [true]) = some q ∧ q.Within true 1 := by
  obtain ⟨c, counted, enough⟩ := ticks_idle idle lead
  have long : ticked c > recordGapTicks := by
    unfold ticked recordGapTicks at *
    split_ifs
    · omega
    · omega
  rw [ticks_append, counted, Option.bind_some, ticks, List.foldlM_cons, isr_ticked]
  dsimp only
  rw [idle]
  dsimp only
  rw [if_pos rfl, if_pos long]
  exact ⟨_, rfl, rfl, rfl, rfl, rfl⟩

/-- A recorded frame stays as it is, whatever comes. -/
theorem IrParams.ticks_stop (stop : p.stateForISR = .STOP) (levels : List Bool) :
    ∃ c, p.ticks levels = some { p with tickCounterForISR := c } := by
  induction levels generalizing p with
  | nil => exact ⟨p.tickCounterForISR, rfl⟩
  | cons level levels ih =>
    obtain ⟨c, step⟩ := isr_stop stop level
    obtain ⟨c', rest⟩ := ih (p := { p with tickCounterForISR := c }) stop
    refine ⟨c', ?_⟩
    rw [ticks, List.foldlM_cons, step]
    exact rest

/-- A gap ends a frame. -/
theorem IrParams.Within.stop (within : p.Within false r) {m : ℕ} (gap : recordGapTicks < m)
    (levels : List Bool) :
    ∃ c, p.ticks (List.replicate m false ++ levels) =
      some { p with stateForISR := .STOP, tickCounterForISR := c } := by
  obtain ⟨state, counter, -, -⟩ := within
  -- The gap is one sample longer than the longest space.
  obtain ⟨k, rfl⟩ : ∃ k, m = recordGapTicks + 1 + k := ⟨m - (recordGapTicks + 1), by omega⟩
  have counted := ticks_same (n := recordGapTicks) state (by
    rw [counter, Nat.zero_add]
    exact le_rfl)
  rw [List.replicate_add, List.replicate_succ', List.append_assoc, List.append_assoc, ticks_append, counted,
    Option.bind_some, List.singleton_append, ticks, List.foldlM_cons, isr_ticked]
  dsimp only
  rw [state, counter]
  obtain ⟨c, rest⟩ := ticks_stop (p := { p with stateForISR := .STOP, tickCounterForISR := 101 }) rfl
    (List.replicate k false ++ levels)
  exact ⟨c, rest⟩

/-- The values of a signal alternate. -/
def Alternates (level : Bool) : List (Bool × ℕ) → Prop
  | [] => True
  | held :: signal => held.1 = level ∧ Alternates (!level) signal

/-- The samples of alternating runs, and the first one behind them. -/
theorem expand_turns {signal : List (Bool × ℕ)} {ns : List ℕ} {period : ℕ}
    (alternates : Alternates level signal) (fits : Fits level ns)
    (lasts : List.Forall₂ (Lasts period) signal ns) :
    expand ((signal.map Prod.fst).zip ns) ++ [levelAfter level ns] = level :: turns level ns := by
  induction lasts generalizing level with
  | nil => rfl
  | @cons held n signal ns _ _ ih =>
    obtain ⟨rfl, alternates⟩ := alternates
    obtain ⟨⟨positive, -⟩, fits⟩ := fits
    obtain ⟨k, rfl⟩ : ∃ k, n = k + 1 := ⟨n - 1, by omega⟩
    rw [List.map_cons, List.zip_cons_cons, expand_cons, List.append_assoc, levelAfter, ih alternates fits,
      turns, List.replicate_succ, Nat.add_sub_cancel]
    simp

/-- A mark or a space that the receiver can record, in microseconds. -/
def Recordable (held : Bool × ℕ) : Prop :=
  microsPerTick ≤ held.2 ∧ held.2 ≤ microsPerTick * (followers held.1 + 1)

/-- Recordable marks and spaces fit. -/
theorem fits_of_lasts {signal : List (Bool × ℕ)} {ns : List ℕ} (alternates : Alternates level signal)
    (clear : ∀ held ∈ signal, Recordable held) (lasts : List.Forall₂ (Lasts microsPerTick) signal ns) :
    Fits level ns := by
  induction lasts generalizing level with
  | nil => trivial
  | @cons held n signal ns last _ ih =>
    obtain ⟨rfl, alternates⟩ := alternates
    obtain ⟨least, most⟩ := clear held List.mem_cons_self
    obtain ⟨longer, shorter⟩ := last
    refine ⟨⟨?_, ?_⟩, ih alternates fun held' member => clear held' (List.mem_cons_of_mem _ member)⟩
    · by_contra none_
      rw [Nat.eq_zero_of_not_pos none_] at longer
      omega
    · -- One sample more would be a whole period too long.
      by_contra more
      have above := Nat.mul_le_mul_left microsPerTick (Nat.lt_of_not_le more)
      rw [Nat.mul_succ] at above
      omega

/--
A frame between two gaps is recorded, wherever its samples fall, and kept.

An entry is the number of samples of a mark or a space.
-/
theorem IrParams.ticks_signal (idle : p.stateForISR = .IDLE) {lead : ℕ} (gap : recordGapTicks ≤ lead)
    {signal : List (Bool × ℕ)} (alternates : Alternates true signal)
    (clear : ∀ held ∈ signal, Recordable held) (short : signal.length < rawBufferLength)
    (ends : ∀ ns : List ℕ, ns.length = signal.length → levelAfter true ns = false) {phase n : ℕ}
    (early : phase < microsPerTick)
    (enough : (signal.map Prod.snd).sum + microsPerTick * (recordGapTicks + 3) ≤ phase + microsPerTick * n)
    (later : List Bool) :
    ∃ ns q, List.Forall₂ (Lasts microsPerTick) signal ns ∧
      p.ticks (List.replicate lead false ++ (sampled false signal microsPerTick phase n ++ later)) = some q ∧
      q.stateForISR = .STOP ∧ q.overflowFlag = false ∧ q.rawlen = 1 + ns.length ∧
      ∀ i, (inside : i < ns.length) → q.rawbuf (1 + i) = ns[i] := by
  obtain ⟨ns, lasts, total, runs⟩ := sampled_eq_expand false signal early
  -- Behind the frame the samples go on for longer than a gap.
  obtain ⟨m, rfl⟩ : ∃ m, n = ns.sum + (recordGapTicks + 2 + m) := by
    have more : ns.sum + (recordGapTicks + 2) ≤ n := by
      unfold microsPerTick recordGapTicks at *
      omega
    exact ⟨n - (ns.sum + (recordGapTicks + 2)), by omega⟩
  have fits := fits_of_lasts alternates clear lasts
  have size := lasts.length_eq
  have samples_ := expand_turns alternates fits lasts
  rw [ends ns size.symm] at samples_
  have order : List.replicate lead false ++
      (sampled false signal microsPerTick phase (ns.sum + (recordGapTicks + 2 + m)) ++ later) =
        (List.replicate lead false ++ [true]) ++
          (turns true ns ++ (List.replicate (recordGapTicks + 1 + m) false ++ later)) := by
    rw [runs, show recordGapTicks + 2 + m = (recordGapTicks + 1 + m) + 1 by omega, List.replicate_succ,
      List.append_cons, samples_]
    simp
  obtain ⟨first, begun, within⟩ := ticks_begin idle gap
  obtain ⟨last, recorded, within', -, entries⟩ := within.turns fits (by omega)
  rw [ends ns size.symm] at within'
  obtain ⟨c, stopped⟩ := within'.stop (m := recordGapTicks + 1 + m) (by omega) later
  refine ⟨ns, { last with stateForISR := .STOP, tickCounterForISR := c }, lasts, ?_, rfl, within'.overflow,
    within'.rawlen, entries⟩
  rw [order, ticks_append, begun, Option.bind_some, ticks_append, recorded, Option.bind_some, stopped]

end

end Teetest
