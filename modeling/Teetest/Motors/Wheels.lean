import Teetest.Lib.Trace
import Teetest.Motors.Process
import Teetest.Src.Encoder

/-!
What the encoders count of the wheels, and what the motors make of it.

An interrupt clears the flags before it reads the pins, so no edge is forgotten: it may be read too late,
together with later ones, but then the error is a whole turn through the four states of the pins.
-/

namespace Teetest

open Lib

section

variable {s t : EncWheel} {start seen n : ℤ}

/-- The `state` of an encoder that has read its pins with the wheel at some place. -/
def stateAt (seen : ℤ) : UInt8 := (Encoder.init (EncPin.pin1.level seen) (EncPin.pin2.level seen)).state

/-- What `update` counts from one place of the wheel to another. -/
def edgesBetween (old new : ℤ) : ℤ :=
  if (new - old) % 4 = 3 then -1
  -- two edges are taken as forward or backward by the state they start from
  else if (new - old) % 4 = 2 ∧ old % 2 = 1 then -2
  else (new - old) % 4

/-- The remainders by four, one by one. -/
theorem emod_four (a : ℤ) : a % 4 = 0 ∨ a % 4 = 1 ∨ a % 4 = 2 ∨ a % 4 = 3 := by
  omega

/-- The pins repeat themselves after four edges. -/
theorem EncPin.level_emod (p : EncPin) (a : ℤ) : p.level (a % 4) = p.level a := by
  cases p <;> simp only [level, Int.emod_emod]

/-- What is counted depends on the two states of the pins alone. -/
theorem edgesBetween_emod (old new : ℤ) : edgesBetween (old % 4) (new % 4) = edgesBetween old new := by
  have apart : (new % 4 - old % 4) % 4 = (new - old) % 4 := (Int.sub_emod new old 4).symm
  have half : old % 4 % 2 = old % 2 := by omega
  unfold edgesBetween
  rw [apart, half]

/-- The two states of the pins, the old one in the lower bits, as `update` looks them up. -/
def stateRow (state : UInt8) (p1val p2val : Bool) : UInt8 :=
  let state := state &&& 3
  let state := if p1val then state ||| 4 else state
  if p2val then state ||| 8 else state

/-- What `update` counts in a row of its table. -/
def rowCount (state : UInt8) : ℤ :=
  if state = 1 ∨ state = 7 ∨ state = 8 ∨ state = 14 then 1
  else if state = 2 ∨ state = 4 ∨ state = 11 ∨ state = 13 then -1
  else if state = 3 ∨ state = 12 then 2
  else if state = 6 ∨ state = 9 then -2
  else 0

/-- `update` adds what its table says, and leaves the position alone where this is nothing. -/
theorem Encoder.update_row (arg : Encoder) (p1val p2val : Bool) :
    arg.update p1val p2val =
      ⟨stateRow arg.state p1val p2val >>> 2,
        if rowCount (stateRow arg.state p1val p2val) = 0 then arg.position
        else wrap32 (arg.position + rowCount (stateRow arg.state p1val p2val))⟩ := by
  have rows (row : UInt8) (m : ℤ) :
      (if row = 1 ∨ row = 7 ∨ row = 8 ∨ row = 14 then wrap32 (m + 1)
      else if row = 2 ∨ row = 4 ∨ row = 11 ∨ row = 13 then wrap32 (m - 1)
      else if row = 3 ∨ row = 12 then wrap32 (m + 2)
      else if row = 6 ∨ row = 9 then wrap32 (m - 2)
      else m) = if rowCount row = 0 then m else wrap32 (m + rowCount row) := by
    -- One case for each branch of the code.
    unfold rowCount
    split_ifs <;> first | rfl | contradiction
  exact congrArg (Encoder.mk _) (rows _ _)

/-- The table of the code, row by row. -/
theorem rowCount_places {old new : ℤ} (before : old = 0 ∨ old = 1 ∨ old = 2 ∨ old = 3)
    (after : new = 0 ∨ new = 1 ∨ new = 2 ∨ new = 3) :
    stateRow (stateAt old) (EncPin.pin1.level new) (EncPin.pin2.level new) >>> 2 = stateAt new ∧
      rowCount (stateRow (stateAt old) (EncPin.pin1.level new) (EncPin.pin2.level new)) =
        edgesBetween old new := by
  rcases before with rfl | rfl | rfl | rfl <;> rcases after with rfl | rfl | rfl | rfl <;> decide

/-- `update` counts the edges between the places of the last and the present reading. -/
theorem Encoder.update_stateAt (old new n : ℤ) :
    (⟨stateAt old, wrap32 n⟩ : Encoder).update (EncPin.pin1.level new) (EncPin.pin2.level new) =
      ⟨stateAt new, wrap32 (n + edgesBetween old new)⟩ := by
  have next (d : ℤ) : wrap32 (wrap32 n + d) = wrap32 (n + d) := by
    unfold wrap32
    omega
  have place (a : ℤ) : stateAt a = stateAt (a % 4) := by
    unfold stateAt
    rw [EncPin.level_emod, EncPin.level_emod]
  -- Four states of the pins each time are all that matters.
  obtain ⟨row, count⟩ := rowCount_places (emod_four old) (emod_four new)
  rw [EncPin.level_emod, EncPin.level_emod, ← place, ← place] at row
  rw [EncPin.level_emod, EncPin.level_emod, ← place, edgesBetween_emod] at count
  rw [update_row, row, count, next]
  split_ifs with none_
  · rw [none_, add_zero]
  · rfl

/-- What is counted differs from what the wheel has done by whole turns of the pins. -/
theorem edgesBetween_whole (old new : ℤ) : (edgesBetween old new - (new - old)) % 4 = 0 := by
  unfold edgesBetween
  split_ifs <;> omega

/-- A single edge is counted as it is. -/
theorem edgesBetween_near {old new : ℤ} (near : |new - old| ≤ 1) : edgesBetween old new = new - old := by
  have range := abs_le.mp near
  unfold edgesBetween
  split_ifs <;> omega

/-- Every state of the pins is that of some place. -/
theorem exists_place (p1val p2val : Bool) :
    ∃ w, EncPin.pin1.level w = p1val ∧ EncPin.pin2.level w = p2val := by
  cases p1val <;> cases p2val
  · exact ⟨0, rfl, rfl⟩
  · exact ⟨1, rfl, rfl⟩
  · exact ⟨3, rfl, rfl⟩
  · exact ⟨2, rfl, rfl⟩

/-- Places with the same state of the pins are whole turns apart. -/
theorem level_inj {a b : ℤ} (same : ∀ p : EncPin, p.level a = p.level b) : a % 4 = b % 4 := by
  have first := same .pin1
  have second := same .pin2
  simp only [EncPin.level, decide_eq_decide] at first second
  omega

/-- Of two neighbouring places, the first pin at one and the second pin at the other show one of them. -/
theorem between_places {a b : ℤ} (near : |b - a| ≤ 1) :
    ∃ w, (w = a ∨ w = b) ∧ EncPin.pin1.level w = EncPin.pin1.level a ∧
      EncPin.pin2.level w = EncPin.pin2.level b := by
  -- Only one of the two pins changes between them.
  by_cases first : EncPin.pin1.level b = EncPin.pin1.level a
  · exact ⟨b, .inr rfl, first, rfl⟩
  · refine ⟨a, .inl rfl, rfl, ?_⟩
    have range := abs_le.mp near
    simp only [EncPin.level, decide_eq_decide] at first ⊢
    omega

/-- The interrupt starts when a flag is set. -/
theorem EncStep.irq {port : EncPin → Bool} (stepped : EncStep s (.irq port) t) :
    s.pc = .idle ∧ ∃ flags : EncPin → Bool, (flags .pin1 = true ∨ flags .pin2 = true) ∧
      t = { s with pc := .status flags } := by
  unfold EncStep EncWheel.step at stepped
  cases pc : s.pc with
  | idle =>
    simp only [pc] at stepped
    split_ifs at stepped with some_
    exact ⟨rfl, _, (Bool.or_eq_true _ _).mp some_, (Option.some.inj stepped).symm⟩
  | _ => simp [pc] at stepped

/-- The flags that were read are cleared, and the pins are read as often as there were flags. -/
theorem EncStep.clear (stepped : EncStep s .clear t) :
    ∃ flags, s.pc = .status flags ∧
      t = { s with
        isr := fun p => s.isr p && !flags p
        pc := .loop ((flags .pin1).toNat + (flags .pin2).toNat) } := by
  unfold EncStep EncWheel.step at stepped
  cases pc : s.pc with
  | status flags =>
    simp only [pc] at stepped
    exact ⟨flags, rfl, (Option.some.inj stepped).symm⟩
  | _ => simp [pc] at stepped

/-- `update` reads the first pin. -/
theorem EncStep.readPin1 (stepped : EncStep s .readPin1 t) :
    ∃ calls, s.pc = .loop calls ∧
      t = { s with pc := .update calls (EncPin.pin1.level s.turned), begun := true } := by
  unfold EncStep EncWheel.step at stepped
  cases pc : s.pc with
  | loop calls =>
    simp only [pc] at stepped
    exact ⟨calls, rfl, (Option.some.inj stepped).symm⟩
  | _ => simp [pc] at stepped

/-- `update` reads the second pin, and counts. -/
theorem EncStep.readPin2 (stepped : EncStep s .readPin2 t) :
    ∃ calls p1val, s.pc = .update calls p1val ∧
      t = { s with
        encoder := s.encoder.update p1val (EncPin.pin2.level s.turned)
        pc := if calls ≤ 1 then .idle else .loop (calls - 1)
        current := s.current || s.begun } := by
  unfold EncStep EncWheel.step at stepped
  cases pc : s.pc with
  | update calls p1val =>
    simp only [pc] at stepped
    exact ⟨calls, p1val, rfl, (Option.some.inj stepped).symm⟩
  | _ => simp [pc] at stepped

/-- What the encoder does not know of a change of the pins is flagged, or the pins are read after it. -/
def EncWheel.Noticed (s : EncWheel) (seen : ℤ) : Prop :=
  match s.pc with
  | .idle => ∀ p : EncPin, p.level seen ≠ p.level s.turned → s.isr p = true
  | .status flags =>
    (flags .pin1 = true ∨ flags .pin2 = true) ∧
      ∀ p : EncPin, p.level seen ≠ p.level s.turned → s.isr p = true
  | .loop calls => 0 < calls
  | .update _ p1val => p1val ≠ EncPin.pin1.level s.turned → s.isr .pin1 = true

/-- An encoder that last saw its wheel at some place, after it has counted to some number. -/
structure EncWheel.Shows (start : ℤ) (s : EncWheel) (seen n : ℤ) : Prop where
  encoder : s.encoder = ⟨stateAt seen, wrap32 n⟩
  whole : (n - (seen - start)) % 4 = 0
  noticed : s.Noticed seen

/-- The encoder at the beginning. -/
theorem EncWheel.start_shows (start : ℤ) : (EncWheel.start start).Shows start start 0 where
  encoder := rfl
  whole := by
    rw [sub_self]
    rfl
  noticed := fun p changed => absurd rfl changed

/-- A turn of the wheel flags the pin that changes. -/
theorem EncWheel.Noticed.turn (noticed : s.Noticed seen) (forward : Bool) :
    (s.turn forward).Noticed seen := by
  -- A pin that the step changes is flagged, and one that it does not change is as before.
  have flagged (p : EncPin) (v : Bool) (before : v ≠ p.level s.turned → s.isr p = true)
      (changed : v ≠ p.level (s.turn forward).turned) : (s.turn forward).isr p = true := by
    rw [EncWheel.turn, Bool.or_eq_true, bne_iff_ne]
    by_cases old : v = p.level s.turned
    · exact .inr fun same => changed (old.trans same.symm)
    · exact .inl (before old)
  cases pc : s.pc with
  | idle =>
    simp only [Noticed, pc, EncWheel.turn] at noticed ⊢
    exact fun p => flagged p _ (noticed p)
  | status flags =>
    simp only [Noticed, pc, EncWheel.turn] at noticed ⊢
    exact ⟨noticed.1, fun p => flagged p _ (noticed.2 p)⟩
  | loop calls =>
    simp only [Noticed, pc, EncWheel.turn] at noticed ⊢
    exact noticed
  | update calls p1val =>
    simp only [Noticed, pc, EncWheel.turn] at noticed ⊢
    exact flagged .pin1 _ noticed

/-- All steps but the reading of the second pin leave the encoder as it is, and what it knows. -/
theorem EncWheel.Shows.step {e : EncEvent} (shows_ : s.Shows start seen n) (stepped : EncStep s e t)
    (other : e ≠ .readPin2) : t.Shows start seen n := by
  obtain ⟨encoder, whole, noticed⟩ := shows_
  cases e with
  | turn forward =>
    obtain rfl := Option.some.inj stepped
    exact ⟨encoder, whole, noticed.turn forward⟩
  | irq port =>
    obtain ⟨pc, flags, some_, rfl⟩ := EncStep.irq stepped
    simp only [Noticed, pc] at noticed
    exact ⟨encoder, whole, some_, noticed⟩
  | clear =>
    obtain ⟨flags, pc, rfl⟩ := EncStep.clear stepped
    simp only [Noticed, pc] at noticed
    -- Whatever the flags said, the pins are read now.
    have some_ : 0 < (flags .pin1).toNat + (flags .pin2).toNat := by
      rcases noticed.1 with first | second
      · rw [first, Bool.toNat_true]
        omega
      · rw [second, Bool.toNat_true]
        omega
    exact ⟨encoder, whole, some_⟩
  | readPin1 =>
    obtain ⟨calls, pc, rfl⟩ := EncStep.readPin1 stepped
    exact ⟨encoder, whole, fun changed => absurd rfl changed⟩
  | readPin2 => exact absurd rfl other

/-- The reading of the second pin counts up to any place with the two pins as they were read. -/
theorem EncWheel.Shows.readPin2 (shows_ : s.Shows start seen n) (stepped : EncStep s .readPin2 t) :
    ∃ calls p1val, s.pc = .update calls p1val ∧
      ∀ w, EncPin.pin1.level w = p1val → EncPin.pin2.level w = EncPin.pin2.level s.turned →
        t.Shows start w (n + edgesBetween seen w) := by
  obtain ⟨encoder, whole, noticed⟩ := shows_
  obtain ⟨calls, p1val, pc, rfl⟩ := EncStep.readPin2 stepped
  simp only [Noticed, pc] at noticed
  refine ⟨calls, p1val, pc, fun w first second => ?_⟩
  have turns := edgesBetween_whole seen w
  refine ⟨?_, by omega, ?_⟩
  · rw [encoder, ← first, ← second, Encoder.update_stateAt]
  · unfold Noticed
    dsimp only
    split_ifs with last
    · -- Only the first pin may have changed since it was read.
      intro p changed
      cases p with
      | pin1 => exact noticed (first ▸ changed)
      | pin2 => exact absurd second changed
    · show 0 < calls - 1
      omega

/-- Nothing is pending: no flag is set and no interrupt runs. -/
def EncWheel.Settled (s : EncWheel) : Prop := s.pc = .idle ∧ ∀ p, s.isr p = false

/-- A settled encoder has seen the pins as they are. -/
theorem EncWheel.Shows.settled (shows_ : s.Shows start seen n) (settled : s.Settled) :
    seen % 4 = s.turned % 4 := by
  have noticed := shows_.noticed
  simp only [Noticed, settled.1] at noticed
  refine level_inj fun p => ?_
  by_contra changed
  exact absurd ((settled.2 p).symm.trans (noticed p changed)) Bool.false_ne_true

variable {events : List EncEvent}

/--
However fast a wheel turns, no edge is forgotten: when all interrupts are done, the position differs from
what the wheel has turned by whole turns of the pins, that is by a multiple of four edges.
-/
theorem position_whole (run : Run EncStep (.start start) events s) (settled : s.Settled) :
    (s.encoder.position - (s.turned - start)) % 4 = 0 := by
  have known : ∃ seen n, s.Shows start seen n := by
    refine run.invariant (P := fun s => ∃ seen n, s.Shows start seen n) ⟨_, _, EncWheel.start_shows start⟩ ?_
    rintro s e t ⟨seen, n, shows_⟩ stepped
    by_cases reads : e = .readPin2
    · subst reads
      obtain ⟨-, p1val, -, counted⟩ := shows_.readPin2 stepped
      obtain ⟨w, first, second⟩ := exists_place p1val (EncPin.pin2.level s.turned)
      exact ⟨w, _, counted w first second⟩
    · exact ⟨seen, n, shows_.step stepped reads⟩
  obtain ⟨seen, n, shows_⟩ := known
  have pins := shows_.settled settled
  have whole := shows_.whole
  rw [shows_.encoder]
  unfold wrap32
  dsimp only
  omega

/-- Two edges forward, and the interrupt. -/
def twoEdges : List EncEvent :=
  [.turn true, .turn true, .irq fun _ => true, .clear, .readPin1, .readPin2, .readPin1, .readPin2]

/-- An encoder behind them, from the second state of the pins on. -/
def afterTwoEdges : EncWheel := (twoEdges.foldlM EncWheel.step (.start 1)).get (by decide)

/-- Two edges forward that are read together count as two backward. -/
theorem position_whole_fast : Run EncStep (.start 1) twoEdges afterTwoEdges ∧
    afterTwoEdges.turned - 1 = 2 ∧ afterTwoEdges.encoder.position = -2 ∧
    (afterTwoEdges.encoder.position - (afterTwoEdges.turned - 1)) % 4 = 0 := by
  have run : Run EncStep (.start 1) twoEdges afterTwoEdges :=
    .foldlM EncWheel.step (fun _ _ _ stepped => stepped) (Option.some_get _).symm
  exact ⟨run, by decide, by decide, position_whole run ⟨rfl, fun p => by cases p <;> decide⟩⟩

/-- An edge comes when the pins have been read, from the first to the second, since the last one. -/
def EncWheel.Slow (s : EncWheel) : EncEvent → Prop
  | .turn _ => s.current = true
  | _ => True

/-- The encoder is at most the last edge behind, and it has not missed any. -/
structure EncWheel.Follows (start : ℤ) (s : EncWheel) (seen : ℤ) : Prop where
  shows_ : s.Shows start seen (seen - start)
  near : |s.turned - seen| ≤ 1
  current : s.current = true → seen = s.turned
  -- a reading that began before the last edge saw the first pin as it was before it
  reading : ∀ calls p1val, s.pc = .update calls p1val →
    p1val = EncPin.pin1.level (if s.begun then s.turned else seen)

/-- The wheel turns by an edge. -/
theorem EncWheel.Follows.turn (follows : s.Follows start seen) (forward : Bool) (slow : s.current = true) :
    (s.turn forward).Follows start seen where
  shows_ := follows.shows_.step (e := .turn forward) rfl (by simp)
  near := by
    rw [follows.current slow]
    cases forward <;> simp [EncWheel.turn]
  current := by simp [EncWheel.turn]
  reading := by
    intro calls p1val pc
    -- The first pin was read after the edge before, if at all.
    have before := follows.reading calls p1val pc
    rw [before, follows.current slow]
    simp [EncWheel.turn]

/-- A step of a wheel that turns slowly enough. -/
theorem EncWheel.Follows.step {e : EncEvent} (follows : s.Follows start seen) (slow : s.Slow e)
    (stepped : EncStep s e t) : ∃ seen, t.Follows start seen := by
  cases e with
  | turn forward =>
    obtain rfl := Option.some.inj stepped
    exact ⟨seen, follows.turn forward slow⟩
  | irq port =>
    have shows_ := follows.shows_.step stepped (by simp)
    obtain ⟨-, flags, -, rfl⟩ := EncStep.irq stepped
    exact ⟨seen, shows_, follows.near, follows.current, by simp⟩
  | clear =>
    have shows_ := follows.shows_.step stepped (by simp)
    obtain ⟨flags, -, rfl⟩ := EncStep.clear stepped
    exact ⟨seen, shows_, follows.near, follows.current, by simp⟩
  | readPin1 =>
    have shows_ := follows.shows_.step stepped (by simp)
    obtain ⟨calls, -, rfl⟩ := EncStep.readPin1 stepped
    refine ⟨seen, shows_, follows.near, follows.current, ?_⟩
    intro calls' p1val now
    obtain ⟨-, rfl⟩ := PortPc.update.inj now
    rfl
  | readPin2 =>
    obtain ⟨calls, p1val, pc, counted⟩ := follows.shows_.readPin2 stepped
    have read := follows.reading calls p1val pc
    have near := abs_le.mp follows.near
    -- The pins as they were read are those of the present place, or of the one before the last edge.
    obtain ⟨w, place, first, second, late⟩ : ∃ w, (w = seen ∨ w = s.turned) ∧
        EncPin.pin1.level w = p1val ∧ EncPin.pin2.level w = EncPin.pin2.level s.turned ∧
        ((s.current || s.begun) = true → w = s.turned) := by
      by_cases now : s.begun = true
      · rw [if_pos now] at read
        exact ⟨s.turned, .inr rfl, read.symm, rfl, fun _ => rfl⟩
      · rw [if_neg now] at read
        obtain ⟨w, place, first, second⟩ := between_places follows.near
        refine ⟨w, place, first.trans read.symm, second, fun old => ?_⟩
        -- The reading is an old one, so the wheel has not moved at all.
        have rest := follows.current (by simpa [now] using old)
        rcases place with rfl | rfl
        · exact rest
        · rfl
    have shown := counted w first second
    rw [edgesBetween_near (by rcases place with rfl | rfl <;> rw [abs_le] <;> omega)] at shown
    rw [sub_add_sub_cancel'] at shown
    obtain ⟨_, _, _, rfl⟩ := EncStep.readPin2 stepped
    refine ⟨w, shown, ?_, late, fun calls' p1val' now => ?_⟩
    · rw [abs_le]
      dsimp only
      rcases place with rfl | rfl <;> omega
    · -- The loop goes on, or ends.
      dsimp only at now
      split at now <;> cases now

/-- In every run in which the edges do not come too fast, the encoder follows its wheel. -/
theorem EncWheel.follows_of_run (run : Run (Guarded EncWheel.Slow EncStep) (.start start) events s) :
    ∃ seen, s.Follows start seen := by
  refine run.invariant (P := fun s => ∃ seen, s.Follows start seen) ⟨start, ?_⟩ ?_
  · refine ⟨?_, by simp [EncWheel.start], fun _ => rfl, by simp [EncWheel.start]⟩
    rw [sub_self]
    exact start_shows start
  · rintro s e t ⟨seen, follows⟩ ⟨slow, stepped⟩
    exact follows.step slow stepped

/-- An encoder that follows its wheel has counted all edges when it is settled. -/
theorem EncWheel.Follows.position (follows : s.Follows start seen) (settled : s.Settled) :
    s.encoder.position = wrap32 (s.turned - start) := by
  have pins := follows.shows_.settled settled
  have near := abs_le.mp follows.near
  -- The places are at most one edge apart, and show the same pins.
  have same : seen = s.turned := by omega
  rw [follows.shows_.encoder, same]


/--
As long as the edges do not come too fast, the position is what the wheel has turned, but for the last edge
at most, and exactly that when all interrupts are done.
-/
theorem position_follows (run : Run (Guarded EncWheel.Slow EncStep) (.start start) events s) :
    (∃ seen, |s.turned - seen| ≤ 1 ∧ s.encoder.position = wrap32 (seen - start)) ∧
      (s.Settled → s.encoder.position = wrap32 (s.turned - start)) := by
  obtain ⟨seen, follows⟩ := EncWheel.follows_of_run run
  refine ⟨⟨seen, follows.near, ?_⟩, follows.position⟩
  rw [follows.shows_.encoder]

end

/-- An edge forward and its interrupt. -/
def oneEdge : List EncEvent := [.turn true, .irq fun _ => true, .clear, .readPin1, .readPin2]

instance (s : EncWheel) : DecidablePred s.Slow
  | .turn _ => inferInstanceAs (Decidable (s.current = true))
  | .irq _ | .clear | .readPin1 | .readPin2 => .isTrue trivial

/-- A step of a wheel that turns slowly enough. -/
def EncWheel.slowStep (s : EncWheel) (e : EncEvent) : Option EncWheel := if s.Slow e then s.step e else none

/-- An encoder behind three edges, from the second state of the pins on. -/
def afterThreeEdges : EncWheel :=
  ((oneEdge ++ oneEdge ++ oneEdge).foldlM EncWheel.slowStep (.start 1)).get (by decide)

/-- Three edges one after the other are counted. -/
theorem position_follows_slow : Run (Guarded EncWheel.Slow EncStep) (.start 1) (oneEdge ++ oneEdge ++ oneEdge)
    afterThreeEdges ∧ afterThreeEdges.encoder.position = 3 := by
  have run : Run (Guarded EncWheel.Slow EncStep) (.start 1) (oneEdge ++ oneEdge ++ oneEdge)
      afterThreeEdges := by
    refine .foldlM EncWheel.slowStep (fun s e t stepped => ?_) (Option.some_get _).symm
    unfold EncWheel.slowStep at stepped
    split_ifs at stepped with slow
    exact ⟨slow, stepped⟩
  exact ⟨run, (position_follows run).2 ⟨rfl, fun p => by cases p <;> decide⟩⟩

/-- The motors with their encoders and wheels. -/
structure Chassis where
  wheels : Fin 2 → EncWheel
  board : MotorBoard

/-- What happens to a wheel or its encoder, the interrupt of the motors, or a command to them. -/
inductive ChassisEvent
  | wheel (i : Fin 2) (e : EncEvent)
  | mdProcess (ms : UInt32)
  | command (e : MotorEvent)

section

variable (pii : ℚ) (parabola_appr : List ℚ → List ℚ → ℚ × ℚ × ℚ)

/-- The state after an event, if it can happen: the interrupt of the motors reads both encoders. -/
def Chassis.step (c : Chassis) : ChassisEvent → Option Chassis
  | .wheel i e => ((c.wheels i).step e).map fun w => { c with wheels := Function.update c.wheels i w }
  | .mdProcess ms =>
    let read := fun i => (c.wheels i).encoder.position
    some { c with board := c.board.event pii parabola_appr (.mdProcess ms read) }
  | .command e =>
    match e with
    | .mdProcess _ _ => none
    | e => some { c with board := c.board.event pii parabola_appr e }

/-- The step relation of the motors and their wheels. -/
def ChassisStep (c : Chassis) (e : ChassisEvent) (d : Chassis) : Prop :=
  c.step pii parabola_appr e = some d

/-- The state after `mdSetup`, with the wheels somewhere. -/
def Chassis.mdSetup (start : Fin 2 → ℤ) : Chassis := ⟨fun i => .start (start i), .mdSetup pii⟩

/--
The edges of a wheel do not come too fast, and none comes just when the motors read the encoders.

The interrupts of the encoders preempt that of the motors.
-/
def Chassis.Calm (c : Chassis) : ChassisEvent → Prop
  | .wheel i e => (c.wheels i).Slow e
  | .mdProcess _ => ∀ i, (c.wheels i).Settled
  | .command _ => True

/-- How far an event turns the wheel. -/
def EncEvent.edges : EncEvent → ℤ
  | .turn forward => if forward then 1 else -1
  | _ => 0

/-- The interrupts so far, and how far a wheel has turned. -/
def odometer (i : Fin 2) (x : ℕ × ℤ) : ChassisEvent → ℕ × ℤ
  | .wheel j e => if j = i then (x.1, x.2 + e.edges) else x
  | .mdProcess _ => (x.1 + 1, x.2)
  | _ => x

/-- How far a wheel has turned at an even interrupt. -/
def evenTurns (x : ℕ × ℤ) : ChassisEvent → List ℤ
  | .mdProcess _ => if (x.1 + 1) % 2 = 0 then [x.2] else []
  | _ => []

/-- The position of an encoder in the direction of its motor. -/
def mounted (i : Fin 2) (turned : ℤ) : ℤ := if i.val = 1 then wrap32 turned else -wrap32 turned

variable {start : Fin 2 → ℤ} {c d : Chassis} {events : List ChassisEvent}

/-- Only a turn of the wheel turns it. -/
theorem EncStep.turned {s t : EncWheel} {e : EncEvent} (stepped : EncStep s e t) :
    t.turned = s.turned + e.edges := by
  cases e with
  | turn forward =>
    obtain rfl := Option.some.inj stepped
    cases forward <;> rfl
  | irq port =>
    obtain ⟨-, -, -, rfl⟩ := EncStep.irq stepped
    exact (add_zero _).symm
  | clear =>
    obtain ⟨-, -, rfl⟩ := EncStep.clear stepped
    exact (add_zero _).symm
  | readPin1 =>
    obtain ⟨-, -, rfl⟩ := EncStep.readPin1 stepped
    exact (add_zero _).symm
  | readPin2 =>
    obtain ⟨-, -, -, rfl⟩ := EncStep.readPin2 stepped
    exact (add_zero _).symm

/-- What every step of the wheels and motors keeps, after the count and the turns of one of the wheels. -/
structure Chassis.Tracks (start : Fin 2 → ℤ) (i : Fin 2) (x : ℕ × ℤ) (c : Chassis) : Prop where
  after : c.board.After x.1
  follows : ∀ j, ∃ seen, (c.wheels j).Follows (start j) seen
  turned : (c.wheels i).turned = start i + x.2

variable {i : Fin 2} {x : ℕ × ℤ} {e : ChassisEvent}

/-- A step of the wheels and motors. -/
theorem Chassis.Tracks.step (tracks : c.Tracks start i x) (calm : c.Calm e)
    (stepped : ChassisStep pii parabola_appr c e d) :
    d.Tracks start i (odometer i x e) ∧
      (d.board.m i).est = ((evenTurns x e).map (mounted i)).foldl
        (fun m p => (m.rAdd p).updateEncSpeed pii parabola_appr) (c.board.m i).est := by
  obtain ⟨after, follows, turned⟩ := tracks
  cases e with
  | wheel j e =>
    obtain ⟨w, moved, rfl⟩ := Option.map_eq_some_iff.mp stepped
    have same : ∀ y : ℕ × ℤ, y.1 = x.1 → start i + y.2 = (Function.update c.wheels j w i).turned →
        Chassis.Tracks start i y { c with wheels := Function.update c.wheels j w } := by
      intro y count place
      refine ⟨count ▸ after, fun k => ?_, place.symm⟩
      by_cases here : k = j
      · subst here
        obtain ⟨seen, known⟩ := follows k
        dsimp only
        rw [Function.update_self]
        exact known.step calm moved
      · dsimp only
        rw [Function.update_of_ne here]
        exact follows k
    refine ⟨?_, rfl⟩
    by_cases here : j = i
    · subst here
      rw [odometer, if_pos rfl]
      exact same _ rfl (by rw [Function.update_self, EncStep.turned moved, turned, add_assoc])
    · rw [odometer, if_neg here]
      exact same _ rfl (by rw [Function.update_of_ne (Ne.symm here), turned])
  | mdProcess ms =>
    obtain rfl := Option.some.inj stepped
    have done := after.event pii parabola_appr (.mdProcess ms fun j => (c.wheels j).encoder.position)
    refine ⟨⟨done, follows, turned⟩, ?_⟩
    obtain ⟨seen, known⟩ := follows i
    have read : (c.wheels i).encoder.position = wrap32 x.2 := by
      rw [known.position (calm i), turned, add_sub_cancel_left]
    have fed := after.est pii parabola_appr i (.mdProcess ms fun j => (c.wheels j).encoder.position)
    rw [encPositions, read] at fed
    rw [fed, evenTurns]
    split <;> rfl
  | command e =>
    -- A command is no interrupt, and brings no position.
    obtain ⟨rfl, count, silent⟩ : d = { c with board := c.board.event pii parabola_appr e } ∧
        interrupts x.1 e = x.1 ∧ encPositions i x.1 e = [] := by
      cases e with
      | mdProcess ms read => cases stepped
      | _ => exact ⟨(Option.some.inj stepped).symm, rfl, rfl⟩
    have done := after.event pii parabola_appr e
    have fed := after.est pii parabola_appr i e
    rw [count] at done
    rw [silent] at fed
    exact ⟨⟨done, follows, turned⟩, fed⟩

/-- The state after `mdSetup`. -/
theorem Chassis.mdSetup_tracks (start : Fin 2 → ℤ) (i : Fin 2) :
    (Chassis.mdSetup pii start).Tracks start i (0, 0) where
  after := MotorBoard.mdSetup_after pii
  follows := fun _ => EncWheel.follows_of_run .refl
  turned := (add_zero _).symm

/-- The estimate of a motor's speed is made from how far its wheel has turned at the even interrupts. -/
theorem Chassis.est_of_run (i : Fin 2)
    (run : Run (Guarded Chassis.Calm (ChassisStep pii parabola_appr)) (.mdSetup pii start) events c) :
    (c.board.m i).est = EncSpeed.feed pii parabola_appr ⟨[], 0, 0⟩
      ((transduce (odometer i) evenTurns (0, 0) events).map (mounted i)) := by
  have held : c.Tracks start i (events.foldl (odometer i) (0, 0)) ∧
      (c.board.m i).est = EncSpeed.feed pii parabola_appr ⟨[], 0, 0⟩
        ((transduce (odometer i) evenTurns (0, 0) events).map (mounted i)) := by
    refine run.history (P := fun past c => c.Tracks start i (past.foldl (odometer i) (0, 0)) ∧
      (c.board.m i).est = EncSpeed.feed pii parabola_appr ⟨[], 0, 0⟩
        ((transduce (odometer i) evenTurns (0, 0) past).map (mounted i)))
      ⟨mdSetup_tracks pii start i, rfl⟩ ?_
    rintro past c e d ⟨tracks, est⟩ ⟨calm, stepped⟩
    obtain ⟨tracks', fed⟩ := tracks.step pii parabola_appr calm stepped
    rw [List.foldl_concat, transduce_append, List.map_append, EncSpeed.feed, List.foldl_append]
    refine ⟨tracks', ?_⟩
    rw [fed, est, transduce, transduce, List.append_nil]
    rfl
  exact held.2

/-- When the last five positions are those of a ramp, both estimates are its slope. -/
theorem EncSpeed.feed_steady (fit : ExactFit parabola_appr) (m : EncSpeed ℚ) (past : List ℤ) (p v : ℤ) :
    (m.feed pii parabola_appr (past ++ ramp p v encBufSize)).estimates =
      (v * simpleEncSpeedK pii, v * simpleEncSpeedK pii) := by
  have split : past ++ ramp p v encBufSize = (past ++ ramp p v 4) ++ [p + 4 * v] := by
    rw [List.append_assoc]
    rfl
  -- The buffer holds nothing but the ramp.
  have held : ((m.feed pii parabola_appr (past ++ ramp p v 4)).rAdd (p + 4 * v)).encBuf =
      ramp p v encBufSize := by
    have buf := feed_encBuf pii parabola_appr (m := m) (past ++ ramp p v encBufSize)
    rw [List.drop_left' (by simp [ramp]), split, feed, List.foldl_concat,
      updateEncSpeed_encBuf] at buf
    exact buf
  rw [split, feed, List.foldl_concat]
  exact updateEncSpeed_ramp pii parabola_appr fit (by decide) le_rfl held

/-- The angle of a wheel is the same number in its position as long as this does not wrap around. -/
theorem mounted_ramp (i : Fin 2) {p v : ℤ} {k : ℕ}
    (range : ∀ x ∈ ramp p v k, -2 ^ 31 ≤ x ∧ x < 2 ^ 31) :
    (ramp p v k).map (mounted i) =
      if i.val = 1 then ramp p v k else ramp (-p) (-v) k := by
  have same : (ramp p v k).map (mounted i) =
      (ramp p v k).map fun x => if i.val = 1 then x else -x := by
    refine List.map_congr_left fun x member => ?_
    rw [mounted, wrap32_of_range (range x member).1 (range x member).2]
  rw [same]
  split_ifs with second
  · exact List.map_id _
  · unfold ramp
    rw [List.map_map]
    refine List.map_congr_left fun j _ => ?_
    simp only [Function.comp_apply]
    ring

/--
From the edges of the wheels to the speeds of the motors: the estimate is made from how far the wheel has
turned at the even interrupts, wherever it stood at the beginning, and after five of them in steady motion,
with turns that fit into 32 bits, both speeds are that of the wheel.
-/
theorem wheel_speed (fit : ExactFit parabola_appr) (i : Fin 2)
    (run : Run (Guarded Chassis.Calm (ChassisStep pii parabola_appr)) (.mdSetup pii start) events c) :
    (c.board.m i).est = EncSpeed.feed pii parabola_appr ⟨[], 0, 0⟩
        ((transduce (odometer i) evenTurns (0, 0) events).map (mounted i)) ∧
      ∀ past p v, transduce (odometer i) evenTurns (0, 0) events = past ++ ramp p v encBufSize →
        (∀ x ∈ ramp p v encBufSize, -2 ^ 31 ≤ x ∧ x < 2 ^ 31) →
        (c.board.m i).est.estimates =
          if i.val = 1 then (v * simpleEncSpeedK pii, v * simpleEncSpeedK pii)
          else (-(v * simpleEncSpeedK pii), -(v * simpleEncSpeedK pii)) := by
  have est := Chassis.est_of_run pii parabola_appr i run
  refine ⟨est, fun past p v steady range => ?_⟩
  rw [est, steady, List.map_append, mounted_ramp i range]
  split_ifs
  · exact EncSpeed.feed_steady pii parabola_appr fit _ _ p v
  · rw [EncSpeed.feed_steady pii parabola_appr fit, Int.cast_neg, neg_mul]

end

instance (s : EncWheel) : Decidable s.Settled :=
  match pc : s.pc with
  | .idle =>
    decidable_of_iff (s.isr .pin1 = false ∧ s.isr .pin2 = false)
      ⟨fun none_ => ⟨pc, fun p => by cases p <;> simp [none_]⟩, fun settled => ⟨settled.2 _, settled.2 _⟩⟩
  | .status _ | .loop _ | .update _ _ => .isFalse fun settled => by simp [EncWheel.Settled, pc] at settled

instance (c : Chassis) : DecidablePred c.Calm
  | .wheel i e => inferInstanceAs (Decidable ((c.wheels i).Slow e))
  | .mdProcess _ => inferInstanceAs (Decidable (∀ i, (c.wheels i).Settled))
  | .command _ => .isTrue trivial

/-- A calm step of the motors and their wheels, with a least-squares parabola. -/
def Chassis.calmStep (c : Chassis) (e : ChassisEvent) : Option Chassis :=
  if c.Calm e then c.step (355 / 113) leastSquares e else none

/-- An edge of the second wheel, and two milliseconds. -/
def edgeAndTicks : List ChassisEvent := oneEdge.map (.wheel (Fin.last 1)) ++ [.mdProcess 0, .mdProcess 0]

/-- Five such rounds. -/
def tenTicks : List ChassisEvent :=
  edgeAndTicks ++ edgeAndTicks ++ edgeAndTicks ++ edgeAndTicks ++ edgeAndTicks

/-- The state behind them. -/
def afterTenTicks : Chassis :=
  (tenTicks.foldlM Chassis.calmStep (.mdSetup (355 / 113) fun _ => 7)).get (by decide)

/-- A wheel that turns by one edge every two milliseconds has the speed of one edge. -/
theorem wheel_speed_one : (afterTenTicks.board.m 1).est.estimates =
    (simpleEncSpeedK (355 / 113), simpleEncSpeedK (355 / 113)) := by
  have run : Run (Guarded Chassis.Calm (ChassisStep (355 / 113) leastSquares))
      (.mdSetup (355 / 113) fun _ => 7) tenTicks afterTenTicks := by
    refine .foldlM Chassis.calmStep (fun c e d stepped => ?_) (Option.some_get _).symm
    unfold Chassis.calmStep at stepped
    split_ifs at stepped with calm
    exact ⟨calm, stepped⟩
  have speeds := (wheel_speed (355 / 113) leastSquares leastSquares_exact 1 run).2 [] 1 1 (by decide)
    (by decide)
  rw [speeds, if_pos (by decide), Int.cast_one, one_mul]

end Teetest
