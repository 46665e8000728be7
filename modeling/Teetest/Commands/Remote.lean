import Teetest.Robot.Schedule
import Teetest.Src.Ir

/-!
What the remote control makes of the frames it receives.

A frame is executed again 250 ms after it was, in real time; the code sees a counter that rolls over.
-/

namespace Teetest

/-- A frame of the remote control. -/
structure IrFrame where
  -- what the remote control sends
  code : UInt32
  -- the member `command` of the library's result
  command : UInt16
  -- when it is processed, in real milliseconds
  time : ℕ

/-- The state of the receiver, and for each button the time of its last frame that was executed. -/
structure Remote where
  ciTime : CiTime
  executed : IRCodes → Option ℕ

/-- After `irSetup` nothing was executed. -/
def Remote.start : Remote := ⟨irSetup, fun _ => none⟩

section

-- which part of a frame the library hands over
variable (handed : IrFrame → UInt32)

/-- What `irProces` makes of a frame. -/
def Remote.proces (r : Remote) (f : IrFrame) : CiTime × Option String :=
  irProces r.ciTime (handed f) (millis f.time)

/-- The state after a frame. -/
def Remote.receive (r : Remote) (f : IrFrame) : Remote where
  ciTime := (r.proces handed f).1
  executed b := if f.code = b.code ∧ (r.proces handed f).2.isSome then some f.time else r.executed b

/-- The state after a list of frames. -/
def Remote.run (frames : List IrFrame) : Remote := frames.foldl (Remote.receive handed) .start

/-- A frame of a button is to be executed: none was yet, or the last one more than 250 ms ago. -/
def Remote.Due (r : Remote) (b : IRCodes) (time : ℕ) : Prop :=
  ∀ last, r.executed b = some last → last + 250 < time

/-- A frame of a button executes its command exactly if that is due, and other frames change nothing. -/
structure Remote.Suppresses (r : Remote) (f : IrFrame) : Prop where
  known : ∀ b : IRCodes, f.code = b.code →
    (r.proces handed f).2 = some (cmds b.button) ∧ r.Due b f.time ∨
      (r.proces handed f).2 = none ∧ ¬ r.Due b f.time
  unknown : (∀ b : IRCodes, f.code ≠ b.code) → r.proces handed f = (r.ciTime, none)

/-- This holds of every frame of a list. -/
def AllSuppressed (frames : List IrFrame) : Prop :=
  ∀ past f, past ++ [f] <+: frames → (Remote.run handed past).Suppresses handed f

end

/-- The command is 16 bits wide, as the library hands it over. -/
def IrFrame.short (f : IrFrame) : UInt32 := f.command.toUInt32

/-- What a frame has to meet if the whole code is handed over. -/
def Remote.Meets (r : Remote) (f : IrFrame) : Prop :=
  ∀ b : IRCodes, f.code = b.code → b ≠ .UP ∧ b ≠ .DOWN ∧
    (r.Due b f.time → 250 < (millis f.time).toNat ∧ ∀ last, r.executed b = some last →
      ¬ ((millis last).toNat ≤ (millis f.time).toNat ∧
        (millis f.time).toNat ≤ (millis last).toNat + 250))

/-- The switch finds every button but two. -/
theorem cIndex_code (b : IRCodes) :
    cIndex b.code = if b = .UP ∨ b = .DOWN then none else some b.button := by
  cases b <;> rfl

/-- The switch finds nothing else. -/
theorem code_of_cIndex {code : UInt32} {i : Fin ciSize} (found : cIndex code = some i) :
    ∃ b : IRCodes, code = b.code ∧ b.button = i ∧ b ≠ .UP ∧ b ≠ .DOWN := by
  unfold cIndex at found
  -- One button for each case of the switch.
  split_ifs at found with h0 h1 h2 h3 h5 h6 h7 h8 <;> obtain rfl := Option.some.inj found
  · exact ⟨.VOLm, h0, rfl, by decide, by decide⟩
  · exact ⟨.PLAY, h1, rfl, by decide, by decide⟩
  · exact ⟨.VOLp, h2, rfl, by decide, by decide⟩
  · exact ⟨.SETUP, h3, rfl, by decide, by decide⟩
  · exact ⟨.STOP, h5, rfl, by decide, by decide⟩
  · exact ⟨.LEFT, h6, rfl, by decide, by decide⟩
  · exact ⟨.ENTER, h7, rfl, by decide, by decide⟩
  · exact ⟨.RIGHT, h8, rfl, by decide, by decide⟩

/-- No two buttons have one code. -/
theorem IRCodes.code_injective : Function.Injective IRCodes.code := by
  intro b c same
  cases b <;> cases c <;> first | rfl | exact absurd same (by decide)

/-- No two buttons have one place. -/
theorem IRCodes.button_injective : Function.Injective IRCodes.button := by
  intro b c same
  cases b <;> cases c <;> first | rfl | exact absurd same (by decide)

/-- A code of 16 bits is in no case of the switch. -/
theorem cIndex_short (command : UInt16) : cIndex command.toUInt32 = none := by
  -- All known codes are larger.
  cases found : cIndex command.toUInt32 with
  | none => rfl
  | some i =>
    obtain ⟨b, code, -⟩ := code_of_cIndex found
    have large : 65536 ≤ b.code.toNat := by cases b <;> decide
    have small := command.toNat_lt
    rw [← code, UInt16.toNat_toUInt32] at large
    omega

section

variable {ci : CiTime} {code now : UInt32}

/-- A code that the switch does not find changes nothing. -/
theorem irProces_unknown (unknown : cIndex code = none) : irProces ci code now = (ci, none) := by
  rw [irProces, unknown]

/-- Some time after the command was stored, or after a roll-over. -/
def Fires (stored now : UInt32) : Prop :=
  250 < now.toNat ∧ ¬ (stored.toNat ≤ now.toNat ∧ now.toNat ≤ stored.toNat + 250)

/-- A code that the switch finds is executed some time after the stored one. -/
theorem irProces_fires {i : Fin ciSize} (found : cIndex code = some i) (fires : Fires (ci i) now) :
    irProces ci code now = (Function.update ci i now, some (cmds i)) := by
  obtain ⟨late, apart⟩ := fires
  have other : now ≠ ci i := by
    rintro rfl
    exact apart ⟨le_rfl, by omega⟩
  have passed : (if now > ci i then now - ci i else now) > cInterval_ms := by
    rw [gt_iff_lt, UInt32.lt_iff_toNat_lt]
    show 250 < _
    split_ifs with ahead
    · -- Without a roll-over the difference is that of the numbers.
      have order : ci i ≤ now := UInt32.le_of_lt ahead
      rw [UInt32.toNat_sub_of_le _ _ order]
      have := UInt32.lt_iff_toNat_lt.mp ahead
      omega
    · exact late
  simp only [irProces, found, if_neg other, if_pos passed]

/-- And it is ignored otherwise. -/
theorem irProces_ignores {i : Fin ciSize} (found : cIndex code = some i) (not : ¬ Fires (ci i) now) :
    irProces ci code now = (ci, none) := by
  -- The code tests for the same time first.
  by_cases same : now = ci i
  · simp only [irProces, found, if_pos same]
  · have early : ¬ (if now > ci i then now - ci i else now) > cInterval_ms := by
      rw [gt_iff_lt, UInt32.lt_iff_toNat_lt]
      show ¬ 250 < _
      intro long
      refine not ?_
      split_ifs at long with ahead
      · have order : ci i ≤ now := UInt32.le_of_lt ahead
        rw [UInt32.toNat_sub_of_le _ _ order] at long
        exact ⟨by omega, by omega⟩
      · -- Here the stored time is the larger one.
        have behind : ¬ (ci i).toNat < now.toNat := fun less => ahead (UInt32.lt_iff_toNat_lt.mpr less)
        have differ : now.toNat ≠ (ci i).toNat := fun equal => same (UInt32.toNat_inj.mp equal)
        exact ⟨long, by omega⟩
    simp only [irProces, found, if_neg same, if_neg early]

end

/-- What the state has to do with the past: the times are stored modulo 2^32, and two buttons never ran. -/
structure Remote.Follows (r : Remote) (time : ℕ) : Prop where
  stored : ∀ b : IRCodes, r.ciTime b.button = (r.executed b).elim 0 millis
  past : ∀ b last, r.executed b = some last → last ≤ time
  silent : ∀ b, b = .UP ∨ b = .DOWN → r.executed b = none

section

variable {r : Remote} {f : IrFrame} {time : ℕ}

/-- When a frame whose whole code is handed over fires. -/
theorem Remote.Follows.fires_iff (follows : r.Follows time) (b : IRCodes) :
    Fires (r.ciTime b.button) (millis f.time) ↔ 250 < (millis f.time).toNat ∧
      ∀ last, r.executed b = some last → ¬ ((millis last).toNat ≤ (millis f.time).toNat ∧
        (millis f.time).toNat ≤ (millis last).toNat + 250) := by
  rw [follows.stored, Fires]
  cases before : r.executed b with
  | none =>
    -- The stored zero does not tell from a command at zero, and neither matters after 250 ms.
    simp only [Option.elim_none, reduceCtorEq, false_implies, implies_true, and_true]
    show _ ∧ ¬ (0 ≤ _ ∧ _ ≤ 0 + 250) ↔ _
    omega
  | some last => simp

/-- Nothing fires that is not due. -/
theorem Remote.Follows.due_of_fires (follows : r.Follows time) (order : time ≤ f.time) {b : IRCodes}
    (fires : Fires (r.ciTime b.button) (millis f.time)) : r.Due b f.time := by
  intro last before
  by_contra early
  obtain ⟨late, apart⟩ := (follows.fires_iff b).mp fires
  have earlier := follows.past b last before
  refine apart last before ?_
  -- Within 250 ms there is a roll-over at most, and just after it nothing fires.
  unfold millis at late ⊢
  rw [UInt32.toNat_ofNat'] at late
  rw [UInt32.toNat_ofNat', UInt32.toNat_ofNat']
  omega

/-- What the switch makes of the button of a frame. -/
theorem IrFrame.cIndex_eq {b : IRCodes} (code : f.code = b.code) (up : b ≠ .UP) (down : b ≠ .DOWN) :
    cIndex f.code = some b.button := by
  rw [code, cIndex_code, if_neg (by simp [up, down])]

/-- A frame is treated as it should be exactly if it meets the condition. -/
theorem Remote.Follows.suppresses_iff (follows : r.Follows time) (order : time ≤ f.time) :
    r.Suppresses IrFrame.code f ↔ r.Meets f := by
  constructor
  · intro suppresses b code
    by_cases missing : b = .UP ∨ b = .DOWN
    · -- The switch lacks two buttons, which would be due as they were never executed.
      have unknown : cIndex f.code = none := by rw [code, cIndex_code, if_pos missing]
      have due : r.Due b f.time := by
        intro last before
        rw [follows.silent b missing] at before
        cases before
      rcases suppresses.known b code with ⟨executed, -⟩ | ⟨-, early⟩
      · rw [Remote.proces, irProces_unknown unknown] at executed
        cases executed
      · exact absurd due early
    · obtain ⟨up, down⟩ := not_or.mp missing
      -- A frame that is due has to fire.
      refine ⟨up, down, fun due => (follows.fires_iff b).mp ?_⟩
      by_contra not
      rcases suppresses.known b code with ⟨executed, -⟩ | ⟨-, early⟩
      · rw [Remote.proces, irProces_ignores (IrFrame.cIndex_eq code up down) not] at executed
        cases executed
      · exact early due
  · intro meets
    constructor
    · intro b code
      -- What fires was due, and what is due fires by the condition.
      obtain ⟨up, down, late⟩ := meets b code
      have found := IrFrame.cIndex_eq code up down
      by_cases fires : Fires (r.ciTime b.button) (millis f.time)
      · rw [Remote.proces, irProces_fires found fires]
        exact .inl ⟨rfl, follows.due_of_fires order fires⟩
      · rw [Remote.proces, irProces_ignores found fires]
        exact .inr ⟨rfl, fun due => fires ((follows.fires_iff b).mpr (late due))⟩
    · intro other
      refine irProces_unknown ?_
      cases found : cIndex f.code with
      | none => rfl
      | some i =>
        obtain ⟨b, code, -⟩ := code_of_cIndex found
        exact absurd code (other b)

/-- A frame that changes nothing leaves the whole state alone. -/
theorem Remote.receive_silent {handed : IrFrame → UInt32}
    (silent : r.proces handed f = (r.ciTime, none)) : r.receive handed f = r := by
  simp [receive, silent]

/-- A frame that is executed is the last one of its button. -/
theorem Remote.receive_fires {b : IRCodes} (code : f.code = b.code)
    (executed : r.proces IrFrame.code f =
      (Function.update r.ciTime b.button (millis f.time), some (cmds b.button))) :
    r.receive IrFrame.code f =
      ⟨Function.update r.ciTime b.button (millis f.time), Function.update r.executed b (some f.time)⟩ := by
  unfold receive
  rw [executed, Remote.mk.injEq]
  refine ⟨rfl, funext fun c => ?_⟩
  rw [Function.update_apply, code]
  -- Only the button itself has the code of the frame.
  simp only [IRCodes.code_injective.eq_iff, Option.isSome_some, and_true, eq_comm]

/-- The state follows the past over a frame. -/
theorem Remote.Follows.receive (follows : r.Follows time) (order : time ≤ f.time) :
    (r.receive IrFrame.code f).Follows f.time := by
  -- What lies before the time of the last frame lies before this one too.
  have later : r.Follows f.time :=
    ⟨follows.stored, fun b last before => (follows.past b last before).trans order, follows.silent⟩
  cases found : cIndex f.code with
  | none =>
    rw [receive_silent (irProces_unknown found)]
    exact later
  | some i =>
    obtain ⟨b, code, rfl, up, down⟩ := code_of_cIndex found
    by_cases fires : Fires (r.ciTime b.button) (millis f.time)
    · rw [receive_fires code (irProces_fires found fires)]
      -- The time is remembered on both sides, and for this button alone.
      constructor
      · intro c
        by_cases this : c = b
        · subst this
          simp
        · have place : c.button ≠ b.button := fun same => this (IRCodes.button_injective same)
          simp [this, place, follows.stored c]
      · intro c last before
        by_cases this : c = b
        · subst this
          simp at before
          exact before.ge
        · exact later.past c last (by simpa [this] using before)
      · intro c missing
        have this : c ≠ b := by
          rintro rfl
          exact not_or.mpr ⟨up, down⟩ missing
        simpa [this] using follows.silent c missing
    · rw [receive_silent (irProces_ignores found fires)]
      exact later

end

/-- The state follows the past of every list of frames. -/
theorem Remote.run_follows {frames : List IrFrame} (order : frames.IsChain (·.time ≤ ·.time)) :
    ∀ past f, past ++ [f] <+: frames →
      ∃ time ≤ f.time, (Remote.run IrFrame.code past).Follows time := by
  -- The past grows at its end, by the frame that was received.
  intro past
  induction past using List.reverseRecOn with
  | nil =>
    intro f _
    refine ⟨0, Nat.zero_le _, ?_⟩
    exact ⟨fun _ => rfl, fun _ _ before => (nomatch before), fun _ _ => rfl⟩
  | append_singleton past g ih =>
    intro f upTo
    obtain ⟨time, before, follows⟩ := ih g ((List.prefix_append _ _).trans upTo)
    have next : g.time ≤ f.time := by
      have chain := order.prefix upTo
      rw [List.isChain_append] at chain
      exact chain.2.2 g (by simp) f rfl
    refine ⟨g.time, next, ?_⟩
    rw [Remote.run, List.foldl_concat]
    exact follows.receive before

/-- With commands of 16 bits, nothing is ever executed. -/
theorem Remote.run_short (frames : List IrFrame) : Remote.run IrFrame.short frames = .start := by
  induction frames using List.reverseRecOn with
  | nil => rfl
  | append_singleton past f ih =>
    rw [run, List.foldl_concat, ← run, ih]
    exact receive_silent (irProces_unknown (cIndex_short f.command))

/--
As the library hands the command over, in 16 bits, the frames of a list are treated as they should be
exactly if none is of a known button. Were the whole code handed over, they would be exactly if every
frame of a known button is none of the two that the switch lacks and, if it is due, comes neither
within 250 ms of a roll-over nor, modulo 2^32, within 250 ms of the frame that was last executed.
-/
theorem all_suppressed_iff {frames : List IrFrame} (order : frames.IsChain (·.time ≤ ·.time)) :
    (AllSuppressed IrFrame.short frames ↔ ∀ f ∈ frames, ∀ b : IRCodes, f.code ≠ b.code) ∧
      (AllSuppressed IrFrame.code frames ↔ ∀ past f, past ++ [f] <+: frames →
        (Remote.run IrFrame.code past).Meets f) := by
  constructor
  · -- The first frame of a button is due and not executed.
    have silent (f : IrFrame) : Remote.start.proces IrFrame.short f = (Remote.start.ciTime, none) :=
      irProces_unknown (cIndex_short f.command)
    constructor
    · intro all f member b code
      obtain ⟨past, later, rfl⟩ := List.append_of_mem member
      have suppresses := all past f ⟨later, by simp⟩
      rw [Remote.run_short] at suppresses
      rcases suppresses.known b code with ⟨executed, -⟩ | ⟨-, early⟩
      · rw [silent] at executed
        cases executed
      · exact early fun last before => by cases before
    · -- Frames of no known button are ignored with any part of their codes.
      intro unknown past f upTo
      rw [Remote.run_short]
      exact ⟨fun b code => absurd code (unknown f (upTo.subset (by simp)) b), fun _ => silent f⟩
  · refine forall₃_congr fun past f upTo => ?_
    obtain ⟨time, before, follows⟩ := Remote.run_follows order past f upTo
    exact follows.suppresses_iff before

/-- A frame of "play", and another one 100 ms later. -/
def playTwice : List IrFrame := [⟨0xfd807f, 8, 1000⟩, ⟨0xfd807f, 8, 1100⟩]

/-- Were the whole code handed over, they would be treated as they should be. -/
theorem all_suppressed_playTwice : AllSuppressed IrFrame.code playTwice := by
  refine (all_suppressed_iff (by simp [playTwice])).2.mpr fun past f upTo b code => ?_
  have play : f.code = IRCodes.PLAY.code := by
    have member : f ∈ playTwice := upTo.subset (by simp)
    simp only [playTwice, List.mem_cons, List.not_mem_nil, or_false] at member
    obtain rfl | rfl := member <;> rfl
  obtain rfl := IRCodes.code_injective (code.symm.trans play)
  refine ⟨by decide, by decide, fun due => ?_⟩
  -- Only two frames have a past within the list.
  match past with
  | [] =>
    obtain ⟨rfl, -⟩ := List.cons_prefix_cons.mp upTo
    exact ⟨by decide, fun _ before => nomatch before⟩
  | [g] =>
    -- The second frame is not due.
    obtain ⟨rfl, rest⟩ := List.cons_prefix_cons.mp upTo
    obtain ⟨rfl, -⟩ := List.cons_prefix_cons.mp rest
    exact absurd (due 1000 (by decide)) (by decide)
  | g :: h :: past =>
    have long := upTo.length_le
    simp [playTwice] at long

/--
"play" is not executed with a command of 16 bits; and with its whole code it is neither within 250 ms
of the start, nor is "up" at any time.
-/
theorem not_all_suppressed :
    ¬ AllSuppressed IrFrame.short [⟨0xfd807f, 8, 1000⟩] ∧
      ¬ AllSuppressed IrFrame.code [⟨0xfd807f, 8, 100⟩] ∧
      ¬ AllSuppressed IrFrame.code [⟨0xfda05f, 5, 1000⟩] := by
  have due (b : IRCodes) (time : ℕ) : Remote.start.Due b time := fun _ before => nomatch before
  refine ⟨fun all => ?_, fun all => ?_, fun all => ?_⟩
  · -- Each of the frames is the first one, and so it is due.
    rcases (all [] _ List.prefix_rfl).known .PLAY rfl with ⟨executed, -⟩ | ⟨-, early⟩
    · exact absurd executed (by decide)
    · exact early (due _ _)
  · rcases (all [] _ List.prefix_rfl).known .PLAY rfl with ⟨executed, -⟩ | ⟨-, early⟩
    · exact absurd executed (by decide)
    · exact early (due _ _)
  · rcases (all [] _ List.prefix_rfl).known .UP rfl with ⟨executed, -⟩ | ⟨-, early⟩
    · exact absurd executed (by decide)
    · exact early (due _ _)

end Teetest
