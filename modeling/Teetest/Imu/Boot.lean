import Teetest.Lib.Trace
import Teetest.Src.ImuSetup

/-!
The setup of the IMU leaves the bus alone when the samples begin, and the samples do not begin before.

While the setup exchanges words with the IMU the status keeps `dataR` from starting a transfer, and behind
the setup no one else talks to the IMU.
-/

namespace Teetest

open Lib

/--
Words are exchanged while the chip is selected, and nothing else is done then.

The last step, and no earlier one, sets the status to 2.
-/
def orderly : Bool → List SetupOp → Bool
  | _, [] => false
  | _, .select :: program => orderly true program
  | selected, .transfer16 _ :: program => selected && orderly selected program
  | _, .release :: program => orderly false program
  | selected, .memsicStatus v :: program =>
    !selected && if v = 2 then program.isEmpty else orderly false program
  | selected, _ :: program => !selected && orderly false program

/-- No program ends without its last step. -/
theorem orderly_nil (selected : Bool) : orderly selected [] = false := rfl

/-- A word is exchanged while the chip is selected, and leaves it so. -/
theorem orderly_transfer16 (selected : Bool) (word : UInt16) (program : List SetupOp) :
    orderly selected (.transfer16 word :: program) = (selected && orderly selected program) := rfl

/-- The status is set while the chip is released, and to 2 only at the end. -/
theorem orderly_memsicStatus (selected : Bool) (v : ℤ) (program : List SetupOp) :
    orderly selected (.memsicStatus v :: program) =
      (!selected && if v = 2 then program.isEmpty else orderly false program) := rfl

/-- The setup is orderly. -/
theorem ttSetup_orderly : orderly false SetupOp.ttSetup = true := by
  decide

section

variable {K : Type}

/-- The setup is going on, and nothing has happened to the samples yet. -/
structure ImuBoot.Booting (start : Memsic K) (s : ImuBoot K) : Prop where
  memsic : s.memsic = start
  status : s.memsicStatus ≠ 2
  saved : s.oldMemsicStatus ≠ 2
  tidy : orderly s.selected s.program = true

/-- The setup has timed out, and nothing will ever happen to the samples. -/
structure ImuBoot.TimedOut (start : Memsic K) (s : ImuBoot K) : Prop where
  ended : s.program = []
  status : s.memsicStatus = 0 ∨ s.memsicStatus = 1
  idle : s.memsic = { start with consumer := .outside } ∨ s.memsic = { start with consumer := .loop }

/-- The variables of the samples before there are any, whatever is in the buffers. -/
def Memsic.Fresh (start : Memsic K) : Prop :=
  ∃ time bInfoOut memsicInfo pInfo, start = Memsic.started time bInfoOut memsicInfo pInfo

variable {start : Memsic K} {s t : ImuBoot K}

/-- Behind a step that is taken with the chip released, the rest is orderly. -/
theorem orderly_released {selected : Bool} {program : List SetupOp}
    (tidy : (!selected && orderly false program) = true) : orderly selected program = true := by
  rw [Bool.and_eq_true, Bool.not_eq_true'] at tidy
  rw [tidy.1]
  exact tidy.2

/-- A step of the setup keeps it going, lets it time out, or is its last one. -/
theorem ImuBoot.Booting.setup (booting : s.Booting start) (fresh : start.Fresh) {more : Bool}
    (stepped : s.setup more = some t) :
    t.Booting start ∨ t.TimedOut start ∨ t.program = [] ∧ t.memsicStatus = 2 ∧ t.memsic = start := by
  obtain ⟨memsic, status, saved, tidy⟩ := booting
  obtain ⟨time, bInfoOut, memsicInfo, pInfo, rfl⟩ := fresh
  unfold ImuBoot.setup at stepped
  cases rest : s.program with
  | nil => simp [rest] at stepped
  | cons op program =>
    simp only [rest] at stepped
    obtain rfl := Option.some.inj stepped
    rw [rest] at tidy
    cases op with
    | memsicStatus v =>
      rw [orderly_memsicStatus, Bool.and_eq_true, Bool.not_eq_true'] at tidy
      by_cases last : v = 2
      · rw [if_pos last] at tidy
        exact .inr (.inr ⟨List.isEmpty_iff.mp tidy.2, last, memsic⟩)
      · rw [if_neg last] at tidy
        exact .inl ⟨memsic, last, saved, by rw [tidy.1]; exact tidy.2⟩
    | memsicDataready | memsicOverflowCounter | clear =>
      -- The variable has this value already.
      exact .inl ⟨by rw [memsic]; rfl, status, saved, orderly_released tidy⟩
    | save => exact .inl ⟨memsic, status, status, orderly_released tidy⟩
    | restore => exact .inl ⟨memsic, saved, saved, orderly_released tidy⟩
    | attachInterrupt => exact .inl ⟨memsic, status, saved, orderly_released tidy⟩
    | waitReady =>
      dsimp only
      split_ifs
      · exact .inl ⟨memsic, status, saved, rest ▸ tidy⟩
      · exact .inl ⟨memsic, status, saved, orderly_released tidy⟩
    | checkReady =>
      dsimp only
      split_ifs with late
      · exact .inr (.inl ⟨rfl, .inl late, .inl memsic⟩)
      · exact .inl ⟨memsic, status, saved, orderly_released tidy⟩
    | waitSpi counter =>
      -- No transfer has been started yet.
      dsimp only
      rw [if_neg (by rw [memsic]; simp [Memsic.started])]
      exact .inl ⟨memsic, status, saved, orderly_released tidy⟩
    | select => exact .inl ⟨memsic, status, saved, tidy⟩
    | transfer16 word =>
      rw [orderly_transfer16, Bool.and_eq_true] at tidy
      exact .inl ⟨memsic, status, saved, tidy.2⟩
    | release => exact .inl ⟨memsic, status, saved, tidy⟩
    | poll reg =>
      dsimp only
      split_ifs
      · -- A round more reads the register once more.
        have released : s.selected = false := by
          simpa using (Bool.and_eq_true _ _).mp tidy |>.1
        refine .inl ⟨memsic, status, saved, ?_⟩
        rw [released] at tidy ⊢
        exact tidy
      · exact .inl ⟨memsic, status, saved, orderly_released tidy⟩
    | giveUp =>
      dsimp only
      split_ifs
      · exact .inl ⟨memsic, status, saved, orderly_released tidy⟩
      · have released : s.selected = false := by
          simpa using (Bool.and_eq_true _ _).mp tidy |>.1
        exact .inl ⟨memsic, status, saved, by rw [released]; rfl⟩

/-- During the setup a data-ready interrupt changes nothing but the status, from 0 to 1. -/
theorem ImuBoot.Booting.dataR (booting : s.Booting start) (ms : ℕ) (raw : MemsicBurstInfo) :
    (s.dataR ms raw).Booting start := by
  unfold ImuBoot.dataR
  split_ifs with early normal
  · exact ⟨booting.memsic, by simp, booting.saved, booting.tidy⟩
  · exact absurd normal booting.status
  · exact booting

/-- After a timeout a data-ready interrupt changes nothing but the status, from 0 to 1. -/
theorem ImuBoot.TimedOut.dataR (late : s.TimedOut start) (ms : ℕ) (raw : MemsicBurstInfo) :
    (s.dataR ms raw).TimedOut start := by
  unfold ImuBoot.dataR
  split_ifs with early normal
  · exact ⟨late.ended, .inr rfl, late.idle⟩
  · have other := late.status
    omega
  · exact late

/-- Before the samples begin no transfer ends, and no handler has anything to do. -/
theorem Memsic.Fresh.still (fresh : start.Fresh) (m : Memsic K) (active : m.active = start.active)
    (er : m.er = start.er) (pending : m.pending = start.pending) :
    m.arrive = none ∧ m.erFunction = none := by
  obtain ⟨time, bInfoOut, memsicInfo, pInfo, rfl⟩ := fresh
  constructor
  · rw [Memsic.arrive, active]
    rfl
  · rw [Memsic.erFunction, er, pending]
    rfl

variable [Mul K] [IntCast K] {scale : ImuScale K} {e : BootEvent}

/-- Behind the setup the samples take their steps, and only data-ready interrupts depend on the status. -/
theorem BootStep.samples (stepped : BootStep scale s e t) (ended : s.program = [])
    (status : s.memsicStatus = 2) :
    ∃ e', e = .memsic e' ∧ MemsicStep scale s.memsic e' t.memsic ∧ t.program = [] ∧ t.memsicStatus = 2 := by
  unfold BootStep ImuBoot.step at stepped
  cases e with
  | setup more => simp [ImuBoot.setup, ended] at stepped
  | memsic e =>
    refine ⟨e, rfl, ?_⟩
    cases e with
    | dataR ms raw =>
      split_ifs at stepped
      obtain rfl := Option.some.inj stepped
      have late : s.memsicStatus ≠ 0 := by omega
      rw [ImuBoot.dataR, if_neg late, if_pos status]
      exact ⟨rfl, ended, status⟩
    | arrive =>
      obtain ⟨m, moved, rfl⟩ := Option.map_eq_some_iff.mp stepped
      exact ⟨moved, ended, status⟩
    | erFunction =>
      obtain ⟨m, moved, rfl⟩ := Option.map_eq_some_iff.mp stepped
      -- Only the pin depends on where the handler stands.
      cases s.memsic.er <;> exact ⟨moved, ended, status⟩
    | processMemsicData =>
      dsimp only at stepped
      rw [if_pos ended] at stepped
      obtain ⟨m, moved, rfl⟩ := Option.map_eq_some_iff.mp stepped
      exact ⟨moved, ended, status⟩
    | main =>
      dsimp only at stepped
      rw [if_pos ended] at stepped
      obtain ⟨m, moved, rfl⟩ := Option.map_eq_some_iff.mp stepped
      exact ⟨moved, ended, status⟩

/-- While the setup is going on, interrupts leave it going on. -/
theorem ImuBoot.Booting.step (booting : s.Booting start) (fresh : start.Fresh)
    (stepped : BootStep scale s e t) :
    t.Booting start ∨ t.TimedOut start ∨ t.program = [] ∧ t.memsicStatus = 2 ∧ t.memsic = start := by
  have going : s.program ≠ [] := by
    intro none_
    have tidy := booting.tidy
    rw [none_, orderly_nil] at tidy
    cases tidy
  obtain ⟨no_arrive, no_handler⟩ := fresh.still s.memsic (by rw [booting.memsic]) (by rw [booting.memsic])
    (by rw [booting.memsic])
  unfold BootStep ImuBoot.step at stepped
  cases e with
  | setup more => exact booting.setup fresh stepped
  | memsic e =>
    cases e with
    | dataR ms raw =>
      split_ifs at stepped
      obtain rfl := Option.some.inj stepped
      exact .inl (booting.dataR ms raw)
    | arrive => simp [no_arrive] at stepped
    | erFunction => simp [no_handler] at stepped
    | processMemsicData => simp [going] at stepped
    | main => simp [going] at stepped

/-- After a timeout the main loop finds no samples. -/
theorem ImuBoot.TimedOut.step (late : s.TimedOut start) (fresh : start.Fresh)
    (stepped : BootStep scale s e t) : t.TimedOut start := by
  obtain ⟨ended, status, idle⟩ := late
  have same : s.memsic.active = start.active ∧ s.memsic.er = start.er ∧ s.memsic.pending = start.pending := by
    rcases idle with idle | idle <;> rw [idle] <;> exact ⟨rfl, rfl, rfl⟩
  obtain ⟨no_arrive, no_handler⟩ := fresh.still s.memsic same.1 same.2.1 same.2.2
  obtain ⟨time, bInfoOut, memsicInfo, pInfo, rfl⟩ := fresh
  unfold BootStep ImuBoot.step at stepped
  cases e with
  | setup more => simp [ImuBoot.setup, ended] at stepped
  | memsic e =>
    cases e with
    | dataR ms raw =>
      split_ifs at stepped
      obtain rfl := Option.some.inj stepped
      exact TimedOut.dataR ⟨ended, status, idle⟩ ms raw
    | arrive => simp [no_arrive] at stepped
    | erFunction => simp [no_handler] at stepped
    | processMemsicData =>
      dsimp only at stepped
      rw [if_pos ended] at stepped
      obtain ⟨m, moved, rfl⟩ := Option.map_eq_some_iff.mp stepped
      rcases idle with idle | idle <;> rw [idle] at moved
      · obtain rfl := Option.some.inj moved
        exact ⟨ended, status, .inr rfl⟩
      · cases moved
    | main =>
      dsimp only at stepped
      rw [if_pos ended] at stepped
      obtain ⟨m, moved, rfl⟩ := Option.map_eq_some_iff.mp stepped
      rcases idle with idle | idle <;> rw [idle] at moved
      · cases moved
      · obtain rfl := Option.some.inj moved
        exact ⟨ended, status, .inl rfl⟩

/-- What has come of the setup: it is going on, has timed out, or the samples have begun behind it. -/
theorem ImuBoot.phases (fresh : start.Fresh) {events : List BootEvent}
    (run : Run (BootStep scale) (.powerUp start) events s) :
    s.Booting start ∨ s.TimedOut start ∨ s.program = [] ∧ s.memsicStatus = 2 ∧
      ∃ before later, events = before ++ later.map .memsic ∧ Run (MemsicStep scale) start later s.memsic := by
  refine run.history (P := fun past s => s.Booting start ∨ s.TimedOut start ∨
    s.program = [] ∧ s.memsicStatus = 2 ∧
      ∃ before later, past = before ++ later.map .memsic ∧ Run (MemsicStep scale) start later s.memsic)
    (.inl ⟨rfl, by simp [ImuBoot.powerUp], by simp [ImuBoot.powerUp], ttSetup_orderly⟩) ?_
  rintro past s e t (booting | late | ⟨ended, status, before, later, rfl, samples⟩) stepped
  · rcases booting.step fresh stepped with goes | out | ⟨ended, status, same⟩
    · exact .inl goes
    · exact .inr (.inl out)
    · -- The samples begin with the next event.
      refine .inr (.inr ⟨ended, status, past ++ [e], [], by simp, ?_⟩)
      rw [same]
      exact .refl
  · exact .inr (.inl (late.step fresh stepped))
  · obtain ⟨e', rfl, moved, ended', status'⟩ := BootStep.samples stepped ended status
    refine .inr (.inr ⟨ended', status', before, later ++ [e'], by simp, ?_⟩)
    exact .tail samples moved

/--
While a word is exchanged with a register the chip is selected and no transfer of samples is running, and
when one is running the setup has come to its end.
-/
theorem words_alone (time : ℕ) (bInfoOut : MemsicBurstInfo) (memsicInfo : MemsicInfo) (pInfo : ImuData K)
    {events : List BootEvent}
    (run : Run (BootStep scale) (.powerUp (.started time bInfoOut memsicInfo pInfo)) events s) :
    (∀ word rest, s.program = .transfer16 word :: rest → s.selected = true ∧ s.memsic.active = none) ∧
      (s.memsic.active.isSome → s.program = [] ∧ s.memsicStatus = 2) := by
  rcases ImuBoot.phases ⟨time, bInfoOut, memsicInfo, pInfo, rfl⟩ run with booting | late | ⟨ended, status, -⟩
  · have idle : s.memsic.active = none := by
      rw [booting.memsic]
      rfl
    constructor
    · intro word rest next
      have tidy := booting.tidy
      rw [next, orderly_transfer16, Bool.and_eq_true] at tidy
      exact ⟨tidy.1, idle⟩
    · intro running
      simp [idle] at running
  · have idle : s.memsic.active = none := by
      rcases late.idle with idle | idle <;> rw [idle] <;> rfl
    constructor
    · intro word rest next
      exact absurd (late.ended.symm.trans next) (by simp)
    · intro running
      simp [idle] at running
  · -- Behind the setup there are no more words.
    constructor
    · intro word rest next
      exact absurd (ended.symm.trans next) (by simp)
    · intro _
      exact ⟨ended, status⟩

/--
At its end the setup has either left everything as a run of the samples needs it at its start, and what
follows is such a run, or it has timed out, and there never is a sample.
-/
theorem boot_ends (time : ℕ) (bInfoOut : MemsicBurstInfo) (memsicInfo : MemsicInfo) (pInfo : ImuData K)
    {events : List BootEvent}
    (run : Run (BootStep scale) (.powerUp (.started time bInfoOut memsicInfo pInfo)) events s)
    (ended : s.program = []) :
    (s.memsicStatus = 2 ∧ ∃ before later, events = before ++ later.map .memsic ∧
        Run (MemsicStep scale) (.started time bInfoOut memsicInfo pInfo) later s.memsic) ∨
      (s.memsicStatus ≠ 2 ∧ s.memsic.transfers = [] ∧ s.memsic.delivered = []) := by
  rcases ImuBoot.phases ⟨time, bInfoOut, memsicInfo, pInfo, rfl⟩ run with booting | late | ⟨-, status, samples⟩
  · -- A setup that goes on is not at its end.
    have tidy := booting.tidy
    rw [ended, orderly_nil] at tidy
    cases tidy
  · refine .inr ⟨?_, ?_⟩
    · rcases late.status with zero | one
      · omega
      · omega
    · rcases late.idle with idle | idle <;> rw [idle] <;> exact ⟨rfl, rfl⟩
  · exact .inl ⟨status, samples⟩

end

/-- Words that are all zero. -/
def noWords : MemsicBurstInfo := ⟨0, 0, fun _ => 0, fun _ => 0, 0⟩

/-- The variables at power-up. -/
def zeroSamples : Memsic ℤ := .started 0 noWords ⟨0, fun _ => 0, fun _ => 0, 0, 0⟩ ⟨0, fun _ => 0, fun _ => 0, 0⟩

/-- The setup up to the first interrupt, and on to the selection of the chip. -/
def firstWord : List BootEvent :=
  List.replicate 7 (.setup false) ++ [.memsic (.dataR 1 noWords)] ++ List.replicate 3 (.setup false)

/-- The state behind it. -/
def beforeFirstWord : ImuBoot ℤ :=
  (firstWord.foldlM (ImuBoot.step ⟨1, 1⟩) (.powerUp zeroSamples)).get (by decide)

/-- The command for the data rate is the first word. -/
theorem words_alone_first : beforeFirstWord.selected = true ∧ beforeFirstWord.memsic.active = none := by
  have run : Run (BootStep ⟨1, 1⟩) (.powerUp zeroSamples) firstWord beforeFirstWord :=
    .foldlM (ImuBoot.step ⟨1, 1⟩) (fun _ _ _ stepped => stepped) (Option.some_get _).symm
  exact (words_alone _ _ _ _ run).1 0xB702 (beforeFirstWord.program.tail) (by decide)

/-- No interrupt comes in time, and then one comes too late. -/
def lateInterrupt : List BootEvent := List.replicate 9 (.setup false) ++ [.memsic (.dataR 1 noWords)]

/-- The state behind it. -/
def afterTimeout : ImuBoot ℤ :=
  (lateInterrupt.foldlM (ImuBoot.step ⟨1, 1⟩) (.powerUp zeroSamples)).get (by decide)

/-- The late interrupt starts no transfer. -/
theorem boot_ends_late : afterTimeout.memsic.transfers = [] := by
  have run : Run (BootStep ⟨1, 1⟩) (.powerUp zeroSamples) lateInterrupt afterTimeout :=
    .foldlM (ImuBoot.step ⟨1, 1⟩) (fun _ _ _ stepped => stepped) (Option.some_get _).symm
  rcases boot_ends _ _ _ _ run (by decide) with ⟨status, -⟩ | ⟨-, none_, -⟩
  · exact absurd status (by decide)
  · exact none_

end Teetest
