import Teetest.Src.SelfTest

/-!
When the self test of the IMU comes back, and what it leaves behind.
-/

namespace Teetest

section

variable (s : Imu) (env : TestEnv)

/-- A deadline is checked, with the microseconds after which the loop is to be left. -/
def TestPc.Deadline : TestPc → ℕ → Prop
  | check .high, limit => limit = 250000
  | check .low, limit => limit = 500000
  | _, _ => False

/-- A round of a loop ends, with its deadline check or with the exit from the loop. -/
def TestPc.RoundEnd (pc : TestPc) (loop : TestLoop) : Prop := pc = .check loop ∨ pc = .exit loop

/--
The loops are left at a deadline check that is made in time, and from every wait of a round on, the
first one included, `micros` is called at most so many times before the round ends.
-/
structure ComesBack (bound : ℕ) : Prop where
  leaves : ∀ i limit, (SelfTest.run s env i).pc.Deadline limit →
    limit ≤ env.time i - env.time 0 → (SelfTest.run s env (i + 1)).pc = .returned
  rounds : ∀ i loop w, (SelfTest.run s env i).pc = .start loop w →
    ∃ j ≤ bound, (SelfTest.run s env (i + j)).pc.RoundEnd loop

/-- Every wait ends within the bound, and no deadline check takes a roll-over for an early time. -/
structure ClockSmooth (bound : ℕ) : Prop where
  waits : ∀ i loop w, (SelfTest.run s env i).pc = .start loop w →
    ∃ j < bound, w.goesOn (env.micros (i + 1 + j) - env.micros i) = false
  deadlines : ∀ i limit, (SelfTest.run s env i).pc.Deadline limit →
    limit ≤ env.time i - env.time 0 → limit ≤ (env.time i - env.time 0) % 2 ^ 32

/-- The number of waits from this one on to the end of the round. -/
def Wait.left : TestLoop → Wait → ℕ
  | .high, .firstDelay => 3
  | .high, .secondDelay => 2
  | .high, .smallDelay => 1
  | .low, .smallDelay => 3
  | .low, .firstDelay => 2
  | .low, .secondDelay => 1

variable {s env}

section

variable {t : SelfTest}

/-- Behind a wait there is the next one of the round, or its end. -/
theorem SelfTest.next_pc (t : SelfTest) (memsicSTReg : UInt16) (loop : TestLoop) (w : Wait) :
    (t.next memsicSTReg loop w).pc.RoundEnd loop ∨
      ∃ w', (t.next memsicSTReg loop w).pc = .start loop w' ∧ w'.left loop < w.left loop := by
  unfold next
  cases loop <;> cases w
  case high.firstDelay => exact .inr ⟨.secondDelay, rfl, by decide⟩
  case high.secondDelay =>
    -- The first loop is left while it reads, and otherwise goes on to its small delay.
    cases selfTestBit memsicSTReg
    · exact .inr ⟨.smallDelay, rfl, by decide⟩
    · exact .inl (.inr rfl)
  case high.smallDelay => exact .inl (.inl rfl)
  case low.firstDelay => exact .inr ⟨.secondDelay, rfl, by decide⟩
  case low.secondDelay =>
    -- The second loop reads at its end.
    cases selfTestBit memsicSTReg
    · exact .inl (.inr rfl)
    · exact .inl (.inl rfl)
  case low.smallDelay => exact .inr ⟨.firstDelay, rfl, by decide⟩

/-- Behind a wait the time of the start of the self test stays. -/
theorem SelfTest.next_selfTestTime (t : SelfTest) (memsicSTReg : UInt16) (loop : TestLoop) (w : Wait) :
    (t.next memsicSTReg loop w).selfTestTime = t.selfTestTime ∧
      (t.next memsicSTReg loop w).pc ≠ .selfTestTime := by
  unfold next
  split <;> try split_ifs
  all_goals exact ⟨rfl, by simp⟩

/-- Once the self test was started, the time of its start stays. -/
theorem SelfTest.step_selfTestTime (started : t.pc ≠ .selfTestTime) (micros : UInt32)
    (memsicSTReg : UInt16) :
    (t.step micros memsicSTReg).selfTestTime = t.selfTestTime ∧
      (t.step micros memsicSTReg).pc ≠ .selfTestTime := by
  -- No step but the first one writes it, and none leads back there.
  unfold step finish
  split <;> try split_ifs
  all_goals first
    | exact absurd ‹t.pc = _› started
    | exact next_selfTestTime _ _ _ _
    | simp_all

end

/-- It is the clock of the first call. -/
theorem SelfTest.run_selfTestTime (i : ℕ) :
    (SelfTest.run s env (i + 1)).selfTestTime = env.micros 0 ∧
      (SelfTest.run s env (i + 1)).pc ≠ .selfTestTime := by
  induction i with
  | zero => exact ⟨rfl, by simp [run, start, step]⟩
  | succ i ih =>
    have step := step_selfTestTime ih.2 (env.micros (i + 1)) (env.memsicSTReg (i + 1))
    exact ⟨step.1.trans ih.1, step.2⟩

section

variable {i : ℕ} {loop : TestLoop} {w : Wait}

/-- While the clock does not end it, a wait goes on. -/
theorem SelfTest.run_wait (started : (SelfTest.run s env i).pc = .start loop w) (j : ℕ)
    (long : ∀ k < j, w.goesOn (env.micros (i + 1 + k) - env.micros i) = true) :
    (SelfTest.run s env (i + 1 + j)).pc = .wait loop w (env.micros i) := by
  induction j with
  | zero => simp only [run, step, started]
  | succ j ih =>
    have before := ih fun k less => long k (by omega)
    rw [← Nat.add_assoc, run, step]
    simp only [before, long j (by omega), if_true]

/-- A wait that ends within a bound is followed by the next one of the round, or by its end. -/
theorem SelfTest.run_waited (started : (SelfTest.run s env i).pc = .start loop w) {bound : ℕ}
    (ends : ∃ j < bound, w.goesOn (env.micros (i + 1 + j) - env.micros i) = false) :
    ∃ k ≤ bound + 1, (SelfTest.run s env (i + k)).pc.RoundEnd loop ∨
      ∃ w', (SelfTest.run s env (i + k)).pc = .start loop w' ∧ w'.left loop < w.left loop := by
  classical
  obtain ⟨j, early, isOver⟩ := ends
  -- The first reading that ends the wait is taken.
  have some_ : ∃ j, w.goesOn (env.micros (i + 1 + j) - env.micros i) = false := ⟨j, isOver⟩
  have first := Nat.find_min' some_ isOver
  have waits := run_wait started (Nat.find some_) fun k less => by
    simpa using Nat.find_min some_ less
  -- One call starts the wait, and one ends it.
  refine ⟨Nat.find some_ + 2, by omega, ?_⟩
  rw [show i + (Nat.find some_ + 2) = i + 1 + Nat.find some_ + 1 by omega, run, step]
  simp only [waits, Nat.find_spec some_, Bool.false_eq_true, if_false]
  exact next_pc _ _ _ _

/-- With a smooth clock a round ends after as many waits as are left of it. -/
theorem ClockSmooth.roundEnd {bound : ℕ} (smooth : ClockSmooth s env bound) (n : ℕ) :
    ∀ {i loop w}, (SelfTest.run s env i).pc = .start loop w → w.left loop ≤ n →
      ∃ j ≤ n * (bound + 1), (SelfTest.run s env (i + j)).pc.RoundEnd loop := by
  induction n with
  | zero =>
    intro i loop w _ none_
    cases loop <;> cases w <;> simp [Wait.left] at none_
  | succ n ih =>
    intro i loop w started left
    obtain ⟨k, within, ended | ⟨w', next, fewer⟩⟩ :=
      SelfTest.run_waited started (smooth.waits i loop w started)
    · exact ⟨k, within.trans (Nat.le_mul_of_pos_left _ n.succ_pos), ended⟩
    · -- The next wait has one less behind it.
      obtain ⟨j, rest, ended⟩ := ih next (by omega)
      refine ⟨k + j, ?_, by rwa [← Nat.add_assoc]⟩
      rw [Nat.succ_mul]
      omega

/-- In a round that ends within a bound, every wait does. -/
theorem ComesBack.wait_ends {bound : ℕ} (comesBack : ComesBack s env bound)
    (started : (SelfTest.run s env i).pc = .start loop w) :
    ∃ j < bound, w.goesOn (env.micros (i + 1 + j) - env.micros i) = false := by
  obtain ⟨j, within, ended⟩ := comesBack.rounds i loop w started
  by_contra never
  have long : ∀ k < bound, w.goesOn (env.micros (i + 1 + k) - env.micros i) = true := by
    intro k early
    by_contra isOver
    exact never ⟨k, early, by simpa using isOver⟩
  -- The round would still be in this wait.
  cases j with
  | zero =>
    rw [Nat.add_zero, started] at ended
    simp [TestPc.RoundEnd] at ended
  | succ j =>
    have waits := SelfTest.run_wait started j fun k less => long k (by omega)
    rw [show i + 1 + j = i + (j + 1) by omega] at waits
    rw [waits] at ended
    simp [TestPc.RoundEnd] at ended

end

/-- Of two ways to go on, the one that returns is taken exactly if the condition of the other fails. -/
theorem SelfTest.returned_iff {p : Prop} [Decidable p] {t t' : SelfTest} (on : t.pc ≠ .returned)
    (back : t'.pc = .returned) : (if p then t else t').pc = .returned ↔ ¬ p := by
  split_ifs with holds
  · exact iff_of_false on (not_not.mpr holds)
  · exact iff_of_true back holds

/-- A deadline check leaves its loop exactly if the clock shows that the time has passed. -/
theorem SelfTest.step_deadline {t : SelfTest} {limit : ℕ} (deadline : t.pc.Deadline limit)
    (micros : UInt32) (memsicSTReg : UInt16) :
    (t.step micros memsicSTReg).pc = .returned ↔ limit ≤ (micros - t.selfTestTime).toNat := by
  cases pc : t.pc <;> rw [pc] at deadline <;> try exact deadline.elim
  rename_i loop
  cases loop with
  | high =>
    -- The loop goes on with another round, or the time-out returns.
    obtain rfl : limit = 250000 := deadline
    rw [step, pc]
    dsimp only
    rw [returned_iff (by simp) rfl, UInt32.lt_iff_toNat_lt, not_lt]
    exact Iff.rfl
  | low =>
    -- Behind this loop the function ends as well.
    obtain rfl : limit = 500000 := deadline
    rw [step, pc]
    dsimp only
    rw [returned_iff (by simp) rfl, UInt32.lt_iff_toNat_lt, not_lt]
    exact Iff.rfl

/-- The clock shows the time since the first call modulo 2^32. -/
theorem TestEnv.micros_sub (order : Monotone env.time) (i : ℕ) :
    (env.micros i - env.micros 0).toNat = (env.time i - env.time 0) % 2 ^ 32 := by
  have later := order (Nat.zero_le i)
  unfold micros
  -- Both readings are taken modulo 2^32, and so is their difference.
  rw [UInt32.toNat_sub, UInt32.toNat_ofNat', UInt32.toNat_ofNat']
  omega

/-- A deadline check leaves its loop exactly if the time modulo 2^32 has reached the limit. -/
theorem SelfTest.run_deadline (order : Monotone env.time) {i limit : ℕ}
    (deadline : (SelfTest.run s env i).pc.Deadline limit) :
    (SelfTest.run s env (i + 1)).pc = .returned ↔
      limit ≤ (env.time i - env.time 0) % 2 ^ 32 := by
  cases i with
  | zero => exact deadline.elim
  | succ i =>
    -- The time of the start is the clock of the first call.
    rw [run, step_deadline deadline, (run_selfTestTime i).1, TestEnv.micros_sub order]

/-- A self test that comes back has a smooth clock. -/
theorem ComesBack.clockSmooth {bound : ℕ} (comesBack : ComesBack s env bound)
    (order : Monotone env.time) : ClockSmooth s env bound where
  waits _ _ _ started := comesBack.wait_ends started
  deadlines i limit deadline passed :=
    (SelfTest.run_deadline order deadline).mp (comesBack.leaves i limit deadline passed)

/-- With a smooth clock the self test comes back; a round has three waits at most. -/
theorem ClockSmooth.comesBack {bound : ℕ} (smooth : ClockSmooth s env bound)
    (order : Monotone env.time) : ComesBack s env (3 * (bound + 1)) where
  leaves i limit deadline passed :=
    (SelfTest.run_deadline order deadline).mpr (smooth.deadlines i limit deadline passed)
  rounds i loop w started :=
    smooth.roundEnd 3 started (by cases loop <;> cases w <;> decide)

variable (s) in
/--
With clocks that never go back, the self test comes back within a common bound exactly if all waits in
its loops end within a common bound, and no deadline check takes a roll-over for an early time.
-/
theorem comesBack_iff {envs : Set TestEnv} (order : ∀ env ∈ envs, Monotone env.time) :
    (∃ bound, ∀ env ∈ envs, ComesBack s env bound) ↔
      ∃ bound, ∀ env ∈ envs, ClockSmooth s env bound := by
  constructor
  · intro all
    obtain ⟨bound, all⟩ := all
    exact ⟨bound, fun env member => (all env member).clockSmooth (order env member)⟩
  · intro all
    obtain ⟨bound, all⟩ := all
    exact ⟨3 * (bound + 1), fun env member => (all env member).comesBack (order env member)⟩

/-- Behind the end of a round there is another round, or the end of the function. -/
theorem SelfTest.step_roundEnd {t : SelfTest} {loop : TestLoop} (ended : t.pc.RoundEnd loop)
    (micros : UInt32) (memsicSTReg : UInt16) :
    (∃ loop' w, (t.step micros memsicSTReg).pc = .start loop' w) ∨
      (t.step micros memsicSTReg).pc = .returned := by
  rcases ended with pc | pc <;> rw [step, pc] <;> cases loop <;> dsimp only
  · split_ifs
    · exact .inl ⟨.high, .firstDelay, rfl⟩
    · exact .inr rfl
  · split_ifs
    · exact .inl ⟨.low, .smallDelay, rfl⟩
    · exact .inr rfl
  · -- The first loop is left for the second one.
    exact .inl ⟨.low, .smallDelay, rfl⟩
  · exact .inr rfl

/-- After every call another round ends, or the function returns. -/
theorem ComesBack.roundEnd_again {bound : ℕ} (comesBack : ComesBack s env bound) (i : ℕ) :
    ∃ k, i ≤ k ∧ ((∃ loop, (SelfTest.run s env k).pc.RoundEnd loop) ∨
      (SelfTest.run s env k).pc = .returned) := by
  have ofStart (i : ℕ) (started : ∃ loop w, (SelfTest.run s env i).pc = .start loop w) :
      ∃ k, i ≤ k ∧ ((∃ loop, (SelfTest.run s env k).pc.RoundEnd loop) ∨
        (SelfTest.run s env k).pc = .returned) := by
    obtain ⟨loop, w, started⟩ := started
    obtain ⟨j, -, ended⟩ := comesBack.rounds i loop w started
    exact ⟨i + j, by omega, .inl ⟨loop, ended⟩⟩
  induction i with
  | zero =>
    -- The first step is followed by the first round.
    obtain ⟨k, -, ended⟩ := ofStart 1 ⟨.high, .firstDelay, rfl⟩
    exact ⟨k, Nat.zero_le k, ended⟩
  | succ i ih =>
    -- A round that ends at this very call is followed by another one.
    obtain ⟨k, later, ended⟩ := ih
    rcases later.eq_or_lt with rfl | after
    · rcases ended with ⟨loop, ended⟩ | returned
      · rcases SelfTest.step_roundEnd ended (env.micros i) (env.memsicSTReg i) with started | back
        · exact ofStart (i + 1) started
        · exact ⟨i + 1, le_rfl, .inr back⟩
      · exact ⟨i + 1, le_rfl, .inr (by rw [SelfTest.run, SelfTest.step, returned]; exact returned)⟩
    · exact ⟨k, after, ended⟩

/-- A second loop that ends after its limit is the end of the function. -/
theorem ComesBack.low_returns {bound : ℕ} (comesBack : ComesBack s env bound) {i : ℕ}
    (ended : (SelfTest.run s env i).pc.RoundEnd .low) (late : 500000 ≤ env.time i - env.time 0) :
    (SelfTest.run s env (i + 1)).pc = .returned := by
  rcases ended with check | exit
  · exact comesBack.leaves i 500000 (by rw [check]; rfl) late
  · rw [SelfTest.run, SelfTest.step, exit]
    rfl

/-- A self test that comes back within a bound returns, if the clock goes on. -/
theorem ComesBack.returns {bound : ℕ} (comesBack : ComesBack s env bound) (order : Monotone env.time)
    (goesOn : ∀ limit, ∃ i, limit ≤ env.time i) : ∃ i, (SelfTest.run s env i).pc = .returned := by
  -- A round that ends after both limits is the last one of its loop.
  obtain ⟨i, late⟩ := goesOn (env.time 0 + 500000)
  obtain ⟨k, later, ⟨loop, ended⟩ | returned⟩ := comesBack.roundEnd_again i
  · have passed := order later
    cases loop with
    | low => exact ⟨k + 1, comesBack.low_returns ended (by omega)⟩
    | high =>
      rcases ended with check | exit
      · exact ⟨k + 1, comesBack.leaves k 250000 (by rw [check]; rfl) (by omega)⟩
      · -- Behind the first loop there is at least a round of the second.
        have started : (SelfTest.run s env (k + 1)).pc = .start .low .smallDelay := by
          rw [SelfTest.run, SelfTest.step, exit]
        obtain ⟨j, -, ended⟩ := comesBack.rounds (k + 1) .low .smallDelay started
        have after := order (show k ≤ k + 1 + j by omega)
        exact ⟨k + 1 + j + 1, comesBack.low_returns ended (by omega)⟩
  · exact ⟨k, returned⟩

/-- A self test that has returned stays so. -/
theorem SelfTest.run_returned {n : ℕ} (returned : (SelfTest.run s env n).pc = .returned) {i : ℕ}
    (later : n ≤ i) : (SelfTest.run s env i).pc = .returned := by
  induction i, later using Nat.le_induction with
  | base => exact returned
  | succ i _ ih => rw [run, step, ih]; exact ih

/-- An IMU at the start of its setup, with no command sent yet. -/
def freshImu : Imu := ⟨1, 100, []⟩

/-- The wait that is started here, if one is. -/
def TestPc.started : TestPc → Option Wait
  | start _ w => some w
  | _ => none

/-- A clock on which each `delay(1)` of a round takes a millisecond, and everything else a microsecond. -/
def roundClock (i : ℕ) : ℕ := 1000000 + i + 1000 * ((i + 5) / 7 + (i + 3) / 7)

/-- An IMU whose bit is high at the second reading, and low again at the third. -/
def workingEnv : TestEnv := ⟨roundClock, fun i => if 5 ≤ i ∧ i < 12 then 0x400 else 0⟩

/-- On that clock every wait ends with its first reading, so the self test comes back. -/
theorem comesBack_working : ∃ bound, ∀ env ∈ ({workingEnv} : Set TestEnv),
    ComesBack freshImu env bound := by
  have order : Monotone workingEnv.time := by
    intro i j less
    show 1000000 + i + 1000 * ((i + 5) / 7 + (i + 3) / 7) ≤
      1000000 + j + 1000 * ((j + 5) / 7 + (j + 3) / 7)
    omega
  refine (comesBack_iff freshImu (by simpa using order)).mpr ⟨1, ?_⟩
  rintro env rfl
  -- The function returns after twenty calls.
  have returned : (SelfTest.run freshImu workingEnv 20).pc = .returned := by decide +kernel
  constructor
  · intro i loop w started
    refine ⟨0, Nat.one_pos, ?_⟩
    by_cases early : i < 20
    · have waits : ∀ i < 20, ∀ w ∈ (SelfTest.run freshImu workingEnv i).pc.started,
          w.goesOn (workingEnv.micros (i + 1 + 0) - workingEnv.micros i) = false := by decide +kernel
      exact waits i early w (by rw [started]; rfl)
    · rw [SelfTest.run_returned returned (by omega)] at started
      cases started
  · intro i limit deadline passed
    by_cases early : i < 20
    · -- In that time the clock does not roll over.
      have short : workingEnv.time i - workingEnv.time 0 < 2 ^ 32 := by
        simp only [workingEnv, roundClock]
        omega
      rwa [Nat.mod_eq_of_lt short]
    · rw [SelfTest.run_returned returned (by omega)] at deadline
      exact deadline.elim

/-- A clock that jumps by 3 behind the start of the first small delay, and then shows every fourth. -/
def jumpEnv : TestEnv := ⟨fun i => roundClock (min i 5) + (4 * i - 21), fun _ => 0⟩

/-- The small delay waits until the difference is small again, and so the self test never comes back. -/
theorem not_comesBack : ¬ ∃ bound, ∀ env : TestEnv, Monotone env.time →
    ComesBack freshImu env bound := by
  intro bounded
  obtain ⟨bound, all⟩ := bounded
  have order : Monotone jumpEnv.time := by
    intro i j less
    simp only [jumpEnv, roundClock]
    omega
  -- Both delays of the first reading have ended by then, and its bit was low.
  have started : (SelfTest.run freshImu jumpEnv 5).pc = .start .high .smallDelay := by decide +kernel
  obtain ⟨j, -, isOver⟩ := (all jumpEnv order).wait_ends started
  -- All differences are three above a multiple of four.
  have apart : (jumpEnv.micros (5 + 1 + j) - jumpEnv.micros 5).toNat = (4 * j + 3) % 2 ^ 32 := by
    unfold TestEnv.micros
    rw [UInt32.toNat_sub, UInt32.toNat_ofNat', UInt32.toNat_ofNat']
    simp only [jumpEnv, roundClock]
    omega
  simp only [Wait.goesOn, decide_eq_false_iff_not, gt_iff_lt, UInt32.lt_iff_toNat_lt, apart] at isOver
  change ¬ 2 < (4 * j + 3) % 2 ^ 32 at isOver
  omega

end

/-! What the self test leaves behind. -/

/-- The last command for an output data rate, those with `0xB7` in their first byte. -/
def Imu.rateCmd (s : Imu) : Option UInt16 := (s.sent.filter fun w : UInt16 => w >>> 8 = 0xB7).getLast?

/-- The first loop reads the register behind this call of `micros`. -/
def SelfTest.PollsHigh (t : SelfTest) (micros : UInt32) : Prop :=
  ∃ start, t.pc = .wait .high .secondDelay start ∧ Wait.secondDelay.goesOn (micros - start) = false

/-- One of the readings of the first loop finds the bit high. -/
def SeenHigh (s : Imu) (env : TestEnv) (n : ℕ) : Prop :=
  ∃ i < n, (SelfTest.run s env i).PollsHigh (env.micros i) ∧ selfTestBit (env.memsicSTReg i) = true

/-- The sensor is as it was found, and told to produce data at the rate that is set. -/
def Imu.Restored (s s' : Imu) : Prop :=
  s'.memsicStatus = s.memsicStatus ∧ s'.rateCmd = some (dataRateCmd s.memsicDataRate)

/-- Its output is disabled, and it counts as not initialized. -/
def Imu.Disabled (s : Imu) : Prop := s.memsicStatus = -1 ∧ s.rateCmd = some 0xB700

/-- What holds before a call of `micros`, by whether the bit was high. -/
structure SelfTest.Keeps (s : Imu) (seen : Prop) (t : SelfTest) : Prop where
  old : t.oldMemsicStatus = s.memsicStatus
  rate : t.imu.memsicDataRate = s.memsicDataRate
  phase :
    match t.pc with
    | .selfTestTime | .start .high _ | .wait .high _ _ | .check .high => ¬ seen ∧ t.imu.Disabled
    | .exit _ | .start .low _ | .wait .low _ _ | .check .low => seen
    | .returned => seen ∧ s.Restored t.imu ∨ ¬ seen ∧ t.imu.Disabled

section

variable {s : Imu} {cmd reg : UInt16}

/-- A word for another purpose is no command for a rate. -/
@[simp] theorem Imu.rateCmd_transfer16 (other : cmd >>> 8 ≠ 0xB7) :
    (s.transfer16 cmd).rateCmd = s.rateCmd := by
  simp [rateCmd, transfer16, List.filter_append, other]

/-- And so is a command for another purpose. -/
@[simp] theorem Imu.rateCmd_writeMemsicCmd (other : cmd >>> 8 ≠ 0xB7) :
    (s.writeMemsicCmd cmd).rateCmd = s.rateCmd :=
  rateCmd_transfer16 other

/-- A command for a rate is the last one. -/
@[simp] theorem Imu.rateCmd_setupMemsicDataRate (dataRate : ℤ) :
    (s.setupMemsicDataRate dataRate).rateCmd = some (dataRateCmd dataRate) := by
  have high : dataRateCmd dataRate >>> 8 = 0xB7 := by
    unfold dataRateCmd
    -- All three commands have the same first byte.
    split_ifs <;> decide
  simp [rateCmd, setupMemsicDataRate, writeMemsicCmd, transfer16, List.filter_append, high]

/-- Reading a register is no command for a rate. -/
@[simp] theorem Imu.rateCmd_memsicReadReg (other : reg >>> 8 ≠ 0xB7) :
    (s.memsicReadReg reg).rateCmd = s.rateCmd :=
  (rateCmd_transfer16 (by decide)).trans (rateCmd_transfer16 other)

/-- Output is disabled for one rate alone. -/
theorem dataRateCmd_off {dataRate : ℤ} : dataRateCmd dataRate = 0xB700 ↔ dataRate = 0 := by
  unfold dataRateCmd
  split_ifs with off <;> simp [off]

end

section

variable {s : Imu} {seen : Prop} {t : SelfTest} {micros : UInt32} {memsicSTReg : UInt16}

/-- The self test disables the output at its start. -/
theorem SelfTest.start_keeps (s : Imu) : (SelfTest.start s).Keeps s False := by
  refine ⟨rfl, rfl, not_false, rfl, ?_⟩
  -- The registers and the command that follow the rate are none.
  simp (disch := decide) only [start, Imu.rateCmd_writeMemsicCmd, Imu.rateCmd_memsicReadReg,
    Imu.rateCmd_setupMemsicDataRate]
  rfl

/-- A word of a register read leaves a disabled sensor disabled. -/
theorem Imu.Disabled.transfer16 {imu : Imu} (disabled : imu.Disabled) {word : UInt16}
    (other : word >>> 8 ≠ 0xB7) : (imu.transfer16 word).Disabled :=
  ⟨disabled.1, (Imu.rateCmd_transfer16 other).trans disabled.2⟩

/-- The first loop has seen the bit exactly if it did at this reading. -/
theorem SelfTest.next_keeps_read (memsicSTReg : UInt16) (old : t.oldMemsicStatus = s.memsicStatus)
    (rate : t.imu.memsicDataRate = s.memsicDataRate) (disabled : t.imu.Disabled) :
    (t.next memsicSTReg .high .secondDelay).Keeps s (selfTestBit memsicSTReg = true) := by
  have still : (t.imu.transfer16 0).Disabled := disabled.transfer16 (by decide)
  refine ⟨old, rate, ?_⟩
  unfold next
  -- While the bit is low the loop goes on; otherwise it is left.
  cases selfTestBit memsicSTReg
  · exact ⟨Bool.false_ne_true, still⟩
  · exact rfl

/-- Behind every other wait the loops go on. -/
theorem SelfTest.next_keeps (keeps : t.Keeps s seen) {loop : TestLoop} {w : Wait} {start : UInt32}
    (pc : t.pc = .wait loop w start) (other : ¬ (loop = .high ∧ w = .secondDelay))
    (memsicSTReg : UInt16) : (t.next memsicSTReg loop w).Keeps s seen := by
  obtain ⟨old, rate, phase⟩ := keeps
  rw [pc] at phase
  cases loop <;> cases w
  case high.firstDelay => exact ⟨old, rate, phase.1, phase.2.transfer16 (by decide)⟩
  case high.secondDelay => exact absurd ⟨rfl, rfl⟩ other
  case high.smallDelay => exact ⟨old, rate, phase⟩
  case low.firstDelay => exact ⟨old, rate, phase⟩
  case low.secondDelay =>
    refine ⟨old, rate, ?_⟩
    unfold next
    cases selfTestBit memsicSTReg <;> exact phase
  case low.smallDelay => exact ⟨old, rate, phase⟩

/-- Behind the second loop the sensor is restored. -/
theorem SelfTest.finish_keeps (old : t.oldMemsicStatus = s.memsicStatus)
    (rate : t.imu.memsicDataRate = s.memsicDataRate) (high : seen) : t.finish.Keeps s seen := by
  -- The command of the restoring line is the last one for a rate.
  refine ⟨old, rate, .inl ⟨high, old, ?_⟩⟩
  simp only [finish, Imu.rateCmd_setupMemsicDataRate, ← rate]
  rfl

/-- A step keeps what holds; the bit is high if it was, or is at a reading of the first loop. -/
theorem SelfTest.Keeps.step (keeps : t.Keeps s seen) (micros : UInt32) (memsicSTReg : UInt16) :
    (t.step micros memsicSTReg).Keeps s
      (seen ∨ t.PollsHigh micros ∧ selfTestBit memsicSTReg = true) := by
  by_cases polls : t.PollsHigh micros
  · -- The first loop goes on, and nothing was high before.
    have now := polls
    obtain ⟨start, pc, isOver⟩ := now
    obtain ⟨old, rate, phase⟩ := keeps
    rw [pc] at phase
    rw [SelfTest.step, pc]
    simpa only [isOver, Bool.false_eq_true, if_false, phase.1, polls, false_or, true_and] using
      next_keeps_read memsicSTReg old rate phase.2
  · -- Elsewhere the first loop reads nothing, and the bit counts as seen if it was.
    simp only [polls, false_and, or_false]
    have kept := keeps
    obtain ⟨old, rate, phase⟩ := keeps
    cases pc : t.pc <;> rw [pc] at phase <;> rw [SelfTest.step, pc]
    case selfTestTime => exact ⟨old, rate, phase⟩
    case start loop w => cases loop <;> exact ⟨old, rate, phase⟩
    case wait loop w start =>
      dsimp only
      split_ifs with long
      · exact kept
      · refine next_keeps kept pc ?_ memsicSTReg
        rintro ⟨rfl, rfl⟩
        exact polls ⟨start, pc, by simpa using long⟩
    case check loop =>
      cases loop <;> dsimp only <;> split_ifs
      · exact ⟨old, rate, phase⟩
      · -- The time-out returns in front of the restoring lines.
        exact ⟨old, rate, .inr phase⟩
      · exact ⟨old, rate, phase⟩
      · exact finish_keeps old rate phase
    case exit loop =>
      cases loop
      · exact ⟨old, rate, phase⟩
      · exact finish_keeps old rate phase
    case returned => exact kept

/-- One call more is one reading more. -/
theorem seenHigh_succ (s : Imu) (env : TestEnv) (n : ℕ) : SeenHigh s env (n + 1) ↔ SeenHigh s env n ∨
    (SelfTest.run s env n).PollsHigh (env.micros n) ∧ selfTestBit (env.memsicSTReg n) = true := by
  unfold SeenHigh
  simp only [Nat.lt_succ_iff_lt_or_eq, or_and_right, exists_or, exists_eq_left]

/-- What holds at every call of `micros`. -/
theorem SelfTest.run_keeps (s : Imu) (env : TestEnv) (n : ℕ) :
    (SelfTest.run s env n).Keeps s (SeenHigh s env n) := by
  induction n with
  | zero =>
    have nothing : SeenHigh s env 0 ↔ False := by simp [SeenHigh]
    rw [nothing]
    exact start_keeps s
  | succ n ih =>
    rw [seenHigh_succ]
    exact ih.step (env.micros n) (env.memsicSTReg n)

/-- A self test that returns has restored the sensor if the bit was high, and disabled it if it was not. -/
theorem Imu.memsicTest_cases {s' : Imu} {env : TestEnv} {n : ℕ} (returned : s.memsicTest env n = some s') :
    SeenHigh s env n ∧ s.Restored s' ∨ ¬ SeenHigh s env n ∧ s'.Disabled := by
  unfold memsicTest at returned
  split_ifs at returned with pc
  obtain rfl := Option.some.inj returned
  -- What holds at the return is what the invariant says of it.
  have phase := (SelfTest.run_keeps s env n).phase
  rw [pc] at phase
  exact phase

end

/-- The setup times out exactly if the IMU was powered on and did not report in time. -/
theorem Imu.waited_memsicStatus {s : Imu} {dataRate : ℤ} {ready : Bool} :
    (s.waited dataRate ready).memsicStatus = 0 ↔ s.memsicStatus = 0 ∧ ready = false := by
  unfold waited
  cases ready <;> dsimp only <;> split_ifs <;> simp_all

/-- The setup remembers its rate. -/
@[simp] theorem Imu.waited_memsicDataRate {s : Imu} {dataRate : ℤ} {ready : Bool} :
    (s.waited dataRate ready).memsicDataRate = dataRate := by
  unfold waited
  dsimp only
  split_ifs <;> rfl

/--
A self test that returns has left the sensor as it found it exactly if its first loop saw the bit, or the
sensor was not initialized and its rate was zero; and a setup that leaves the status 2 has told the
sensor the rate exactly if the first loop saw the bit, or the rate is zero.
-/
theorem memsicTest_restores_iff (s : Imu) (env : TestEnv) (n : ℕ) :
    (∀ s', s.memsicTest env n = some s' →
        (s.Restored s' ↔ SeenHigh s env n ∨ s.memsicStatus = -1 ∧ s.memsicDataRate = 0)) ∧
      ∀ dataRate ready s', s.setupMemsic_3 dataRate ready env n = some s' →
        ((s'.memsicStatus = 2 → s'.rateCmd = some (dataRateCmd dataRate)) ↔
          s.memsicStatus = 0 ∧ ready = false ∨
            SeenHigh ((s.waited dataRate ready).configured dataRate) env n ∨ dataRate = 0) := by
  constructor
  · intro s' returned
    rcases Imu.memsicTest_cases returned with ⟨high, restored⟩ | ⟨low, status, rate⟩
    · exact iff_of_true restored (.inl high)
    · unfold Imu.Restored
      -- A disabled sensor is a restored one if it was disabled before.
      rw [status, rate, Option.some.injEq, eq_comm, eq_comm (a := (0xB700 : UInt16)), dataRateCmd_off]
      simp [low]
  · intro dataRate ready s' returned
    unfold Imu.setupMemsic_3 at returned
    dsimp only at returned
    split_ifs at returned with timeout
    · -- The status of a setup that timed out is zero.
      obtain rfl := Option.some.inj returned
      refine iff_of_true (fun working => ?_) (.inl (Imu.waited_memsicStatus.mp timeout))
      rw [timeout] at working
      cases working
    · obtain ⟨tested, test, rfl⟩ := Option.map_eq_some_iff.mp returned
      have started : ¬ (s.memsicStatus = 0 ∧ ready = false) :=
        fun stopped => timeout (Imu.waited_memsicStatus.mpr stopped)
      have rate : ((s.waited dataRate ready).configured dataRate).memsicDataRate = dataRate :=
        Imu.waited_memsicDataRate
      rcases Imu.memsicTest_cases test with ⟨high, restored⟩ | ⟨low, disabled⟩
      · refine iff_of_true (fun _ => ?_) (.inr (.inl high))
        rw [← rate]
        exact restored.2
      · -- The setup sets the status without another command.
        have last : ({ tested with memsicStatus := 2 } : Imu).rateCmd = some 0xB700 := disabled.2
        rw [last, Option.some.injEq, eq_comm (a := (0xB700 : UInt16)), dataRateCmd_off]
        simp [low, started]

/-- The self test of a working IMU leaves it as it found it. -/
theorem memsicTest_restores_working :
    ∃ s', freshImu.memsicTest workingEnv 20 = some s' ∧ freshImu.Restored s' := by
  refine ⟨(SelfTest.run freshImu workingEnv 20).imu, by decide +kernel, ?_⟩
  -- The bit is found high behind the eleventh call.
  refine ((memsicTest_restores_iff freshImu workingEnv 20).1 _ (by decide +kernel)).mpr (.inl ?_)
  exact ⟨11, by decide, ⟨workingEnv.micros 10, by decide +kernel, by decide +kernel⟩, by decide⟩

/-- An IMU whose bit stays low, with a clock that jumps past the first limit at the first deadline check. -/
def silentEnv : TestEnv := ⟨fun i => roundClock i + if i < 7 then 0 else 250000, fun _ => 0⟩

/-- The self test and the setup around it leave the output of such an IMU disabled. -/
theorem memsicTest_silent :
    (¬ ∀ s', freshImu.memsicTest silentEnv 8 = some s' → freshImu.Restored s') ∧
      ¬ ∀ s', freshImu.setupMemsic_3 100 true silentEnv 8 = some s' →
        s'.memsicStatus = 2 → s'.rateCmd = some (dataRateCmd 100) := by
  constructor
  · intro all
    -- The status of the sensor stays -1.
    have restored := all (SelfTest.run freshImu silentEnv 8).imu (by decide +kernel)
    exact absurd restored.1 (by decide +kernel)
  · intro all
    have told := all { (SelfTest.run ((freshImu.waited 100 true).configured 100) silentEnv 8).imu with
      memsicStatus := 2 } (by decide +kernel) rfl
    exact absurd told (by decide +kernel)

end Teetest
