import Teetest.Src.Blink

/-!
What the scheduling loop makes of a counter of milliseconds that rolls over.

A run is given by the real time of every reading; the loop sees it modulo 2^32.
-/

namespace Teetest

/-- `millis` at a real time. -/
def millis (time : ℕ) : UInt32 := UInt32.ofNat time

/-- From one reading to the next, time advances by less than 2^31 milliseconds. -/
def Advances (t : ℕ → ℕ) : Prop := ∀ i, t i ≤ t (i + 1) ∧ t (i + 1) - t i < 2 ^ 31

/-- Time does not stop. -/
def GoesOn (t : ℕ → ℕ) : Prop := ∀ limit, ∃ i, limit < t i

/-- The variables before an iteration; the first reading is the one in front of the loop. -/
def pingsAt (t : ℕ → ℕ) : ℕ → Pings
  | 0 => .start (millis (t 0))
  | i + 1 => ((pingsAt t i).iteration (millis (t (i + 1)))).1

/-- What an iteration calls. -/
def eventsOf (t : ℕ → ℕ) (i : ℕ) : List PingEvent :=
  ((pingsAt t i).iteration (millis (t (i + 1)))).2

/-- The real time at which an event last ran before an iteration, or that of the start. -/
def lastTime (t : ℕ → ℕ) (e : PingEvent) : ℕ → ℕ
  | 0 => t 0
  | i + 1 => if e ∈ eventsOf t i then t (i + 1) else lastTime t e i

/-- The milliseconds since an event last ran, modulo 2^32. -/
def elapsed (t : ℕ → ℕ) (e : PingEvent) (i : ℕ) : UInt32 := millis (t (i + 1)) - millis (lastTime t e i)

/-- An iteration calls what is due. -/
structure OnTime (t : ℕ → ℕ) (i : ℕ) : Prop where
  ms100 : .event100ms ∈ eventsOf t i ↔ 100 < elapsed t .event100ms i
  ms250 : .event250ms ∈ eventsOf t i ↔ .event100ms ∈ eventsOf t i ∧ 250 < elapsed t .event250ms i
  s1 : .event1s ∈ eventsOf t i ↔ .event250ms ∈ eventsOf t i ∧ 1000 < elapsed t .event1s i

/-- Every iteration calls what is due, and no commands are left alone for good. -/
def Periodic (t : ℕ → ℕ) : Prop :=
  (∀ i, OnTime t i) ∧
    (GoesOn t → ∀ i, ∃ j, i ≤ j ∧ .event100ms ∈ eventsOf t j ∧ .event250ms ∈ eventsOf t j)

/-- The end of a period rolls over exactly if the clock did since its start. -/
def RollsWith (last now period : UInt32) : Prop := last.toNat + period.toNat < 2 ^ 32 ↔ last ≤ now

/-- This holds of every period that an iteration looks at. -/
def Pings.RollWith (p : Pings) (msNow : UInt32) : Prop :=
  RollsWith p.fast100msPingTime msNow 100 ∧ (msNow > p.fast100msPingTime + 100 →
    RollsWith p.fast250msPingTime msNow 250 ∧ (msNow > p.fast250msPingTime + 250 →
      RollsWith p.oneSecondPingTime msNow 1000))

/-- Comparing with the end of a period is comparing its length, if they roll over together. -/
theorem passed_iff (last now period : UInt32) :
    (now > last + period ↔ period < now - last) ↔ RollsWith last now period := by
  -- The machine words are numbers below 2^32.
  unfold RollsWith
  rw [gt_iff_lt, UInt32.lt_iff_toNat_lt, UInt32.lt_iff_toNat_lt, UInt32.le_iff_toNat_le,
    UInt32.toNat_add, UInt32.toNat_sub]
  have := last.toNat_lt
  have := now.toNat_lt
  have := period.toNat_lt
  omega

section

variable {p : Pings} {now : UInt32}

/-- When an iteration calls the fastest event. -/
theorem Pings.event100ms_mem :
    .event100ms ∈ (p.iteration now).2 ↔ now > p.fast100msPingTime + 100 := by
  -- The nested conditions of the loop, one after the other.
  dsimp only [iteration]
  split_ifs <;> simp_all

/-- When it calls the second one. -/
theorem Pings.event250ms_mem : .event250ms ∈ (p.iteration now).2 ↔
    .event100ms ∈ (p.iteration now).2 ∧ now > p.fast250msPingTime + 250 := by
  dsimp only [iteration]
  split_ifs <;> simp_all

/-- When it calls the slowest one. -/
theorem Pings.event1s_mem : .event1s ∈ (p.iteration now).2 ↔
    .event250ms ∈ (p.iteration now).2 ∧ now > p.oneSecondPingTime + 1000 := by
  dsimp only [iteration]
  split_ifs <;> simp_all

/-- The variable that belongs to an event. -/
def Pings.last (p : Pings) : PingEvent → UInt32
  | .event100ms => p.fast100msPingTime
  | .event250ms => p.fast250msPingTime
  | .event1s => p.oneSecondPingTime

/-- An event leaves the present time in its variable, and no other is changed. -/
theorem Pings.iteration_last (e : PingEvent) :
    (p.iteration now).1.last e = if e ∈ (p.iteration now).2 then now else p.last e := by
  -- The loop writes the variable right where it decides on the call.
  dsimp only [iteration]
  cases e <;> split_ifs <;> simp_all [last]

end

section

variable (t : ℕ → ℕ)

/-- The variables hold what the clock showed when their events last ran. -/
theorem pingsAt_last (e : PingEvent) : ∀ i, (pingsAt t i).last e = millis (lastTime t e i) := by
  intro i
  induction i with
  | zero => cases e <;> rfl
  | succ i ih =>
    -- Both sides change with a call of the event alone.
    rw [pingsAt, Pings.iteration_last, lastTime, ih]
    unfold eventsOf
    split_ifs <;> rfl

/-- An iteration is on time exactly if the periods it looks at roll over with the clock. -/
theorem onTime_iff (i : ℕ) : OnTime t i ↔ (pingsAt t i).RollWith (millis (t (i + 1))) := by
  have fast := pingsAt_last t .event100ms i
  have middle := pingsAt_last t .event250ms i
  have slow := pingsAt_last t .event1s i
  have parts : OnTime t i ↔
      (.event100ms ∈ eventsOf t i ↔ 100 < elapsed t .event100ms i) ∧
      (.event250ms ∈ eventsOf t i ↔
        .event100ms ∈ eventsOf t i ∧ 250 < elapsed t .event250ms i) ∧
      (.event1s ∈ eventsOf t i ↔ .event250ms ∈ eventsOf t i ∧ 1000 < elapsed t .event1s i) :=
    ⟨fun h => ⟨h.ms100, h.ms250, h.s1⟩, fun h => ⟨h.1, h.2.1, h.2.2⟩⟩
  -- Each comparison of the code stands against one of an elapsed time.
  rw [parts]
  unfold eventsOf elapsed Pings.RollWith
  rw [Pings.event1s_mem, Pings.event250ms_mem, Pings.event100ms_mem, ← fast, ← middle, ← slow,
    ← passed_iff, ← passed_iff, ← passed_iff]
  simp only [Pings.last, and_congr_right_iff, and_imp, imp_and]

/-- How far behind the clock the events are. -/
structure Behind (i : ℕ) : Prop where
  past100 : lastTime t .event100ms i ≤ t i
  near100 : t i ≤ lastTime t .event100ms i + 100
  past250 : lastTime t .event250ms i ≤ lastTime t .event100ms i
  near250 : lastTime t .event100ms i ≤ lastTime t .event250ms i + 250

variable {t}

/-- Less than a roll-over apart, the difference of two readings is that of the times. -/
theorem millis_sub {last now : ℕ} (order : last ≤ now) (near : now - last < 2 ^ 32) :
    (millis now - millis last).toNat = now - last := by
  unfold millis
  rw [UInt32.toNat_sub, UInt32.toNat_ofNat', UInt32.toNat_ofNat']
  omega

/-- While every iteration is on time, the events stay near the clock. -/
theorem Behind.step {i : ℕ} (behind : Behind t i) (advances : Advances t) (due : OnTime t i) :
    Behind t (i + 1) := by
  obtain ⟨past100, near100, past250, near250⟩ := behind
  obtain ⟨forward, slow⟩ := advances i
  -- The time since each event is short enough to be told from the clock.
  have since100 : (elapsed t .event100ms i).toNat = t (i + 1) - lastTime t .event100ms i :=
    millis_sub (by omega) (by omega)
  have since250 : (elapsed t .event250ms i).toNat = t (i + 1) - lastTime t .event250ms i :=
    millis_sub (by omega) (by omega)
  have due100 : .event100ms ∈ eventsOf t i ↔ 100 < t (i + 1) - lastTime t .event100ms i := by
    rw [due.ms100, UInt32.lt_iff_toNat_lt, since100]
    rfl
  have due250 : .event250ms ∈ eventsOf t i ↔
      .event100ms ∈ eventsOf t i ∧ 250 < t (i + 1) - lastTime t .event250ms i := by
    rw [due.ms250, UInt32.lt_iff_toNat_lt, since250]
    rfl
  by_cases fast : .event100ms ∈ eventsOf t i
  · -- Each event that is called is now at the clock, and one that is not is early.
    by_cases middle : .event250ms ∈ eventsOf t i
    · constructor <;> simp only [lastTime, if_pos fast, if_pos middle] <;> omega
    · -- The second event is not due.
      have early : t (i + 1) - lastTime t .event250ms i ≤ 250 := by
        by_contra late
        exact middle (due250.mpr ⟨fast, by omega⟩)
      constructor <;> simp only [lastTime, if_pos fast, if_neg middle] <;> omega
  · -- Without the fastest event there is no other.
    have middle : .event250ms ∉ eventsOf t i := fun called => fast (due250.mp called).1
    have early : t (i + 1) - lastTime t .event100ms i ≤ 100 := by
      by_contra late
      exact fast (due100.mpr (by omega))
    constructor <;> simp only [lastTime, if_neg fast, if_neg middle] <;> omega

/-- So they are near it at every time. -/
theorem behind_all (advances : Advances t) (due : ∀ i, OnTime t i) : ∀ i, Behind t i := by
  intro i
  induction i with
  | zero => constructor <;> simp [lastTime]
  | succ i ih => exact ih.step advances (due i)

/-- If every iteration is on time and time goes on, no commands are left alone. -/
theorem events_again (advances : Advances t) (due : ∀ i, OnTime t i) (goesOn : GoesOn t) :
    ∀ i, ∃ j, i ≤ j ∧ .event100ms ∈ eventsOf t j ∧ .event250ms ∈ eventsOf t j := by
  intro i
  by_contra never
  have silent : ∀ j, i ≤ j → .event250ms ∉ eventsOf t j := by
    intro j later called
    exact never ⟨j, later, ((due j).ms250.mp called).1, called⟩
  -- The second event would fall behind without a bound.
  have stays : ∀ n, lastTime t .event250ms (i + n) = lastTime t .event250ms i := by
    intro n
    induction n with
    | zero => rfl
    | succ n ih => rw [← Nat.add_assoc, lastTime, if_neg (silent (i + n) (by omega)), ih]
  obtain ⟨k, late⟩ := goesOn (t i + 350)
  -- The clock is monotone, so such a late time lies behind.
  have after : i ≤ k := by
    by_contra before
    have order := monotone_nat_of_le_succ (fun n => (advances n).1) (show k ≤ i by omega)
    omega
  obtain ⟨n, rfl⟩ := Nat.exists_eq_add_of_le after
  have here := behind_all advances due (i + n)
  have there := behind_all advances due i
  have same := stays n
  have := here.near100
  have := here.near250
  have := there.past100
  have := there.past250
  omega

/--
The work is periodic exactly if, in every iteration, each period that is looked at rolls over together
with the clock.
-/
theorem periodic_iff (advances : Advances t) :
    Periodic t ↔ ∀ i, (pingsAt t i).RollWith (millis (t (i + 1))) := by
  constructor
  · intro periodic i
    exact (onTime_iff t i).mp (periodic.1 i)
  · intro together
    have due : ∀ i, OnTime t i := fun i => (onTime_iff t i).mpr (together i)
    exact ⟨due, events_again advances due⟩

/-- A clock that goes on for ever, and is read three times in a turn, once 50 ms before each roll-over. -/
def rolling (i : ℕ) : ℕ := 4294967246 + 2 ^ 32 * (i / 3) + 1431655765 * (i % 3)

/-- What the three readings show. -/
def turnReading (r : ℕ) : UInt32 :=
  if r = 0 then 4294967246 else if r = 1 then 1431655715 else 2863311480

theorem millis_rolling (i : ℕ) : millis (rolling i) = turnReading (i % 3) := by
  have turn : (rolling i) % 2 ^ 32 = (4294967246 + 1431655765 * (i % 3)) % 2 ^ 32 := by
    unfold rolling
    omega
  have below : i % 3 < 3 := Nat.mod_lt i (by decide)
  apply UInt32.toNat_inj.mp
  rw [millis, UInt32.toNat_ofNat', turn]
  generalize i % 3 = r at below ⊢
  interval_cases r <;> rfl

/-- Each reading finds every period over, and rolled over together with the clock. -/
theorem turnReading_due : ∀ r < 3, ∀ period ∈ [(100 : UInt32), 250, 1000],
    turnReading ((r + 1) % 3) > turnReading r + period ∧
      RollsWith (turnReading r) (turnReading ((r + 1) % 3)) period := by
  unfold RollsWith
  intro r below
  -- Three readings, and three periods for each.
  rw [List.forall_mem_cons, List.forall_mem_cons, List.forall_mem_singleton]
  interval_cases r <;> decide

/-- So all events run in every iteration. -/
theorem pingsAt_rolling (i : ℕ) :
    ∃ seconds, pingsAt rolling i =
      ⟨turnReading (i % 3), turnReading (i % 3), turnReading (i % 3), seconds⟩ := by
  induction i with
  | zero => exact ⟨0, rfl⟩
  | succ i ih =>
    obtain ⟨seconds, here⟩ := ih
    have due := turnReading_due (i % 3) (Nat.mod_lt i (by decide))
    have next : (i + 1) % 3 = (i % 3 + 1) % 3 := Nat.add_mod _ _ _
    refine ⟨seconds + 1, ?_⟩
    rw [pingsAt, here, millis_rolling, next, Pings.iteration]
    simp only [if_pos (due 100 (by decide)).1, if_pos (due 250 (by decide)).1,
      if_pos (due 1000 (by decide)).1]

/-- The work is periodic with this clock, over all of its roll-overs. -/
theorem periodic_rolling : GoesOn rolling ∧ Periodic rolling := by
  constructor
  · intro limit
    refine ⟨3 * limit, ?_⟩
    unfold rolling
    omega
  · refine (periodic_iff fun i => ?_).mpr fun i => ?_
    · unfold rolling
      omega
    · obtain ⟨seconds, here⟩ := pingsAt_rolling i
      have due := turnReading_due (i % 3) (Nat.mod_lt i (by decide))
      rw [here, millis_rolling, show (i + 1) % 3 = (i % 3 + 1) % 3 from Nat.add_mod _ _ _]
      exact ⟨(due 100 (by decide)).2, fun _ => ⟨(due 250 (by decide)).2, fun _ => (due 1000 (by decide)).2⟩⟩

/-- An event that ran 101 ms before the roll-over never runs again. -/
theorem Pings.iteration_stuck {p : Pings} (last : p.fast100msPingTime = 4294967195) (now : UInt32) :
    p.iteration now = (p, []) := by
  -- The end of the period is the largest value of the counter.
  have never : ¬ now > p.fast100msPingTime + 100 := by
    rw [last, gt_iff_lt, UInt32.lt_iff_toNat_lt]
    have := now.toNat_lt
    show ¬ 4294967295 < now.toNat
    omega
  rw [iteration, if_neg never]

/-- Two long steps to 101 ms before the roll-over, and then a reading every second. -/
def unlucky : ℕ → ℕ
  | 0 => 0
  | 1 => 2147483647
  | i + 2 => 4294967195 + 1000 * i

/-- This clock goes on in steps that are short enough. -/
theorem advances_unlucky : Advances unlucky := by
  intro i
  -- The two long steps are just short of 2^31.
  match i with
  | 0 | 1 => decide
  | i + 2 =>
    simp only [unlucky]
    omega

/-- From then on no iteration calls anything. -/
theorem unlucky_silent : ∀ i, pingsAt unlucky (i + 2) = ⟨4294967195, 4294967195, 4294967195, 2⟩ ∧
    eventsOf unlucky (i + 2) = [] := by
  have stuck (i : ℕ) (here : pingsAt unlucky (i + 2) = ⟨4294967195, 4294967195, 4294967195, 2⟩) :
      (pingsAt unlucky (i + 2)).iteration (millis (unlucky (i + 3))) =
        (pingsAt unlucky (i + 2), []) :=
    Pings.iteration_stuck (by rw [here]) _
  -- Once the variables have this value they keep it.
  intro i
  induction i with
  | zero => exact ⟨by decide, congrArg Prod.snd (stuck 0 (by decide))⟩
  | succ i ih =>
    have here := (congrArg Prod.fst (stuck i ih.1)).trans ih.1
    exact ⟨here, congrArg Prod.snd (stuck (i + 1) here)⟩

/-- With this clock the commands are left alone for good. -/
theorem periodic_unlucky : ¬ ∀ t, Advances t → Periodic t := by
  intro all
  -- It goes on by a second in each iteration.
  have goesOn : GoesOn unlucky := by
    intro limit
    refine ⟨limit + 2, ?_⟩
    simp only [unlucky]
    omega
  obtain ⟨j, later, called, -⟩ := (all unlucky advances_unlucky).2 goesOn 2
  obtain ⟨i, rfl⟩ := Nat.exists_eq_add_of_le' later
  rw [(unlucky_silent i).2] at called
  exact absurd called List.not_mem_nil

end

end Teetest
