import Teetest.Log.Preemption

/-!
The `count` fields of the messages in the log.

A call reads the counter before its section with interrupts disabled and increments it inside, so a call
that is accepted in between leaves it with an old count.
-/

namespace Teetest

open Lib

/-- Counts of which each is the one before it plus one, modulo 256. -/
def Consecutive (counts : List UInt8) : Prop :=
  ∀ i, ∀ later : i + 1 < counts.length, counts[i + 1] = counts[i] + 1

/-- The counts of the messages in the log, in the order in which they stand there. -/
def Machine.counts (m : Machine) : List UInt8 := (messages m.decided).map (·.1)

/-- The messages that one more decision adds. -/
theorem messages_append (past : List (Put × Bool)) (last : Put × Bool) :
    messages (past ++ [last]) = messages past ++ messages [last] := by
  -- Each decision stands for at most one message, wherever it comes.
  induction past with
  | nil => rfl
  | cons d past ih =>
    obtain ⟨p, ok⟩ := d
    cases p with
    | feed data => cases ok <;> exact ih
    | message data type count seen =>
      cases ok with
      | false => exact ih
      | true => exact congrArg _ ih

/-- A count that was read when so many messages were in the log, of which the first had count `first`. -/
def CountOf (first : UInt8) (read : UInt8 × Nat) : Prop := read.1 = first + UInt8.ofNat read.2

/-- The counter follows the number of messages, and every count that was read tells when. -/
structure Machine.Counting (first : UInt8) (m : Machine) : Prop where
  counter : m.log.counter = first + UInt8.ofNat (messages m.decided).length
  reading : ∀ data type count seen, .ready (.message data type count seen) ∈ m.stack →
    CountOf first (count, seen) ∧ seen ≤ (messages m.decided).length
  counted : ∀ i, ∀ inside : i < (messages m.decided).length,
    CountOf first (messages m.decided)[i] ∧ (messages m.decided)[i].2 ≤ i

variable {x : XMessage} {sectorCount : UInt32} {first : UInt8} {m m' : Machine}

/-- A section that is accepted counts a message, and nothing else. -/
theorem LogFile.exclusive_counter (x : XMessage) (s : LogFile) (p : Put) :
    (s.exclusive x p).2.counter =
      s.counter + UInt8.ofNat (messages [(p, (s.exclusive x p).1)]).length := by
  cases p with
  | feed data =>
    -- Fed bytes are no message.
    simp only [exclusive, put]
    split_ifs <;> simp [messages]
  | message data type count seen =>
    simp only [exclusive, putMessage_eq]
    split_ifs <;> simp [messages]

/-- What leaves the counter, the stack and the history alone keeps the counting. -/
theorem Machine.Counting.of_eq (counting : m.Counting first)
    (counter : m'.log.counter = m.log.counter) (stack : m'.stack = m.stack)
    (decided : m'.decided = m.decided) : m'.Counting first := by
  refine ⟨?_, ?_, ?_⟩
  · rw [counter, decided]
    exact counting.counter
  · rw [stack, decided]
    exact counting.reading
  · rw [decided]
    exact counting.counted

/-- A call that returns, or goes on without having read the counter, keeps the counting. -/
theorem Machine.Counting.of_stack (counting : m.Counting first) {stack : List Frame} {made : Nat}
    (fewer : ∀ p, .ready p ∈ stack → .ready p ∈ m.stack) :
    { m with stack := stack, made := made }.Counting first :=
  ⟨counting.counter, fun data type count seen member =>
    counting.reading data type count seen (fewer _ member), counting.counted⟩

/-- A section with interrupts disabled keeps the counting. -/
theorem Machine.Counting.enter (counting : m.Counting first) {p : Put} {rest : List Frame}
    (below : ∀ f ∈ rest, f ∈ m.stack)
    (read : ∀ data type count seen, p = .message data type count seen →
      CountOf first (count, seen) ∧ seen ≤ (messages m.decided).length) :
    (m.enter x p rest).Counting first := by
  have grown := messages_append m.decided (p, (m.log.exclusive x p).1)
  -- What this call adds, if it is accepted, is the message it has made.
  have added : ∀ e ∈ messages [(p, (m.log.exclusive x p).1)],
      CountOf first e ∧ e.2 ≤ (messages m.decided).length := by
    intro e member
    cases p with
    | feed data => simp [messages] at member
    | message data type count seen =>
      cases ok : (m.log.exclusive x (.message data type count seen)).1 with
      | false => rw [ok] at member; simp [messages] at member
      | true =>
        rw [ok] at member
        obtain rfl : e = (count, seen) := by simpa [messages] using member
        exact read data type count seen rfl
  refine ⟨?_, ?_, ?_⟩
  · show (m.log.exclusive x p).2.counter = _
    rw [LogFile.exclusive_counter, counting.counter]
    show _ = first + UInt8.ofNat (messages (m.decided ++ [(p, _)])).length
    rw [grown, List.length_append, UInt8.ofNat_add, UInt8.add_assoc]
  · intro data type count seen member
    obtain ⟨told, before⟩ := counting.reading data type count seen (below _ member)
    refine ⟨told, before.trans ?_⟩
    show _ ≤ (messages (m.decided ++ [(p, _)])).length
    rw [grown, List.length_append]
    omega
  · intro i inside
    have inside' : i < (messages m.decided ++ messages [(p, (m.log.exclusive x p).1)]).length := by
      rw [← grown]
      exact inside
    have same : (messages (m.enter x p rest).decided)[i] =
        (messages m.decided ++ messages [(p, (m.log.exclusive x p).1)])[i] := by
      simp only [← grown]
      rfl
    rw [same]
    by_cases old : i < (messages m.decided).length
    · rw [List.getElem_append_left old]
      exact counting.counted i old
    · -- The new message stands behind all others.
      rw [List.getElem_append_right (by omega)]
      obtain ⟨told, before⟩ := added _ (List.getElem_mem _)
      exact ⟨told, before.trans (by omega)⟩

/-- A step of a call keeps the counting. -/
theorem Machine.Counting.producer (counting : m.Counting first) {f : Frame} {rest : List Frame}
    (calls : m.stack = f :: rest) : (m.producer x rest f).Counting first := by
  have below : ∀ g ∈ rest, g ∈ m.stack := fun g member => by
    rw [calls]
    exact List.mem_cons_of_mem _ member
  cases f with
  | entered c =>
    simp only [Machine.producer]
    split_ifs
    · refine counting.of_stack fun p member => below _ ?_
      simpa using member
    · exact counting.of_stack fun p member => below _ member
  | checked c =>
    cases c with
    | lfFeed data => exact counting.enter below (by simp)
    | lfSendMessage data type =>
      -- The counter is read here: it tells how many messages there are.
      refine ⟨counting.counter, ?_, counting.counted⟩
      intro data' type' count seen member
      rcases List.mem_cons.mp member with last | earlier
      · obtain ⟨-, -, rfl, rfl⟩ : data' = data ∧ type' = type ∧ count = m.log.counter ∧
            seen = (messages m.decided).length := by simpa using last
        exact ⟨counting.counter, le_rfl⟩
      · exact counting.reading _ _ _ _ (below _ earlier)
  | ready p =>
    refine counting.enter below ?_
    rintro data type count seen rfl
    exact counting.reading data type count seen (by rw [calls]; simp)

/-- Every step keeps the counting. -/
theorem Machine.Counting.step (counting : m.Counting first) {a : LogAct}
    (stepped : MachineStep x sectorCount m a m') : m'.Counting first := by
  rcases stepped.cases with ⟨c, rfl⟩ | ⟨f, rest, calls, rfl⟩ | ⟨-, -, called⟩ | ⟨-, moved⟩
  · exact counting.of_stack fun p member => by simpa using member
  · exact counting.producer calls
  · -- The main loop calls a function.
    have same : m.SameCalls m' := by
      rcases called with rfl | rfl
      · exact m.lfProcess_sameCalls
      · exact m.lfStop_sameCalls
    exact counting.of_eq same.counter same.stack same.decided
  · have same := Machine.mainStep_sameCalls moved
    exact counting.of_eq same.counter same.stack same.decided

/-- Two numbers of messages make the same count exactly if they agree modulo 256. -/
theorem countOf_inj {first : UInt8} {i j : Nat} :
    first + UInt8.ofNat i = first + UInt8.ofNat j ↔ i % 256 = j % 256 := by
  rw [UInt8.add_right_inj, ← UInt8.toNat_inj, UInt8.toNat_ofNat', UInt8.toNat_ofNat']

/-- The counts are consecutive exactly if, modulo 256, every message has seen all that stand before it. -/
theorem Machine.Counting.consecutive_iff (counting : m.Counting first) :
    Consecutive m.counts ↔
      ∀ i, ∀ inside : i < (messages m.decided).length, (messages m.decided)[i].2 % 256 = i % 256 := by
  have length : m.counts.length = (messages m.decided).length := by simp [counts]
  have count : ∀ i, ∀ _ : i < m.counts.length, ∀ _ : i < (messages m.decided).length,
      m.counts[i] = first + UInt8.ofNat (messages m.decided)[i].2 := by
    intro i _ inside
    have told := (counting.counted i inside).1
    simpa [counts, CountOf] using told
  constructor
  · intro consecutive i
    -- The first message has seen none, and each count is the one before it plus one.
    induction i with
    | zero =>
      intro inside
      have none := (counting.counted 0 inside).2
      rw [Nat.le_zero.mp none]
    | succ i ih =>
      intro inside
      have next := consecutive i (by omega)
      rw [count (i + 1) (by omega) inside, count i (by omega) (by omega)] at next
      have before : first + UInt8.ofNat (messages m.decided)[i].2 = first + UInt8.ofNat i :=
        countOf_inj.mpr (ih (by omega))
      rw [before, UInt8.add_assoc, ← UInt8.ofNat_one, ← UInt8.ofNat_add] at next
      exact countOf_inj.mp next
  · intro seen i later
    have this : first + UInt8.ofNat (messages m.decided)[i + 1].2 = first + UInt8.ofNat (i + 1) :=
      countOf_inj.mpr (seen (i + 1) (by omega))
    have before : first + UInt8.ofNat (messages m.decided)[i].2 = first + UInt8.ofNat i :=
      countOf_inj.mpr (seen i (by omega))
    rw [count (i + 1) later (by omega), count i (by omega) (by omega), this, before, UInt8.add_assoc,
      ← UInt8.ofNat_one, ← UInt8.ofNat_add]

/-- In every run from the start of a log, the counts are consecutive exactly if, for each message, the
number of messages accepted between its reading of the counter and its own section is a multiple
of 256. -/
theorem counts_consecutive_iff {log : LogFile} {acts : List LogAct}
    (run : Run (MachineStep x sectorCount) (.session log) acts m) :
    Consecutive m.counts ↔
      ∀ i, ∀ inside : i < (messages m.decided).length,
        (messages m.decided)[i].2 % 256 = i % 256 := by
  -- Before the first step nothing is in the log.
  have begins : (Machine.session log).Counting log.counter :=
    ⟨(UInt8.add_zero _).symm, by simp [Machine.session], by simp [Machine.session, messages]⟩
  exact (Run.invariant begins (fun _ _ _ counting stepped => counting.step stepped)
    run).consecutive_iff

/-- Two messages, one after the other. -/
theorem counts_consecutive_in_turn :
    ∃ m : Machine, m.counts = [0, 1] ∧
      (Consecutive m.counts ↔
        ∀ i, ∀ inside : i < (messages m.decided).length,
          (messages m.decided)[i].2 % 256 = i % 256) := by
  let acts : List LogAct := [.call (.lfSendMessage [7] 1), .producer, .producer, .producer,
    .call (.lfSendMessage [8] 1), .producer, .producer, .producer]
  let last := acts.foldlM (Machine.step plainMessage 1000) (.session justStarted)
  have seen : last.map Machine.counts = some [0, 1] := by decide +kernel
  obtain ⟨m, ran, counts⟩ := Option.map_eq_some_iff.mp seen
  exact ⟨m, counts, counts_consecutive_iff (MachineStep.run ran)⟩

/-- A message that preempts another between its two looks at the counter takes the same count. -/
theorem counts_not_consecutive : ¬∀ (x : XMessage) (sectorCount : UInt32) (log : LogFile)
    (acts : List LogAct) (m : Machine),
    Run (MachineStep x sectorCount) (.session log) acts m → Consecutive m.counts := by
  intro all
  let acts : List LogAct := [.call (.lfSendMessage [7] 1), .producer, .producer,
    .call (.lfSendMessage [8] 1), .producer, .producer, .producer, .producer]
  let last := acts.foldlM (Machine.step plainMessage 1000) (.session justStarted)
  -- Both messages carry the count 0.
  have seen : last.map Machine.counts = some [0, 0] := by decide +kernel
  obtain ⟨m, ran, counts⟩ := Option.map_eq_some_iff.mp seen
  have consecutive := all plainMessage 1000 justStarted acts m (MachineStep.run ran)
  rw [counts] at consecutive
  exact absurd (consecutive 0 (by decide)) (by decide)

end Teetest
