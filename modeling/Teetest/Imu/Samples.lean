import Teetest.Src.Memsic

/-!
Where the delivered samples come from.

Between the ring and the callback nothing is lost or repeated, whatever preempts what. That the words and
the time of a sample belong to one transfer needs more: nothing in the code keeps `dataR` from writing the
time, or starting the next transfer, before the handler is done with the last one.
-/

namespace Teetest

open Lib

section

variable {K : Type}

/-- The sample that the words of a transfer stand for, with a time. -/
def MemsicBurstInfo.sample (raw : MemsicBurstInfo) (ms : Nat) : MemsicInfo where
  status := tswap raw.status
  w := fun i => tswap (raw.w i)
  a := fun i => tswap (raw.a i)
  temp := tswap raw.temp
  timestamp := ms

/-- The samples that the transfers stand for, each with the time of the interrupt that started it. -/
def samplesOf (transfers : List (MemsicBurstInfo × Nat)) : List MemsicInfo :=
  transfers.map fun t => t.1.sample t.2

/-- `erFunction` has nothing to read from the buffer of the transfer any more. -/
def Memsic.Free (s : Memsic K) : Prop :=
  match s.er with
  | .idle | .put => True
  -- a full ring: the words are dropped
  | .enter => hInfoSize ≤ s.hInfoRB1.length
  | .axis _ | .rest | .stamp => False

/-- No transfer is running, and the last one has been taken out of its buffer. -/
def Memsic.Quiet (s : Memsic K) : Prop := s.active = none ∧ s.pending = 0 ∧ s.Free

/--
A data-ready interrupt comes when the transfer before it has been taken out of its buffer.

One that comes while that transfer is still running is harmless within the same millisecond.
-/
def Memsic.Calm (s : Memsic K) : MemsicEvent → Prop
  | .dataR ms _ => s.Quiet ∨ s.active.isSome ∧ ms = s.memsicDataReadTime
  | _ => True

instance (s : Memsic K) : Decidable s.Free :=
  match pc : s.er with
  | .idle | .put => .isTrue (by simp [Memsic.Free, pc])
  | .enter => decidable_of_iff (hInfoSize ≤ s.hInfoRB1.length) (by simp [Memsic.Free, pc])
  | .axis _ | .rest | .stamp => .isFalse (by simp [Memsic.Free, pc])

instance (s : Memsic K) : Decidable s.Quiet := inferInstanceAs (Decidable (_ ∧ _ ∧ _))

instance (s : Memsic K) : DecidablePred s.Calm
  | .dataR _ _ => inferInstanceAs (Decidable (_ ∨ _ ∧ _))
  | .arrive | .erFunction | .processMemsicData | .main => .isTrue trivial

/-- A sample that has left the ring and has not been delivered yet. -/
def Memsic.underway [Mul K] [IntCast K] (scale : ImuScale K) (s : Memsic K) : List (ImuData K) :=
  match s.consumer with
  | .outside | .loop => []
  | .got info => [info.scaled scale]
  | .filled => [s.pInfo]

/-- The axes of a transfer below an index are swapped and copied, and its other words are untouched. -/
structure Memsic.Copied (raw : MemsicBurstInfo) (i : Nat) (s : Memsic K) : Prop where
  copied : ∀ j : Fin 3, j.val < i →
    s.memsicInfo.a j = tswap (raw.a j) ∧ s.memsicInfo.w j = tswap (raw.w j)
  left : ∀ j : Fin 3, i ≤ j.val → s.bInfoOut.a j = raw.a j ∧ s.bInfoOut.w j = raw.w j
  rest : s.bInfoOut.temp = raw.temp ∧ s.bInfoOut.status = raw.status

/-- The handler is reading the words of a transfer. -/
def Memsic.Parsing (raw : MemsicBurstInfo) (s : Memsic K) : Prop :=
  match s.er with
  | .idle | .put => False
  | .enter => s.hInfoRB1.length < hInfoSize ∧ s.bInfoOut = raw
  | .axis i => i ≤ 3 ∧ s.Copied raw i
  | .rest => s.Copied raw 3
  | .stamp => ∀ ms, { s.memsicInfo with timestamp := ms } = raw.sample ms

/-- A transfer is on its way into the ring, and its words are whole. -/
inductive Memsic.Carrying (raw : MemsicBurstInfo) (s : Memsic K) : Prop
  | running (active : s.active = some raw) (pending : s.pending = 0) (free : s.Free)
  | waiting (active : s.active = none) (pending : s.pending = 1) (free : s.Free)
      (held : s.bInfoOut = raw)
  | parsing (active : s.active = none) (pending : s.pending = 0) (stage : s.Parsing raw)

/-- The sample that the handler is about to put into the ring. -/
def Memsic.inHand (s : Memsic K) : List MemsicInfo :=
  match s.er with
  | .put => [s.memsicInfo]
  | _ => []

/--
The samples that were put into the ring are those of the transfers that are past, except the dropped ones.

At most one transfer is not past, and the time in `memsicDataReadTime` is its own.
-/
def Memsic.Sourced (s : Memsic K) : Prop :=
  ∃ past, (s.puts ++ s.inHand).Sublist (samplesOf past) ∧
    (s.Quiet ∧ s.transfers = past ∨
      ∃ raw, s.Carrying raw ∧ s.transfers = past ++ [(raw, s.memsicDataReadTime)])

/-- The handler is putting a sample into the ring, after it has found room. -/
def Memsic.Storing (s : Memsic K) : Prop :=
  match s.er with
  | .idle | .enter => False
  | .axis _ | .rest | .stamp | .put => True

variable {s t : Memsic K}

/-- A transfer that is on its way is not past. -/
theorem Memsic.Carrying.not_quiet {raw : MemsicBurstInfo} (carrying : s.Carrying raw) : ¬ s.Quiet := by
  -- In each of the three places of a transfer something contradicts rest.
  rintro ⟨still, none, free⟩
  cases carrying with
  | running active => simp [still] at active
  | waiting _ pending => omega
  | parsing _ _ stage =>
    -- A handler that reads the words is not free.
    cases pc : s.er with
    | enter =>
      simp only [Parsing, pc] at stage
      simp only [Free, pc] at free
      omega
    | idle | put => simp [Parsing, pc] at stage
    | axis i => simp [Free, pc] at free
    | rest | stamp => simp [Free, pc] at free

/-- While the handler is free, a transfer is running or waiting for it. -/
theorem Memsic.Carrying.free_cases {raw : MemsicBurstInfo} (carrying : s.Carrying raw) (free : s.Free) :
    s.active = some raw ∧ s.pending = 0 ∨
      s.active = none ∧ s.pending = 1 ∧ s.bInfoOut = raw := by
  -- Only a handler that reads is not free, and then nothing would be on its way.
  cases carrying with
  | running active pending _ => exact .inl ⟨active, pending⟩
  | waiting active pending _ held => exact .inr ⟨active, pending, held⟩
  | parsing active pending stage =>
    exact absurd ⟨active, pending, free⟩ (Carrying.parsing active pending stage).not_quiet

/-- While the handler is not free, it is the transfer on its way that it reads. -/
theorem Memsic.Carrying.busy_cases {raw : MemsicBurstInfo} (carrying : s.Carrying raw)
    (busy : ¬ s.Free) : s.active = none ∧ s.pending = 0 ∧ s.Parsing raw := by
  -- In the two earlier places of a transfer the handler is free.
  cases carrying with
  | running _ _ free => exact absurd free busy
  | waiting _ _ free _ => exact absurd free busy
  | parsing active pending stage => exact ⟨active, pending, stage⟩

/-- What a free handler and the main loop do leaves a transfer on its way. -/
theorem Memsic.Carrying.of_free {raw : MemsicBurstInfo} (carrying : s.Carrying raw) (free : s.Free)
    (active : t.active = s.active) (pending : t.pending = s.pending) (held : t.bInfoOut = s.bInfoOut)
    (idle : t.er = .idle) : t.Carrying raw := by
  -- The handler rests behind such a step, so its place is free whatever the ring holds.
  have free' : t.Free := by simp [Free, idle]
  rcases carrying.free_cases free with ⟨sent, none⟩ | ⟨still, one, words⟩
  · exact .running (active.trans sent) (pending.trans none) free'
  · exact .waiting (active.trans still) (pending.trans one) free' (held.trans words)

/-- What a free handler and the main loop do keeps the sources of the samples. -/
theorem Memsic.Sourced.of_free (sourced : s.Sourced) (free : s.Free)
    (active : t.active = s.active) (pending : t.pending = s.pending) (held : t.bInfoOut = s.bInfoOut)
    (idle : t.er = .idle) (transfers : t.transfers = s.transfers)
    (time : t.memsicDataReadTime = s.memsicDataReadTime)
    (fewer : t.puts.Sublist (s.puts ++ s.inHand)) : t.Sourced := by
  obtain ⟨past, sublist, place⟩ := sourced
  refine ⟨past, ?_, ?_⟩
  · -- Nothing is in hand any more, so what was put is all there is to account for.
    simpa [inHand, idle] using fewer.trans sublist
  · rw [transfers, time]
    rcases place with ⟨quiet, same⟩ | ⟨raw, carrying, same⟩
    · exact .inl ⟨⟨active.trans quiet.1, pending.trans quiet.2.1, by simp [Free, idle]⟩, same⟩
    · exact .inr ⟨raw, carrying.of_free free active pending held idle, same⟩

/-- A handler that is not free reads the last transfer that was started, with its time. -/
theorem Memsic.Sourced.busy (sourced : s.Sourced) (busy : ¬ s.Free) :
    ∃ past raw, (s.puts ++ s.inHand).Sublist (samplesOf past) ∧
      s.transfers = past ++ [(raw, s.memsicDataReadTime)] ∧
      s.active = none ∧ s.pending = 0 ∧ s.Parsing raw := by
  -- A busy handler is not at rest, which leaves the second place.
  obtain ⟨past, sublist, ⟨quiet, -⟩ | ⟨raw, carrying, same⟩⟩ := sourced
  · exact absurd quiet.2.2 busy
  · exact ⟨past, raw, sublist, same, carrying.busy_cases busy⟩

/-- A round of the loop swaps and copies its axis. -/
theorem Memsic.Copied.swapAxis {raw : MemsicBurstInfo} {i : Nat} (copied : s.Copied raw i)
    (inside : i < 3) : (s.swapAxis ⟨i, inside⟩).Copied raw (i + 1) := by
  -- The axis that is due has not been touched yet.
  have now := copied.left ⟨i, inside⟩ (le_refl i)
  refine ⟨?_, ?_, copied.rest⟩
  · intro j below
    by_cases last : j = ⟨i, inside⟩
    · -- The words of this axis were untouched until now.
      subst last
      simp [Memsic.swapAxis, now.1, now.2]
    · -- An earlier axis is another one, and stays swapped.
      have earlier : j.val < i := by
        have := Fin.val_ne_of_ne last
        simp only at this
        omega
      simpa [Memsic.swapAxis, last] using copied.copied j earlier
  · intro j above
    -- A later axis is another one, and stays as it came.
    have other : j ≠ ⟨i, inside⟩ := by
      rintro rfl
      simp at above
    simpa [Memsic.swapAxis, other] using copied.left j (by omega)

/-- Behind the loop, the sample is complete but for its time. -/
theorem Memsic.Copied.swapRest {raw : MemsicBurstInfo} (copied : s.Copied raw 3) (ms : Nat) :
    { s.swapRest.memsicInfo with timestamp := ms } = raw.sample ms := by
  -- The loop has been through all three axes.
  have a : s.memsicInfo.a = fun j => tswap (raw.a j) :=
    funext fun j => (copied.copied j j.isLt).1
  have w : s.memsicInfo.w = fun j => tswap (raw.w j) :=
    funext fun j => (copied.copied j j.isLt).2
  simp [Memsic.swapRest, MemsicBurstInfo.sample, a, w, copied.rest.1, copied.rest.2]

/-- A step of the handler keeps the sources of the samples. -/
theorem Memsic.Sourced.erFunction (sourced : s.Sourced) (stepped : s.erFunction = some t) :
    t.Sourced := by
  -- By the place where the handler stands.
  cases pc : s.er with
  | idle =>
    have free : s.Free := by simp [Free, pc]
    simp only [Memsic.erFunction, pc] at stepped
    split_ifs at stepped with waits
    obtain rfl := Option.some.inj stepped
    obtain ⟨past, sublist, ⟨quiet, -⟩ | ⟨raw, carrying, same⟩⟩ := sourced
    · exact absurd quiet.2.1 waits
    · rcases carrying.free_cases free with ⟨-, none⟩ | ⟨still, one, held⟩
      · exact absurd none waits
      · -- The handler starts with the transfer that waits: it drops it, or reads it.
        simp only [inHand, pc, List.append_nil] at sublist
        by_cases full : hInfoSize ≤ s.hInfoRB1.length
        · refine ⟨_, ?_, .inl ⟨⟨still, ?_, ?_⟩, rfl⟩⟩
          · -- A full ring: the words are dropped, and the transfer is past.
            simpa [inHand, samplesOf, same] using
              sublist.trans (List.sublist_append_left (samplesOf past) [raw.sample s.memsicDataReadTime])
          · simp [one]
          · simpa [Free] using full
        · refine ⟨past, by simpa [inHand] using sublist, .inr ⟨raw, .parsing still ?_ ?_, same⟩⟩
          · -- Room in the ring: the handler begins to read them.
            simp [one]
          · exact ⟨by simpa using full, held⟩
  | enter =>
    simp only [Memsic.erFunction, pc] at stepped
    split_ifs at stepped with full
    · obtain rfl := Option.some.inj stepped
      have free : s.Free := by simpa [Free, pc] using full
      -- What was dropped is forgotten, and the handler is free all along.
      exact sourced.of_free free rfl rfl rfl rfl rfl rfl (List.sublist_append_left _ _)
    · obtain rfl := Option.some.inj stepped
      have busy : ¬ s.Free := by simpa [Free, pc] using full
      obtain ⟨past, raw, sublist, same, still, none, stage⟩ := sourced.busy busy
      simp only [Parsing, pc] at stage
      obtain ⟨-, rfl⟩ := stage
      -- No axis has been swapped yet.
      refine ⟨past, by simpa [inHand, pc] using sublist, .inr ⟨_, .parsing still none ?_, same⟩⟩
      exact ⟨by omega, ⟨by simp, by simp, rfl, rfl⟩⟩
  | axis i =>
    obtain ⟨past, raw, sublist, same, still, none, stage⟩ := sourced.busy (by simp [Free, pc])
    simp only [Parsing, pc] at stage
    simp only [inHand, pc, List.append_nil] at sublist
    simp only [Memsic.erFunction, pc] at stepped
    split_ifs at stepped with inside
    · obtain rfl := Option.some.inj stepped
      -- One axis more is copied, and the transfer stays the same.
      have copied := stage.2.swapAxis inside
      refine ⟨past, ?_, .inr ⟨raw, .parsing still none ?_, same⟩⟩
      · simpa [inHand] using show (s.swapAxis ⟨i, inside⟩).puts.Sublist _ from sublist
      · exact ⟨by omega, ⟨copied.copied, copied.left, copied.rest⟩⟩
    · obtain rfl := Option.some.inj stepped
      -- The loop has ended behind the third axis.
      obtain rfl : i = 3 := by omega
      refine ⟨past, by simpa [inHand] using sublist, .inr ⟨raw, .parsing still none ?_, same⟩⟩
      exact ⟨stage.2.copied, stage.2.left, stage.2.rest⟩
  | rest =>
    obtain ⟨past, raw, sublist, same, still, none, stage⟩ := sourced.busy (by simp [Free, pc])
    simp only [Parsing, pc] at stage
    simp only [inHand, pc, List.append_nil] at sublist
    simp only [Memsic.erFunction, pc] at stepped
    obtain rfl := Option.some.inj stepped
    refine ⟨past, ?_, .inr ⟨raw, .parsing still none ?_, same⟩⟩
    · simpa [inHand] using show s.swapRest.puts.Sublist _ from sublist
    · -- With the remaining words the sample is complete but for its time.
      exact stage.swapRest
  | stamp =>
    obtain ⟨past, raw, sublist, same, still, none, stage⟩ := sourced.busy (by simp [Free, pc])
    simp only [Parsing, pc] at stage
    simp only [inHand, pc, List.append_nil] at sublist
    simp only [Memsic.erFunction, pc] at stepped
    obtain rfl := Option.some.inj stepped
    -- The sample in hand is the whole transfer, with the time of its own interrupt.
    refine ⟨_, ?_, .inl ⟨⟨still, none, by simp [Free]⟩, rfl⟩⟩
    rw [same]
    simp only [inHand, samplesOf, List.map_append, List.map_cons, List.map_nil, stage]
    exact sublist.append (List.Sublist.refl _)
  | put =>
    have free : s.Free := by simp [Free, pc]
    simp only [Memsic.erFunction, pc] at stepped
    split_ifs at stepped
    · obtain rfl := Option.some.inj stepped
      -- There is room: what was in hand is now in the ring.
      refine sourced.of_free free rfl rfl rfl rfl rfl rfl ?_
      simp [inHand, pc]
    · obtain rfl := Option.some.inj stepped
      -- A ring that is full after all drops the sample.
      exact sourced.of_free free rfl rfl rfl rfl rfl rfl (List.sublist_append_left _ _)

/-- A calm data-ready interrupt keeps the sources of the samples. -/
theorem Memsic.Sourced.dataR (sourced : s.Sourced) {ms : Nat} {raw : MemsicBurstInfo}
    (calm : s.Calm (.dataR ms raw)) : (s.dataR ms raw).Sourced := by
  obtain ⟨past, sublist, place⟩ := sourced
  rcases calm with quiet | ⟨running, rfl⟩
  · rcases place with ⟨-, same⟩ | ⟨raw', carrying, -⟩
    · -- The new transfer is the only one that is not past.
      refine ⟨s.transfers, ?_, .inr ⟨raw, ?_, ?_⟩⟩
      · rw [same]
        simp only [Memsic.dataR, quiet.1, Option.isSome_none, Bool.false_eq_true, if_false]
        -- Behind a state of rest everything that was started is past.
        exact sublist
      · simp only [Memsic.dataR, quiet.1, Option.isSome_none, Bool.false_eq_true, if_false]
        exact .running rfl rfl quiet.2.2
      · simp [Memsic.dataR, quiet.1]
    · exact absurd quiet carrying.not_quiet
  · -- The transfer goes on, and its time is written again.
    simp only [Memsic.dataR, running, if_true]
    rcases place with ⟨quiet, -⟩ | ⟨raw', carrying, same⟩
    · simp [quiet.1] at running
    · refine ⟨past, sublist, .inr ⟨raw', ?_, same⟩⟩
      cases carrying with
      | running active pending free => exact .running active pending free
      | waiting active => simp [active] at running
      | parsing active => simp [active] at running

/-- The end of a transfer keeps the sources of the samples. -/
theorem Memsic.Sourced.arrive (sourced : s.Sourced) (stepped : s.arrive = some t) : t.Sourced := by
  -- The words arrive in the buffer of the handler.
  obtain ⟨raw, active, rfl⟩ := Option.map_eq_some_iff.mp stepped
  obtain ⟨past, sublist, ⟨quiet, -⟩ | ⟨raw', carrying, same⟩⟩ := sourced
  · -- At rest no transfer is running.
    simp [quiet.1] at active
  · cases carrying with
    | running active' pending free =>
      obtain rfl : raw = raw' := Option.some.inj (active.symm.trans active')
      exact ⟨past, sublist, .inr ⟨raw, .waiting rfl (by simp [pending]) free rfl, same⟩⟩
    | waiting active' => simp [active'] at active
    | parsing active' => simp [active'] at active

/-- What was put into the ring comes from the transfers, in their order. -/
theorem Memsic.Sourced.puts_sublist (sourced : s.Sourced) :
    s.puts.Sublist (samplesOf s.transfers) := by
  -- What is in the ring is the front of what is accounted for.
  obtain ⟨past, sublist, place⟩ := sourced
  have older : s.puts.Sublist (samplesOf past) := (List.sublist_append_left _ _).trans sublist
  rcases place with ⟨-, same⟩ | ⟨raw, -, same⟩
  · rw [same]
    exact older
  · rw [same, samplesOf, List.map_append]
    exact older.trans (List.sublist_append_left _ _)

section

variable [Mul K] [IntCast K] (scale : ImuScale K)

/-- Nothing is lost or repeated behind the handler. -/
structure Memsic.Piped (s : Memsic K) : Prop where
  -- what was put is what has been taken, and what is queued
  fifo : ∃ taken, s.puts = taken ++ s.hInfoRB1 ∧
    s.delivered ++ s.underway scale = taken.map (·.scaled scale)
  counted : s.completions = s.puts.length + s.overflows + (if s.er = .idle then 0 else 1)
  room : s.hInfoRB1.length ≤ hInfoSize ∧ (s.Storing → s.hInfoRB1.length < hInfoSize)
  told : s.memsicOverflowCounter = wrap32 s.overflows

/-- Every sample that was delivered is one transfer's, with the time of its interrupt. -/
def Memsic.Genuine (s : Memsic K) : Prop :=
  s.delivered.Sublist ((samplesOf s.transfers).map (·.scaled scale))

instance [DecidableEq K] (s : Memsic K) : Decidable (s.Genuine scale) :=
  inferInstanceAs (Decidable (List.Sublist _ _))

variable {scale}

/-- What touches only the transfer and the buffers in front of the ring keeps the pipe. -/
theorem Memsic.Piped.of_front (piped : s.Piped scale) {time ready : Nat} {bInfoOut : MemsicBurstInfo}
    {memsicInfo : MemsicInfo} {active : Option MemsicBurstInfo} {pending : Nat}
    {transfers : List (MemsicBurstInfo × Nat)} :
    { s with
      memsicDataReadTime := time
      memsicDataready := ready
      bInfoOut := bInfoOut
      memsicInfo := memsicInfo
      active := active
      pending := pending
      transfers := transfers }.Piped scale :=
  ⟨piped.fifo, piped.counted, piped.room, piped.told⟩

/-- A step of the handler inside its sample keeps the pipe. -/
theorem Memsic.Piped.move (piped : s.Piped scale) {er : ErPc} (before : s.Storing)
    (after : er ≠ .idle) : { s with er := er }.Piped scale := by
  -- The sample was counted when the handler started, and its room in the ring is still there.
  have busy : s.er ≠ .idle := by
    intro idle
    simp [Storing, idle] at before
  refine ⟨piped.fifo, ?_, ⟨piped.room.1, fun _ => piped.room.2 before⟩, piped.told⟩
  -- A handler that is busy counts for one completion, wherever it stands.
  have counted := piped.counted
  rw [if_neg busy] at counted
  simpa [after] using counted

/-- A step of the handler keeps the pipe. -/
theorem Memsic.Piped.erFunction (piped : s.Piped scale) (stepped : s.erFunction = some t) :
    t.Piped scale := by
  -- Each place of the handler is one case, and the completion it counts for moves along.
  have counted := piped.counted
  have room := piped.room
  cases pc : s.er with
  | idle =>
    simp only [Memsic.erFunction, pc] at stepped
    split_ifs at stepped
    obtain rfl := Option.some.inj stepped
    -- The completion is counted, and is not settled yet.
    refine ⟨piped.fifo, ?_, ⟨room.1, by simp [Storing]⟩, piped.told⟩
    rw [if_pos pc] at counted
    simpa using counted
  | enter =>
    simp only [Memsic.erFunction, pc] at stepped
    rw [if_neg (by simp [pc])] at counted
    split_ifs at stepped with full
    · obtain rfl := Option.some.inj stepped
      -- The completion is settled by an overflow.
      refine ⟨piped.fifo, ?_, ⟨room.1, by simp [Storing]⟩, ?_⟩
      · -- One overflow more, and the handler rests again.
        simp only [if_true]
        omega
      · -- The printed counter wraps around where the ghost counter does not.
        show wrap32 (s.memsicOverflowCounter + 1) = wrap32 ((s.overflows + 1 : Nat) : Int)
        rw [piped.told]
        simp [wrap32]
        omega
    · obtain rfl := Option.some.inj stepped
      -- Room was found: the sample is on its way to the ring.
      refine ⟨piped.fifo, by simpa using counted, ⟨room.1, fun _ => by simpa using full⟩, piped.told⟩
  | axis i =>
    simp only [Memsic.erFunction, pc] at stepped
    have storing : s.Storing := by simp [Storing, pc]
    split_ifs at stepped
    · obtain rfl := Option.some.inj stepped
      exact (piped.move storing (by simp)).of_front
    · obtain rfl := Option.some.inj stepped
      exact piped.move storing (by simp)
  | rest =>
    simp only [Memsic.erFunction, pc] at stepped
    obtain rfl := Option.some.inj stepped
    exact (piped.move (by simp [Storing, pc]) (by simp)).of_front
  | stamp =>
    simp only [Memsic.erFunction, pc] at stepped
    obtain rfl := Option.some.inj stepped
    exact (piped.move (by simp [Storing, pc]) (show ErPc.put ≠ .idle by simp)).of_front
  | put =>
    simp only [Memsic.erFunction, pc] at stepped
    have space := room.2 (by simp [Storing, pc])
    rw [if_pos space] at stepped
    obtain rfl := Option.some.inj stepped
    -- The room that was found is still there, as only the main loop takes from the ring.
    obtain ⟨taken, puts, sent⟩ := piped.fifo
    rw [if_neg (by simp [pc])] at counted
    -- The completion is settled by a sample at the end of the ring.
    refine ⟨⟨taken, ?_, sent⟩, ?_, ⟨?_, by simp [Storing]⟩, piped.told⟩
    · simp only [puts, List.append_assoc]
    · simp only [List.length_append, List.length_singleton, if_true]
      omega
    · simpa using space

/-- A step of the main loop, outside the handler, keeps the pipe. -/
theorem Memsic.Piped.mainStep (piped : s.Piped scale) (idle : s.er = .idle)
    (stepped : s.mainStep scale = some t) : t.Piped scale := by
  -- By the place where the main loop stands; the handler rests.
  obtain ⟨taken, puts, sent⟩ := piped.fifo
  have counted := piped.counted
  have room := piped.room
  cases pc : s.consumer with
  | outside => simp [Memsic.mainStep, pc] at stepped
  | loop =>
    simp only [Memsic.underway, pc, List.append_nil] at sent
    cases ring : s.hInfoRB1 with
    | nil =>
      simp only [Memsic.mainStep, pc, ring] at stepped
      obtain rfl := Option.some.inj stepped
      -- An empty ring: the loop is left.
      rw [ring] at puts room
      refine ⟨⟨taken, puts, ?_⟩, counted, room, piped.told⟩
      simpa [Memsic.underway] using sent
    | cons info rest =>
      simp only [Memsic.mainStep, pc, ring] at stepped
      obtain rfl := Option.some.inj stepped
      rw [ring] at puts room
      simp only [List.length_cons] at room
      -- The oldest sample leaves the ring.
      refine ⟨⟨taken ++ [info], by simpa using puts, ?_⟩, counted, ⟨?_, ?_⟩, piped.told⟩
      · simp [Memsic.underway, sent]
      · show rest.length ≤ hInfoSize
        omega
      · intro storing
        simp [Memsic.Storing, idle] at storing
  | got info =>
    simp only [Memsic.mainStep, pc] at stepped
    simp only [Memsic.underway, pc] at sent
    obtain rfl := Option.some.inj stepped
    -- The sample is scaled into the structure that is delivered.
    exact ⟨⟨taken, puts, sent⟩, counted, room, piped.told⟩
  | filled =>
    simp only [Memsic.mainStep, pc] at stepped
    simp only [Memsic.underway, pc] at sent
    obtain rfl := Option.some.inj stepped
    -- The callback gets what the loop has filled in.
    refine ⟨⟨taken, puts, ?_⟩, counted, room, piped.told⟩
    simpa [Memsic.underway] using sent

/-- Every step keeps the pipe. -/
theorem Memsic.Piped.step {e : MemsicEvent} (piped : s.Piped scale) (stepped : MemsicStep scale s e t) :
    t.Piped scale := by
  -- The interrupt and the transfer touch only what stands in front of the ring.
  cases e with
  | dataR ms raw =>
    obtain rfl := Option.some.inj stepped
    simp only [Memsic.dataR]
    split_ifs
    · exact piped.of_front
    · exact piped.of_front
  | arrive =>
    obtain ⟨raw, -, rfl⟩ := Option.map_eq_some_iff.mp stepped
    exact piped.of_front
  | erFunction => exact piped.erFunction stepped
  | processMemsicData =>
    simp only [MemsicStep, Memsic.step] at stepped
    split_ifs at stepped
    cases pc : s.consumer with
    | outside =>
      simp only [pc] at stepped
      obtain rfl := Option.some.inj stepped
      -- The consumer enters its loop with nothing underway.
      obtain ⟨taken, puts, sent⟩ := piped.fifo
      refine ⟨⟨taken, puts, ?_⟩, piped.counted, piped.room, piped.told⟩
      simpa [Memsic.underway, pc] using sent
    | loop => simp [pc] at stepped
    | got info => simp [pc] at stepped
    | filled => simp [pc] at stepped
  | main =>
    simp only [MemsicStep, Memsic.step] at stepped
    split_ifs at stepped with idle
    exact piped.mainStep idle stepped

/-- A step of the main loop leaves the handler and the transfer alone. -/
theorem Memsic.mainStep_front (stepped : s.mainStep scale = some t) :
    t.active = s.active ∧ t.pending = s.pending ∧ t.bInfoOut = s.bInfoOut ∧ t.er = s.er ∧
      t.transfers = s.transfers ∧ t.memsicDataReadTime = s.memsicDataReadTime ∧ t.puts = s.puts := by
  -- The main loop works on the ring and on the structure that is delivered.
  unfold mainStep at stepped
  split at stepped
  · simp at stepped
  · split at stepped
    all_goals
      obtain rfl := Option.some.inj stepped
      exact ⟨rfl, rfl, rfl, rfl, rfl, rfl, rfl⟩
  all_goals
    obtain rfl := Option.some.inj stepped
    exact ⟨rfl, rfl, rfl, rfl, rfl, rfl, rfl⟩

/-- Every calm step keeps the sources of the samples. -/
theorem Memsic.Sourced.step {e : MemsicEvent} (sourced : s.Sourced) (calm : s.Calm e)
    (stepped : MemsicStep scale s e t) : t.Sourced := by
  -- The main loop finds the handler at rest, and the other two events have a lemma of their own.
  cases e with
  | dataR ms raw =>
    obtain rfl := Option.some.inj stepped
    exact sourced.dataR calm
  | arrive => exact sourced.arrive stepped
  | erFunction => exact sourced.erFunction stepped
  | processMemsicData =>
    simp only [MemsicStep, Memsic.step] at stepped
    split_ifs at stepped with idle
    split at stepped
    · obtain rfl := Option.some.inj stepped
      exact sourced.of_free (by simp [Free, idle]) rfl rfl rfl idle rfl rfl
        (List.sublist_append_left _ _)
    · simp at stepped
  | main =>
    simp only [MemsicStep, Memsic.step] at stepped
    split_ifs at stepped with idle
    obtain ⟨active, pending, held, er, transfers, time, puts⟩ := Memsic.mainStep_front stepped
    refine sourced.of_free (by simp [Free, idle]) active pending held (er.trans idle) transfers time ?_
    rw [puts]
    exact List.sublist_append_left _ _

variable {time : Nat} {bInfoOut : MemsicBurstInfo} {memsicInfo : MemsicInfo} {pInfo : ImuData K}
  {events : List MemsicEvent}

/-- In every run, nothing is lost or repeated between the ring and the callback. -/
theorem Memsic.piped
    (run : Run (MemsicStep scale) (Memsic.started time bInfoOut memsicInfo pInfo) events s) :
    s.Piped scale := by
  refine run.invariant (P := fun s => s.Piped scale) ?_ fun s e t piped stepped => piped.step stepped
  -- Nothing has been put or delivered.
  exact ⟨⟨[], rfl, rfl⟩, rfl, ⟨by simp [started], by simp [Storing, started]⟩,
    by simp [started, wrap32]⟩

/-- In every calm run, the samples in the ring come from the transfers. -/
theorem Memsic.sourced
    (run : Run (Guarded Memsic.Calm (MemsicStep scale))
      (Memsic.started time bInfoOut memsicInfo pInfo) events s) : s.Sourced := by
  refine run.invariant (P := Memsic.Sourced) ?_ fun s e t sourced stepped =>
    sourced.step stepped.1 stepped.2
  -- No transfer has been started.
  exact ⟨[], by simp [started, inHand], .inl ⟨⟨rfl, rfl, by simp [started, Free]⟩, rfl⟩⟩

/-- What was delivered is the front of what was put, scaled. -/
theorem Memsic.Piped.delivered_prefix (piped : s.Piped scale) :
    s.delivered <+: s.puts.map (·.scaled scale) := by
  -- What is underway comes after what was delivered.
  obtain ⟨taken, puts, sent⟩ := piped.fifo
  rw [puts, List.map_append, ← sent, List.append_assoc]
  exact List.prefix_append _ _

/--
When every data-ready interrupt finds the transfer before it taken out of its buffer, the pipeline is right.

The samples are delivered in order and exactly once, every completion is accounted for, and each sample is
that of one transfer, with the time of the interrupt that started it.
-/
theorem Memsic.genuine_of_calm
    (run : Run (Guarded Memsic.Calm (MemsicStep scale))
      (Memsic.started time bInfoOut memsicInfo pInfo) events s) :
    s.Piped scale ∧ s.Genuine scale := by
  -- A calm run is a run, so the pipe holds; calmness is needed for the sources only.
  have piped : s.Piped scale := Memsic.piped run.of_guarded
  refine ⟨piped, ?_⟩
  exact piped.delivered_prefix.sublist.trans ((Memsic.sourced run).puts_sublist.map _)

end

/-- Words of a transfer that are all equal. -/
def MemsicBurstInfo.flat (word : UInt16) : MemsicBurstInfo :=
  ⟨word, word, fun _ => word, fun _ => word, word⟩

/-- A pipeline at the end of the setup, with numbers that are not scaled. -/
def Memsic.plain : Memsic Int :=
  .started 0 (.flat 0) ((MemsicBurstInfo.flat 0).sample 0) ⟨0, fun _ => 0, fun _ => 0, 0⟩

/-- The handler from its start to its end, and then a call of the consumer that delivers the sample. -/
def handleAndDeliver : List MemsicEvent :=
  List.replicate 9 .erFunction ++ [.processMemsicData, .main, .main, .main]

/-- Two transfers, each handled before the next interrupt, are delivered with their own times. -/
theorem Memsic.genuine_of_calm_plain : ∃ s : Memsic Int,
    s.delivered.map (·.timestamp) = [10, 20] ∧ s.Piped ⟨1, 1⟩ ∧ s.Genuine ⟨1, 1⟩ := by
  let calmStep (s : Memsic Int) (e : MemsicEvent) : Option (Memsic Int) :=
    if s.Calm e then s.step ⟨1, 1⟩ e else none
  have seen : (([.dataR 10 (.flat 1), .arrive] ++ handleAndDeliver ++
      [.main, .dataR 20 (.flat 2), .arrive] ++ handleAndDeliver : List MemsicEvent).foldlM
        calmStep Memsic.plain).map (fun s => s.delivered.map (·.timestamp)) = some [10, 20] := by
    decide +kernel
  obtain ⟨s, ran, times⟩ := Option.map_eq_some_iff.mp seen
  refine ⟨s, times, Memsic.genuine_of_calm (.foldlM calmStep (fun s e t stepped => ?_) ran)⟩
  -- A step that is taken is calm.
  simp only [calmStep] at stepped
  split_ifs at stepped with calm
  exact ⟨calm, stepped⟩

/-- A sample can be delivered with the time of an interrupt that did not start its transfer. -/
theorem Memsic.not_always_genuine :
    ¬ ∀ (events : List MemsicEvent) (s : Memsic Int),
      Run (MemsicStep ⟨1, 1⟩) Memsic.plain events s → s.Piped ⟨1, 1⟩ ∧ s.Genuine ⟨1, 1⟩ := by
  intro always
  -- The second interrupt comes when the handler has begun, and before it has written the time of the first.
  have seen : (([.dataR 10 (.flat 1), .arrive, .erFunction, .dataR 20 (.flat 2)] ++ handleAndDeliver.tail :
      List MemsicEvent).foldlM (Memsic.step ⟨1, 1⟩) Memsic.plain).map
        (fun s => decide (s.Genuine ⟨1, 1⟩)) = some false := by decide +kernel
  obtain ⟨s, ran, wrong⟩ := Option.map_eq_some_iff.mp seen
  exact of_decide_eq_false wrong (always _ s (.foldlM _ (fun _ _ _ => id) ran)).2

end

end Teetest
