import Teetest.Lib.Trace
import Teetest.Src.MotorDriver

/-!
The ramp of a motor: how the ticks bring the remembered speed to the commanded one.

A tick may return early, copy the command or move by a step, and every target may change at any time.
-/

namespace Teetest

open Lib

/-- What the three fields of the parameters have to do with each other. -/
structure MotorControlParams.Sound (p : MotorControlParams) : Prop where
  low : -1 ≤ p.fSpeed
  high : p.fSpeed ≤ 1
  speed : p.speed = ⌊|p.fSpeed| * maxMotorPWM⌋
  forward : 0 < p.fSpeed → p.dir = .LOW
  backward : p.fSpeed < 0 → p.dir = .HIGH

/-- Sound parameters have an integer speed within the range of the duty cycle. -/
theorem MotorControlParams.Sound.range {p : MotorControlParams} (sound : p.Sound) :
    0 ≤ p.speed ∧ p.speed ≤ maxMotorPWM := by
  have positive : (0 : ℚ) ≤ maxMotorPWM := by
    rw [maxMotorPWM_eq]
    norm_num
  have small : |p.fSpeed| ≤ 1 := abs_le.mpr ⟨sound.low, sound.high⟩
  rw [sound.speed]
  constructor
  · exact Int.floor_nonneg.mpr (mul_nonneg (abs_nonneg _) positive)
  · -- The factor is at most 1.
    have bound : |p.fSpeed| * maxMotorPWM ≤ maxMotorPWM := mul_le_of_le_one_left positive small
    exact_mod_cast (Int.floor_le _).trans bound

/-- The parameters of a constructed motor are sound. -/
theorem MotorControlParams.init_sound : MotorControlParams.init.Sound := by
  constructor <;> simp [init]

/-- The integer speed of a speed within the range, by the sign of the speed. -/
theorem speedCopy_eq {x : ℚ} (low : -1 ≤ x) (high : x ≤ 1) :
    (let speedCopy :=
      if x = 0 then 0
      else if x > 0 then truncate (x * maxMotorPWM)
      else truncate (x * maxMotorPWM) * -1
    let speedCopy := if speedCopy > maxMotorPWM then maxMotorPWM else speedCopy
    if speedCopy < 0 then 0 else speedCopy) = ⌊|x| * maxMotorPWM⌋ := by
  have positive : (0 : ℚ) < maxMotorPWM := by
    rw [maxMotorPWM_eq]
    norm_num
  -- Truncation agrees with the floor of the absolute value, whatever the sign.
  have copy : (if x = 0 then 0
      else if x > 0 then truncate (x * maxMotorPWM)
      else truncate (x * maxMotorPWM) * -1) = ⌊|x| * maxMotorPWM⌋ := by
    rcases lt_trichotomy x 0 with negative | zero | above
    · have product : x * maxMotorPWM < 0 := mul_neg_of_neg_of_pos negative positive
      rw [if_neg negative.ne, if_neg negative.not_gt, truncate, if_neg product.not_ge,
        abs_of_neg negative, neg_mul, Int.floor_neg, mul_neg_one]
    · simp [zero]
    · have product : 0 ≤ x * maxMotorPWM := (mul_pos above positive).le
      rw [if_neg above.ne', if_pos above, truncate, if_pos product, abs_of_pos above]
  -- The two bounds on the integer never matter.
  have bounds := MotorControlParams.Sound.range (p := ⟨⌊|x| * maxMotorPWM⌋,
    if x < 0 then .HIGH else .LOW, 0, x⟩) ⟨low, high, rfl, fun forward => if_neg forward.not_gt,
      fun backward => if_pos backward⟩
  simp only at bounds ⊢
  rw [copy, if_neg (by omega), if_neg (by omega)]

/-- What `mcUpdate` stores for a speed within the range. -/
theorem MotorControlParams.mcUpdate_some (p : MotorControlParams) {x : ℚ} (low : -1 ≤ x)
    (high : x ≤ 1) (time : ℕ) :
    p.mcUpdate (some x) time =
      ⟨⌊|x| * maxMotorPWM⌋, if x = 0 then p.dir else if x > 0 then .LOW else .HIGH, time, x⟩ := by
  have copy := speedCopy_eq low high
  have fromBelow : (if x < -1 then -1 else x) = x := if_neg low.not_gt
  have fromAbove : (if x > 1 then 1 else x) = x := if_neg high.not_gt
  simp only at copy
  simp only [mcUpdate, fromBelow, fromAbove, copy]

/-- A speed out of the range is cut to it first. -/
theorem MotorControlParams.mcUpdate_clamp (p : MotorControlParams) (x : ℚ) (time : ℕ) :
    ∃ y, -1 ≤ y ∧ y ≤ 1 ∧ p.mcUpdate (some x) time = p.mcUpdate (some y) time := by
  refine ⟨max (-1) (min 1 x), le_max_left _ _, max_le (by norm_num) (min_le_left _ _), ?_⟩
  -- Cutting twice is cutting once.
  rcases lt_or_ge x (-1) with below | low
  · have := min_eq_right (show x ≤ 1 by linarith)
    rw [this, max_eq_left below.le]
    simp only [mcUpdate, if_pos below, lt_irrefl, if_false]
  · rcases lt_or_ge 1 x with above | high
    · have := min_eq_left above.le
      rw [this, max_eq_right (by norm_num)]
      norm_num [mcUpdate, above, low.not_gt]
    · rw [min_eq_right high, max_eq_right low]

/-- Parameters are sound after every update, NaN included. -/
theorem MotorControlParams.Sound.mcUpdate {p : MotorControlParams} (sound : p.Sound)
    (mSpeed : Option ℚ) (time : ℕ) : (p.mcUpdate mSpeed time).Sound := by
  cases mSpeed with
  | none => exact sound
  | some x =>
    obtain ⟨y, low, high, same⟩ := p.mcUpdate_clamp x time
    rw [same, p.mcUpdate_some low high]
    refine ⟨low, high, rfl, fun forward => ?_, fun backward => ?_⟩
    · simp [forward.ne', forward]
    · simp [backward.ne, backward.not_gt]

/-- A step of the ramp goes towards the target, by a step at most, and never past it. -/
structure Approaches (x target y : ℚ) : Prop where
  step : |y - x| ≤ fStep
  up : x ≤ target → x ≤ y ∧ y ≤ target
  down : target ≤ x → target ≤ y ∧ y ≤ x

/-- Staying in place is such a step. -/
theorem Approaches.refl (x target : ℚ) : Approaches x target x := by
  refine ⟨?_, fun up => ⟨le_refl _, up⟩, fun down => ⟨down, le_refl _⟩⟩
  rw [sub_self, abs_zero]
  exact fStep_pos.le

/-- The step of the ramp is such a step. -/
theorem rampTo_approaches {x target : ℚ} (apart : x ≠ target) :
    Approaches x target (rampTo x target) := by
  have positive := fStep_pos
  unfold rampTo
  dsimp only
  -- Either way the step may be cut short at the target.
  split_ifs with below
  · refine ⟨?_, fun _ => ⟨below.le, le_refl _⟩, fun above => absurd below above.not_gt⟩
    rw [abs_of_pos (by linarith)]
    linarith
  · refine ⟨?_, fun _ => ⟨by linarith, by linarith⟩, fun above => absurd below above.not_gt⟩
    rw [add_sub_cancel_left, abs_of_pos positive]
  · have above : target < x := lt_of_le_of_ne (not_lt.mp below) apart.symm
    refine ⟨?_, fun up => absurd above up.not_gt, fun _ => ⟨le_refl _, above.le⟩⟩
    rw [abs_of_neg (by linarith)]
    linarith
  · have above : target < x := lt_of_le_of_ne (not_lt.mp below) apart.symm
    refine ⟨?_, fun up => absurd above up.not_gt, fun _ => ⟨by linarith, by linarith⟩⟩
    rw [abs_of_neg (by linarith)]
    linarith

/-- A step of the ramp takes its length off the way to the target. -/
theorem rampTo_closer {x target : ℚ} {k : ℕ} (near : |target - x| ≤ (k + 1) * fStep) :
    |target - rampTo x target| ≤ k * fStep := by
  have positive := fStep_pos
  have nonneg : 0 ≤ k * fStep := mul_nonneg (Nat.cast_nonneg _) positive.le
  obtain ⟨low, high⟩ := abs_le.mp near
  rw [abs_le]
  unfold rampTo
  dsimp only
  split_ifs <;> constructor <;> linarith

/-- Both parameters of a motor are sound, and it is in the mode `mLinear`. -/
structure Motor.Sound (m : Motor) : Prop where
  linear : m.mmode = .mLinear
  mcp : m.mcp.Sound
  mcpPrev : m.mcpPrev.Sound

/-- The parameters that a tick sets are sound. -/
theorem Motor.Sound.ramped {m : Motor} (sound : m.Sound) (ms : ℕ) : (m.ramped ms).Sound := by
  unfold Motor.ramped
  split
  · exact sound.mcp
  · exact sound.mcpPrev.mcUpdate _ ms

/-- A tick keeps a motor sound. -/
theorem Motor.Sound.processOutput {m : Motor} (sound : m.Sound) (use : Bool) (ms : ℕ)
    (mc_u : Option ℚ) : (m.processOutput use ms mc_u).Sound := by
  rw [Motor.processOutput_linear sound.linear]
  split
  · exact sound
  · exact ⟨by simpa using sound.linear, by simpa using sound.mcp, by simpa using sound.ramped ms⟩

/-- Every event keeps a motor sound. -/
theorem Motor.Sound.event {d d' : Drive} {e : DriveEvent} (sound : d.m.Sound)
    (step : DriveStep d e d') : d'.m.Sound := by
  have linear := step.linear sound.linear
  subst step
  cases e with
  | setSpeed mSpeed time => exact ⟨linear, sound.mcp.mcUpdate mSpeed time, sound.mcpPrev⟩
  | mStop time => exact ⟨linear, sound.mcp.mcUpdate (some 0) time, sound.mcpPrev⟩
  | canUseMotors use => exact sound
  | processOutput ms mc_u => exact sound.processOutput _ ms mc_u

/-- A motor is sound after every run. -/
theorem DriveStep.sound {id : ℕ} {events : List DriveEvent} {d : Drive}
    (run : Run DriveStep (.setup id) events d) : d.m.Sound := by
  refine run.invariant (P := fun d => d.m.Sound) ?_ (fun _ _ _ sound step => sound.event step)
  exact ⟨rfl, MotorControlParams.init_sound, MotorControlParams.init_sound⟩

/-- The floating-point speed that a tick sets. -/
theorem Motor.Sound.ramped_fSpeed {m : Motor} (sound : m.Sound) (ms : ℕ) :
    (m.ramped ms).fSpeed =
      if m.mcpPrev.fSpeed = m.mcp.fSpeed then m.mcp.fSpeed
      else rampTo m.mcpPrev.fSpeed m.mcp.fSpeed := by
  unfold Motor.ramped
  split
  · rfl
  · rename_i apart
    have approaches := rampTo_approaches apart
    -- What lies between two speeds within the range is within the range.
    have range : -1 ≤ rampTo m.mcpPrev.fSpeed m.mcp.fSpeed ∧
        rampTo m.mcpPrev.fSpeed m.mcp.fSpeed ≤ 1 := by
      have := sound.mcp.low
      have := sound.mcp.high
      have := sound.mcpPrev.low
      have := sound.mcpPrev.high
      rcases le_total m.mcpPrev.fSpeed m.mcp.fSpeed with up | down
      · obtain ⟨low, high⟩ := approaches.up up
        constructor <;> linarith
      · obtain ⟨low, high⟩ := approaches.down down
        constructor <;> linarith
    rw [m.mcpPrev.mcUpdate_some range.1 range.2]

/-- A tick moves the remembered speed towards the commanded one. -/
theorem Motor.Sound.approaches {m : Motor} (sound : m.Sound) (use : Bool) (ms : ℕ)
    (mc_u : Option ℚ) :
    Approaches m.mcpPrev.fSpeed m.mcp.fSpeed (m.processOutput use ms mc_u).mcpPrev.fSpeed := by
  rw [Motor.processOutput_linear sound.linear]
  split
  · exact Approaches.refl _ _
  · rw [Motor.writePins_mcpPrev]
    show Approaches _ _ (m.ramped ms).fSpeed
    rw [sound.ramped_fSpeed]
    split
    · rename_i equal
      rw [equal]
      exact Approaches.refl _ _
    · exact rampTo_approaches ‹_›

/-- A tick leaves the command alone. -/
theorem Motor.Sound.processOutput_mcp {m : Motor} (sound : m.Sound) (use : Bool) (ms : ℕ)
    (mc_u : Option ℚ) : (m.processOutput use ms mc_u).mcp = m.mcp := by
  rw [Motor.processOutput_linear sound.linear]
  split
  · rfl
  · rw [Motor.writePins_mcp]

/-- What a tick is given: the switch, the time and the output of the regulator. -/
structure Tick where
  use : Bool
  ms : ℕ
  mc_u : Option ℚ
deriving DecidableEq

/-- The motor after a number of ticks. -/
def Motor.ticks (m : Motor) (ticks : List Tick) : Motor :=
  ticks.foldl (fun m tick => m.processOutput tick.use tick.ms tick.mc_u) m

/-- Once the outputs are as commanded, ticks leave them so. -/
theorem Motor.Sound.settled {m : Motor} (sound : m.Sound) (settled : m.Settled)
    (ticks : List Tick) : m.ticks ticks = m := by
  induction ticks with
  | nil => rfl
  | cons tick ticks ih =>
    have early : m.processOutput tick.use tick.ms tick.mc_u = m := by
      rw [Motor.processOutput_linear sound.linear, if_pos settled]
    show (m.processOutput tick.use tick.ms tick.mc_u).ticks ticks = m
    rw [early, ih]

/-- The ticks that reach the target, and one more to copy its direction, settle a motor. -/
theorem Motor.Sound.settles {k : ℕ} {m : Motor} (sound : m.Sound)
    (near : |m.mcp.fSpeed - m.mcpPrev.fSpeed| ≤ k * fStep) {ticks : List Tick}
    (enough : k + 1 ≤ ticks.length) :
    (m.ticks ticks).mcp = m.mcp ∧ (m.ticks ticks).Settled := by
  -- Each tick takes a step off the way, so the induction is on the steps that are left.
  induction k generalizing m ticks with
  | zero =>
    obtain ⟨tick, later, rfl⟩ := List.exists_cons_of_length_pos (by omega : 0 < ticks.length)
    have equal : m.mcpPrev.fSpeed = m.mcp.fSpeed := by
      have distance : |m.mcp.fSpeed - m.mcpPrev.fSpeed| = 0 :=
        le_antisymm (by simpa using near) (abs_nonneg _)
      linarith [abs_eq_zero.mp distance]
    -- The speeds agree, so this tick copies the command unless there is nothing to do.
    have copied : (m.processOutput tick.use tick.ms tick.mc_u).Settled := by
      rw [Motor.processOutput_linear sound.linear]
      split
      · assumption
      · simp [Motor.Settled, Motor.ramped, equal]
    have after := (sound.processOutput tick.use tick.ms tick.mc_u).settled copied later
    show ((m.processOutput tick.use tick.ms tick.mc_u).ticks later).mcp = _ ∧
      ((m.processOutput tick.use tick.ms tick.mc_u).ticks later).Settled
    rw [after]
    exact ⟨sound.processOutput_mcp _ _ _, copied⟩
  | succ k ih =>
    by_cases settled : m.Settled
    · rw [sound.settled settled]
      exact ⟨rfl, settled⟩
    obtain ⟨tick, later, rfl⟩ := List.exists_cons_of_length_pos (by omega : 0 < ticks.length)
    have target := sound.processOutput_mcp tick.use tick.ms tick.mc_u
    have closer : |(m.processOutput tick.use tick.ms tick.mc_u).mcp.fSpeed -
        (m.processOutput tick.use tick.ms tick.mc_u).mcpPrev.fSpeed| ≤ k * fStep := by
      rw [target, Motor.processOutput_linear sound.linear, if_neg settled, Motor.writePins_mcpPrev]
      show |_ - (m.ramped tick.ms).fSpeed| ≤ _
      rw [sound.ramped_fSpeed]
      split
      · rw [sub_self, abs_zero]
        exact mul_nonneg (Nat.cast_nonneg _) fStep_pos.le
      · exact rampTo_closer (by exact_mod_cast near)
    have left : k + 1 ≤ later.length := by
      simp only [List.length_cons] at enough
      omega
    have rest := ih (sound.processOutput tick.use tick.ms tick.mc_u) closer left
    rw [target] at rest
    exact rest

/-- What holds of a motor at any moment. -/
structure Ramps (m : Motor) : Prop where
  mcp : m.mcp.Sound ∧ 0 ≤ m.mcp.speed ∧ m.mcp.speed ≤ maxMotorPWM
  mcpPrev : m.mcpPrev.Sound ∧ 0 ≤ m.mcpPrev.speed ∧ m.mcpPrev.speed ≤ maxMotorPWM
  nan : ∀ time, m.setSpeed none time = m
  tick : ∀ use ms mc_u,
    Approaches m.mcpPrev.fSpeed m.mcp.fSpeed (m.processOutput use ms mc_u).mcpPrev.fSpeed
  -- the ticks that are needed, and any number of further ones
  arrives : ∀ ticks : List Tick,
    ⌈|m.mcp.fSpeed - m.mcpPrev.fSpeed| / fStep⌉₊ + 1 ≤ ticks.length →
      (m.ticks ticks).mcp = m.mcp ∧ (m.ticks ticks).mcpPrev.speed = m.mcp.speed ∧
        (m.ticks ticks).mcpPrev.dir = m.mcp.dir

/--
In every state that calls and ticks lead to, the speeds are within their ranges, a tick moves by a
step towards the command, and the ticks of the way to it and one more reach it for good.
-/
theorem motor_ramps {id : ℕ} {events : List DriveEvent} {d : Drive}
    (run : Run DriveStep (.setup id) events d) : Ramps d.m := by
  have sound := DriveStep.sound run
  refine ⟨⟨sound.mcp, sound.mcp.range⟩, ⟨sound.mcpPrev, sound.mcpPrev.range⟩, fun _ => rfl,
    sound.approaches, fun ticks enough => ?_⟩
  -- The number of steps is the length of the way over that of a step, rounded up.
  have near : |d.m.mcp.fSpeed - d.m.mcpPrev.fSpeed| ≤
      (⌈|d.m.mcp.fSpeed - d.m.mcpPrev.fSpeed| / fStep⌉₊ : ℕ) * fStep := by
    have above := Nat.le_ceil (|d.m.mcp.fSpeed - d.m.mcpPrev.fSpeed| / fStep)
    rwa [div_le_iff₀ fStep_pos] at above
  obtain ⟨target, speed, dir⟩ := sound.settles near enough
  rw [target] at speed dir
  exact ⟨target, speed, dir⟩

/-- A motor that was told to run at half speed ramps. -/
theorem motor_ramps_half : Ramps ((Drive.setup 1).event (.setSpeed (some (1 / 2)) 5)).m := by
  have run : Run DriveStep (.setup 1) [.setSpeed (some (1 / 2)) 5]
      ((Drive.setup 1).event (.setSpeed (some (1 / 2)) 5)) := .single rfl
  exact motor_ramps run

end Teetest
