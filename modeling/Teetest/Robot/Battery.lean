import Teetest.Src.Power

/-!
The status of the battery as a machine with hysteresis, and what the code makes of it.
-/

namespace Teetest

section

variable {K : Type} [Field K]

/-- The calls of a handler lead from one status to another, each one starting where the one before ended. -/
def Chained : PowerStatus → List (PowerStatus × PowerStatus) → PowerStatus → Prop
  | s, [], t => s = t
  | s, c :: calls, t => c.1 = s ∧ c.2 ≠ c.1 ∧ Chained c.2 calls t

variable (K) in
/-- The variables after some readings. -/
def Power.run (readings : List ℤ) : Power K := readings.foldl Power.batteryUpdate (.start K)

/-- After all readings nothing is known. -/
theorem Power.run_pStatus (readings : List ℤ) : (Power.run K readings).pStatus = .pwUnknown := by
  induction readings using List.reverseRecOn with
  | nil => rfl
  | append_singleton past a ih =>
    -- A reading returns in front of the switch.
    rw [run, List.foldl_concat]
    exact ih

variable [LinearOrder K]

/-- The machine with hysteresis that the thresholds describe. -/
def hysteresis (percent : K) : PowerStatus → PowerStatus
  | .pwUnknown =>
    if pOK K < percent then .pwHigh
    else if pLow K < percent then .pwOK
    else if pVeryLow K < percent then .pwLow
    else .pwVeryLow
  | .pwVeryLow =>
    if pLow K + pHist K < percent then .pwOK
    else if pVeryLow K + pHist K < percent then .pwLow
    else .pwVeryLow
  | .pwLow =>
    if pLow K + pHist K < percent then .pwOK
    else if percent < pVeryLow K - pHist K then .pwVeryLow
    else .pwLow
  | .pwOK =>
    if pOK K + pHist K < percent then .pwHigh
    else if percent < pLow K - pHist K then .pwLow
    else .pwOK
  | .pwHigh => if percent < pOK K - pHist K then .pwOK else .pwHigh

variable (K) in
/-- The status of the machine after the percentages that some readings give. -/
def machineStatus (readings : List ℤ) : PowerStatus :=
  readings.foldl (fun s a => hysteresis ((Power.start K).batteryUpdate a).battPersent s) .pwUnknown

/--
The status is that of the machine, the handler knows of every change, and a flat battery stops the
motors.
-/
structure Power.Supervised (p : Power K) (status : PowerStatus) : Prop where
  status : p.pStatus = status
  chained : Chained .pwUnknown p.handled p.pStatus
  motors : p.canRotateMotors = false ↔ p.pStatus = .pwVeryLow

/-- The machine does not stay where nothing is known. -/
theorem hysteresis_ne_unknown (percent : K) (s : PowerStatus) : hysteresis percent s ≠ .pwUnknown := by
  -- No branch of any case goes there.
  cases s <;> unfold hysteresis <;> dsimp only <;> split_ifs <;> decide

variable (K) in
/-- The battery is supervised after every one of some readings exactly if there is none. -/
theorem supervised_iff (readings : List ℤ) :
    (∀ past, past <+: readings → (Power.run K past).Supervised (machineStatus K past)) ↔
      readings = [] := by
  constructor
  · intro all
    by_contra some_
    obtain ⟨past, a, rfl⟩ := List.eq_nil_or_concat readings |>.resolve_left some_
    -- The machine knows something after the last reading at the latest.
    have status := (all _ List.prefix_rfl).status
    rw [Power.run_pStatus, machineStatus, List.concat_eq_append, List.foldl_concat] at status
    exact hysteresis_ne_unknown _ _ status.symm
  · -- Without a reading there is only the state of the start.
    intro none past upTo
    subst none
    obtain rfl := List.prefix_nil.mp upTo
    exact ⟨rfl, rfl, iff_of_false Bool.noConfusion nofun⟩

/-- A single reading is not supervised. -/
theorem not_supervised : ¬ ∀ readings past : List ℤ, past <+: readings →
    (Power.run ℚ past).Supervised (machineStatus ℚ past) := by
  intro all
  -- The machine leaves the unknown with the first reading.
  have status := (all [600] [600] List.prefix_rfl).status
  rw [Power.run_pStatus, machineStatus, List.foldl_cons, List.foldl_nil] at status
  exact hysteresis_ne_unknown _ _ status.symm

end

/-! What the `switch` would do if it were reached. -/

section

variable {K : Type} {p : Power K} {prev new : PowerStatus}

/-- An assignment of the status assigns it. -/
@[simp] theorem Power.change_pStatus : (p.change prev new).pStatus = new := by
  unfold change powerStatusChangeH
  -- The handler changes the motors alone.
  cases p.pHandler <;> cases new <;> dsimp only <;> split_ifs <;> rfl

/-- It leaves the percentage alone. -/
@[simp] theorem Power.change_battPersent : (p.change prev new).battPersent = p.battPersent := by
  unfold change powerStatusChangeH
  cases p.pHandler <;> cases new <;> dsimp only <;> split_ifs <;> rfl

/-- It leaves the handler alone. -/
@[simp] theorem Power.change_pHandler : (p.change prev new).pHandler = p.pHandler := by
  unfold change powerStatusChangeH
  cases p.pHandler <;> cases new <;> dsimp only <;> split_ifs <;> rfl

/-- A registered handler is called. -/
@[simp] theorem Power.change_handled (registered : p.pHandler = true) :
    (p.change prev new).handled = p.handled ++ [(prev, new)] := by
  unfold change powerStatusChangeH
  rw [if_pos registered]
  cases new <;> dsimp only <;> split_ifs <;> rfl

/-- It stops the motors of a flat battery, and no others. -/
@[simp] theorem Power.change_canRotateMotors (registered : p.pHandler = true) :
    (p.change prev new).canRotateMotors =
      if new = .pwVeryLow then false else if prev = .pwVeryLow then true else p.canRotateMotors := by
  unfold change powerStatusChangeH
  rw [if_pos registered]
  -- The handler looks at the new status first.
  cases new <;> dsimp only <;> split_ifs <;> simp_all

variable [Field K] [LinearOrder K] [IsStrictOrderedRing K]

variable (K) in
/-- The thresholds are apart. -/
theorem thresholds_lt :
    pVeryLow K - pHist K < pVeryLow K + pHist K ∧ pVeryLow K + pHist K < pLow K + pHist K := by
  constructor <;> norm_num [pVeryLow, pLow, pHist]

/-- The case that falls through may call the handler twice, and for no change. -/
theorem Power.batterySwitch_veryLow (status : p.pStatus = .pwVeryLow) :
    p.batterySwitch =
      if pLow K + pHist K < p.battPersent then (p.change .pwVeryLow .pwLow).change .pwVeryLow .pwOK
      else if pVeryLow K + pHist K < p.battPersent then p.change .pwVeryLow .pwLow
      else if p.battPersent < pVeryLow K - pHist K then p.change .pwVeryLow .pwVeryLow
      else p := by
  obtain ⟨low, high⟩ := thresholds_lt K
  simp only [batterySwitch, status, casePwLow, gt_iff_lt]
  by_cases up : pVeryLow K + pHist K < p.battPersent
  · -- Above the first threshold the battery is not below the last one.
    have not : ¬ p.battPersent < pVeryLow K - pHist K := (low.trans up).not_gt
    simp only [if_pos up, change_battPersent, if_neg not]
  · -- A smaller percentage is not above the second threshold either.
    have not : ¬ pLow K + pHist K < p.battPersent := fun more => up (high.trans more)
    simp only [if_neg up, if_neg not]

/-- The `switch` would take a step of the machine. -/
theorem Power.batterySwitch_pStatus :
    p.batterySwitch.pStatus = hysteresis p.battPersent p.pStatus := by
  cases status : p.pStatus
  case pwVeryLow =>
    rw [batterySwitch_veryLow status, hysteresis]
    split_ifs <;> simp [status]
  -- The other cases break, and follow the machine branch by branch.
  all_goals
    simp only [batterySwitch, status, casePwLow, hysteresis]
    split_ifs <;> simp [status]

/--
The handler would know of every change exactly if a flat battery had a percentage that neither leaves
two levels at once nor is below the level of a flat one.
-/
theorem Power.batterySwitch_chained_iff (registered : p.pHandler = true) :
    (∃ calls, p.batterySwitch.handled = p.handled ++ calls ∧
        Chained p.pStatus calls p.batterySwitch.pStatus) ↔
      (p.pStatus = .pwVeryLow →
        pVeryLow K - pHist K ≤ p.battPersent ∧ p.battPersent ≤ pLow K + pHist K) := by
  cases status : p.pStatus
  case pwVeryLow =>
    obtain ⟨low, high⟩ := thresholds_lt K
    rw [batterySwitch_veryLow status]
    split_ifs with twice once below
    · -- The second call starts where the first one did.
      simp [registered, Chained, twice]
    · -- One call leads from the flat battery to the next level.
      have above := low.trans once
      simp [registered, Chained, above.le, le_of_not_gt twice]
    · -- The call is one of no change.
      refine iff_of_false ?_ fun within => below.not_ge (within rfl).1
      simp [registered, Chained]
    · -- Without a call nothing has changed.
      simp [status, Chained, le_of_not_gt twice, le_of_not_gt below]
  all_goals
    simp only [batterySwitch, status, casePwLow]
    split_ifs <;> simp [status, registered, Chained]

/-- The motors would be stopped exactly while the battery is flat. -/
theorem Power.batterySwitch_motors (registered : p.pHandler = true)
    (stopped : p.canRotateMotors = false ↔ p.pStatus = .pwVeryLow) :
    p.batterySwitch.canRotateMotors = false ↔ p.batterySwitch.pStatus = .pwVeryLow := by
  cases status : p.pStatus
  case pwVeryLow =>
    rw [batterySwitch_veryLow status]
    -- Whatever is called in between, the last call decides.
    split_ifs <;> simp_all
  all_goals
    simp only [batterySwitch, status, casePwLow]
    split_ifs <;> simp_all

end

end Teetest
