import Teetest.Robot.Balance
import Teetest.Src.CalibFile

/-!
A calibration across a restart: what the program finds in its file is what it balanced with, rounded to
nine decimal places and to a `float`.
-/

namespace Teetest

open Lib

/-- The numbers that a `float` can hold are below this in size. -/
def FloatRange (v : V3 ℚ) : Prop := ∀ i, |v i| < 2 ^ 128

/-- A calibration of such numbers. -/
theorem calibNumbers_range {ac wc : V3 ℚ} (acs : FloatRange ac) (wcs : FloatRange wc) :
    ∀ x ∈ calibNumbers ac wc, |x| < 2 ^ 128 := by
  intro x member
  simp only [calibNumbers, List.mem_cons, List.not_mem_nil, or_false] at member
  rcases member with rfl | rfl | rfl | rfl | rfl | rfl
  · exact acs 0
  · exact acs 1
  · exact acs 2
  · exact wcs 0
  · exact wcs 1
  · exact wcs 2

/-- `fgets` takes a line that fits, without its carriage return. -/
theorem fgets_line {line : List UInt8} {room : ℕ} (fits : line.length < room)
    (plain : ∀ b ∈ line, b ≠ 0x0D ∧ b ≠ 0x0A) (rest : List UInt8) :
    fgets room (line ++ 0x0D :: 0x0A :: rest) = line ++ [0x0A] := by
  induction line generalizing room with
  | nil =>
    obtain ⟨room, rfl⟩ := Nat.exists_eq_add_one.mpr fits
    rfl
  | cons b line ih =>
    obtain ⟨room, rfl⟩ := Nat.exists_eq_add_one.mpr (Nat.zero_lt_of_lt fits)
    obtain ⟨noReturn, noFeed⟩ := plain b List.mem_cons_self
    rw [List.cons_append, fgets, if_neg noReturn, if_neg noFeed,
      ih (Nat.lt_of_succ_lt_succ fits) fun b member => plain b (List.mem_cons_of_mem _ member)]
    rfl

/-- The line of a calibration, up to its end. -/
def calibLine (ac wc : V3 ℚ) : List UInt8 :=
  (calibNumbers ac wc).flatMap fun x => fixedText 9 x ++ [0x20]

/-- A byte of the line is printable, so it ends neither the line nor a string. -/
theorem calibLine_plain {ac wc : V3 ℚ} {b : UInt8} (member : b ∈ calibLine ac wc) :
    b ≠ 0x0D ∧ b ≠ 0x0A ∧ b ≠ 0 := by
  obtain ⟨x, -, within⟩ := List.mem_flatMap.mp member
  rcases List.mem_append.mp within with number | blank
  · rcases mem_fixedText number with digit | rfl | rfl
    · refine ⟨?_, ?_, ?_⟩ <;> rintro rfl <;> exact absurd digit.1 (by decide)
    · decide
    · decide
  · rw [List.mem_singleton.mp blank]
    decide

/-- The line of six numbers that a `float` can hold fits into the buffer. -/
theorem calibLine_length {ac wc : V3 ℚ} (acs : FloatRange ac) (wcs : FloatRange wc) :
    (calibLine ac wc).length ≤ 306 ∧ 6 ≤ (calibLine ac wc).length := by
  have each : ∀ x ∈ calibNumbers ac wc, (fixedText 9 x ++ [0x20]).length ≤ 51 := by
    intro x member
    have small : |x| < 10 ^ 39 - 1 :=
      (calibNumbers_range acs wcs x member).trans (by norm_num)
    have bound : (fixedText 9 x).length ≤ 39 + 9 + 2 := fixedText_length_le (by decide) small
    rw [List.length_append, List.length_singleton]
    omega
  simp only [calibNumbers, List.mem_cons, List.not_mem_nil, or_false, forall_eq_or_imp,
    forall_eq] at each
  obtain ⟨h0, h1, h2, h3, h4, h5⟩ := each
  simp only [calibLine, calibNumbers, List.flatMap_cons, List.flatMap_nil, List.length_append,
    List.length_singleton, List.length_nil] at h0 h1 h2 h3 h4 h5 ⊢
  omega

/-- A number as it is read back from the file: printed with nine places, and stored. -/
def readBack (store : ℚ → ℚ) (x : ℚ) : ℚ := store (roundedTo 9 x)

/-- The program reads back what it wrote. -/
theorem readCalib_calibText (store : ℚ → ℚ) {ac wc : V3 ℚ} (acs : FloatRange ac) (wcs : FloatRange wc) :
    readCalib store (some (calibText ac wc)) = (calibNumbers ac wc).map (readBack store) := by
  obtain ⟨short, long⟩ := calibLine_length acs wcs
  have line : fgets 511 (calibText ac wc) = calibLine ac wc ++ [0x0A] :=
    fgets_line (by omega) (fun b member =>
      ⟨(calibLine_plain member).1, (calibLine_plain member).2.1⟩) []
  have text : (0 : UInt8) ∉ calibLine ac wc ++ [0x0A] := by
    intro member
    rcases List.mem_append.mp member with within | feed
    · exact (calibLine_plain within).2.2 rfl
    · exact absurd (List.mem_singleton.mp feed) (by decide)
  have none_ : ∀ b ∈ ([] : List UInt8), isSpace b = true := fun b member => absurd member List.not_mem_nil
  have read := scanFloats_fixedText store 9 (calibNumbers ac wc) none_ [0x0A]
  unfold readCalib
  dsimp only
  rw [line, if_neg (by rw [List.length_append]; omega), cstr_of_text text]
  exact read

/-- A start with a good card and six numbers in its file. -/
theorem started_six (lib : XMatrix ℚ) {log : LogView} (good : log.lfState = .lfSGood)
    (round : ℚ → ℚ) (ac wc : V3 ℚ) :
    let s := ImuAlg.started lib log ((calibNumbers ac wc).map round)
    s.ac = (fun i => round (ac i)) ∧ s.wc = (fun i => round (wc i)) ∧
      s.haveImuCalibration = true ∧
      s.Qir = calibrated lib (fun i => round (wc i)) fun i => round (ac i) := by
  have acs : (fun i : Fin 3 => (((calibNumbers ac wc).map round)[i.val]?).getD
      ((ImuAlg.powerUp : ImuAlg ℚ).ac i)) = fun i => round (ac i) := by
    funext i
    fin_cases i <;> rfl
  have wcs : (fun i : Fin 3 => (((calibNumbers ac wc).map round)[i.val + 3]?).getD
      ((ImuAlg.powerUp : ImuAlg ℚ).wc i)) = fun i => round (wc i) := by
    funext i
    fin_cases i <;> rfl
  have six : ((calibNumbers ac wc).map round).length = 6 := rfl
  intro s
  have s_eq : s = (ImuAlg.powerUp.imuAlgInit lib log ((calibNumbers ac wc).map round)).1 := rfl
  simp only [ImuAlg.imuAlgInit, if_pos good, if_pos six, ImuAlg.calibration] at s_eq
  rw [s_eq]
  exact ⟨acs, wcs, rfl, congrArg₂ (calibrated lib) wcs acs⟩

/-- Storing a number moves it away from a `float` by a few times its distance at most. -/
theorem StoresFloat.near {store : ℚ → ℚ} (stores : StoresFloat store) {y : ℚ} (float : y ∈ floats)
    (x : ℚ) : |store x - y| ≤ 4 * |x - y| := by
  have positive := abs_nonneg (x - y)
  rcases stores with direct | ⟨toFloat, toDouble, narrow, wide, rfl⟩
  · have near := direct.near float x
    linarith
  · -- Every `float` is a `double`, so both roundings stay near it.
    have double : y ∈ doubles := binary_subset (by decide) (by decide) float
    have first := wide.near double x
    have second := narrow.near float (toDouble x)
    linarith

/-- What is stored is a `float`. -/
theorem StoresFloat.mem {store : ℚ → ℚ} (stores : StoresFloat store) (x : ℚ) : store x ∈ floats := by
  rcases stores with direct | ⟨toFloat, toDouble, narrow, -, rfl⟩
  · exact direct.mem x
  · exact narrow.mem (toDouble x)

/-- A vector as it was: each `float` in it up to 2e-9, and exactly if it is 1/16 or more in size. -/
def Restored (v v' : V3 ℚ) : Prop :=
  ∀ i, v i ∈ floats → |v' i - v i| ≤ 2 / 10 ^ 9 ∧ (1 / 16 ≤ |v i| → v' i = v i)

/-- A vector that is read back is as it was. -/
theorem StoresFloat.restored {store : ℚ → ℚ} (stores : StoresFloat store) (v : V3 ℚ) :
    Restored v fun i => readBack store (v i) := by
  intro i float
  have printed := abs_roundedTo_sub_le 9 (v i)
  have near : |readBack store (v i) - v i| ≤ 2 / 10 ^ 9 := by
    have stored := stores.near float (roundedTo 9 (v i))
    rw [readBack]
    linarith
  refine ⟨near, fun large => ?_⟩
  -- Two such numbers are farther apart than that.
  by_contra differ
  have apart := binary_apart (by decide) float (stores.mem (roundedTo 9 (v i))) (Ne.symm differ)
    (k := -4) (by norm_num at large ⊢; exact large)
  rw [abs_sub_comm] at apart
  have gap := apart.trans near
  norm_num at gap

/-- An event that finds the card good. -/
def ImuEvent.Good : ImuEvent ℚ → Prop
  | .sample _ log => log.lfState = .lfSGood
  | _ => True

/-- The matrix in use, and the file, belong to the same calibration. -/
def CalibCard.Agrees (lib : XMatrix ℚ) (c : CalibCard) (wc ac : V3 ℚ) : Prop :=
  c.alg.Qir = calibrated lib wc ac ∧ c.file = some (calibText ac wc)

section

variable {lib : XMatrix ℚ} {c d : CalibCard} {e : ImuEvent ℚ}

/-- The end of a calibration makes the matrix and writes the file from the same numbers. -/
theorem ImuAlg.endImuCalibration_agrees (s : ImuAlg ℚ) {log : LogView} (good : log.lfState = .lfSGood)
    (file : Option (List UInt8)) :
    let r := s.endImuCalibration lib log
    .calibration s.wc s.ac ∈ r.2 ∧ CalibCard.Agrees lib ⟨r.1, r.2.foldl saveCall file⟩ s.wc s.ac := by
  unfold ImuAlg.endImuCalibration ImuAlg.calibration
  dsimp only
  rw [if_neg (not_not.mpr good)]
  -- The log is stopped before and started after, if it was written.
  split <;> exact ⟨List.mem_cons_self, rfl, rfl⟩

/-- What a calibration makes is as another state has it. -/
structure CalibCard.Same (c d : CalibCard) : Prop where
  matrix : d.alg.Qir = c.alg.Qir
  have_ : d.alg.haveImuCalibration = c.alg.haveImuCalibration
  file : d.file = c.file

/-- None of the calls is one of `calibration`. -/
def NoCalibration (calls : List (ImuCall ℚ)) : Prop := ∀ wc ac, .calibration wc ac ∉ calls

/-- An event leaves the matrix and the file, or makes both anew. -/
theorem CalibStep.cases (good : e.Good) (step : CalibStep lib c e d) :
    NoCalibration (c.alg.event lib e).2 ∧ c.Same d ∨
      ∃ wc ac, .calibration wc ac ∈ (c.alg.event lib e).2 ∧ d.Agrees lib wc ac := by
  subst step
  have none_ : NoCalibration [] := fun _ _ => List.not_mem_nil
  have test (s : ImuAlg ℚ) (imu : XIMUData ℚ) : (s.staticTest imu).Qir = s.Qir ∧
      (s.staticTest imu).haveImuCalibration = s.haveImuCalibration := by
    unfold ImuAlg.staticTest
    dsimp only
    split <;> exact ⟨rfl, rfl⟩
  cases e with
  | setup log =>
    refine .inl ⟨none_, ?_⟩
    unfold ImuAlg.event ImuAlg.startImuCalibration
    dsimp only
    split <;> exact ⟨rfl, rfl, rfl⟩
  | enter =>
    refine .inl ⟨none_, ?_⟩
    unfold ImuAlg.event
    dsimp only
    rcases c.alg.nextImuCalibration_cases with same | ⟨-, -, next⟩ | ⟨-, -, next⟩
    · rw [same]
      exact ⟨rfl, rfl, rfl⟩
    · rw [next]
      exact ⟨rfl, rfl, rfl⟩
    · rw [next]
      exact ⟨rfl, rfl, rfl⟩
  | play =>
    refine .inl ⟨none_, ?_⟩
    unfold ImuAlg.event ImuAlg.rStay
    dsimp only
    split <;> exact ⟨rfl, rfl, rfl⟩
  | stop => exact .inl ⟨by simp [NoCalibration, ImuAlg.event, ImuAlg.rStop], rfl, rfl, rfl⟩
  | sample imu log =>
    simp only [ImuAlg.event, ImuAlg.imuAlgFeed]
    split
    · exact .inl ⟨none_, (test _ imu).1, (test _ imu).2, rfl⟩
    · exact .inl ⟨none_, (test c.alg imu).1, (test c.alg imu).2, rfl⟩
    · exact .inl ⟨none_, rfl, rfl, rfl⟩
    split
    · split
      · refine .inl ⟨none_, ?_⟩
        unfold ImuAlg.rotation
        dsimp only
        split_ifs <;> exact ⟨rfl, rfl, rfl⟩
      · unfold ImuAlg.static
        dsimp only
        split
        · -- The end of a calibration.
          exact .inr ⟨_, _, ImuAlg.endImuCalibration_agrees _ good c.file⟩
        · exact .inl ⟨none_, rfl, rfl, rfl⟩
      · exact .inl ⟨none_, rfl, rfl, rfl⟩
    · exact .inl ⟨by simp [NoCalibration, ImuAlg.play], rfl, rfl, rfl⟩
    · exact .inl ⟨none_, rfl, rfl, rfl⟩

/-- The step relation of the algorithm alone. -/
theorem CalibStep.alg (step : CalibStep lib c e d) : ImuStep lib c.alg e d.alg := by
  rw [show d = _ from step]
  rfl

variable {log log' : LogView} {file : Option (List UInt8)} {events : List (ImuEvent ℚ)}

/-- A run of the algorithm with its file is one of the algorithm. -/
theorem CalibStep.run_alg (run : Run (CalibStep lib) c events d) : Run (ImuStep lib) c.alg events d.alg := by
  induction run with
  | refl => exact .refl
  | tail _ step ih => exact ih.tail step.alg

/--
After every run on a good card the file and the matrix are both as they were at the start, if there was
no calibration in the run, or they belong to one calibration of the run.
-/
theorem CalibStep.agrees (run : Run (CalibStep lib) c events d) (good : ∀ e ∈ events, e.Good) :
    NoCalibration (c.alg.calls lib events) ∧ c.Same d ∨
      ∃ wc ac, .calibration wc ac ∈ c.alg.calls lib events ∧ d.Agrees lib wc ac := by
  induction run with
  | refl => exact .inl ⟨fun _ _ => List.not_mem_nil, rfl, rfl, rfl⟩
  | tail run step ih =>
    rename_i past s t e
    rw [ImuAlg.calls_concat (CalibStep.run_alg run)]
    rcases CalibStep.cases (good e (by simp)) step with ⟨silent, same⟩ | ⟨wc, ac, called, agrees⟩
    · rcases ih fun e member => good e (by simp [member]) with
        ⟨none_, old⟩ | ⟨wc, ac, called, old, kept⟩
      · refine .inl ⟨fun wc ac called => ?_, same.matrix.trans old.matrix, same.have_.trans old.have_,
          same.file.trans old.file⟩
        exact (List.mem_append.mp called).elim (none_ wc ac) (silent wc ac)
      · exact .inr ⟨wc, ac, List.mem_append_left _ called, same.matrix.trans old,
          same.file.trans kept⟩
    · exact .inr ⟨wc, ac, List.mem_append_right _ called, agrees⟩

/-- A start with a good card does not ask for more of the log. -/
theorem started_good (good : log.lfState = .lfSGood) (good' : log'.lfState = .lfSGood) (parsed : List ℚ) :
    ImuAlg.started lib log parsed = ImuAlg.started lib log' parsed := by
  simp only [ImuAlg.started, ImuAlg.imuAlgInit, if_pos good, if_pos good']

/--
The matrix that the program finds after a restart is the one it balanced with before, if no calibration
was made since the last start; otherwise it is the one of the same two vectors, with every coordinate
printed with nine decimal places and read back. A coordinate that is a `float`, as all are in the
program, is restored up to 2e-9, and exactly if it is 1/16 or more in size.
-/
theorem calibration_survives_restart {store : ℚ → ℚ} (stores : StoresFloat store)
    (run : Run (CalibStep lib) (.start lib store log file) events d)
    (card : log.lfState = .lfSGood) (good : ∀ e ∈ events, e.Good)
    (floats : ∀ wc ac, .calibration wc ac ∈ (CalibCard.start lib store log file).alg.calls lib events →
      FloatRange wc ∧ FloatRange ac) (card' : log'.lfState = .lfSGood) :
    let calls := (CalibCard.start lib store log file).alg.calls lib events
    let next := (CalibCard.start lib store log' d.file).alg
    (NoCalibration calls ∧ next.Qir = d.alg.Qir ∧
        next.haveImuCalibration = d.alg.haveImuCalibration) ∨
      ∃ wc ac, .calibration wc ac ∈ calls ∧ d.alg.Qir = calibrated lib wc ac ∧
        next.haveImuCalibration = true ∧ next.Qir = calibrated lib next.wc next.ac ∧
        (∀ i, next.wc i = readBack store (wc i) ∧ next.ac i = readBack store (ac i)) ∧
        Restored wc next.wc ∧ Restored ac next.ac := by
  intro calls next
  rcases CalibStep.agrees run good with ⟨none_, same⟩ | ⟨wc, ac, called, matrix, written⟩
  · -- The program starts from the same file.
    left
    have again : next = (CalibCard.start lib store log file).alg := by
      show ImuAlg.started lib log' (readCalib store d.file) =
        ImuAlg.started lib log (readCalib store file)
      rw [same.file]
      exact started_good card' card _
    rw [again]
    exact ⟨none_, same.matrix.symm, same.have_.symm⟩
  · right
    obtain ⟨wcs, acs⟩ := floats wc ac called
    have read : next = ImuAlg.started lib log' ((calibNumbers ac wc).map (readBack store)) := by
      show ImuAlg.started lib log' (readCalib store d.file) = _
      rw [written, readCalib_calibText store acs wcs]
    obtain ⟨ac_, wc_, have_, matrix_⟩ := started_six lib card' (readBack store) ac wc
    rw [← read] at ac_ wc_ have_ matrix_
    rw [wc_, ac_]
    exact ⟨wc, ac, called, matrix, have_, matrix_, fun i => ⟨rfl, rfl⟩, stores.restored wc,
      stores.restored ac⟩

/-- A library that stores a number as a `double` first, and as a `float` then. -/
def storeByDouble (x : ℚ) : ℚ := roundBinary 24 (-149) (roundBinary 53 (-1074) x)

/-- It is one of the two ways. -/
theorem storeByDouble_stores : StoresFloat storeByDouble :=
  .inr ⟨_, _, roundsTo_roundBinary (by decide) _, roundsTo_roundBinary (by decide) _, rfl⟩

/-- The weight and the axis of a calibration, in numbers that nine decimal places do not all hold. -/
def weight : V3 ℚ := ![1 / 1024, 1 / 8, 39 / 4]
def axis : V3 ℚ := ![1 / 4, 1 + 1 / 2 ^ 23, -1 / 2]

/-- A whole calibration: at rest, in a rotation, and at rest again. -/
def calibrating : List (ImuEvent ℚ) :=
  .setup quietLog :: (List.replicate 201 (.sample ⟨weight, 0, 0⟩ quietLog) ++
    .enter :: (List.replicate 101 (.sample ⟨weight, axis, 0⟩ quietLog) ++
      .enter :: List.replicate 101 (.sample ⟨weight, 0, 0⟩ quietLog)))

/-- The robot at the start, without a file, and after the calibration. -/
def uncalibratedRobot : CalibCard := .start plainLib storeByDouble quietLog none
def calibratedRobot : CalibCard :=
  calibrating.foldl
    (fun c e => ⟨(c.alg.event plainLib e).1, (c.alg.event plainLib e).2.foldl saveCall c.file⟩)
    uncalibratedRobot

/-- Whether a call that is a calibration is one with these vectors. -/
def ImuCall.meansThese : ImuCall ℚ → Bool
  | .calibration wc ac => wc = axis ∧ ac = weight
  | _ => true

/-- The axis is one of numbers of a `float`, which are not small. -/
theorem axis_float (i : Fin 3) : axis i ∈ floats ∧ 1 / 16 ≤ |axis i| := by
  fin_cases i
  · exact ⟨⟨1, -2, by norm_num, by norm_num, by norm_num [axis]⟩, by norm_num [axis]⟩
  · exact ⟨⟨2 ^ 23 + 1, -23, by norm_num, by norm_num, by norm_num [axis]⟩, by norm_num [axis]⟩
  · exact ⟨⟨-1, -1, by norm_num, by norm_num, by norm_num [axis]⟩, by norm_num [axis]⟩

set_option maxRecDepth 100000 in
/-- After a calibration and a restart the robot is calibrated, and has the axis of its rotation again. -/
theorem calibration_survives_whole :
    let next := (CalibCard.start plainLib storeByDouble ⟨.lfSGood, true⟩ calibratedRobot.file).alg
    next.haveImuCalibration = true ∧ next.wc = axis ∧ |next.ac 0 - 1 / 1024| ≤ 2 / 10 ^ 9 := by
  intro next
  have run : Run (CalibStep plainLib) uncalibratedRobot calibrating calibratedRobot := by
    refine Run.foldl (fun (c : CalibCard) e =>
      ⟨(c.alg.event plainLib e).1, (c.alg.event plainLib e).2.foldl saveCall c.file⟩) ?_ calibrating
    intro c e
    rfl
  have good : ∀ e ∈ calibrating, e.Good := by
    intro e member
    simp only [calibrating, List.mem_cons, List.mem_append, List.mem_replicate] at member
    rcases member with rfl | ⟨-, rfl⟩ | rfl | ⟨-, rfl⟩ | rfl | ⟨-, rfl⟩
    all_goals trivial
  -- There is one calibration in the run, with the means of these samples.
  have these : (uncalibratedRobot.alg.calls plainLib calibrating).all ImuCall.meansThese = true := by
    decide +kernel
  have means : ∀ wc ac, .calibration wc ac ∈ uncalibratedRobot.alg.calls plainLib calibrating →
      wc = axis ∧ ac = weight := by
    intro wc ac called
    simpa [ImuCall.meansThese] using List.all_eq_true.mp these _ called
  have small : FloatRange axis ∧ FloatRange weight := by
    constructor <;> intro i <;> fin_cases i <;> norm_num [axis, weight]
  rcases calibration_survives_restart storeByDouble_stores run rfl good
    (fun wc ac called => by rw [(means wc ac called).1, (means wc ac called).2]; exact small)
    (show (⟨.lfSGood, true⟩ : LogView).lfState = .lfSGood from rfl) with
    ⟨none_, -⟩ | ⟨wc, ac, called, -, have_, -, -, wcs, acs⟩
  · have some_ : (uncalibratedRobot.alg.calls plainLib calibrating).any ImuCall.isCalibration = true := by
      decide +kernel
    obtain ⟨call, member, calibrates⟩ := List.any_eq_true.mp some_
    cases call with
    | calibration wc ac => exact absurd member (none_ wc ac)
    | setMSpeed u | mdStop | lfSendMessage | lfStop | saveCalibration ac wc | lfStart =>
      simp [ImuCall.isCalibration] at calibrates
  · obtain ⟨rfl, rfl⟩ := means wc ac called
    have first : weight 0 ∈ floats := ⟨1, -10, by norm_num, by norm_num, by norm_num [weight]⟩
    exact ⟨have_, funext fun i => (wcs i (axis_float i).1).2 (axis_float i).2, (acs 0 first).1⟩

end

end Teetest
