import Teetest.Src.MotorControl

/-!
The two estimates of a motor's speed, and what they make of the encoder's zero.

The estimates look at differences of positions, but for the very first position after a reset.
-/

namespace Teetest

section

variable {K : Type} [Field K]

/-- The sum of the squared distances of points from a parabola. -/
def squaredError (ts ys : List K) (abc : K × K × K) : K :=
  ((ts.zip ys).map fun p => (abc.1 * p.1 ^ 2 + abc.2.1 * p.1 + abc.2.2 - p.2) ^ 2).sum

/-- For the times of `encTimeBuf`, no parabola is closer to the data than the one that is returned. -/
def ExactFit [LinearOrder K] (parabola_appr : List K → List K → K × K × K) : Prop :=
  ∀ n, 4 ≤ n → n ≤ encBufSize → ∀ ys : List K, ys.length = n → ∀ abc,
    squaredError (encTimes n) ys (parabola_appr (encTimes n) ys) ≤ squaredError (encTimes n) ys abc

variable (pii : K) (parabola_appr : List K → List K → K × K × K)

/-- The estimates after a reset and some positions of the encoder. -/
def EncSpeed.feed (m : EncSpeed K) (positions : List ℤ) : EncSpeed K :=
  positions.foldl (fun m p => (m.rAdd p).updateEncSpeed pii parabola_appr) m.mSoftReset

/-- Both estimates. -/
def EncSpeed.estimates (m : EncSpeed K) : K × K := (m.encSpeed, m.encSpeedSimple)

variable {m m' : EncSpeed K}

/-- An update leaves the buffer alone. -/
@[simp] theorem EncSpeed.updateEncSpeed_encBuf :
    (m.updateEncSpeed pii parabola_appr).encBuf = m.encBuf := by
  -- One case for each fill level.
  unfold updateEncSpeed
  split <;> rfl

/-- The buffer holds the last positions. -/
theorem EncSpeed.feed_encBuf (positions : List ℤ) :
    (m.feed pii parabola_appr positions).encBuf =
      positions.drop (positions.length - encBufSize) := by
  induction positions using List.reverseRecOn with
  | nil => rfl
  | append_singleton past p ih =>
    have buf : (m.feed pii parabola_appr (past ++ [p])).encBuf =
        ((m.feed pii parabola_appr past).rAdd p).encBuf := by
      rw [feed, List.foldl_concat, updateEncSpeed_encBuf]
      rfl
    rw [buf, rAdd, ih]
    -- The oldest position falls out as soon as there are six.
    unfold encBufSize
    rcases Nat.lt_or_ge past.length 5 with few | many
    · rw [Nat.sub_eq_zero_of_le few.le, List.drop_zero, List.length_append, List.length_singleton,
        Nat.sub_eq_zero_of_le few, List.drop_zero]
    · have size : (past.drop (past.length - 5)).length = 5 := by
        rw [List.length_drop]
        omega
      show List.drop ((past.drop (past.length - 5)).length + 1 - 5) _ = _
      rw [size, ← List.drop_append_of_le_length (by omega), List.drop_drop, List.length_append,
        List.length_singleton]
      congr 1
      omega

/-- An offset of all positions does not show in their differences. -/
theorem encData_shift (c x0 : ℤ) (x : List ℤ) :
    encData pii (x0 + c) (x.map (· + c)) = encData pii x0 x := by
  -- The differences are the same one by one.
  unfold encData
  rw [List.map_map]
  refine List.map_congr_left fun xi _ => ?_
  simp only [Function.comp_apply, add_sub_add_right_eq_sub]

/-- From the fourth position on the speed is that of the fitted parabola. -/
theorem EncSpeed.updateEncSpeed_full {x0 : ℤ} {x : List ℤ} (held : m.encBuf = x0 :: x)
    (full : 3 ≤ x.length) :
    (m.updateEncSpeed pii parabola_appr).estimates =
      (2.0 * (parabola_appr (encTimes (x.length + 1)) (encData pii x0 (x0 :: x))).1 *
          ((x.length : K) * encReadRate * 0.001) +
        (parabola_appr (encTimes (x.length + 1)) (encData pii x0 (x0 :: x))).2.1,
      (((x0 :: x).getD x.length 0 - (x0 :: x).getD (x.length - 1) 0 : ℤ) : K) *
        simpleEncSpeedK pii) := by
  -- The shorter buffers have cases of their own.
  unfold updateEncSpeed
  rw [held]
  match x, full with
  | x1 :: x2 :: x3 :: x, _ => rfl

/-- A position of a shifted buffer. -/
theorem getD_shift {l : List ℤ} (c : ℤ) {i : ℕ} (inside : i < l.length) :
    (l.map (· + c)).getD i 0 = l.getD i 0 + c := by
  -- The position is not the default.
  rw [List.getD_eq_getElem?_getD, List.getD_eq_getElem?_getD, List.getElem?_map,
    List.getElem?_eq_getElem inside]
  rfl

/-- Behind the first position an offset changes neither estimate. -/
theorem EncSpeed.updateEncSpeed_shift {c : ℤ} (buf : m'.encBuf = m.encBuf.map (· + c))
    (speed : m'.encSpeed = m.encSpeed) :
    (m'.updateEncSpeed pii parabola_appr).encSpeed = (m.updateEncSpeed pii parabola_appr).encSpeed ∧
      (2 ≤ m.encBuf.length → (m'.updateEncSpeed pii parabola_appr).encSpeedSimple =
        (m.updateEncSpeed pii parabola_appr).encSpeedSimple) := by
  match held : m.encBuf with
  | [] =>
    unfold updateEncSpeed
    rw [buf, held]
    exact ⟨speed, fun some_ => absurd some_ (by decide)⟩
  | [x0] =>
    -- The single position is used itself, but by the simple estimate alone.
    unfold updateEncSpeed
    rw [buf, held]
    exact ⟨speed, fun some_ => absurd some_ (by simp)⟩
  | [x0, x1] =>
    -- Two and three positions give differences.
    unfold updateEncSpeed
    rw [buf, held]
    exact ⟨speed, fun _ => by simp⟩
  | [x0, x1, x2] =>
    unfold updateEncSpeed
    rw [buf, held]
    exact ⟨speed, fun _ => by simp⟩
  | x0 :: x1 :: x2 :: x3 :: x =>
    -- The fit is one of the same angles, and the last two positions are shifted alike.
    have data := encData_shift pii c x0 (x0 :: x1 :: x2 :: x3 :: x)
    have shifted (i : ℕ) (inside : i < x.length + 4) := getD_shift (l := x0 :: x1 :: x2 :: x3 :: x) c
      (i := i) (by simpa only [List.length_cons] using inside)
    have one := updateEncSpeed_full pii parabola_appr held (by simp)
    have other := updateEncSpeed_full pii parabola_appr
      (buf.trans (by rw [held, List.map_cons])) (by simp)
    rw [List.map_cons] at data shifted
    simp only [List.length_map, List.length_cons] at one other
    rw [data, shifted _ (by omega), shifted _ (by omega), add_sub_add_right_eq_sub, ← one] at other
    exact ⟨congrArg Prod.fst other, fun _ => congrArg Prod.snd other⟩

/-- An offset changes the encoder's speed after no position, and the simple one after the first alone. -/
theorem EncSpeed.feed_shift (m : EncSpeed K) (c : ℤ) (positions : List ℤ) :
    (m.feed pii parabola_appr (positions.map (· + c))).encSpeed =
        (m.feed pii parabola_appr positions).encSpeed ∧
      (2 ≤ positions.length → (m.feed pii parabola_appr (positions.map (· + c))).encSpeedSimple =
        (m.feed pii parabola_appr positions).encSpeedSimple) := by
  induction positions using List.reverseRecOn with
  | nil => exact ⟨rfl, fun some_ =>
    -- After the reset both runs are in one state.
    absurd some_ (by decide)⟩
  | append_singleton past p ih =>
    -- The buffers of the two runs are shifted against each other.
    have buf : ((m.feed pii parabola_appr (past.map (· + c))).rAdd (p + c)).encBuf =
        ((m.feed pii parabola_appr past).rAdd p).encBuf.map (· + c) := by
      simp [rAdd, feed_encBuf, List.map_drop]
    have steps := updateEncSpeed_shift pii parabola_appr buf ih.1
    rw [feed, feed, List.map_append, List.map_singleton, List.foldl_concat, List.foldl_concat]
    -- After two positions at least, the buffer holds two.
    refine ⟨steps.1, fun some_ => steps.2 ?_⟩
    rw [List.length_append, List.length_singleton] at some_
    simp only [rAdd, feed_encBuf, List.length_drop, List.length_append, List.length_singleton]
    unfold encBufSize
    omega

/-- After the first position the simple estimate is a multiple of the position itself. -/
theorem EncSpeed.feed_first (m : EncSpeed K) (p : ℤ) :
    (m.feed pii parabola_appr [p]).estimates = (0, p * simpleEncSpeedK pii) := rfl

/-- Positions that grow by `d` from one to the next. -/
def ramp (p d : ℤ) (k : ℕ) : List ℤ := (List.range k).map fun i : ℕ => p + (i : ℤ) * d

/-- The last positions of a ramp are a ramp. -/
theorem ramp_drop (p d : ℤ) (j k : ℕ) : (ramp p d (j + k)).drop j = ramp (p + j * d) d k := by
  -- The later numbers are shifted by those in front of them.
  unfold ramp
  rw [List.range_add, List.map_append, List.drop_left' (by simp), List.map_map]
  refine List.map_congr_left fun i _ => ?_
  simp only [Function.comp_apply]
  push_cast
  ring

/-- The times and angles of a ramp. -/
theorem zip_ramp (p d : ℤ) (n : ℕ) : (encTimes n).zip (encData pii p (ramp p d n)) =
    (List.range n).map fun i : ℕ =>
      ((i : K) * encReadRate * 0.001, ((p + (i : ℤ) * d - p : ℤ) : K) * encTicks2Radians pii) := by
  -- Both lists go over the same numbers.
  rw [encTimes, encData, ramp, List.map_map, List.zip_map']
  rfl

variable [LinearOrder K] [IsStrictOrderedRing K]

/-- The factor of the simple estimate is not zero. -/
theorem simpleEncSpeedK_ne_zero (nonzero : pii ≠ 0) : simpleEncSpeedK pii ≠ 0 := by
  -- It is a product of numbers that are not.
  unfold simpleEncSpeedK encTicks2Radians encNumber encReadRate
  positivity

/-- A speed of one position per reading turns the motor by one position from one reading to the next. -/
theorem simpleEncSpeedK_mul_time :
    simpleEncSpeedK pii * ((encReadRate : K) * 0.001) = encTicks2Radians pii := by
  -- The factor takes milliseconds as seconds, and the time takes them back.
  unfold simpleEncSpeedK encReadRate
  norm_num
  ring

/-- An offset changes the estimates after the first position, unless it is zero, and after no later one. -/
theorem EncSpeed.estimates_shift_iff (nonzero : pii ≠ 0) (m : EncSpeed K) (c : ℤ) {positions : List ℤ}
    (some_ : positions ≠ []) :
    (m.feed pii parabola_appr (positions.map (· + c))).estimates =
        (m.feed pii parabola_appr positions).estimates ↔ 2 ≤ positions.length ∨ c = 0 := by
  obtain ⟨speed, simple⟩ := m.feed_shift pii parabola_appr c positions
  match positions, some_ with
  | [p], _ =>
    -- The two first positions have to be the same.
    rw [List.map_singleton, feed_first, feed_first, Prod.mk.injEq,
      mul_left_inj' (simpleEncSpeedK_ne_zero pii nonzero), Int.cast_inj]
    simp
  | p :: q :: positions, _ =>
    have many : 2 ≤ (p :: q :: positions).length := by simp
    exact iff_of_true (Prod.ext speed (simple many)) (.inl many)

/-- A parabola through three points of a line is the line. -/
theorem line_of_fit {a b e t s : K} (positive : t ≠ 0) (zero : a * 0 ^ 2 + b * 0 + e = 0)
    (one : a * t ^ 2 + b * t + e = s * t) (two : a * (2 * t) ^ 2 + b * (2 * t) + e = s * (2 * t)) :
    a = 0 ∧ b = s := by
  -- The second difference gives the curvature, and then the slope is left.
  have curved : 2 * (a * t ^ 2) = 0 := by linear_combination two - 2 * one + zero
  have a0 : a = 0 := by simpa [positive] using curved
  subst a0
  refine ⟨rfl, mul_right_cancel₀ positive ?_⟩
  linear_combination one - zero

/-- A parabola without an error goes through every point. -/
theorem fit_of_squaredError {ts ys : List K} {abc : K × K × K} (none : squaredError ts ys abc ≤ 0) :
    ∀ p ∈ ts.zip ys, abc.1 * p.1 ^ 2 + abc.2.1 * p.1 + abc.2.2 = p.2 := by
  intro p member
  -- No square is larger than the sum of all.
  have square : (abc.1 * p.1 ^ 2 + abc.2.1 * p.1 + abc.2.2 - p.2) ^ 2 ≤ squaredError ts ys abc := by
    refine List.single_le_sum ?_ _ (List.mem_map.mpr ⟨p, member, rfl⟩)
    intro x inside
    obtain ⟨q, -, rfl⟩ := List.mem_map.mp inside
    exact sq_nonneg _
  have zero := le_antisymm (square.trans none) (sq_nonneg _)
  exact sub_eq_zero.mp (pow_eq_zero_iff two_ne_zero |>.mp zero)

/-- The angles of a ramp lie on a line through zero. -/
theorem squaredError_ramp (p d : ℤ) (n : ℕ) :
    squaredError (encTimes n) (encData pii p (ramp p d n)) (0, d * simpleEncSpeedK pii, 0) ≤ 0 := by
  -- Every distance from the line is zero.
  rw [squaredError, zip_ramp]
  refine (List.sum_eq_zero ?_).le
  intro x member
  obtain ⟨q, inside, rfl⟩ := List.mem_map.mp member
  obtain ⟨i, -, rfl⟩ := List.mem_map.mp inside
  rw [← simpleEncSpeedK_mul_time pii]
  push_cast
  ring

/-- A parabola through the angles of a ramp is the line with the ramp's slope. -/
theorem slope_of_through {p d : ℤ} {n : ℕ} (enough : 3 ≤ n) {abc : K × K × K}
    (through : ∀ q ∈ (encTimes n).zip (encData pii p (ramp p d n)),
      abc.1 * q.1 ^ 2 + abc.2.1 * q.1 + abc.2.2 = q.2) :
    abc.1 = 0 ∧ abc.2.1 = d * simpleEncSpeedK pii := by
  have point (i : ℕ) (inside : i < n) : abc.1 * ((i : K) * encReadRate * 0.001) ^ 2 +
      abc.2.1 * ((i : K) * encReadRate * 0.001) + abc.2.2 = i * d * encTicks2Radians pii := by
    have member : ((i : K) * encReadRate * 0.001,
        ((p + (i : ℤ) * d - p : ℤ) : K) * encTicks2Radians pii) ∈
        (encTimes n).zip (encData pii p (ramp p d n)) := by
      rw [zip_ramp]
      exact List.mem_map.mpr ⟨i, List.mem_range.mpr inside, rfl⟩
    simpa using through _ member
  -- Three of its points determine the parabola.
  refine line_of_fit (e := abc.2.2) (t := (encReadRate : K) * 0.001) (by norm_num [encReadRate])
    ?_ ?_ ?_
  · -- The ramp starts at zero.
    simpa using point 0 (by omega)
  · -- The second point is one step of the ramp away, the third one two.
    have on := point 1 (by omega)
    rw [Nat.cast_one, one_mul, one_mul] at on
    rw [on, ← simpleEncSpeedK_mul_time pii]
    ring
  · have on := point 2 (by omega)
    rw [Nat.cast_ofNat, mul_assoc] at on
    rw [on, ← simpleEncSpeedK_mul_time pii]
    ring

/-- On a full enough buffer of a ramp, both estimates are the slope of the ramp. -/
theorem EncSpeed.updateEncSpeed_ramp (fit : ExactFit parabola_appr) {p d : ℤ} {n : ℕ} (enough : 4 ≤ n)
    (within : n ≤ encBufSize) (held : m.encBuf = ramp p d n) :
    (m.updateEncSpeed pii parabola_appr).estimates =
      (d * simpleEncSpeedK pii, d * simpleEncSpeedK pii) := by
  -- The line through the angles is the best parabola, so the returned one has no error either.
  have best := fit n enough within (encData pii p (ramp p d n)) (by simp [encData, ramp])
    (0, d * simpleEncSpeedK pii, 0)
  obtain ⟨flat, slope⟩ := slope_of_through pii (by omega)
    (fit_of_squaredError (best.trans (squaredError_ramp pii p d n)))
  -- The buffer has a first position, as the function wants it.
  have whole : ramp p d n = p :: (ramp p d n).tail := by
    obtain ⟨k, rfl⟩ : ∃ k, n = k + 1 := ⟨n - 1, by omega⟩
    simp [ramp, List.range_succ_eq_map]
  have size : (ramp p d n).tail.length = n - 1 := by
    rw [List.length_tail, ramp, List.length_map, List.length_range]
  have last (i : ℕ) (inside : i < n) : (ramp p d n).getD i 0 = p + i * d := by
    rw [List.getD_eq_getElem?_getD, List.getElem?_eq_getElem (by simpa [ramp] using inside)]
    simp [ramp]
  -- The simple estimate looks at the last two positions.
  have step : p + ((n - 1 : ℕ) : ℤ) * d - (p + ((n - 1 - 1 : ℕ) : ℤ) * d) = d := by
    have next : ((n - 1 : ℕ) : ℤ) = ((n - 1 - 1 : ℕ) : ℤ) + 1 := by omega
    rw [next]
    ring
  rw [updateEncSpeed_full pii parabola_appr (held.trans whole) (by omega), ← whole, size,
    Nat.sub_add_cancel (by omega), flat, slope, last _ (by omega), last _ (by omega), step]
  simp

/-- From the fourth position of a ramp on, both estimates are its slope. -/
theorem EncSpeed.feed_ramp (fit : ExactFit parabola_appr) (m : EncSpeed K) (p d : ℤ) {k : ℕ}
    (enough : 4 ≤ k) :
    (m.feed pii parabola_appr (ramp p d k)).estimates =
      (d * simpleEncSpeedK pii, d * simpleEncSpeedK pii) := by
  -- The last update works on the buffer that it leaves behind.
  have some_ : ramp p d k ≠ [] := by
    intro none
    have size := congrArg List.length none
    simp only [ramp, List.length_map, List.length_range, List.length_nil] at size
    omega
  obtain ⟨past, q, split⟩ : ∃ past q, ramp p d k = past ++ [q] :=
    ⟨_, _, (List.dropLast_append_getLast some_).symm⟩
  have held : ((m.feed pii parabola_appr past).rAdd q).encBuf =
      (ramp p d k).drop (k - encBufSize) := by
    have buf := feed_encBuf pii parabola_appr (m := m) (ramp p d k)
    rw [ramp, List.length_map, List.length_range, ← ramp, split, feed, List.foldl_concat,
      updateEncSpeed_encBuf] at buf
    rw [split]
    exact buf
  -- What is left in the buffer is a ramp again, with a later start.
  have newest : (ramp p d k).drop (k - encBufSize) =
      ramp (p + (k - encBufSize : ℕ) * d) d (k - (k - encBufSize)) := by
    rw [← ramp_drop, Nat.add_sub_cancel' (Nat.sub_le _ _)]
  rw [split, feed, List.foldl_concat]
  refine updateEncSpeed_ramp pii parabola_appr fit ?_ ?_ (held.trans newest)
  · unfold encBufSize
    omega
  · unfold encBufSize
    omega

/--
After a reset and some positions, the offset of the encoder does not show in the estimates exactly if
there are two positions, or the offset is zero; and on a ramp both estimates are its slope from the
fourth position on.
-/
theorem encoder_zero_iff (nonzero : pii ≠ 0) (fit : ExactFit parabola_appr) (m : EncSpeed K) :
    (∀ positions ≠ [], ∀ c, (m.feed pii parabola_appr (positions.map (· + c))).estimates =
        (m.feed pii parabola_appr positions).estimates ↔ 2 ≤ positions.length ∨ c = 0) ∧
      ∀ p d k, 4 ≤ k → (m.feed pii parabola_appr (ramp p d k)).estimates =
        (d * simpleEncSpeedK pii, d * simpleEncSpeedK pii) :=
  ⟨fun _ some_ c => m.estimates_shift_iff pii parabola_appr nonzero c some_,
    fun p d _ enough => m.feed_ramp pii parabola_appr fit p d enough⟩

end

/-- The least-squares parabola for four and five equidistant times, 2 ms apart and from zero on. -/
def leastSquares (_ : List ℚ) (ys : List ℚ) : ℚ × ℚ × ℚ :=
  match ys with
  | [y0, y1, y2, y3] =>
    let a := (y0 - y1 - y2 + y3) / 4
    let b := (-3 * y0 - y1 + y2 + 3 * y3) / 10 - 3 * a
    (a * 500 ^ 2, b * 500, (y0 + y1 + y2 + y3) / 4 - 7 / 2 * a - 3 / 2 * b)
  | [y0, y1, y2, y3, y4] =>
    let a := (2 * y0 - y1 - 2 * y2 - y3 + 2 * y4) / 14
    let b := (-2 * y0 - y1 + y3 + 2 * y4) / 10 - 4 * a
    (a * 500 ^ 2, b * 500, (y0 + y1 + y2 + y3 + y4) / 5 - 6 * a - 2 * b)
  | _ => (0, 0, 0)

/-- The squared distance of two parabolas at the times `0`, `1 / 500`, … of a buffer. -/
def apart (n : ℕ) (abc abc' : ℚ × ℚ × ℚ) : ℚ :=
  ((encTimes n).map fun t =>
    ((abc.1 - abc'.1) * t ^ 2 + (abc.2.1 - abc'.2.1) * t + (abc.2.2 - abc'.2.2)) ^ 2).sum

/-- A squared distance is not negative. -/
theorem apart_nonneg (n : ℕ) (abc abc' : ℚ × ℚ × ℚ) : 0 ≤ apart n abc abc' := by
  refine List.sum_nonneg ?_
  intro x member
  obtain ⟨t, -, rfl⟩ := List.mem_map.mp member
  exact sq_nonneg _

/-- The error of a parabola is the least one and the squared distance from the best parabola. -/
theorem squaredError_apart {n : ℕ} (known : n = 4 ∨ n = 5) {ys : List ℚ} (size : ys.length = n)
    (abc : ℚ × ℚ × ℚ) :
    squaredError (encTimes n) ys abc =
      squaredError (encTimes n) ys (leastSquares (encTimes n) ys) +
        apart n abc (leastSquares (encTimes n) ys) := by
  obtain ⟨a, b, e⟩ := abc
  -- For each size the identity is one of polynomials in the data and the parabola.
  obtain rfl | rfl := known
  · match ys, size with
    | [y0, y1, y2, y3], _ =>
      simp only [squaredError, apart, encTimes, leastSquares, encReadRate,
        List.range_succ_eq_map, List.range_zero, List.map_cons, List.map_nil, List.zip_cons_cons,
        List.zip_nil_left, List.sum_cons, List.sum_nil]
      push_cast
      ring
  · match ys, size with
    | [y0, y1, y2, y3, y4], _ =>
      simp only [squaredError, apart, encTimes, leastSquares, encReadRate,
        List.range_succ_eq_map, List.range_zero, List.map_cons, List.map_nil, List.zip_cons_cons,
        List.zip_nil_left, List.sum_cons, List.sum_nil]
      push_cast
      ring

/-- No parabola is closer to the data. -/
theorem leastSquares_exact : ExactFit leastSquares := by
  intro n enough within ys size abc
  unfold encBufSize at within
  -- The distance from the best parabola is what any other one has more.
  rw [squaredError_apart (by omega) size abc]
  exact le_add_of_nonneg_right (apart_nonneg _ _ _)

/-- A motor that has seen nothing yet. -/
def EncSpeed.fresh : EncSpeed ℚ := ⟨[], 0, 0⟩

/-- The second position hides the offset 7, and the ramp from 3 on with step 2 has the speed of its step. -/
theorem encoder_zero_second :
    (EncSpeed.fresh.feed (355 / 113) leastSquares [10, 12]).estimates =
        (EncSpeed.fresh.feed (355 / 113) leastSquares [3, 5]).estimates ∧
      (EncSpeed.fresh.feed (355 / 113) leastSquares (ramp 3 2 6)).estimates =
        (2 * simpleEncSpeedK (355 / 113), 2 * simpleEncSpeedK (355 / 113)) := by
  have both := encoder_zero_iff (355 / 113) leastSquares (by norm_num) leastSquares_exact EncSpeed.fresh
  exact ⟨(both.1 [3, 5] (by decide) 7).mpr (.inl (by decide)),
    by simpa using both.2 3 2 6 (by decide)⟩

/-- The first position 0 and the first position 1 give different speeds of a motor that stands still. -/
theorem encoder_zero_first :
    ¬ ∀ positions ≠ [], ∀ c,
      (EncSpeed.fresh.feed (355 / 113) leastSquares (positions.map (· + c))).estimates =
        (EncSpeed.fresh.feed (355 / 113) leastSquares positions).estimates := by
  intro same
  have first := congrArg Prod.snd (same [0] (by decide) 1)
  rw [List.map_singleton, EncSpeed.feed_first, EncSpeed.feed_first] at first
  norm_num [simpleEncSpeedK, encTicks2Radians, encNumber, encReadRate] at first

end Teetest
