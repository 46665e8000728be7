import Teetest.Lib.Delta
import Teetest.Src.MillisTimer

/-!
The timers of EventResponder.cpp count down independently of each other.

The delta queue in memory, with its pointers and its differences of 32 bits, shows of each timer what a
counter of its own would.
-/

namespace Teetest

open Lib

variable {ι ε : Type}

/-- The active timers of a state form a delta queue. -/
structure MillisTimers.Queue (s : MillisTimers ι ε) (xs : List (ι × ℕ)) : Prop where
  list : DoublyLinked s.next s.prev (xs.map Prod.fst)
  head : s.listActive = (xs.map Prod.fst).head?
  ms : ∀ e ∈ xs, (s.ms e.1).toNat = e.2

section

variable {s : MillisTimers ι ε} {this timer : ι} {front rest xs : List (ι × ℕ)} {d : ℕ}

/-- What is left of the time of a timer behind one that is not due later. -/
theorem MillisTimers.Queue.pass (queue : s.Queue (front ++ (timer, d) :: rest))
    (behind : d ≤ (s.ms this).toNat) : (s.ms this - s.ms timer).toNat = (s.ms this).toNat - d := by
  have delay : (s.ms timer).toNat = d := queue.ms (timer, d) (by simp)
  rw [UInt32.toNat_sub_of_le _ _ (UInt32.le_iff_toNat_le.mpr (delay ▸ behind)), delay]

/-- The neighbours of an active timer are other active timers. -/
theorem MillisTimers.Queue.neighbours (queue : s.Queue xs)
    (inside : this ∈ xs.map Prod.fst) :
    s.next this ≠ some this ∧ (∀ u ∈ s.next this, u ∈ xs.map Prod.fst) ∧
      ∀ u ∈ s.prev this, u ∈ xs.map Prod.fst := by
  obtain ⟨front, rest, split⟩ := List.append_of_mem inside
  have list := split ▸ queue.list
  have distinct := List.nodup_cons.mp (List.nodup_middle.mp list.nodup)
  rw [list.next_eq, list.prev_eq, split]
  refine ⟨fun same => distinct.1 (List.mem_append_right _ (List.mem_of_head? same)), fun u member => ?_,
    fun u member => ?_⟩
  · exact List.mem_append_right _ (List.mem_cons_of_mem _ (List.mem_of_head? member))
  · exact List.mem_append_left _ (List.mem_of_getLast? member)

end

variable [DecidableEq ι]

/-- A timer was put into a queue, and nothing else was written. -/
structure MillisTimers.Activated (s : MillisTimers ι ε) (this : ι) (xs : List (ι × ℕ))
    (t : MillisTimers ι ε) : Prop where
  queue : t.Queue (deltaInsert this (s.ms this).toNat xs)
  reload : t.reload = s.reload
  event : t.event = s.event
  listWaiting : t.listWaiting = s.listWaiting
  state : t.state = Function.update s.state this .timerActive
  next : ∀ u, u ≠ this → u ∉ xs.map Prod.fst → t.next u = s.next u
  ms : ∀ u, u ≠ this → u ∉ xs.map Prod.fst → t.ms u = s.ms u

section

variable {s t : MillisTimers ι ε} {this timer : ι} {front rest xs : List (ι × ℕ)} {d fuel : ℕ}

/-- What is not in the queue may be written. -/
theorem MillisTimers.Queue.update_ms (queue : s.Queue xs) (fresh : this ∉ xs.map Prod.fst) (v : UInt32) :
    { s with ms := Function.update s.ms this v }.Queue xs := by
  refine ⟨queue.list, queue.head, fun e member => ?_⟩
  have other : e.1 ≠ this := fun same => fresh (same ▸ List.mem_map_of_mem member)
  simp only [Function.update_of_ne other]
  exact queue.ms e member

/-- The search for a place inserts the timer behind the part that was passed. -/
theorem MillisTimers.findPlace_spec (queue : s.Queue (front ++ (timer, d) :: rest))
    (fresh : this ∉ (front ++ (timer, d) :: rest).map Prod.fst) (behind : d ≤ (s.ms this).toNat)
    (enough : rest.length < fuel) :
    ∃ t, s.findPlace this fuel timer = some t ∧
      t.Queue (front ++ (timer, d) :: deltaInsert this ((s.ms this).toNat - d) rest) ∧
      t.reload = s.reload ∧ t.event = s.event ∧ t.listWaiting = s.listWaiting ∧
      t.state = Function.update s.state this .timerActive ∧
      ∀ u, u ≠ this → u ∉ (front ++ (timer, d) :: rest).map Prod.fst →
        t.next u = s.next u ∧ t.ms u = s.ms u := by
  induction rest generalizing front timer d s fuel with
  | nil =>
    obtain ⟨fuel, rfl⟩ := Nat.exists_eq_succ_of_ne_zero (Nat.ne_of_gt enough)
    have left := queue.pass behind
    have passed := queue.update_ms fresh (s.ms this - s.ms timer)
    have list := queue.list
    have distinct := fresh
    simp only [List.map_append, List.map_cons, List.map_nil] at list distinct
    have next : s.next timer = none := list.next_eq
    simp only [findPlace, next]
    refine ⟨_, rfl, ⟨?_, ?_, ?_⟩, rfl, rfl, rfl, rfl, fun u other outside => ?_⟩
    · -- The list grows at its end.
      have whole : DoublyLinked s.next s.prev ((front.map Prod.fst ++ [timer]) ++ []) := by simpa using list
      have grown := whole.insert _ _ (x := this) (by simpa using distinct)
      simpa [deltaInsert] using grown
    · rw [queue.head]
      cases front <;> rfl
    · intro e member
      rcases List.mem_append.mp member with old | new
      · exact passed.ms e (List.mem_append_left _ old)
      · rcases List.mem_cons.mp new with rfl | new
        · exact passed.ms _ (by simp)
        · obtain rfl := List.mem_singleton.mp new
          simpa using left
    · simp only [List.map_append, List.map_cons, List.map_nil, List.mem_append, List.mem_singleton,
        not_or] at outside
      simp [Function.update_of_ne other, Function.update_of_ne outside.2]
  | cons e rest ih =>
    obtain ⟨following, d'⟩ := e
    obtain ⟨fuel, rfl⟩ := Nat.exists_eq_succ_of_ne_zero (Nat.ne_of_gt (Nat.zero_lt_of_lt enough))
    have left := queue.pass behind
    have passed := queue.update_ms fresh (s.ms this - s.ms timer)
    have list := queue.list
    have distinct := fresh
    simp only [List.map_append, List.map_cons] at list distinct
    have next : s.next timer = some following := list.next_eq
    have split : DoublyLinked s.next s.prev
        ((front.map Prod.fst ++ [timer]) ++ following :: rest.map Prod.fst) := by simpa using list
    have prev : s.prev following = some timer := by simpa using split.prev_eq
    have delay : (s.ms following).toNat = d' := queue.ms (following, d') (by simp)
    have other' : following ≠ this := fun same => distinct (by simp [same])
    simp only [findPlace, next, Function.update_self, Function.update_of_ne other', prev, Option.map_some,
      UInt32.lt_iff_toNat_lt, left, delay, deltaInsert]
    split_ifs with ahead
    · -- The place is in front of the next timer.
      refine ⟨_, rfl, ⟨?_, ?_, ?_⟩, rfl, rfl, rfl, rfl, fun u other outside => ?_⟩
      · have grown := split.insert _ _ (x := this) (by simpa using distinct)
        simpa using grown
      · rw [queue.head]
        cases front <;> rfl
      · have once := (List.nodup_cons.mp (List.nodup_middle.mp split.nodup)).1
        have old : ∀ e ∈ front ++ (timer, d) :: (following, d') :: rest, e.1 ≠ following →
            (Function.update (Function.update s.ms this (s.ms this - s.ms timer)) following
              (s.ms following - (s.ms this - s.ms timer)) e.1).toNat = e.2 := by
          intro e member apart
          rw [Function.update_of_ne apart]
          exact passed.ms e member
        have apart : ∀ e ∈ front ++ (timer, d) :: rest, e.1 ≠ following := by
          intro e member same
          have inside : following ∈ (front ++ (timer, d) :: rest).map Prod.fst :=
            same ▸ List.mem_map_of_mem member
          exact once (by simpa using inside)
        intro e member
        rcases List.mem_append.mp member with member | member
        · exact old e (List.mem_append_left _ member) (apart e (List.mem_append_left _ member))
        rcases List.mem_cons.mp member with rfl | member
        · exact old _ (by simp) (apart _ (by simp))
        rcases List.mem_cons.mp member with rfl | member
        · simpa [Function.update_of_ne other'.symm] using left
        rcases List.mem_cons.mp member with rfl | member
        · -- The next timer waits so much less.
          have less : s.ms this - s.ms timer ≤ s.ms following :=
            UInt32.le_iff_toNat_le.mpr (by omega)
          simp only [Function.update_self]
          rw [UInt32.toNat_sub_of_le _ _ less, left, delay]
        · exact old e (by simp [member]) (apart e (by simp [member]))
      · simp only [List.map_append, List.map_cons, List.mem_append, List.mem_cons, not_or] at outside
        simp [Function.update_of_ne other, Function.update_of_ne outside.2.1,
          Function.update_of_ne outside.2.2.1]
    · -- The search goes on behind the next timer.
      have again : (front ++ [(timer, d)]) ++ (following, d') :: rest =
          front ++ (timer, d) :: (following, d') :: rest := by simp
      have whole : Queue _ ((front ++ [(timer, d)]) ++ (following, d') :: rest) := again ▸ passed
      have short : rest.length < fuel := by simpa using enough
      obtain ⟨t, found, later, reload, event, waiting, state, others⟩ :=
        ih whole (again ▸ fresh) (by simpa [left] using ahead) short
      refine ⟨t, found, ?_, reload, event, waiting, state, fun u other outside => ?_⟩
      · simpa [left] using later
      · obtain ⟨sameNext, sameMs⟩ := others u other (again ▸ outside)
        exact ⟨sameNext, by simpa [Function.update_of_ne other] using sameMs⟩

/-- `addToActiveList` inserts a timer into the queue. -/
theorem MillisTimers.addToActiveList_spec (queue : s.Queue xs) (fresh : this ∉ xs.map Prod.fst)
    (enough : xs.length ≤ fuel) :
    ∃ t, s.addToActiveList this fuel = some t ∧ s.Activated this xs t := by
  cases xs with
  | nil =>
    -- The list is empty.
    have empty : s.listActive = none := queue.head
    simp only [addToActiveList, empty]
    refine ⟨_, rfl, ⟨?_, rfl, ?_⟩, rfl, rfl, rfl, rfl, fun u other _ => ?_, fun u other _ => rfl⟩
    · exact DoublyLinked.nil.insert [] [] (List.not_mem_nil)
    · intro e member
      obtain rfl := List.mem_singleton.mp member
      rfl
    · exact Function.update_of_ne other _ _
  | cons e rest =>
    obtain ⟨first, d⟩ := e
    have head : s.listActive = some first := queue.head
    have delay : (s.ms first).toNat = d := queue.ms (first, d) List.mem_cons_self
    have other' : first ≠ this := fun same => fresh (by simp [same])
    simp only [addToActiveList, head, UInt32.lt_iff_toNat_lt, delay]
    split_ifs with ahead
    · -- The timer comes to the front.
      have apart : ∀ e ∈ rest, e.1 ≠ first := by
        intro e member same
        have inside : first ∈ rest.map Prod.fst := same ▸ List.mem_map_of_mem member
        exact (List.nodup_cons.mp queue.list.nodup).1 inside
      have inserted : deltaInsert this (s.ms this).toNat ((first, d) :: rest) =
          (this, (s.ms this).toNat) :: (first, d - (s.ms this).toNat) :: rest := by
        rw [deltaInsert, if_pos ahead]
      refine ⟨_, rfl, ?_, rfl, rfl, rfl, rfl, fun u other _ => ?_, fun u other outside => ?_⟩
      · rw [inserted]
        refine ⟨queue.list.insert [] _ fresh, rfl, fun e member => ?_⟩
        rcases List.mem_cons.mp member with rfl | member
        · exact congrArg UInt32.toNat (Function.update_of_ne other'.symm _ _)
        rcases List.mem_cons.mp member with rfl | member
        · -- The timer that was first waits so much less.
          have less : s.ms this ≤ s.ms first := UInt32.le_iff_toNat_le.mpr (by omega)
          simp only [Function.update_self]
          rw [UInt32.toNat_sub_of_le _ _ less, delay]
        · simp only [Function.update_of_ne (apart e member)]
          exact queue.ms e (List.mem_cons_of_mem _ member)
      · exact Function.update_of_ne other _ _
      · exact Function.update_of_ne (fun same => outside (by simp [same])) _ _
    · have whole : s.Queue ([] ++ (first, d) :: rest) := queue
      have short : rest.length < fuel := by simpa using enough
      obtain ⟨t, found, later, reload, event, waiting, state, others⟩ :=
        findPlace_spec whole fresh (Nat.not_lt.mp ahead) short
      refine ⟨t, found, ?_, reload, event, waiting, state, fun u other outside => (others u other outside).1,
        fun u other outside => (others u other outside).2⟩
      rw [deltaInsert, if_neg ahead]
      exact later

end

/-- What a timer does on its own: it waits for a tick, counts down and triggers its event. -/
inductive Countdown (ε : Type)
  | off
  | waiting (ms reload : ℕ) (event : ε)
  | active (ms reload : ℕ) (event : ε)

/-- The first loop of a tick: a timer triggers its event, or its time decreases. -/
def Countdown.trigger : Countdown ε → Countdown ε × Option ε
  | .active 0 0 event => (.off, some event)
  | .active 0 (reload + 1) event => (.active reload (reload + 1) event, some event)
  | .active (ms + 1) reload event => (.active ms reload event, none)
  | c => (c, none)

/-- The second loop of a tick: a timer that waited starts. -/
def Countdown.startWaiting : Countdown ε → Countdown ε
  | .waiting ms reload event => .active ms reload event
  | c => c

/-- What a state of all timers shows of one of them. -/
def MillisTimers.Shows (s : MillisTimers ι ε) (xs : List (ι × ℕ)) (ws : List ι) (u : ι) :
    Countdown ε → Prop
  | .off => u ∉ xs.map Prod.fst ∧ u ∉ ws
  | .waiting ms reload event =>
    u ∈ ws ∧ (s.ms u).toNat = ms ∧ (s.reload u).toNat = reload ∧ s.event u = some event
  | .active ms reload event =>
    due xs u = some ms ∧ (s.reload u).toNat = reload ∧ s.event u = some event

/-- The lists of active and of waiting timers are in memory. -/
structure MillisTimers.Holds (s : MillisTimers ι ε) (xs : List (ι × ℕ)) (ws : List ι) : Prop where
  queue : s.Queue xs
  waiting : Linked s.next ws
  nodup : ws.Nodup
  apart : ∀ u ∈ ws, u ∉ xs.map Prod.fst
  small : ∀ u d, due xs u = some d → d < 2 ^ 32

/-- The list that a timer is in. -/
def timerPlace (xs : List (ι × ℕ)) (ws : List ι) (u : ι) : TimerState :=
  if u ∈ xs.map Prod.fst then .timerActive else if u ∈ ws then .timerWaiting else .timerOff

section

variable {s t : MillisTimers ι ε} {this u : ι} {xs : List (ι × ℕ)} {ws : List ι} {fuel rounds : ℕ}

/-- The members that `addToActiveList` leaves, and those of the timers outside the queue. -/
structure MillisTimers.Started (s : MillisTimers ι ε) (this : ι) (xs : List (ι × ℕ)) (ws : List ι)
    (t : MillisTimers ι ε) : Prop where
  holds : t.Holds (deltaInsert this (s.ms this).toNat xs) ws
  place : ∀ u, t.state u = timerPlace (deltaInsert this (s.ms this).toNat xs) ws u
  reload : t.reload = s.reload
  event : t.event = s.event
  listWaiting : t.listWaiting = s.listWaiting
  ms : ∀ u ∈ ws, t.ms u = s.ms u

/-- A timer that is in neither list is put into the queue. -/
theorem MillisTimers.Holds.start [Fintype ι] (holds : s.Holds xs ws) (enough : Fintype.card ι < fuel)
    (fresh : this ∉ xs.map Prod.fst) (idle : this ∉ ws)
    (place : ∀ u, u ≠ this → s.state u = timerPlace xs ws u) :
    ∃ t, s.addToActiveList this fuel = some t ∧ s.Started this xs ws t := by
  have length : xs.length ≤ fuel := by
    have := holds.queue.list.nodup.length_le_card
    rw [List.length_map] at this
    omega
  obtain ⟨t, added, queue, reload, event, waiting, state, next, ms⟩ :=
    addToActiveList_spec holds.queue fresh length
  have inside := map_fst_insert this (s.ms this).toNat xs
  refine ⟨t, added, ⟨queue, ?_, holds.nodup, fun u member => ?_, fun u d entry => ?_⟩, fun u => ?_,
    reload, event, waiting, fun u member => ?_⟩
  · -- The waiting timers keep their links.
    refine holds.waiting.congr fun u member => next u ?_ (holds.apart u member)
    exact fun same => idle (same ▸ member)
  · rw [inside.mem_iff, List.mem_cons, not_or]
    exact ⟨fun same => idle (same ▸ member), holds.apart u member⟩
  · by_cases same : this = u
    · subst same
      rw [due_insert_self fresh] at entry
      obtain rfl := Option.some.inj entry
      exact UInt32.toNat_lt _
    · rw [due_insert_of_ne same] at entry
      exact holds.small u d entry
  · rw [state]
    by_cases same : u = this
    · subst same
      rw [Function.update_self, timerPlace, if_pos (inside.mem_iff.mpr List.mem_cons_self)]
    · rw [Function.update_of_ne same, place u same, timerPlace, timerPlace]
      simp only [inside.mem_iff, List.mem_cons, same, false_or]
  · exact ms u (fun same => idle (same ▸ member)) (holds.apart u member)

/-- The other timers show what they did. -/
theorem MillisTimers.Started.shows_of_ne (started : s.Started this xs ws t) (other : this ≠ u)
    {c : Countdown ε} (shows : s.Shows xs ws u c) :
    t.Shows (deltaInsert this (s.ms this).toNat xs) ws u c := by
  have same : due (deltaInsert this (s.ms this).toNat xs) u = due xs u := due_insert_of_ne other _
  cases c with
  | off =>
    refine ⟨?_, shows.2⟩
    rw [← due_eq_none, same, due_eq_none]
    exact shows.1
  | waiting ms reload event =>
    obtain ⟨member, left, again, triggers⟩ := shows
    exact ⟨member, started.ms u member ▸ left, started.reload ▸ again, started.event ▸ triggers⟩
  | active ms reload event =>
    obtain ⟨left, again, triggers⟩ := shows
    exact ⟨same ▸ left, started.reload ▸ again, started.event ▸ triggers⟩

/-- The timer itself counts down. -/
theorem MillisTimers.Started.shows (started : s.Started this xs ws t) (fresh : this ∉ xs.map Prod.fst)
    {event : ε} (triggers : s.event this = some event) :
    t.Shows (deltaInsert this (s.ms this).toNat xs) ws this
      (.active (s.ms this).toNat (s.reload this).toNat event) :=
  ⟨due_insert_self fresh _, congrArg UInt32.toNat (congrFun started.reload this),
    (congrFun started.event this).trans triggers⟩

/-- The first timer is taken out of the queue. -/
def MillisTimers.popped (this : ι) (s : MillisTimers ι ε) : MillisTimers ι ε :=
  { s with
    prev := assign s.prev (s.next this) none
    listActive := s.next this
    state := Function.update s.state this .timerOff }

/-- Without a first timer that was due, the others are due when they were. -/
theorem MillisTimers.Holds.pop (holds : s.Holds ((this, 0) :: xs) ws) :
    (s.popped this).Holds xs ws := by
  have next : s.next this = (xs.map Prod.fst).head? := holds.queue.list.next_links.1
  have fresh := (List.nodup_cons.mp holds.queue.list.nodup).1
  refine ⟨⟨?_, next, fun e member => holds.queue.ms e (List.mem_cons_of_mem _ member)⟩, holds.waiting,
    holds.nodup, fun u member => ?_, fun u d entry => ?_⟩
  · have rest := holds.queue.list.remove [] _
    simpa [popped, next] using rest
  · exact fun inside => holds.apart u member (List.mem_cons_of_mem _ inside)
  · have other : this ≠ u := fun same => fresh (same ▸ mem_of_due entry)
    refine holds.small u d ?_
    rw [due, if_neg other, entry, Option.map_some, Nat.zero_add]

/-- It is in no list any more. -/
theorem MillisTimers.Holds.pop_place (holds : s.Holds ((this, 0) :: xs) ws)
    (place : ∀ u, s.state u = timerPlace ((this, 0) :: xs) ws u) (u : ι) :
    (s.popped this).state u = timerPlace xs ws u := by
  have fresh := (List.nodup_cons.mp holds.queue.list.nodup).1
  have idle : this ∉ ws := fun member => holds.apart this member List.mem_cons_self
  by_cases same : u = this
  · subst same
    rw [timerPlace, if_neg fresh, if_neg idle]
    exact Function.update_self u _ _
  · have kept : (s.popped this).state u = s.state u := Function.update_of_ne same _ _
    rw [kept, place, timerPlace, timerPlace]
    simp only [List.map_cons, List.mem_cons, same, false_or]

/-- A timer that triggers its event either waits again or is off. -/
theorem MillisTimers.Shows.pop_of_ne (other : this ≠ u) {c : Countdown ε}
    (shows : s.Shows ((this, 0) :: xs) ws u c) : (s.popped this).Shows xs ws u c := by
  cases c with
  | off => exact ⟨fun inside => shows.1 (List.mem_cons_of_mem _ inside), shows.2⟩
  | waiting ms reload event => exact shows
  | active ms reload event =>
    obtain ⟨left, rest⟩ := shows
    rw [due, if_neg other] at left
    refine ⟨?_, rest⟩
    simpa using left

/-- What a timer does behind its event. -/
def Countdown.again (reload : ℕ) (event : ε) : Countdown ε :=
  if reload = 0 then .off else .active reload reload event

/-- With the rest of the tick this is what the timer would do on its own. -/
theorem Countdown.again_trigger (reload : ℕ) (event : ε) :
    (Countdown.again reload event).trigger.1 = (Countdown.active 0 reload event).trigger.1 := by
  cases reload <;> rfl

theorem Countdown.again_quiet (reload : ℕ) (event : ε) :
    (Countdown.again reload event).trigger.2 = none := by
  cases reload <;> rfl

/-- What two states show of all timers but one. -/
def MillisTimers.AlikeBut (this : ι) (s : MillisTimers ι ε) (xs : List (ι × ℕ)) (ws : List ι)
    (t : MillisTimers ι ε) (ys : List (ι × ℕ)) : Prop :=
  ∀ u, this ≠ u → ∀ c : Countdown ε, s.Shows xs ws u c → t.Shows ys ws u c

/-- A timer that has triggered its event goes into the queue again if it repeats. -/
theorem MillisTimers.Holds.again [Fintype ι] (holds : s.Holds xs ws) (enough : Fintype.card ι < fuel)
    (fresh : this ∉ xs.map Prod.fst) (idle : this ∉ ws) (place : ∀ u, s.state u = timerPlace xs ws u)
    {event : ε} (triggers : s.event this = some event) :
    ∃ t ys, s.again this fuel = some t ∧ t.Holds ys ws ∧ (∀ u, t.state u = timerPlace ys ws u) ∧
      t.listWaiting = s.listWaiting ∧ ripe ys = ripe xs ∧ s.AlikeBut this xs ws t ys ∧
      t.Shows ys ws this (.again (s.reload this).toNat event) := by
  rw [MillisTimers.again]
  by_cases once : s.reload this = 0
  · -- Nothing follows.
    rw [if_neg (not_not_intro once)]
    refine ⟨s, xs, rfl, holds, place, rfl, rfl, fun u _ c shows => shows, ?_⟩
    rw [once]
    exact ⟨fresh, idle⟩
  · rw [if_pos once]
    set r : MillisTimers ι ε := { s with ms := Function.update s.ms this (s.reload this) } with r_eq
    have ms : r.ms this = s.reload this := Function.update_self _ _ _
    have alike : s.AlikeBut this xs ws r xs := by
      intro u other c shows
      cases c with
      | off => exact shows
      | waiting left reload event =>
        exact ⟨shows.1, (congrArg UInt32.toNat (Function.update_of_ne other.symm _ _)).trans shows.2.1,
          shows.2.2⟩
      | active left reload event => exact shows
    have ready : r.Holds xs ws :=
      ⟨holds.queue.update_ms fresh _, holds.waiting, holds.nodup, holds.apart, holds.small⟩
    obtain ⟨t, added, started⟩ := ready.start enough fresh idle (fun u _ => place u)
    have repeats : (s.reload this).toNat ≠ 0 := fun zero => once (UInt32.toNat_inj.mp zero)
    have later : 0 < (r.ms this).toNat := ms ▸ Nat.pos_of_ne_zero repeats
    refine ⟨t, _, added, started.holds, started.place, started.listWaiting, ripe_insert this later,
      fun u other c shows => started.shows_of_ne other (alike u other c shows), ?_⟩
    have again := started.shows fresh triggers
    rw [ms] at again ⊢
    rw [Countdown.again, if_neg repeats]
    exact again

/-- The events of a timer among those of a tick. -/
def timerEvents (u : ι) (events : List (ε × ι)) : List ε := (events.filter fun e => e.2 = u).map Prod.fst

/-- A round of the first loop, for a timer that is due. -/
theorem MillisTimers.triggerDue_due (head : s.listActive = some this) (now : ¬0 < s.ms this) :
    s.triggerDue fuel (rounds + 1) =
      (s.event this).bind fun event => ((s.popped this).again this fuel).bind fun t =>
        (t.triggerDue fuel rounds).bind fun r => some (r.1, (event, this) :: r.2) := by
  simp only [triggerDue, head, if_neg now]
  rfl

/-- A timer that is not due shows what it did, one step later. -/
theorem MillisTimers.Shows.count {c : Countdown ε} {d : ℕ} (shows : s.Shows ((this, d + 1) :: xs) ws u c)
    (apart : ∀ u ∈ ws, u ∉ ((this, d + 1) :: xs).map Prod.fst) (v : UInt32) :
    { s with ms := Function.update s.ms this v }.Shows ((this, d) :: xs) ws u c.trigger.1 ∧
      c.trigger.2 = none := by
  cases c with
  | off => exact ⟨shows, rfl⟩
  | waiting ms reload event =>
    obtain ⟨member, left, rest⟩ := shows
    have other : u ≠ this := fun same => apart u member (same ▸ List.mem_cons_self)
    exact ⟨⟨member, (congrArg UInt32.toNat (Function.update_of_ne other _ _)).trans left, rest⟩, rfl⟩
  | active ms reload event =>
    obtain ⟨left, rest⟩ := shows
    rw [due_tick] at left
    obtain ⟨n, later, rfl⟩ := Option.map_eq_some_iff.mp left
    exact ⟨⟨later, rest⟩, rfl⟩

/-- The first loop of a tick does to every timer what the timer would do on its own. -/
theorem MillisTimers.triggerDue_spec [Fintype ι] (holds : s.Holds xs ws) (enough : Fintype.card ι < fuel)
    (place : ∀ u, s.state u = timerPlace xs ws u) {c : ι → Countdown ε}
    (shows : ∀ u, s.Shows xs ws u (c u)) (soon : ripe xs < rounds) :
    ∃ t events ys, s.triggerDue fuel rounds = some (t, events) ∧ t.Holds ys ws ∧
      (∀ u, t.state u = timerPlace ys ws u) ∧ t.listWaiting = s.listWaiting ∧
      (∀ u, t.Shows ys ws u (c u).trigger.1) ∧ ∀ u, timerEvents u events = (c u).trigger.2.toList := by
  induction rounds generalizing s xs c with
  | zero => exact absurd soon (Nat.not_lt_zero _)
  | succ rounds ih =>
    cases xs with
    | nil =>
      -- No timer is active.
      have empty : s.listActive = none := holds.queue.head
      have quiet : ∀ u, (c u).trigger = (c u, none) := by
        intro u
        have shown := shows u
        cases now : c u with
        | off => rfl
        | waiting ms reload event => rfl
        | active ms reload event =>
          rw [now] at shown
          cases shown.1
      simp only [triggerDue, empty]
      refine ⟨s, [], [], rfl, holds, place, rfl, fun u => ?_, fun u => ?_⟩
      · rw [quiet u]
        exact shows u
      · rw [quiet u]
        rfl
    | cons e xs =>
      obtain ⟨timer, d⟩ := e
      have head : s.listActive = some timer := holds.queue.head
      have delay : (s.ms timer).toNat = d := holds.queue.ms (timer, d) List.mem_cons_self
      cases d with
      | succ d =>
        -- The time of all active timers decreases with that of the first.
        have later : 0 < s.ms timer := UInt32.lt_iff_toNat_lt.mpr (delay ▸ Nat.succ_pos d)
        have counts := fun u => (shows u).count holds.apart (s.ms timer - 1)
        simp only [triggerDue, head, if_pos later]
        refine ⟨_, [], (timer, d) :: xs, rfl, ⟨⟨holds.queue.list, rfl, ?_⟩, holds.waiting, holds.nodup,
          holds.apart, ?_⟩, place, rfl, fun u => (counts u).1, fun u => ?_⟩
        · intro e member
          rcases List.mem_cons.mp member with rfl | member
          · simp only [Function.update_self]
            rw [UInt32.toNat_sub_of_le _ _ (UInt32.le_iff_toNat_le.mpr (delay ▸ Nat.succ_pos d)), delay]
            rfl
          · have other : e.1 ≠ timer := by
              intro same
              have inside : timer ∈ xs.map Prod.fst := same ▸ List.mem_map_of_mem member
              exact (List.nodup_cons.mp holds.queue.list.nodup).1 inside
            simp only [Function.update_of_ne other]
            exact holds.queue.ms e (List.mem_cons_of_mem _ member)
        · intro u n left
          have before := holds.small u (n + 1) (by rw [due_tick, left, Option.map_some])
          exact Nat.lt_of_succ_lt before
        · rw [(counts u).2]
          rfl
      | zero =>
        -- The first timer triggers its event.
        have now : ¬0 < s.ms timer := by
          rw [UInt32.lt_iff_toNat_lt, delay]
          exact Nat.lt_irrefl 0
        have fresh := (List.nodup_cons.mp holds.queue.list.nodup).1
        have idle : timer ∉ ws := fun member => holds.apart timer member List.mem_cons_self
        obtain ⟨reload, event, was, again, triggers⟩ : ∃ reload event, c timer = .active 0 reload event ∧
            (s.reload timer).toNat = reload ∧ s.event timer = some event := by
          have shown := shows timer
          cases now : c timer with
          | off =>
            rw [now] at shown
            exact absurd List.mem_cons_self shown.1
          | waiting ms reload event =>
            rw [now] at shown
            exact absurd shown.1 idle
          | active ms reload event =>
            rw [now] at shown
            obtain ⟨left, again, triggers⟩ := shown
            rw [due, if_pos rfl] at left
            obtain rfl := Option.some.inj left
            exact ⟨reload, event, rfl, again, triggers⟩
        obtain ⟨r, ys, repeated, ready, places, waiting, same, alike, shown⟩ :=
          holds.pop.again enough fresh idle (holds.pop_place place) triggers
        have follows : ∀ u, r.Shows ys ws u (Function.update c timer (.again reload event) u) := by
          intro u
          by_cases here : u = timer
          · subst here
            rw [Function.update_self, ← again]
            exact shown
          · rw [Function.update_of_ne here]
            exact alike u (Ne.symm here) _ ((shows u).pop_of_ne (Ne.symm here))
        obtain ⟨t, events, zs, rest, held, stays, waits, shown', those⟩ :=
          ih ready places follows (by rw [same]; exact Nat.succ_lt_succ_iff.mp soon)
        refine ⟨t, (event, timer) :: events, zs, ?_, held, stays, waits.trans waiting, fun u => ?_,
          fun u => ?_⟩
        · rw [triggerDue_due head now, triggers, Option.bind_some, repeated, Option.bind_some, rest,
            Option.bind_some]
        · have final := shown' u
          by_cases here : u = timer
          · subst here
            rw [Function.update_self] at final
            rw [was, ← Countdown.again_trigger]
            exact final
          · rwa [Function.update_of_ne here] at final
        · have final := those u
          by_cases here : u = timer
          · subst here
            rw [Function.update_self, Countdown.again_quiet] at final
            rw [was, timerEvents, List.filter_cons_of_pos (by simp), List.map_cons]
            rw [timerEvents] at final
            rw [final]
            cases reload <;> rfl
          · rw [Function.update_of_ne here] at final
            rw [← final, timerEvents, timerEvents, List.filter_cons_of_neg (by simpa using Ne.symm here)]

/-- The second loop of a tick starts the timers that waited. -/
theorem MillisTimers.startWaiting_spec [Fintype ι] (holds : s.Holds xs ws) (enough : Fintype.card ι < fuel)
    (place : ∀ u, s.state u = timerPlace xs ws u) {c : ι → Countdown ε}
    (shows : ∀ u, s.Shows xs ws u (c u)) (short : ws.length ≤ rounds) :
    ∃ t ys, MillisTimers.startWaiting fuel rounds ws.head? s = some t ∧ t.Holds ys [] ∧
      (∀ u, t.state u = timerPlace ys [] u) ∧ t.listWaiting = s.listWaiting ∧
      ∀ u, t.Shows ys [] u (c u).startWaiting := by
  induction ws generalizing s xs rounds c with
  | nil =>
    refine ⟨s, xs, by rw [List.head?_nil, startWaiting], holds, place, rfl, fun u => ?_⟩
    have shown := shows u
    cases now : c u with
    | waiting ms reload event =>
      rw [now] at shown
      exact absurd shown.1 List.not_mem_nil
    | off => rwa [now] at shown
    | active ms reload event => rwa [now] at shown
  | cons waiting ws ih =>
    obtain ⟨rounds, rfl⟩ := Nat.exists_eq_succ_of_ne_zero (Nat.ne_of_gt (Nat.zero_lt_of_lt short))
    have next : s.next waiting = ws.head? := holds.waiting.1
    obtain ⟨idle, distinct⟩ := List.nodup_cons.mp holds.nodup
    have fresh := holds.apart waiting List.mem_cons_self
    -- The timer leaves the list of waiting timers, and the others show what they did.
    have rest : s.Holds xs ws :=
      ⟨holds.queue, holds.waiting.2, distinct, fun u member => holds.apart u (List.mem_cons_of_mem _ member),
        holds.small⟩
    have places : ∀ u, u ≠ waiting → s.state u = timerPlace xs ws u := by
      intro u other
      rw [place, timerPlace, timerPlace]
      simp only [List.mem_cons, other, false_or]
    have others : ∀ u, waiting ≠ u → s.Shows xs ws u (c u) := by
      intro u other
      have shown := shows u
      cases now : c u with
      | off =>
        rw [now] at shown
        exact ⟨shown.1, fun member => shown.2 (List.mem_cons_of_mem _ member)⟩
      | waiting ms reload event =>
        rw [now] at shown
        exact ⟨(List.mem_cons.mp shown.1).resolve_left other.symm, shown.2⟩
      | active ms reload event => rwa [now] at shown
    obtain ⟨ms, reload, event, was, left, again, triggers⟩ : ∃ ms reload event,
        c waiting = .waiting ms reload event ∧ (s.ms waiting).toNat = ms ∧
          (s.reload waiting).toNat = reload ∧ s.event waiting = some event := by
      have shown := shows waiting
      cases now : c waiting with
      | off =>
        rw [now] at shown
        exact absurd List.mem_cons_self shown.2
      | waiting ms reload event =>
        rw [now] at shown
        exact ⟨ms, reload, event, rfl, shown.2⟩
      | active ms reload event =>
        rw [now] at shown
        exact absurd (mem_of_due shown.1) fresh
    obtain ⟨r, added, started⟩ := rest.start enough fresh idle places
    have follows : ∀ u, r.Shows (deltaInsert waiting (s.ms waiting).toNat xs) ws u
        (Function.update c waiting (.active ms reload event) u) := by
      intro u
      by_cases here : u = waiting
      · subst here
        rw [Function.update_self, ← left, ← again]
        exact started.shows fresh triggers
      · rw [Function.update_of_ne here]
        exact started.shows_of_ne (Ne.symm here) (others u (Ne.symm here))
    obtain ⟨t, ys, admitted, held, stays, waits, shown⟩ :=
      ih started.holds started.place follows (Nat.succ_le_succ_iff.mp short)
    refine ⟨t, ys, ?_, held, stays, waits.trans started.listWaiting, fun u => ?_⟩
    · rw [List.head?_cons, startWaiting, added, Option.bind_some, next]
      exact admitted
    · have final := shown u
      by_cases here : u = waiting
      · subst here
        rw [Function.update_self] at final
        rw [was]
        exact final
      · rwa [Function.update_of_ne here] at final

end

/-- A tick, for a timer on its own. -/
def Countdown.tick (c : Countdown ε) : Countdown ε × Option ε := (c.trigger.1.startWaiting, c.trigger.2)

/-- A state of all timers shows of each what the timer would be on its own. -/
def MillisTimers.Tracks (s : MillisTimers ι ε) (c : ι → Countdown ε) : Prop :=
  ∃ xs ws, s.Holds xs ws ∧ (∀ u, s.state u = timerPlace xs ws u) ∧ s.listWaiting = ws.head? ∧
    ∀ u, s.Shows xs ws u (c u)

section

variable {s t : MillisTimers ι ε} {this u : ι} {c : ι → Countdown ε} {fuel : ℕ}

/-- A tick of all timers is a tick of each. -/
theorem MillisTimers.Tracks.runFromTimer [Fintype ι] (tracks : s.Tracks c)
    (enough : Fintype.card ι < fuel) :
    ∃ t events, s.runFromTimer fuel = some (t, events) ∧ t.Tracks (fun u => (c u).tick.1) ∧
      ∀ u, timerEvents u events = (c u).tick.2.toList := by
  obtain ⟨xs, ws, holds, place, waiting, shows⟩ := tracks
  have soon : ripe xs < fuel := by
    have := holds.queue.list.nodup.length_le_card
    have : ripe xs ≤ xs.length := ripe_le_length
    rw [List.length_map] at *
    omega
  obtain ⟨r, events, ys, triggered, held, stays, waits, shown, those⟩ :=
    triggerDue_spec holds enough place shows soon
  have short : ws.length ≤ fuel := by
    have := held.nodup.length_le_card
    omega
  have ready : { r with listWaiting := none }.Holds ys ws :=
    ⟨⟨held.queue.list, held.queue.head, held.queue.ms⟩, held.waiting, held.nodup, held.apart, held.small⟩
  obtain ⟨t, zs, admitted, final, places, none_, shown'⟩ :=
    startWaiting_spec (c := fun u => (c u).trigger.1) ready enough stays
      (fun u => by have := shown u; cases now : (c u).trigger.1 <;> rwa [now] at this) short
  refine ⟨t, events, ?_, ⟨zs, [], final, places, none_, shown'⟩, those⟩
  have waits' : r.listWaiting = ws.head? := waits.trans waiting
  rw [MillisTimers.runFromTimer, triggered]
  simp only [Option.bind_eq_bind, Option.bind_some, waits', admitted]

/-- `end` of an active timer, in one step. -/
theorem MillisTimers.endActive_eq (other : s.next this ≠ some this) :
    s.endActive this =
      { s with
        next := assign s.next (s.prev this) (s.next this)
        prev := assign s.prev (s.next this) (s.prev this)
        ms := assign s.ms (s.next this) ((s.next this).elim 0 fun next => s.ms next + s.ms this)
        listActive := if s.prev this = none then s.next this else s.listActive } := by
  cases right : s.next this with
  | none => cases left : s.prev this <;> simp [endActive, right, left]
  | some next =>
    have apart : this ≠ next := fun same => other (same ▸ right)
    cases left : s.prev this <;> simp [endActive, right, left, Function.update_of_ne apart]

/-- An active timer is taken out of the queue. -/
theorem MillisTimers.Queue.endActive {xs : List (ι × ℕ)} (queue : s.Queue xs)
    (small : ∀ u d, due xs u = some d → d < 2 ^ 32) (inside : this ∈ xs.map Prod.fst) :
    (s.endActive this).Queue (deltaRemove this xs) := by
  obtain ⟨⟨timer, d⟩, member, same⟩ := List.mem_map.mp inside
  obtain rfl : timer = this := same
  obtain ⟨front, rest, rfl⟩ := List.append_of_mem member
  have list := queue.list
  simp only [List.map_append, List.map_cons] at list
  have next : s.next timer = (rest.map Prod.fst).head? := list.next_eq
  have prev : s.prev timer = (front.map Prod.fst).getLast? := list.prev_eq
  have distinct := List.nodup_cons.mp (List.nodup_middle.mp list.nodup)
  have fresh : timer ∉ front.map Prod.fst := fun member => distinct.1 (List.mem_append_left _ member)
  have other : s.next timer ≠ some timer := fun same =>
    distinct.1 (List.mem_append_right _ (List.mem_of_head? (next ▸ same)))
  have delay : (s.ms timer).toNat = d := queue.ms (timer, d) (by simp)
  have removed : deltaRemove timer (front ++ (timer, d) :: rest) = front ++ postpone d rest :=
    deltaRemove_append fresh
  rw [endActive_eq other, removed]
  refine ⟨?_, ?_, fun e member => ?_⟩
  · rw [next, prev, List.map_append, map_fst_postpone]
    exact list.remove _ _
  · rw [prev, next, List.map_append, map_fst_postpone]
    cases front with
    | nil => rfl
    | cons e front =>
      have left : ((e :: front).map Prod.fst).getLast? ≠ none := by simp
      simp only [if_neg left]
      exact queue.head
  · rw [next]
    cases rest with
    | nil =>
      rw [postpone, List.append_nil] at member
      exact queue.ms e (by simp [member])
    | cons following rest =>
      obtain ⟨y, e'⟩ := following
      -- The next timer has the rest of the time too, and the sum is the time of a timer.
      have last : (s.ms y).toNat = e' := queue.ms (y, e') (by simp)
      have once : y ∉ front.map Prod.fst ++ rest.map Prod.fst :=
        (List.nodup_cons.mp (List.nodup_middle.mp distinct.2)).1
      have sum : e' + d < 2 ^ 32 := by
        have apart : timer ≠ y := fun same => distinct.1 (by simp [same])
        have last : (y, e' + d) ∈ front ++ postpone d ((y, e') :: rest) := by simp [postpone]
        obtain ⟨n, entry, le⟩ := le_due (by simpa using distinct.2) last
        rw [← removed, due_remove_of_ne apart] at entry
        exact le.trans_lt (small y n entry)
      simp only [List.map_cons, List.head?_cons, assign_some, Option.elim_some]
      rcases List.mem_append.mp member with old | new
      · have apart : e.1 ≠ y := by
          intro same
          have inside : y ∈ front.map Prod.fst := same ▸ List.mem_map_of_mem old
          exact once (List.mem_append_left _ inside)
        rw [Function.update_of_ne apart]
        exact queue.ms e (List.mem_append_left _ old)
      rcases List.mem_cons.mp new with rfl | new
      · rw [Function.update_self, UInt32.toNat_add, last, delay, Nat.mod_eq_of_lt sum]
      · have apart : e.1 ≠ y := by
          intro same
          have inside : y ∈ rest.map Prod.fst := same ▸ List.mem_map_of_mem new
          exact once (List.mem_append_right _ inside)
        rw [Function.update_of_ne apart]
        exact queue.ms e (by simp [new])

/-- The loop of `end` finds the timer in front of this one, and links it to the next. -/
theorem MillisTimers.skipWaiting_spec {x : ι} {front rest : List ι}
    (links : Linked s.next (x :: front ++ this :: rest)) (apart : this ∉ x :: front)
    (enough : front.length < fuel) :
    MillisTimers.skipWaiting this fuel (some x) s =
      some { s with next := assign s.next (x :: front).getLast? rest.head? } := by
  have last : s.next this = rest.head? := links.next_eq
  induction front generalizing x fuel with
  | nil =>
    obtain ⟨fuel, rfl⟩ := Nat.exists_eq_succ_of_ne_zero (Nat.ne_of_gt enough)
    have here : s.next x = some this := links.1
    rw [skipWaiting, if_pos here, last]
    rfl
  | cons y front ih =>
    obtain ⟨fuel, rfl⟩ := Nat.exists_eq_succ_of_ne_zero (Nat.ne_of_gt (Nat.zero_lt_of_lt enough))
    have next : s.next x = some y := links.1
    have other : y ≠ this := fun same => apart (by simp [same])
    rw [skipWaiting, if_neg (next ▸ fun same => other (Option.some.inj same)), next,
      ih links.2 (fun member => apart (List.mem_cons_of_mem _ member)) (Nat.succ_lt_succ_iff.mp enough),
      List.getLast?_cons_cons]

/-- `end` of an active timer. -/
theorem MillisTimers.Tracks.endActive {xs : List (ι × ℕ)} {ws : List ι} (holds : s.Holds xs ws)
    (place : ∀ u, s.state u = timerPlace xs ws u) (waiting : s.listWaiting = ws.head?)
    (shows : ∀ u, s.Shows xs ws u (c u)) (active : this ∈ xs.map Prod.fst) :
    { s.endActive this with state := Function.update (s.endActive this).state this .timerOff }.Tracks
      (Function.update c this .off) := by
  obtain ⟨other, right, left⟩ := holds.queue.neighbours active
  have queue := holds.queue.endActive holds.small active
  have keys := map_fst_remove this xs
  have distinct := holds.queue.list.nodup
  have gone : this ∉ (deltaRemove this xs).map Prod.fst := keys ▸ distinct.not_mem_erase
  have idle : this ∉ ws := fun member => holds.apart this member active
  refine ⟨deltaRemove this xs, ws, ⟨⟨queue.list, queue.head, queue.ms⟩, ?_, holds.nodup, fun u member => ?_,
    fun u d entry => ?_⟩, fun u => ?_, ?_, fun u => ?_⟩
  · -- The waiting timers keep their links.
    simp only [endActive_eq other]
    exact holds.waiting.assign_of_notMem (fun u member inside => holds.apart u inside (left u member)) _
  · rw [keys]
    exact fun inside => holds.apart u member (List.mem_of_mem_erase inside)
  · have member := mem_of_due entry
    have apart : this ≠ u := fun same => gone (same ▸ member)
    exact holds.small u d (due_remove_of_ne apart xs ▸ entry)
  · simp only [endActive_eq other]
    by_cases same : u = this
    · subst same
      rw [Function.update_self, timerPlace, if_neg gone, if_neg idle]
    · rw [Function.update_of_ne same, place, timerPlace, timerPlace, keys]
      simp only [List.mem_erase_of_ne same]
  · simp only [endActive_eq other]
    exact waiting
  · by_cases same : u = this
    · subst same
      rw [Function.update_self]
      exact ⟨gone, idle⟩
    · have shown := shows u
      have apart : this ≠ u := Ne.symm same
      rw [Function.update_of_ne same]
      cases now : c u with
      | off =>
        rw [now] at shown
        exact ⟨keys ▸ fun inside => shown.1 (List.mem_of_mem_erase inside), shown.2⟩
      | waiting ms reload event =>
        rw [now] at shown
        obtain ⟨member, time, rest⟩ := shown
        refine ⟨member, ?_, ?_⟩
        · simp only [endActive_eq other]
          rwa [assign_of_ne fun same => holds.apart u member (right u same)]
        · simp only [endActive_eq other]
          exact rest
      | active ms reload event =>
        rw [now] at shown
        refine ⟨due_remove_of_ne apart xs ▸ shown.1, ?_⟩
        simp only [endActive_eq other]
        exact shown.2

/-- `end` of a waiting timer. -/
theorem MillisTimers.Tracks.endWaiting {xs : List (ι × ℕ)} {front rest : List ι}
    (holds : s.Holds xs (front ++ this :: rest))
    (place : ∀ u, s.state u = timerPlace xs (front ++ this :: rest) u)
    (shows : ∀ u, s.Shows xs (front ++ this :: rest) u (c u)) :
    { s with
      next := assign s.next front.getLast? rest.head?
      listWaiting := (front ++ rest).head?
      state := Function.update s.state this .timerOff }.Tracks (Function.update c this .off) := by
  have distinct := List.nodup_cons.mp (List.nodup_middle.mp holds.nodup)
  have active : this ∉ xs.map Prod.fst := holds.apart this (by simp)
  have stay : ∀ u, u ≠ this → (u ∈ front ++ rest ↔ u ∈ front ++ this :: rest) := by
    intro u other
    simp [other]
  refine ⟨xs, front ++ rest, ⟨⟨⟨holds.queue.list.nodup, ?_, holds.queue.list.prev_links⟩, holds.queue.head,
    holds.queue.ms⟩, holds.waiting.remove holds.nodup, distinct.2, fun u member => ?_, holds.small⟩,
    fun u => ?_, rfl, fun u => ?_⟩
  · -- The active timers keep their links.
    refine holds.queue.list.next_links.assign_of_notMem (fun u member => holds.apart u ?_) _
    exact List.mem_append_left _ (List.mem_of_getLast? member)
  · refine holds.apart u ((stay u ?_).mp member)
    exact fun same => distinct.1 (same ▸ member)
  · by_cases same : u = this
    · subst same
      rw [timerPlace, if_neg active, if_neg distinct.1]
      exact Function.update_self u _ _
    · simp only [Function.update_of_ne same, place, timerPlace, stay u same]
  · by_cases same : u = this
    · subst same
      rw [Function.update_self]
      exact ⟨active, distinct.1⟩
    · have shown := shows u
      rw [Function.update_of_ne same]
      cases now : c u with
      | off =>
        rw [now] at shown
        exact ⟨shown.1, fun member => shown.2 ((stay u same).mp member)⟩
      | waiting ms reload event =>
        rw [now] at shown
        exact ⟨(stay u same).mpr shown.1, shown.2⟩
      | active ms reload event =>
        rw [now] at shown
        exact shown

/-- `end` switches a timer off, and the others go on. -/
theorem MillisTimers.Tracks.end_ [Fintype ι] (tracks : s.Tracks c) (enough : Fintype.card ι < fuel)
    (this : ι) : ∃ t, s.end_ this fuel = some t ∧ t.Tracks (Function.update c this .off) := by
  obtain ⟨xs, ws, holds, place, waiting, shows⟩ := tracks
  rw [MillisTimers.end_, place this, timerPlace]
  by_cases active : this ∈ xs.map Prod.fst
  · rw [if_pos active]
    exact ⟨_, rfl, Tracks.endActive holds place waiting shows active⟩
  rw [if_neg active]
  by_cases waits : this ∈ ws
  · rw [if_pos waits]
    obtain ⟨front, rest, rfl⟩ := List.append_of_mem waits
    have distinct := List.nodup_cons.mp (List.nodup_middle.mp holds.nodup)
    refine ⟨_, ?_, Tracks.endWaiting holds place shows⟩
    have last : s.next this = rest.head? := holds.waiting.next_eq
    cases front with
    | nil =>
      -- It is the first one of the list.
      have first : s.listWaiting = some this := waiting
      rw [if_pos first, last]
      rfl
    | cons x front =>
      have fresh : this ∉ x :: front := fun member => distinct.1 (List.mem_append_left _ member)
      have first : s.listWaiting = some x := waiting
      have other : s.listWaiting ≠ some this := by
        rw [first]
        exact fun same => fresh (Option.some.inj same ▸ List.mem_cons_self)
      have short : front.length < fuel := by
        have := holds.nodup.length_le_card
        simp only [List.length_append, List.length_cons] at this
        omega
      simp only [if_neg other]
      rw [first, skipWaiting_spec holds.waiting fresh short]
      simp only [Option.map_some, first, List.cons_append, List.head?_cons]
  · -- It is off already.
    rw [if_neg waits]
    have same : Function.update c this .off = c := by
      have shown := shows this
      cases now : c this with
      | off => rw [← now, Function.update_eq_self]
      | waiting ms reload event =>
        rw [now] at shown
        exact absurd shown.1 waits
      | active ms reload event =>
        rw [now] at shown
        exact absurd (mem_of_due shown.1) active
    rw [same]
    exact ⟨s, rfl, xs, ws, holds, place, waiting, shows⟩

/-- A timer that is off is put into the list of waiting timers. -/
theorem MillisTimers.Tracks.wait (tracks : s.Tracks c) (off : c this = .off) (milliseconds reload : UInt32)
    (event : ε) :
    (MillisTimers.addToWaitingList this { s with
      event := Function.update s.event this (some event)
      ms := Function.update s.ms this milliseconds
      reload := Function.update s.reload this reload }).Tracks
        (Function.update c this (.waiting milliseconds.toNat reload.toNat event)) := by
  obtain ⟨xs, ws, holds, place, waiting, shows⟩ := tracks
  obtain ⟨fresh, idle⟩ : this ∉ xs.map Prod.fst ∧ this ∉ ws := by
    have shown := shows this
    rwa [off] at shown
  have outside : ∀ u ∈ xs.map Prod.fst, u ≠ this := fun u member same => fresh (same ▸ member)
  have queue := holds.queue.update_ms fresh milliseconds
  refine ⟨xs, this :: ws, ⟨⟨?_, queue.head, queue.ms⟩, ⟨?_, ?_⟩, List.nodup_cons.mpr ⟨idle, holds.nodup⟩,
    fun u member => ?_, holds.small⟩, fun u => ?_, rfl, fun u => ?_⟩
  · -- The active timers keep their links.
    exact holds.queue.list.congr (fun u member => Function.update_of_ne (outside u member) _ _)
      fun u member => Function.update_of_ne (outside u member) _ _
  · exact (Function.update_self this _ _).trans waiting
  · exact holds.waiting.update_of_notMem idle _
  · rcases List.mem_cons.mp member with rfl | member
    · exact fresh
    · exact holds.apart u member
  · by_cases same : u = this
    · subst same
      rw [timerPlace, if_neg fresh, if_pos List.mem_cons_self]
      exact Function.update_self u _ _
    · simp only [addToWaitingList, Function.update_of_ne same, place, timerPlace, List.mem_cons, same,
        false_or]
  · by_cases same : u = this
    · subst same
      rw [Function.update_self]
      exact ⟨List.mem_cons_self, congrArg UInt32.toNat (Function.update_self u _ _),
        congrArg UInt32.toNat (Function.update_self u _ _), Function.update_self u _ _⟩
    · have shown := shows u
      rw [Function.update_of_ne same]
      cases now : c u with
      | off =>
        rw [now] at shown
        exact ⟨shown.1, fun member => (List.mem_cons.mp member).elim same shown.2⟩
      | waiting ms reload event =>
        rw [now] at shown
        refine ⟨List.mem_cons_of_mem _ shown.1, ?_⟩
        simp only [addToWaitingList, Function.update_of_ne same]
        exact shown.2
      | active ms reload event =>
        rw [now] at shown
        refine ⟨shown.1, ?_⟩
        simp only [addToWaitingList, Function.update_of_ne same]
        exact shown.2

end

/-- So many ticks, for a timer on its own. -/
def Countdown.ticks : ℕ → Countdown ε → Countdown ε × List (Option ε)
  | 0, c => (c, [])
  | n + 1, c => ((c.tick.1.ticks n).1, c.tick.2 :: (c.tick.1.ticks n).2)

/-- A timer that is off stays off. -/
theorem Countdown.off_ticks (n : ℕ) : ((.off : Countdown ε).ticks n).1 = .off := by
  induction n with
  | zero => rfl
  | succ n ih => exact ih

/-- The state in which `begin` leaves a timer. -/
def Countdown.begun (milliseconds reload : UInt32) (event : ε) : Countdown ε :=
  if milliseconds = 0 then .off else .waiting (milliseconds.toNat - 2) reload.toNat event

/-- `begin`, for a timer on its own. -/
def Countdown.begin (u this : ι) (milliseconds reload : UInt32) (event : ε) (interrupts : ℕ)
    (c : Countdown ε) : Countdown ε × List (Option ε) :=
  let r := (if u = this then .off else c).ticks interrupts
  (if u = this then .begun milliseconds reload event else r.1, r.2)

/-- A call, for a timer on its own. -/
def Countdown.call (u : ι) (c : Countdown ε) : TimerCall ι ε → Countdown ε × List (Option ε)
  | .runFromTimer => c.ticks 1
  | .end_ this => (if u = this then .off else c, [])
  | .begin this milliseconds event interrupts => c.begin u this milliseconds 0 event interrupts
  | .beginRepeating this milliseconds event interrupts =>
    c.begin u this milliseconds milliseconds event interrupts

/-- A sequence of calls, for a timer on its own. -/
def Countdown.run (u : ι) : List (TimerCall ι ε) → Countdown ε → Countdown ε × List (Option ε)
  | [], c => (c, [])
  | a :: calls, c => ((run u calls (c.call u a).1).1, (c.call u a).2 ++ (run u calls (c.call u a).1).2)

section

variable [Fintype ι] {s t : MillisTimers ι ε} {this u : ι} {c : ι → Countdown ε} {fuel : ℕ}

/-- Ticks of all timers are ticks of each. -/
theorem MillisTimers.Tracks.ticks (tracks : s.Tracks c) (enough : Fintype.card ι < fuel) (n : ℕ) :
    ∃ t events, s.ticks fuel n = some (t, events) ∧ t.Tracks (fun u => ((c u).ticks n).1) ∧
      ∀ u, events.map (timerEvents u) = ((c u).ticks n).2.map Option.toList := by
  induction n generalizing s c with
  | zero => exact ⟨s, [], rfl, tracks, fun u => rfl⟩
  | succ n ih =>
    obtain ⟨r, events, ticked, follows, those⟩ := tracks.runFromTimer enough
    obtain ⟨t, later, rest, final, all⟩ := ih follows
    refine ⟨t, events :: later, ?_, final, fun u => ?_⟩
    · simp only [MillisTimers.ticks, ticked, Option.bind_eq_bind, Option.bind_some, rest]
    · rw [List.map_cons, those, all, Countdown.ticks, List.map_cons]

/-- `begin` of one timer leaves the others alone. -/
theorem MillisTimers.Tracks.begin (tracks : s.Tracks c) (enough : Fintype.card ι < fuel) (this : ι)
    (milliseconds reload : UInt32) (event : ε) (interrupts : ℕ) :
    ∃ t events, s.begin this fuel milliseconds reload event interrupts = some (t, events) ∧
      t.Tracks (fun u => ((c u).begin u this milliseconds reload event interrupts).1) ∧
      ∀ u, events.map (timerEvents u) =
        ((c u).begin u this milliseconds reload event interrupts).2.map Option.toList := by
  have ends : (if s.state this ≠ .timerOff then s.end_ this fuel else some s) = s.end_ this fuel := by
    split_ifs with used
    · rfl
    · rw [MillisTimers.end_, not_not.mp used]
  obtain ⟨r, ended, off⟩ := tracks.end_ enough this
  obtain ⟨t, events, ticked, follows, those⟩ := off.ticks enough interrupts
  simp only [Function.update_apply] at follows those
  rw [MillisTimers.begin, ends, ended]
  simp only [Option.bind_eq_bind, Option.bind_some, ticked]
  by_cases never : milliseconds = 0
  · -- The timer stays off.
    refine ⟨t, events, if_pos never, ?_, those⟩
    convert follows using 2 with u
    by_cases same : u = this
    · rw [Countdown.begin, if_pos same, if_pos same, Countdown.begun, if_pos never, Countdown.off_ticks]
    · rw [Countdown.begin, if_neg same, if_neg same]
  · rw [if_neg never]
    have idle : ((if this = this then .off else c this : Countdown ε).ticks interrupts).1 = .off := by
      rw [if_pos rfl, Countdown.off_ticks]
    refine ⟨_, events, rfl, ?_, those⟩
    convert follows.wait idle (if milliseconds > 2 then milliseconds - 2 else 0) reload event using 2 with u
    by_cases same : u = this
    · subst same
      have begun : ((c u).begin u u milliseconds reload event interrupts).1 =
          .begun milliseconds reload event := if_pos rfl
      have saturated : (if milliseconds > 2 then milliseconds - 2 else 0).toNat = milliseconds.toNat - 2 := by
        split_ifs with long
        · rw [UInt32.toNat_sub_of_le _ _ (UInt32.le_of_lt long)]
          rfl
        · have short : milliseconds.toNat ≤ 2 := UInt32.le_iff_toNat_le.mp (UInt32.not_lt.mp long)
          exact (Nat.sub_eq_zero_of_le short).symm
      rw [Function.update_self, begun, Countdown.begun, if_neg never, saturated]
    · rw [Function.update_of_ne same, Countdown.begin, if_neg same]

/-- A call does to every timer what the timer would do on its own. -/
theorem MillisTimers.Tracks.call (tracks : s.Tracks c) (enough : Fintype.card ι < fuel)
    (a : TimerCall ι ε) :
    ∃ t events, s.call fuel a = some (t, events) ∧ t.Tracks (fun u => ((c u).call u a).1) ∧
      ∀ u, events.map (timerEvents u) = ((c u).call u a).2.map Option.toList := by
  cases a with
  | runFromTimer =>
    obtain ⟨t, events, ticked, follows, those⟩ := tracks.runFromTimer enough
    refine ⟨t, [events], by rw [MillisTimers.call, ticked]; rfl, follows, fun u => ?_⟩
    rw [List.map_singleton, those]
    rfl
  | end_ this =>
    obtain ⟨t, ended, follows⟩ := tracks.end_ enough this
    refine ⟨t, [], by rw [MillisTimers.call, ended]; rfl, ?_, fun u => rfl⟩
    convert follows using 2 with u
    exact (Function.update_apply c this .off u).symm
  | begin this milliseconds event interrupts =>
    exact tracks.begin enough this milliseconds 0 event interrupts
  | beginRepeating this milliseconds event interrupts =>
    exact tracks.begin enough this milliseconds milliseconds event interrupts

/-- So do all calls, one after another. -/
theorem MillisTimers.Tracks.run (tracks : s.Tracks c) (enough : Fintype.card ι < fuel)
    (calls : List (TimerCall ι ε)) :
    ∃ t events, s.run fuel calls = some (t, events) ∧ t.Tracks (fun u => (Countdown.run u calls (c u)).1) ∧
      ∀ u, events.map (timerEvents u) = (Countdown.run u calls (c u)).2.map Option.toList := by
  induction calls generalizing s c with
  | nil => exact ⟨s, [], rfl, tracks, fun u => rfl⟩
  | cons a calls ih =>
    obtain ⟨r, events, called, follows, those⟩ := tracks.call enough a
    obtain ⟨t, later, rest, final, all⟩ := ih follows
    refine ⟨t, events ++ later, ?_, final, fun u => ?_⟩
    · simp only [MillisTimers.run, called, Option.bind_eq_bind, Option.bind_some, rest]
    · rw [List.map_append, those, all, Countdown.run, List.map_append]

omit [Fintype ι] in
/-- At the start all timers are off. -/
theorem MillisTimers.start_tracks : (MillisTimers.start : MillisTimers ι ε).Tracks fun _ => .off := by
  refine ⟨[], [], ⟨⟨.nil, rfl, fun e member => absurd member List.not_mem_nil⟩, trivial, List.nodup_nil,
    fun u member => absurd member List.not_mem_nil, fun u d entry => ?_⟩, fun u => rfl, rfl, fun u => ?_⟩
  · cases entry
  · exact ⟨List.not_mem_nil, List.not_mem_nil⟩

/--
The timers do not disturb each other. Whatever timers are begun and ended, in whatever order and between
whatever ticks, no function follows a null pointer or loops for ever, and at every tick each timer triggers
exactly the event that a counter of its own would.
-/
theorem timers_independent (calls : List (TimerCall ι ε)) :
    ∃ s events, MillisTimers.start.run (Fintype.card ι + 1) calls = some (s, events) ∧
      ∀ u, events.map (timerEvents u) = (Countdown.run u calls .off).2.map Option.toList := by
  obtain ⟨s, events, ran, -, those⟩ :=
    MillisTimers.start_tracks.run (Nat.lt_succ_self (Fintype.card ι)) calls
  exact ⟨s, events, ran, those⟩

end

/-- The rounds of a timer on its own, one part after the other. -/
theorem Countdown.ticks_add (c : Countdown ε) (m n : ℕ) :
    c.ticks (m + n) = (((c.ticks m).1.ticks n).1, (c.ticks m).2 ++ ((c.ticks m).1.ticks n).2) := by
  induction m generalizing c with
  | zero => rw [Nat.zero_add]; rfl
  | succ m ih => rw [Nat.succ_add, ticks, ticks, ih, List.cons_append]

/-- Every tick counts. -/
theorem Countdown.ticks_length (c : Countdown ε) (n : ℕ) : (c.ticks n).2.length = n := by
  induction n generalizing c with
  | zero => rfl
  | succ n ih => rw [ticks, List.length_cons, ih]

/-- A timer that is off triggers nothing. -/
theorem Countdown.off_ticks_get {n k : ℕ} (inside : k < n) :
    ((.off : Countdown ε).ticks n).2[k]? = some none := by
  induction n generalizing k with
  | zero => exact absurd inside (Nat.not_lt_zero k)
  | succ n ih =>
    cases k with
    | zero => rfl
    | succ k => exact ih (Nat.lt_of_succ_lt_succ inside)

/-- The first multiple of a period, and those behind it. -/
theorem Countdown.period_iff (k reload : ℕ) :
    (k + 1) % (reload + 1) = 0 ↔ k = reload ∨ reload < k ∧ (k - reload) % (reload + 1) = 0 := by
  rcases Nat.lt_trichotomy k reload with early | rfl | late
  · rw [Nat.mod_eq_of_lt (by omega)]
    omega
  · simp
  · have split : k + 1 = (k - reload) + (reload + 1) := by omega
    rw [split, Nat.add_mod_right]
    omega

/-- An active timer triggers its event when its time is over, and then once a period if it repeats. -/
theorem Countdown.active_ticks_get (ms reload : ℕ) (event : ε) {n k : ℕ} (inside : k < n) :
    ((Countdown.active ms reload event).ticks n).2[k]? =
      some (if k = ms ∨ ms < k ∧ reload ≠ 0 ∧ (k - ms) % reload = 0 then some event else none) := by
  induction n generalizing ms k with
  | zero => exact absurd inside (Nat.not_lt_zero k)
  | succ n ih =>
    cases k with
    | zero =>
      -- The first tick.
      rw [ticks, List.getElem?_cons_zero]
      cases ms with
      | zero => cases reload <;> rfl
      | succ ms => rfl
    | succ k =>
      have later : k < n := Nat.lt_of_succ_lt_succ inside
      rw [ticks, List.getElem?_cons_succ]
      cases ms with
      | succ ms =>
        have counted : (Countdown.active (ms + 1) reload event).tick.1 = .active ms reload event := rfl
        rw [counted, ih ms later]
        simp only [Nat.succ_inj, Nat.succ_lt_succ_iff, Nat.add_sub_add_right]
      | zero =>
        cases reload with
        | zero =>
          -- It is off.
          have ended : (Countdown.active 0 0 event).tick.1 = .off := rfl
          rw [ended, off_ticks_get later, if_neg (by simp)]
        | succ reload =>
          -- It starts again, and this tick counts already.
          have again : (Countdown.active 0 (reload + 1) event).tick.1 = .active reload (reload + 1) event :=
            rfl
          rw [again, ih reload later]
          refine congrArg some (if_congr ?_ rfl rfl)
          rw [Nat.sub_zero, period_iff]
          simp

/-- The ticks at which a timer triggers its event, counted from its beginning. -/
def firesAt (milliseconds reload n : ℕ) : Bool :=
  let first := max milliseconds 2
  n = first || first < n && reload ≠ 0 && (n - first) % reload = 0

/-- A timer that has begun triggers its event on schedule. -/
theorem Countdown.begun_ticks_get {milliseconds : UInt32} (positive : milliseconds ≠ 0) (reload : UInt32)
    (event : ε) {n k : ℕ} (inside : k < n) :
    ((Countdown.begun milliseconds reload event).ticks n).2[k]? =
      some (if firesAt milliseconds.toNat reload.toNat (k + 1) then some event else none) := by
  rw [begun, if_neg positive]
  obtain ⟨n, rfl⟩ := Nat.exists_eq_succ_of_ne_zero (Nat.ne_of_gt (Nat.zero_lt_of_lt inside))
  have first : max milliseconds.toNat 2 = milliseconds.toNat - 2 + 2 := by omega
  rw [ticks]
  cases k with
  | zero =>
    -- At the first tick the timer only starts.
    rw [List.getElem?_cons_zero, if_neg (by simp [firesAt, first])]
    rfl
  | succ k =>
    have started : (Countdown.waiting (milliseconds.toNat - 2) reload.toNat event).tick.1 =
        .active (milliseconds.toNat - 2) reload.toNat event := rfl
    rw [List.getElem?_cons_succ, started, active_ticks_get _ _ _ (Nat.lt_of_succ_lt_succ inside)]
    refine congrArg some (if_congr ?_ rfl rfl)
    simp [firesAt, first, and_assoc]

/-- The ticks that come in a call. -/
def TimerCall.ticks : TimerCall ι ε → ℕ
  | .runFromTimer => 1
  | .end_ _ => 0
  | .begin _ _ _ interrupts => interrupts
  | .beginRepeating _ _ _ interrupts => interrupts

/-- The call is none for a timer. -/
def TimerCall.Leaves (u : ι) : TimerCall ι ε → Prop
  | .runFromTimer => True
  | .end_ this => u ≠ this
  | .begin this _ _ _ => u ≠ this
  | .beginRepeating this _ _ _ => u ≠ this

/-- A timer that no call is for counts their ticks. -/
theorem Countdown.run_untouched {u : ι} {calls : List (TimerCall ι ε)} (untouched : ∀ a ∈ calls, a.Leaves u)
    (c : Countdown ε) : Countdown.run u calls c = c.ticks (calls.map TimerCall.ticks).sum := by
  induction calls generalizing c with
  | nil => rfl
  | cons a calls ih =>
    have one : c.call u a = c.ticks a.ticks := by
      have leaves := untouched a List.mem_cons_self
      cases a with
      | runFromTimer => rfl
      | end_ this => exact congrArg (·, []) (if_neg leaves)
      | begin this milliseconds event interrupts => simp only [call, Countdown.begin, if_neg leaves]; rfl
      | beginRepeating this milliseconds event interrupts =>
        simp only [call, Countdown.begin, if_neg leaves]; rfl
    rw [run, ih (fun b member => untouched b (List.mem_cons_of_mem a member)), one, List.map_cons,
      List.sum_cons, ticks_add]

/-- What the last of some calls does. -/
theorem Countdown.run_concat (u : ι) (past : List (TimerCall ι ε)) (a : TimerCall ι ε) (c : Countdown ε) :
    (Countdown.run u (past ++ [a]) c).1 = ((Countdown.run u past c).1.call u a).1 := by
  induction past generalizing c with
  | nil => rfl
  | cons b past ih => exact ih _

/-- Two sequences of calls. -/
theorem MillisTimers.run_append (s : MillisTimers ι ε) (fuel : ℕ) (past later : List (TimerCall ι ε)) :
    s.run fuel (past ++ later) = (s.run fuel past).bind fun r =>
      (r.1.run fuel later).map fun t => (t.1, r.2 ++ t.2) := by
  induction past generalizing s with
  | nil => simp [run]
  | cons a past ih =>
    rw [List.cons_append, run, run]
    simp only [Option.bind_eq_bind]
    cases s.call fuel a with
    | none => rfl
    | some r =>
      simp only [Option.bind_some, ih]
      cases r.1.run fuel past with
      | none => rfl
      | some t =>
        simp only [Option.bind_some]
        cases t.1.run fuel later with
        | none => rfl
        | some v => simp

/-- `begin` or `beginRepeating`. -/
def TimerCall.beginning (repeating : Bool) (this : ι) (milliseconds : UInt32) (event : ε)
    (interrupts : ℕ) : TimerCall ι ε :=
  if repeating then .beginRepeating this milliseconds event interrupts
  else .begin this milliseconds event interrupts

/--
A timer is on time. Whatever went before and whatever other timers do, a timer that is begun and then left
alone triggers its event at the tick of its time (one millisecond late if this is 1), and if it repeats
then again after every further period, and at no other tick.
-/
theorem timer_fires [Fintype ι] (past later : List (TimerCall ι ε)) (repeating : Bool) (this : ι)
    {milliseconds : UInt32} (event : ε) (interrupts : ℕ) (positive : milliseconds ≠ 0)
    (untouched : ∀ a ∈ later, a.Leaves this) :
    let start := past ++ [.beginning repeating this milliseconds event interrupts]
    ∃ s t before after, MillisTimers.start.run (Fintype.card ι + 1) start = some (s, before) ∧
      MillisTimers.start.run (Fintype.card ι + 1) (start ++ later) = some (t, before ++ after) ∧
      after.length = (later.map TimerCall.ticks).sum ∧
      ∀ k events, after[k]? = some events → timerEvents this events =
        if firesAt milliseconds.toNat (if repeating then milliseconds.toNat else 0) (k + 1) then [event]
        else [] := by
  intro start
  obtain ⟨s, before, ran, tracks, -⟩ :=
    MillisTimers.start_tracks.run (Nat.lt_succ_self (Fintype.card ι)) start
  obtain ⟨t, after, rest, -, those⟩ := tracks.run (Nat.lt_succ_self (Fintype.card ι)) later
  have begun : (Countdown.run this start .off).1 =
      .begun milliseconds (if repeating then milliseconds else 0) event := by
    rw [Countdown.run_concat]
    cases repeating <;> exact if_pos rfl
  have own := those this
  rw [Countdown.run_untouched untouched, begun] at own
  set n := (later.map TimerCall.ticks).sum
  have length : after.length = n := by
    have := congrArg List.length own
    rwa [List.length_map, List.length_map, Countdown.ticks_length] at this
  refine ⟨s, t, before, after, ran, ?_, length, fun k events found => ?_⟩
  · rw [MillisTimers.run_append, ran, Option.bind_some, rest, Option.map_some]
  · have inside : k < n := length ▸ (List.getElem?_eq_some_iff.mp found).1
    have expected := Countdown.begun_ticks_get positive (if repeating then milliseconds else 0) event inside
    have seen := congrArg (·[k]?) own
    simp only [List.getElem?_map, found, expected, Option.map_some, Option.some.injEq] at seen
    have period : (if repeating then milliseconds else 0).toNat =
        if repeating then milliseconds.toNat else 0 := by cases repeating <;> rfl
    rw [seen, period]
    split_ifs <;> rfl

/-- A timer for every millisecond triggers at the second tick, and at each one after it. -/
theorem timer_fires_each : ∃ after : List (List (Unit × Unit)), after.length = 3 ∧
    ∀ k events, after[k]? = some events →
      timerEvents () events = if firesAt 1 1 (k + 1) then [()] else [] := by
  have left : ∀ a ∈ List.replicate 3 (TimerCall.runFromTimer : TimerCall Unit Unit), a.Leaves () := by
    intro a member
    obtain rfl := List.eq_of_mem_replicate member
    trivial
  obtain ⟨-, -, -, after, -, -, length, fires⟩ :=
    timer_fires [] _ true () () 0 (by decide : (1 : UInt32) ≠ 0) left
  exact ⟨after, length, fires⟩

end Teetest
