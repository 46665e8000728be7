import Teetest.Session.Connection

/-!
The pings of `ethLoop`, and the timeout of the console's main loop that they hold off.

Times are in milliseconds of real time. The Teensy's clock is their lowest 32 bits.
-/

namespace Teetest

open Lib

/-- Printing leaves the time of the last ping. -/
@[simp] theorem Net.ethFeed_aliveTime (n : Net) (o : Origin) (s : List UInt8) :
    (n.ethFeed o s).aliveTime = n.aliveTime :=
  (congrArg Net.aliveTime (n.ethFeed_frame o s) :)

@[simp] theorem Net.xmprintf_aliveTime (n : Net) (s : String) :
    (n.xmprintf s).aliveTime = n.aliveTime :=
  (congrArg Net.aliveTime (n.xmprintf_frame s) :)

@[simp] theorem Net.ethACK_aliveTime (n : Net) (yes : Bool) (info : Int) :
    (n.ethACK yes info).aliveTime = n.aliveTime := n.ethFeed_aliveTime _ _

@[simp] theorem Net.sendEthPacket_aliveTime (crc16 : List UInt8 → UInt16) (n : Net) (size : Int)
    (counter : Nat) : (n.sendEthPacket crc16 size counter).aliveTime = n.aliveTime := by
  simp [sendEthPacket]

@[simp] theorem Net.sendFileViaEthComplete_aliveTime (n : Net) (ms : Nat) :
    (n.sendFileViaEthComplete ms).aliveTime = n.aliveTime := by
  simp [sendFileViaEthComplete]

/-- A request leaves it too, whatever it asks for. -/
theorem Net.sendFileViaEthHandler_aliveTime (crc16 : List UInt8 → UInt16) (sd : ReadIo) (ms : Nat)
    (r : GFrequest) (pn : Nat) (n : Net) :
    (n.sendFileViaEthHandler crc16 sd ms r pn).aliveTime = n.aliveTime := by
  cases r with
  | gfFinish => simp [sendFileViaEthHandler]
  | gfPleaseSendNext =>
    simp only [sendFileViaEthHandler, pleaseSendNext]
    split_ifs <;> simp
  | gfPleaseRepeat =>
    simp only [sendFileViaEthHandler, pleaseRepeat]
    split_ifs <;> simp
  | gfEmpty => rfl

/-- The effects of a command leave it. -/
theorem Net.effect_aliveTime (n : Net) (e : Effect) : (n.effect e).aliveTime = n.aliveTime := by
  cases e with
  | xmprintf s => exact n.xmprintf_aliveTime s
  | lfGetFile g name =>
    have asserted : (n.mxatClosed g).aliveTime = n.aliveTime :=
      (congrArg Net.aliveTime (n.mxatClosed_frame g) :)
    unfold effect lfGetFile
    dsimp only
    split
    · simp
    split
    · simp
    split
    · simp [asserted]
    · split <;> simp [asserted]

section

variable (crc16 : List UInt8 → UInt16) (commands : List UInt8 → Net → List Effect)

/-- An action of the read loop leaves it. -/
theorem Net.perform_aliveTime (sd : ReadIo) (ms : Nat) (n : Net) (a : Action) :
    (n.perform (sessionHooks crc16 commands) sd ms a).1.aliveTime = n.aliveTime := by
  cases a with
  | greet => rfl
  | handler r pn => exact n.sendFileViaEthHandler_aliveTime crc16 sd ms r pn
  | command s =>
    exact List.foldlRecOn (motive := fun m : Net => m.aliveTime = n.aliveTime) (commands s n) _ rfl
      fun m same e _ => (m.effect_aliveTime e).trans same
  | report s => rfl

/-- The read loop leaves it. -/
theorem Net.readLoop_aliveTime (ms : Nat) (reads : List Incoming) (n : Net) :
    (n.readLoop (sessionHooks crc16 commands) ms reads).1.aliveTime = n.aliveTime := by
  induction reads generalizing n with
  | nil => rfl
  | cons i reads ih => exact (ih _).trans (n.perform_aliveTime crc16 commands _ ms _)

/-- The age of the last ping, as the Teensy's clock tells it. -/
def Net.age (n : Net) (ms : Nat) : Int := ((ms : Int) - n.aliveTime) % 2 ^ 32

/-- The end of a pass, by the age of the last ping. -/
theorem Net.ping_age (n : Net) (ms : Nat) :
    n.ping ms =
      if 1000 < n.age ms then
        ({ n with aliveTime := ms }, if n.clientConnected then mark .ping pingMessage else [])
      else (n, []) := rfl

/-- A pass that finds the console connected sends a ping if the last one is more than a second old. -/
theorem Net.ethLoop_ping (n : Net) {i : PassIn} (on : i.link ≠ .linkOFF) (available : i.available = true)
    (connected : i.connected = true) :
    let out := n.ethLoop (sessionHooks crc16 commands) i
    (1000 < n.age i.ms → out.1.aliveTime = i.ms ∧ out.2 ≠ []) ∧
      (n.age i.ms ≤ 1000 → out.1.aliveTime = n.aliveTime) := by
  intro out
  have goes := Net.connection_goes (h := sessionHooks crc16 commands) on
    (by rw [available, Bool.or_true] : (n.client || i.available) = true) connected
  set m : Net := { n with
    linkStatus := i.link
    client := true
    clientConnected := true
    rb := if n.clientConnected then n.rb else [] } with m_eq
  set read := m.readLoop (sessionHooks crc16 commands) i.ms i.reads with read_eq
  have alive : read.1.aliveTime = n.aliveTime := m.readLoop_aliveTime crc16 commands i.ms i.reads
  have still : read.1.clientConnected = true :=
    (m.readLoop_stays crc16 commands i.ms i.reads).clientConnected
  set drained : Net := { read.1 with rb := [] } with drained_eq
  have out_eq : out = ((drained.ping i.ms).1, read.2 ++ read.1.rb ++ (drained.ping i.ms).2) := by
    show n.ethLoop _ i = _
    rw [Net.ethLoop_goes goes]
    simp only [← read_eq, Net.drain_eq, ← drained_eq]
  have same : drained.age i.ms = n.age i.ms :=
    congrArg (fun a : Nat => ((i.ms : Int) - a) % 2 ^ 32) alive
  rw [out_eq, Net.ping_age, same]
  constructor
  · intro old
    rw [if_pos old]
    have connected_ : drained.clientConnected = true := still
    exact ⟨rfl, by simp [connected_, mark, pingMessage]⟩
  · intro young
    rw [if_neg (not_lt.mpr young)]
    exact alive

end

/-- The Teensy, the wire to the console, and the main loop of the console. -/
structure Keepalive where
  net : Net
  lastPass : ℕ
  -- when the bytes that are under way were sent, pass by pass
  wire : List ℕ
  pingTime : ℕ
  lastPoll : ℕ
  inpExitRequest : Bool
  now : ℕ

/-- What happens, and when. -/
inductive KeepaliveEvent
  -- a pass of `ethLoop` that finds the console connected
  | pass (t : ℕ) (reads : List Incoming) (commands : List UInt8 → Net → List Effect)
  -- `EthClient::process` is called with bytes, and the bytes of so many passes are then complete
  | process (t : ℕ) (whole : ℕ)
  -- the console's main loop compares the time with that of the last bytes
  | poll (t : ℕ)

/-- The time of an event. -/
def KeepaliveEvent.time : KeepaliveEvent → ℕ
  | .pass t _ _ => t
  | .process t _ => t
  | .poll t => t

/-- What a pass observes while the connection holds. -/
def linkedPass (t : ℕ) (reads : List Incoming) : PassIn := ⟨.linkON, true, true, reads, t % 2 ^ 32⟩

/-- The longest silence that the console's main loop bears. -/
def pingTimeout : ℕ := 3500

variable (crc16 : List UInt8 → UInt16)

/-- The state after an event, if it can happen. -/
def Keepalive.event (s : Keepalive) : KeepaliveEvent → Option Keepalive
  | .pass t reads commands =>
    let out := s.net.ethLoop (sessionHooks crc16 commands) (linkedPass t reads)
    some { s with
      net := out.1
      lastPass := t
      wire := if out.2 = [] then s.wire else s.wire ++ [t]
      now := t }
  | .process t whole =>
    if s.wire = [] then none
    -- `ping1` notes the time
    else some { s with wire := s.wire.drop whole, pingTime := t, now := t }
  | .poll t =>
    some { s with
      inpExitRequest := s.inpExitRequest || decide (pingTimeout < t - s.pingTime)
      lastPoll := t
      now := t }

/-- The step relation of the pings. -/
def KeepaliveStep (s : Keepalive) (e : KeepaliveEvent) (t : Keepalive) : Prop :=
  s.event crc16 e = some t

/--
The timing of a working connection: passes come at most `gap` apart, and bytes arrive at most `delay` after
they were sent.
-/
structure Works (gap delay : ℕ) (s : Keepalive) (e : KeepaliveEvent) : Prop where
  forward : s.now ≤ e.time
  passes : e.time ≤ s.lastPass + gap
  delivers : ∀ sent ∈ s.wire, e.time ≤ sent + delay

/-- The console's main loop polls at most so far apart. -/
structure Polls (period : ℕ) (s : Keepalive) (e : KeepaliveEvent) : Prop where
  forward : s.now ≤ e.time
  polls : e.time ≤ s.lastPoll + period

/-- The moment when the console has seen the greeting, which a pass had sent. -/
structure Keepalive.Greeted (s : Keepalive) : Prop where
  running : s.inpExitRequest = false
  greeting : s.pingTime = s.now
  passed : s.lastPass ≤ s.now
  polled : s.lastPoll = s.now
  wire : s.wire = []
  -- the pass sent a ping if one was due
  age : s.net.age s.lastPass ≤ 1000

/-- What holds while the connection works. -/
structure Keepalive.Alive (gap : ℕ) (s : Keepalive) : Prop where
  running : s.inpExitRequest = false
  arrived : s.pingTime ≤ s.now
  passed : s.lastPass ≤ s.now
  sent : ∀ c ∈ s.wire, c ≤ s.now
  age : s.net.age s.lastPass ≤ 1000
  -- from each of the sendings to the next one, and from the last to the next pass that is due
  chain : (s.pingTime :: s.wire).IsChain fun a b => b ≤ a + (1000 + gap)
  next : (s.lastPass : ℤ) ≤ (s.wire.getLast?.getD s.pingTime : ℕ) + s.net.age s.lastPass

/-- The age of a ping grows with the time, as long as it is small. -/
theorem Net.age_later {n : Net} {p t gap : ℕ} (age : n.age p ≤ 1000) (forward : p ≤ t)
    (soon : t ≤ p + gap) (small : gap < 2 ^ 31) :
    n.age (t % 2 ^ 32) = n.age p + (t - p) := by
  unfold Net.age at *
  push_cast
  omega

/-- An age is not negative. -/
theorem Net.age_nonneg (n : Net) (ms : ℕ) : 0 ≤ n.age ms := Int.emod_nonneg _ (by decide)

/-- At the time of the last ping, its age is none. -/
theorem Net.age_now {n : Net} {t : ℕ} (now : n.aliveTime = t % 2 ^ 32) : n.age t = 0 := by
  rw [Net.age, now]
  push_cast
  omega

variable {crc16} {gap delay period : ℕ} {s t : Keepalive} {e : KeepaliveEvent}

/-- The bytes of a pass extend the chain of sendings. -/
theorem Keepalive.Alive.sends (alive : s.Alive gap) {time : ℕ} (soon : time ≤ s.lastPass + gap) :
    (s.pingTime :: (s.wire ++ [time])).IsChain fun a b => b ≤ a + (1000 + gap) := by
  rw [← List.cons_append, List.isChain_append]
  refine ⟨alive.chain, List.isChain_singleton _, fun a last b new => ?_⟩
  rw [List.getLast?_cons] at last
  obtain rfl := Option.some.inj new
  obtain rfl := Option.some.inj last
  have := alive.next
  have := alive.age
  omega

/-- What a pass leaves on the wire was sent before it ended. -/
theorem Keepalive.Alive.sent_by (alive : s.Alive gap) {time : ℕ} (forward : s.now ≤ time) :
    ∀ c ∈ s.wire ++ [time], c ≤ time := by
  intro c member
  rcases List.mem_append.mp member with old | new
  · exact (alive.sent c old).trans forward
  · rw [List.mem_singleton.mp new]

/-- A pass keeps the connection alive: it sends a ping, or the last one is young enough. -/
theorem Keepalive.Alive.pass (alive : s.Alive gap) (small : gap < 2 ^ 31) {time : ℕ}
    (forward : s.now ≤ time) (passes : time ≤ s.lastPass + gap) (reads : List Incoming)
    (commands : List UInt8 → Net → List Effect)
    (step : KeepaliveStep crc16 s (.pass time reads commands) t) : t.Alive gap := by
  obtain rfl := Option.some.inj step
  obtain ⟨due, young⟩ := s.net.ethLoop_ping crc16 commands (i := linkedPass time reads)
    (by decide : LinkStatus.linkON ≠ .linkOFF) rfl rfl
  have later := Net.age_later alive.age (alive.passed.trans forward) passes small
  have arrived := alive.arrived.trans forward
  by_cases old : 1000 < s.net.age (linkedPass time reads).ms
  · obtain ⟨now, bytes⟩ := due old
    have none_ := Net.age_now now
    simp only [if_neg bytes]
    refine ⟨alive.running, arrived, le_refl _, alive.sent_by forward, ?_, alive.sends passes, ?_⟩
    · rw [none_]
      decide
    · rw [none_, List.getLast?_concat]
      simp
  · -- Without a ping the age goes on growing, whether other bytes are sent or not.
    have same := young (not_lt.mp old)
    have age : (s.net.ethLoop (sessionHooks crc16 commands) (linkedPass time reads)).1.age time =
        s.net.age s.lastPass + (time - s.lastPass) := by
      rw [← later]
      unfold Net.age
      rw [same]
      push_cast
      omega
    have older : s.net.age s.lastPass + (time - s.lastPass) ≤ 1000 := by
      rw [← later]
      exact not_lt.mp old
    have nonneg := s.net.age_nonneg s.lastPass
    have next := alive.next
    have passed := alive.passed
    refine ⟨alive.running, arrived, le_refl _, ?_, by rwa [age], ?_, ?_⟩ <;> dsimp only
    · split
      · exact fun c member => (alive.sent c member).trans forward
      · exact alive.sent_by forward
    · split
      · exact alive.chain
      · exact alive.sends passes
    · rw [age]
      split
      · omega
      · rw [List.getLast?_concat]
        simp only [Option.getD_some]
        omega

/-- Bytes that arrive are newer than anything before, so the chain starts again from them. -/
theorem Keepalive.Alive.process (alive : s.Alive gap) {time whole : ℕ} (forward : s.now ≤ time)
    (step : KeepaliveStep crc16 s (.process time whole) t) : t.Alive gap := by
  obtain ⟨-, new⟩ := Option.ite_none_left_eq_some.mp step
  obtain rfl := Option.some.inj new
  have kept : ∀ c ∈ s.wire.drop whole, c ≤ time := fun c member =>
    (alive.sent c (List.mem_of_mem_drop member)).trans forward
  have rest : (s.wire.drop whole).IsChain fun a b => b ≤ a + (1000 + gap) := alive.chain.tail.drop whole
  have age_nonneg := s.net.age_nonneg s.lastPass
  refine ⟨alive.running, le_refl _, alive.passed.trans forward, kept, alive.age, ?_, ?_⟩
  · refine List.isChain_cons.mpr ⟨fun c first => ?_, rest⟩
    exact (kept c (List.mem_of_mem_head? first)).trans (Nat.le_add_right _ _)
  · have next := alive.next
    have passed := alive.passed
    dsimp only
    rw [List.getLast?_drop]
    split
    · simp only [Option.getD_none]
      omega
    · -- What is still under way ends as before.
      rename_i more
      have some_ : s.wire ≠ [] := by
        rintro empty
        rw [empty] at more
        exact more (Nat.zero_le _)
      rw [List.getLast?_eq_some_getLast some_] at next ⊢
      exact next

/-- A poll finds bytes that are young enough. -/
theorem Keepalive.Alive.poll (alive : s.Alive gap) (enough : 1000 + gap + delay ≤ pingTimeout) {time : ℕ}
    (works : Works gap delay s (.poll time)) (step : KeepaliveStep crc16 s (.poll time) t) :
    t.Alive gap := by
  obtain rfl := Option.some.inj step
  obtain ⟨forward, passes, delivers⟩ := works
  simp only [KeepaliveEvent.time] at forward passes delivers
  have heard : time ≤ s.pingTime + pingTimeout := by
    have next := alive.next
    have age := alive.age
    have chain := alive.chain
    cases wire : s.wire with
    | nil =>
      -- The next pass is not overdue, and neither is its ping.
      rw [wire] at next
      simp only [List.getLast?_nil, Option.getD_none] at next
      omega
    | cons c wire' =>
      -- The oldest bytes under way are not overdue.
      rw [wire] at chain delivers
      have first := (List.isChain_cons_cons.mp chain).1
      have := delivers c List.mem_cons_self
      omega
  have silent : decide (pingTimeout < time - s.pingTime) = false := by
    rw [decide_eq_false_iff_not]
    omega
  refine ⟨?_, alive.arrived.trans forward, alive.passed.trans forward,
    fun c member => (alive.sent c member).trans forward, alive.age, alive.chain, alive.next⟩
  dsimp only
  rw [silent, alive.running]
  rfl

/-- The console never gives up while the connection works. -/
theorem Works.alive {start : Keepalive} {events : List KeepaliveEvent} (greeted : start.Greeted)
    (enough : 1000 + gap + delay ≤ pingTimeout)
    (run : Run (Guarded (Works gap delay) (KeepaliveStep crc16)) start events s) : s.Alive gap := by
  have small : gap < 2 ^ 31 := by
    unfold pingTimeout at enough
    omega
  refine run.invariant (P := Keepalive.Alive gap) ?_ ?_
  · have wire := greeted.wire
    have passed := greeted.passed
    refine ⟨greeted.running, greeted.greeting.le, passed, ?_, greeted.age, ?_, ?_⟩ <;> rw [wire]
    · exact fun c member => absurd member List.not_mem_nil
    · exact List.isChain_singleton _
    · have := greeted.greeting
      have := start.net.age_nonneg start.lastPass
      simp only [List.getLast?_nil, Option.getD_none]
      omega
  · rintro s e t alive ⟨works, step⟩
    cases e with
    | pass time reads commands =>
      exact alive.pass small works.forward works.passes reads commands step
    | process time whole => exact alive.process works.forward step
    | poll time => exact alive.poll enough works step

/-- What the console's main loop has noticed at its last poll. -/
structure Keepalive.Watched (period : ℕ) (s : Keepalive) : Prop where
  polled : s.lastPoll ≤ s.now ∧ s.now ≤ s.lastPoll + period
  noticed : s.pingTime + pingTimeout < s.lastPoll → s.inpExitRequest = true

/-- Every event keeps the watch. -/
theorem Keepalive.Watched.event (watched : s.Watched period) (polls : Polls period s e)
    (step : KeepaliveStep crc16 s e t) : t.Watched period := by
  obtain ⟨⟨past, soon⟩, noticed⟩ := watched
  obtain ⟨forward, next⟩ := polls
  cases e with
  | pass time reads commands =>
    obtain rfl := Option.some.inj step
    exact ⟨⟨past.trans forward, next⟩, noticed⟩
  | process time whole =>
    obtain ⟨-, new⟩ := Option.ite_none_left_eq_some.mp step
    obtain rfl := Option.some.inj new
    refine ⟨⟨past.trans forward, next⟩, fun late => ?_⟩
    -- These bytes are newer than the last poll.
    have : s.lastPoll ≤ time := past.trans forward
    simp only at late
    omega
  | poll time =>
    obtain rfl := Option.some.inj step
    refine ⟨⟨le_refl _, Nat.le_add_right _ _⟩, fun late => ?_⟩
    simp only at late ⊢
    rw [decide_eq_true (by omega), Bool.or_true]

/--
The pings make an accurate failure detector: from the greeting on, the console never gives up on a
Teensy whose passes are at most `gap` apart over a connection that delays its bytes by at most `delay`,
if a second and both together stay within the timeout. The Teensy's clock may wrap around.
-/
theorem no_false_timeout {start : Keepalive} {events : List KeepaliveEvent} (greeted : start.Greeted)
    (enough : 1000 + gap + delay ≤ pingTimeout)
    (run : Run (Guarded (Works gap delay) (KeepaliveStep crc16)) start events s) :
    s.inpExitRequest = false :=
  (Works.alive greeted enough run).running

/-- A console that has just been greeted. -/
def Keepalive.greeted : Keepalive := ⟨Net.booted, 0, [], 0, 0, false, 0⟩

theorem Keepalive.greeted_greeted : Keepalive.greeted.Greeted :=
  ⟨rfl, rfl, le_refl _, rfl, rfl, by decide⟩

/-- Then a pass after 1100 milliseconds sends a ping. -/
def Keepalive.pinged : Keepalive :=
  { Keepalive.greeted with
    net := (Net.booted.ethLoop (sessionHooks (fun _ => 0) fun _ _ => []) (linkedPass 1100 [])).1
    lastPass := 1100
    wire := [1100]
    now := 1100 }

/-- The console hears all that is under way. -/
def Keepalive.heardAt (s : Keepalive) (t : ℕ) : Keepalive :=
  { s with wire := [], pingTime := t, now := t }

/-- A ping that is sent after 1100 and arrives after 2000 milliseconds is soon enough. -/
theorem no_false_timeout_once : ∃ s : Keepalive, s.inpExitRequest = false ∧ s.pingTime = 2000 := by
  have sent : Run (Guarded (Works 1100 900) (KeepaliveStep fun _ => 0)) Keepalive.greeted
      [.pass 1100 [] fun _ _ => []] Keepalive.pinged :=
    .single ⟨⟨by decide, by decide, fun c member => absurd member List.not_mem_nil⟩, rfl⟩
  have heard := sent.tail (a := KeepaliveEvent.process 2000 1)
    (t := Keepalive.pinged.heardAt 2000)
    ⟨⟨by decide, by decide, fun c member => by
      obtain rfl := List.mem_singleton.mp member
      decide⟩, rfl⟩
  exact ⟨_, no_false_timeout Keepalive.greeted_greeted (by decide) heard, rfl⟩

/--
They make a complete one: whatever the Teensy does, a console that polls often enough has given up as soon
as it heard nothing for longer than the timeout and one period.
-/
theorem silence_noticed {start : Keepalive} {events : List KeepaliveEvent} (greeted : start.Greeted)
    (run : Run (Guarded (Polls period) (KeepaliveStep crc16)) start events s)
    (silence : s.pingTime + pingTimeout + period < s.now) : s.inpExitRequest = true := by
  have watched : s.Watched period := by
    refine run.invariant (P := Keepalive.Watched period) ?_ ?_
    · have := greeted.polled
      have := greeted.greeting
      exact ⟨by omega, fun late => by omega⟩
    · rintro s e t watched ⟨polls, step⟩
      exact watched.event polls step
  obtain ⟨⟨-, soon⟩, noticed⟩ := watched
  exact noticed (by omega)

/-- A console that has heard nothing but the greeting, at a poll. -/
def Keepalive.polledAt (s : Keepalive) (t : ℕ) (gaveUp : Bool) : Keepalive :=
  { s with lastPoll := t, now := t, inpExitRequest := gaveUp }

/-- A console that hears nothing and polls once a second has given up after four and a half seconds. -/
theorem silence_noticed_late : ∃ s : Keepalive, s.now = 4501 ∧ s.inpExitRequest = true := by
  have first : Run (Guarded (Polls 1000) (KeepaliveStep fun _ => 0)) Keepalive.greeted [.poll 1000]
      (Keepalive.greeted.polledAt 1000 false) :=
    .single ⟨⟨by decide, by decide⟩, rfl⟩
  have second := first.tail (a := KeepaliveEvent.poll 2000) (t := Keepalive.greeted.polledAt 2000 false)
    ⟨⟨by decide, by decide⟩, rfl⟩
  have third := second.tail (a := KeepaliveEvent.poll 3000) (t := Keepalive.greeted.polledAt 3000 false)
    ⟨⟨by decide, by decide⟩, rfl⟩
  have fourth := third.tail (a := KeepaliveEvent.poll 4000) (t := Keepalive.greeted.polledAt 4000 true)
    ⟨⟨by decide, by decide⟩, rfl⟩
  have fifth := fourth.tail (a := KeepaliveEvent.poll 4501) (t := Keepalive.greeted.polledAt 4501 true)
    ⟨⟨by decide, by decide⟩, rfl⟩
  exact ⟨_, rfl, silence_noticed Keepalive.greeted_greeted fifth (by decide)⟩

end Teetest
