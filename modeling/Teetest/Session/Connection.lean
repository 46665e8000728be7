import Teetest.Transfer.System

/-!
How `ethLoop` ends the session of a console whose connection is lost.

Three places of a pass notice a disconnection, and each cleans up in its own way.
-/

namespace Teetest

open Lib

/-- What a command, a print or an IMU sample can do to the variables of eth.cpp and logsend.cpp. -/
inductive Effect
  | xmprintf (s : String)
  | lfGetFile (g : GetIn) (name : String)

/-- The state after an effect. -/
def Net.effect (n : Net) : Effect → Net
  | .xmprintf s => n.xmprintf s
  | .lfGetFile g name => (n.lfGetFile g name).2

/-- What happens to the Ethernet side of the Teensy, and what the commands of a pass do. -/
inductive EthEvent
  | pass (i : PassIn) (commands : List UInt8 → Net → List Effect)
  -- a command from USB or infrared, or a text that some other part of the program prints
  | other (e : Effect)

section

variable (crc16 : List UInt8 → UInt16)

/-- The hooks of `ethLoop`, for commands with given effects. -/
def sessionHooks (commands : List UInt8 → Net → List Effect) : Hooks where
  infoHandler := Net.sendFileViaEthHandler crc16
  processTheCommand := fun s n => (commands s n).foldl Net.effect n

/-- The state after an event. -/
def Net.ethEvent (n : Net) : EthEvent → Net
  | .pass i commands => (n.ethLoop (sessionHooks crc16 commands) i).1
  | .other e => n.effect e

/-- The step relation of the Ethernet side. -/
def EthStep (n : Net) (e : EthEvent) (m : Net) : Prop := m = n.ethEvent crc16 e

/-- The state that `ethSetup` leaves behind. -/
structure Net.Booted (n : Net) : Prop where
  clientConnected : n.clientConnected = false
  infoHandler : n.infoHandler = false
  ethFile : n.ethFile = none
  enableEthOutput : n.enableEthOutput = true

/-- No transfer is going on: no handler, no open file, and texts are printed to Ethernet. -/
structure Net.Terminated (n : Net) : Prop where
  infoHandler : n.infoHandler = false
  ethFile : n.ethFile = none
  enableEthOutput : n.enableEthOutput = true

/--
What is asked of a pass.

A lost connection ends the transfer, and a dead connection releases the client's handle.
-/
structure EndsSession (n : Net) (i : PassIn) (m : Net) : Prop where
  transfer : n.clientConnected = true → m.clientConnected = false → m.Terminated
  handle : i.link ≠ .linkOFF → i.connected = false → m.client = false

/-- The condition on the state before a pass, and on what the pass observes. -/
structure CanEndSession (n : Net) (i : PassIn) : Prop where
  -- with the link off nothing is cleaned up, so there must be nothing to clean up
  linkOff : i.link = .linkOFF → n.clientConnected = true → n.infoHandler = false ∧ n.ethFile = none
  -- the handler closes the file, unless it is not installed
  stopped : i.link ≠ .linkOFF → n.clientConnected = true → i.connected = false →
    n.infoHandler = false → n.ethFile = none
  -- only a client that was connected is stopped
  dead : i.link ≠ .linkOFF → n.clientConnected = false → i.connected = false →
    n.client = false ∧ i.available = false

end

/-- The fields of a state that no feed and no print changes. -/
@[simp] theorem Net.ethFeed_clientConnected (n : Net) (o : Origin) (s : List UInt8) :
    (n.ethFeed o s).clientConnected = n.clientConnected :=
  (congrArg Net.clientConnected (n.ethFeed_frame o s) :)

@[simp] theorem Net.ethFeed_client (n : Net) (o : Origin) (s : List UInt8) :
    (n.ethFeed o s).client = n.client :=
  (congrArg Net.client (n.ethFeed_frame o s) :)

@[simp] theorem Net.ethFeed_infoHandler (n : Net) (o : Origin) (s : List UInt8) :
    (n.ethFeed o s).infoHandler = n.infoHandler :=
  (congrArg Net.infoHandler (n.ethFeed_frame o s) :)

@[simp] theorem Net.ethFeed_ethFile (n : Net) (o : Origin) (s : List UInt8) :
    (n.ethFeed o s).ethFile = n.ethFile :=
  (congrArg Net.ethFile (n.ethFeed_frame o s) :)

@[simp] theorem Net.ethFeed_enableEthOutput (n : Net) (o : Origin) (s : List UInt8) :
    (n.ethFeed o s).enableEthOutput = n.enableEthOutput :=
  (congrArg Net.enableEthOutput (n.ethFeed_frame o s) :)

@[simp] theorem Net.xmprintf_clientConnected (n : Net) (s : String) :
    (n.xmprintf s).clientConnected = n.clientConnected :=
  (congrArg Net.clientConnected (n.xmprintf_frame s) :)

@[simp] theorem Net.xmprintf_client (n : Net) (s : String) : (n.xmprintf s).client = n.client :=
  (congrArg Net.client (n.xmprintf_frame s) :)

@[simp] theorem Net.xmprintf_infoHandler (n : Net) (s : String) :
    (n.xmprintf s).infoHandler = n.infoHandler :=
  (congrArg Net.infoHandler (n.xmprintf_frame s) :)

@[simp] theorem Net.xmprintf_ethFile (n : Net) (s : String) : (n.xmprintf s).ethFile = n.ethFile :=
  (congrArg Net.ethFile (n.xmprintf_frame s) :)

@[simp] theorem Net.xmprintf_enableEthOutput (n : Net) (s : String) :
    (n.xmprintf s).enableEthOutput = n.enableEthOutput :=
  (congrArg Net.enableEthOutput (n.xmprintf_frame s) :)

/-- The end of a transfer closes the file and removes the handler. -/
theorem Net.sendFileViaEthComplete_terminated (n : Net) (ms : Nat) :
    (n.sendFileViaEthComplete ms).Terminated := by
  constructor <;> simp [sendFileViaEthComplete]

/--
A step during a session: the connection stays as it is.

Printing to Ethernet is off exactly while the handler is installed.
-/
structure Net.Stays (n m : Net) : Prop where
  clientConnected : m.clientConnected = n.clientConnected
  client : m.client = n.client
  printing : n.enableEthOutput = !n.infoHandler → m.enableEthOutput = !m.infoHandler

theorem Net.Stays.refl (n : Net) : n.Stays n := ⟨rfl, rfl, id⟩

theorem Net.Stays.trans {n m k : Net} (first : n.Stays m) (second : m.Stays k) : n.Stays k :=
  ⟨second.clientConnected.trans first.clientConnected, second.client.trans first.client,
    fun printing => second.printing (first.printing printing)⟩

theorem Net.Stays.xmprintf {n m : Net} (stays : n.Stays m) (s : String) : n.Stays (m.xmprintf s) :=
  stays.trans (by constructor <;> simp)

theorem Net.Stays.ethACK {n m : Net} (stays : n.Stays m) (yes : Bool) (info : Int) :
    n.Stays (m.ethACK yes info) :=
  stays.trans (by constructor <;> simp [Net.ethACK])

theorem Net.Stays.sendEthPacket {n m : Net} (stays : n.Stays m) (crc16 : List UInt8 → UInt16)
    (size : Int) (counter : Nat) : n.Stays (m.sendEthPacket crc16 size counter) :=
  stays.trans (by constructor <;> simp [Net.sendEthPacket])

/-- The end of a transfer switches printing on as it removes the handler. -/
theorem Net.Stays.sendFileViaEthComplete {n m : Net} (stays : n.Stays m) (ms : Nat) :
    n.Stays (m.sendFileViaEthComplete ms) :=
  stays.trans (by constructor <;> simp [Net.sendFileViaEthComplete])

/-- A request for the next block keeps the connection. -/
theorem Net.pleaseSendNext_stays (crc16 : List UInt8 → UInt16) (sd : ReadIo) (ms pn : Nat) (n : Net) :
    n.Stays (n.pleaseSendNext crc16 sd ms pn) := by
  simp only [pleaseSendNext]
  -- Either the request is stale, or a block is read and sent, or nothing could be read.
  split
  · exact ⟨rfl, rfl, id⟩
  · split
    · apply Net.Stays.sendEthPacket
      exact ⟨rfl, rfl, id⟩
    · apply Net.Stays.sendFileViaEthComplete
      exact ⟨rfl, rfl, id⟩

/-- A request to repeat a block keeps the connection. -/
theorem Net.pleaseRepeat_stays (crc16 : List UInt8 → UInt16) (ms : Nat) (n : Net) :
    n.Stays (n.pleaseRepeat crc16 ms) := by
  simp only [pleaseRepeat]
  split
  · -- Too many repetitions end the transfer.
    apply Net.Stays.sendFileViaEthComplete
    apply Net.Stays.xmprintf
    exact ⟨rfl, rfl, id⟩
  · apply Net.Stays.sendEthPacket
    exact ⟨rfl, rfl, id⟩

/-- A request keeps the connection, whatever it asks for. -/
theorem Net.sendFileViaEthHandler_stays (crc16 : List UInt8 → UInt16) (sd : ReadIo) (ms : Nat)
    (r : GFrequest) (pn : Nat) (n : Net) : n.Stays (n.sendFileViaEthHandler crc16 sd ms r pn) := by
  cases r with
  | gfFinish => exact ((Net.Stays.refl n).xmprintf _).sendFileViaEthComplete ms
  | gfPleaseSendNext => exact n.pleaseSendNext_stays crc16 sd ms pn
  | gfPleaseRepeat => exact n.pleaseRepeat_stays crc16 ms
  | gfEmpty => exact .refl n

/-- The answer to `get` keeps the connection. -/
theorem Net.lfGetFile_stays (g : GetIn) (name : String) (n : Net) :
    n.Stays (n.lfGetFile g name).2 := by
  unfold lfGetFile
  split
  · exact ((Net.Stays.refl n).ethACK _ _).xmprintf _
  · split
    · exact ((Net.Stays.refl n).ethACK _ _).xmprintf _
    · -- The assertion in front of the open prints at most.
      have asserted : n.Stays (n.mxatClosed g) := by
        rcases n.mxatClosed_cases g with same | ⟨s, printed⟩
        · rw [same]
          exact .refl n
        · rw [printed]
          exact (Net.Stays.refl n).xmprintf s
      refine asserted.trans ?_
      dsimp only
      generalize n.mxatClosed g = n
      split
      · apply Net.Stays.xmprintf
        apply Net.Stays.ethACK
        exact ⟨rfl, rfl, id⟩
      · split
        · apply Net.Stays.xmprintf
          apply Net.Stays.ethACK
          exact ⟨rfl, rfl, id⟩
        · -- Printing goes off as the handler is installed.
          apply Net.Stays.ethACK
          exact ⟨rfl, rfl, fun _ => rfl⟩

theorem Net.effect_stays (n : Net) (e : Effect) : n.Stays (n.effect e) := by
  cases e with
  | xmprintf s => exact (Net.Stays.refl n).xmprintf s
  | lfGetFile g name => exact n.lfGetFile_stays g name

theorem Net.effects_stay (es : List Effect) (n : Net) : n.Stays (es.foldl Net.effect n) := by
  induction es generalizing n with
  | nil => exact .refl n
  | cons e es ih => exact (n.effect_stays e).trans (ih _)

section

variable (crc16 : List UInt8 → UInt16) (commands : List UInt8 → Net → List Effect)

/-- An action of the read loop keeps the connection. -/
theorem Net.perform_stays (sd : ReadIo) (ms : Nat) (n : Net) (a : Action) :
    n.Stays (n.perform (sessionHooks crc16 commands) sd ms a).1 := by
  cases a with
  | greet => exact .refl n
  | handler r pn => exact n.sendFileViaEthHandler_stays crc16 sd ms r pn
  | command s => exact effects_stay _ n
  | report s => exact .refl n

/-- The read loop keeps the connection. -/
theorem Net.readLoop_stays (ms : Nat) (reads : List Incoming) (n : Net) :
    n.Stays (n.readLoop (sessionHooks crc16 commands) ms reads).1 := by
  induction reads generalizing n with
  | nil => exact .refl n
  | cons i reads ih => exact (n.perform_stays crc16 commands _ ms _).trans (ih _)

/-- The end of a pass keeps the connection. -/
theorem Net.Stays.ping {n m : Net} (stays : n.Stays m) (ms : Nat) : n.Stays (m.ping ms).1 := by
  unfold Net.ping
  split
  · exact stays.trans ⟨rfl, rfl, id⟩
  · exact stays

/-- A pass that goes on keeps the connection as the checks at its start left it. -/
theorem Net.ethLoop_stays {i : PassIn} {n m : Net}
    (goes : n.connection (sessionHooks crc16 commands) i = (m, true)) :
    m.Stays (n.ethLoop (sessionHooks crc16 commands) i).1 := by
  rw [Net.ethLoop_goes goes]
  have read := m.readLoop_stays crc16 commands i.ms i.reads
  simp only [drain_eq]
  apply Net.Stays.ping
  exact ⟨read.clientConnected, read.client, read.printing⟩

/-- A pass that does not go on ends as the checks at its start left it. -/
theorem Net.ethLoop_returns {h : Hooks} {i : PassIn} {n m : Net}
    (returns : n.connection h i = (m, false)) : (n.ethLoop h i).1 = m := by
  rw [Net.ethLoop, returns]
  rfl

end

/-- The state in which the handle of a lost client has been released. -/
def Net.released (n : Net) (link : LinkStatus) : Net :=
  { n with linkStatus := link, clientConnected := false, client := false }

section

variable {h : Hooks} {i : PassIn} {n : Net}

/-- With the link off a pass only notes that, and that nobody is connected. -/
theorem Net.connection_off (off : i.link = .linkOFF) :
    n.connection h i =
      ({ n with linkStatus := i.link, ethStatus := .sEthNoLink, clientConnected := false }, false) := by
  simp [connection, off]

/-- Without a client a pass waits for one. -/
theorem Net.connection_none (on : i.link ≠ .linkOFF) (client : n.client = false)
    (available : i.available = false) :
    n.connection h i =
      ({ n with linkStatus := i.link, client := false, clientConnected := false }, false) := by
  simp [connection, on, client, available]

/-- A client that is connected is served, be it a new one or not. -/
theorem Net.connection_goes (on : i.link ≠ .linkOFF) (client : (n.client || i.available) = true)
    (connected : i.connected = true) :
    n.connection h i = ({ n with
      linkStatus := i.link
      client := true
      clientConnected := true
      rb := if n.clientConnected then n.rb else [] }, true) := by
  -- The handle was there before, or it is there now.
  cases held : n.client <;> cases was : n.clientConnected <;>
    simp_all [connection]

/-- A client that was connected and is no longer is stopped, and its transfer with it. -/
theorem Net.connection_lost (on : i.link ≠ .linkOFF) (client : n.client = true)
    (was : n.clientConnected = true) (connected : i.connected = false) :
    n.connection h i =
      (if n.infoHandler then h.infoHandler .full i.ms .gfFinish 0 (n.released i.link)
        else n.released i.link, false) := by
  simp [connection, released, on, client, was, connected]

/-- A client that is not connected, and was not seen to be, is kept. -/
theorem Net.connection_dead (on : i.link ≠ .linkOFF) (client : (n.client || i.available) = true)
    (never : n.clientConnected = false) (connected : i.connected = false) :
    n.connection h i = ({ n with linkStatus := i.link, client := true }, false) := by
  cases held : n.client <;> simp_all [connection]

end

/-- What holds of every state between two passes. -/
structure Net.Consistent (n : Net) : Prop where
  handle : n.clientConnected = true → n.client = true
  printing : n.enableEthOutput = !n.infoHandler

/-- A step that keeps the connection keeps what holds between two passes. -/
theorem Net.Consistent.stays {n m : Net} (consistent : n.Consistent) (stays : n.Stays m) :
    m.Consistent := by
  refine ⟨fun connected => ?_, stays.printing consistent.printing⟩
  rw [stays.client]
  exact consistent.handle (stays.clientConnected ▸ connected)

variable (crc16 : List UInt8 → UInt16) (commands : List UInt8 → Net → List Effect)

/-- A pass keeps what holds between two passes. -/
theorem Net.Consistent.ethLoop {n : Net} (consistent : n.Consistent) (i : PassIn) :
    (n.ethLoop (sessionHooks crc16 commands) i).1.Consistent := by
  by_cases off : i.link = .linkOFF
  · rw [Net.ethLoop_returns (Net.connection_off off)]
    exact ⟨fun connected => absurd connected (by simp), consistent.printing⟩
  cases client : (n.client || i.available) with
  | false =>
    simp only [Bool.or_eq_false_iff] at client
    rw [Net.ethLoop_returns (Net.connection_none off client.1 client.2)]
    exact ⟨fun connected => absurd connected (by simp), consistent.printing⟩
  | true =>
    cases connected : i.connected with
    | true =>
      -- The session goes on, and none of its steps touches the connection.
      refine Net.Consistent.stays ?_ (Net.ethLoop_stays crc16 commands
        (Net.connection_goes off client connected))
      exact ⟨fun _ => rfl, consistent.printing⟩
    | false =>
      cases was : n.clientConnected with
      | false =>
        rw [Net.ethLoop_returns (Net.connection_dead off client was connected)]
        exact ⟨fun _ => rfl, consistent.printing⟩
      | true =>
        rw [Net.ethLoop_returns (Net.connection_lost off (consistent.handle was) was connected)]
        have released : (n.released i.link).Consistent :=
          ⟨fun connected => absurd connected (by simp [Net.released]), consistent.printing⟩
        split
        · exact released.stays ((n.released i.link).sendFileViaEthHandler_stays crc16 .full i.ms .gfFinish 0)
        · exact released

/-- What holds between two passes holds in every state the Teensy reaches. -/
theorem EthStep.consistent {start n : Net} {events : List EthEvent} (booted : start.Booted)
    (run : Run (EthStep crc16) start events n) : n.Consistent := by
  refine run.invariant (P := Net.Consistent) ⟨fun connected => ?_, ?_⟩ ?_
  · rw [booted.clientConnected] at connected
    exact absurd connected (by simp)
  · rw [booted.enableEthOutput, booted.infoHandler]
    rfl
  · rintro n e m consistent rfl
    cases e with
    | pass i commands => exact consistent.ethLoop crc16 commands i
    | other e => exact consistent.stays (n.effect_stays e)

/-- A pass ends the session as asked exactly if the condition holds before it. -/
theorem Net.Consistent.endsSession_iff {n : Net} (consistent : n.Consistent) (i : PassIn) :
    EndsSession n i (n.ethLoop (sessionHooks crc16 commands) i).1 ↔ CanEndSession n i := by
  by_cases off : i.link = .linkOFF
  · rw [Net.ethLoop_returns (Net.connection_off off)]
    constructor
    · intro ends
      refine ⟨fun _ was => ?_, fun on => absurd off on, fun on => absurd off on⟩
      -- The pass leaves the transfer as it finds it.
      have terminated := ends.transfer was rfl
      exact ⟨terminated.infoHandler, terminated.ethFile⟩
    · intro can
      refine ⟨fun was _ => ?_, fun on => absurd off on⟩
      obtain ⟨handler, file⟩ := can.linkOff off was
      exact ⟨handler, file, by simpa [handler] using consistent.printing⟩
  cases client : (n.client || i.available) with
  | false =>
    simp only [Bool.or_eq_false_iff] at client
    -- Without a handle nobody was connected, and there is nothing to release.
    have never : n.clientConnected = false := by
      by_contra was
      exact absurd (consistent.handle (by simpa using was)) (by simp [client.1])
    rw [Net.ethLoop_returns (Net.connection_none off client.1 client.2)]
    constructor
    · intro ends
      refine ⟨fun on => absurd on off, fun _ was => ?_, fun _ _ _ => client⟩
      exact absurd was (by simp [never])
    · intro can
      refine ⟨fun was => absurd was (by simp [never]), fun _ _ => rfl⟩
  | true =>
    cases connected : i.connected with
    | true =>
      have stays := Net.ethLoop_stays crc16 commands
        (Net.connection_goes off client connected)
      constructor
      · intro ends
        exact ⟨fun on => absurd on off, fun _ _ lost => by simp [connected] at lost,
          fun _ _ lost => by simp [connected] at lost⟩
      · intro can
        refine ⟨fun _ lost => ?_, fun _ lost => by simp [connected] at lost⟩
        -- The console is still connected when the pass ends.
        rw [stays.clientConnected] at lost
        exact absurd lost (by simp)
    | false =>
      cases was : n.clientConnected with
      | false =>
        rw [Net.ethLoop_returns (Net.connection_dead off client was connected)]
        constructor
        · intro ends
          exact absurd (ends.handle off connected) (by simp)
        · intro can
          obtain ⟨handle, none⟩ := can.dead off was connected
          simp [handle, none] at client
      | true =>
        rw [Net.ethLoop_returns (Net.connection_lost off (consistent.handle was) was connected)]
        cases handler : n.infoHandler with
        | true =>
          -- The handler terminates the transfer, and the handle is released before that.
          show EndsSession n i ((n.released i.link).sendFileViaEthHandler crc16 .full i.ms .gfFinish 0) ↔ _
          have stays := (n.released i.link).sendFileViaEthHandler_stays crc16 .full i.ms .gfFinish 0
          constructor
          · intro ends
            exact ⟨fun on => absurd on off, fun _ _ _ none => by simp [handler] at none,
              fun _ never => by simp [was] at never⟩
          · intro can
            exact ⟨fun _ _ => Net.sendFileViaEthComplete_terminated _ i.ms, fun _ _ => stays.client⟩
        | false =>
          constructor
          · intro ends
            refine ⟨fun on => absurd on off, fun _ _ _ _ => ?_, fun _ never => by simp [was] at never⟩
            exact (ends.transfer was rfl).ethFile
          · intro can
            refine ⟨fun _ _ => ⟨handler, ?_, ?_⟩, fun _ _ => rfl⟩
            · exact can.stopped off was connected handler
            · show n.enableEthOutput = true
              simpa [handler] using consistent.printing

/--
In every state the Teensy reaches, the next pass ends a lost session exactly if the condition holds.

With the link off there must be no transfer, and a dead client must be one that was connected.
-/
theorem session_ends_iff {start n : Net} {events : List EthEvent} (booted : start.Booted)
    (run : Run (EthStep crc16) start events n) (i : PassIn) :
    EndsSession n i (n.ethLoop (sessionHooks crc16 commands) i).1 ↔ CanEndSession n i :=
  (EthStep.consistent crc16 booted run).endsSession_iff crc16 commands i

/--
A client that died while the link was off is kept for ever.

No pass asks the server for another client, so no new console can connect.
-/
theorem Net.dead_client_stays {n : Net} (handle : n.client = true) (never : n.clientConnected = false)
    (passes : List PassIn) (dead : ∀ i ∈ passes, i.connected = false) :
    let m := passes.foldl (fun n i => (n.ethLoop (sessionHooks crc16 commands) i).1) n
    m.client = true ∧ m.clientConnected = false := by
  induction passes generalizing n with
  | nil => exact ⟨handle, never⟩
  | cons i passes ih =>
    have later : ∀ j ∈ passes, j.connected = false := fun j member => dead j (by simp [member])
    rw [List.foldl_cons]
    by_cases off : i.link = .linkOFF
    · rw [Net.ethLoop_returns (Net.connection_off off)]
      exact ih handle rfl later
    · rw [Net.ethLoop_returns (Net.connection_dead off (by simp [handle]) never (dead i (by simp)))]
      exact ih rfl never later

/-- The state after `ethSetup` with the link up. -/
def Net.booted : Net where
  ethStatus := .sEthGood
  linkStatus := .linkON
  clientConnected := false
  client := false
  infoHandler := false
  rb := []
  aliveTime := 0
  enableEthOutput := true
  ethFile := none
  ethFileSize := 0
  ethFileBytesCounter := 0
  sendFilePacketsCounter := 0
  repeatSendCounter := 0
  fileReadInfoSize := 0
  sfwState := .sfwStart
  ethFileStartTime := 0
  rbBuf := fun _ => 0

theorem Net.booted_booted : Net.booted.Booted := ⟨rfl, rfl, rfl, rfl⟩

/-- A pass with the link up that finds a connected console, which asks for a file. -/
def getPass : PassIn := ⟨.linkON, true, true, [⟨ascii "get a", .full⟩], 0⟩

/-- What `get a` does when the file holds one byte. -/
def getEffect : List UInt8 → Net → List Effect :=
  fun _ _ => [.lfGetFile ⟨false, .lfSGood, "", some [1], 0, none⟩ "a"]

/-- A console whose connection is lost with the link up loses its transfer. -/
theorem session_ends_in_transfer :
    EndsSession (Net.booted.ethEvent (fun _ => 0) (.pass getPass getEffect))
      ⟨.linkON, false, false, [], 0⟩
      ((Net.booted.ethEvent (fun _ => 0) (.pass getPass getEffect)).ethLoop
        (sessionHooks (fun _ => 0) getEffect) ⟨.linkON, false, false, [], 0⟩).1 :=
  (session_ends_iff (fun _ => 0) getEffect Net.booted_booted
    (Run.single (a := EthEvent.pass getPass getEffect) rfl) _).mpr
    ⟨fun off => by simp at off, fun _ _ _ handler => absurd handler (by decide),
      fun _ never => absurd never (by decide)⟩

/-- When the link goes off during a transfer, the transfer is not terminated. -/
theorem session_survives_link_off : ¬ ∃ crc16 : List UInt8 → UInt16,
    ∀ commands start n events i, start.Booted → Run (EthStep crc16) start events n →
      EndsSession n i (n.ethLoop (sessionHooks crc16 commands) i).1 := by
  rintro ⟨crc16, ends⟩
  have lost := (ends getEffect _ _ _ ⟨.linkOFF, false, false, [], 0⟩ Net.booted_booted
    (Run.single (a := EthEvent.pass getPass getEffect) rfl)).transfer rfl rfl
  -- The handler that the request installed is still there.
  have handler : ((Net.booted.ethEvent crc16 (.pass getPass getEffect)).ethLoop
    (sessionHooks crc16 getEffect) ⟨.linkOFF, false, false, [], 0⟩).1.infoHandler = true := rfl
  rw [lost.infoHandler] at handler
  exact absurd handler (by decide)

end Teetest
