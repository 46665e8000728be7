import Teetest.Session.Connection

/-!
What the output ring of the Ethernet side can take between two drains.

Everything that is printed, acknowledged or sent passes through `ethFeed`.
-/

namespace Teetest

open Lib

/-- What the main loop does between two drains: a call that feeds the ring, or an assignment. -/
inductive Produce
  | xmprintf (s : String)
  | ethACK (yes : Bool) (info : Int)
  | sendEthPacket (size : Int) (counter : Nat)
  | endOfTransmission
  -- any change of the variables other than the ring and the connection
  | assign (rest : Net)

section

variable (crc16 : List UInt8 → UInt16)

/-- The state after one of them. -/
def Net.produce (n : Net) : Produce → Net
  | .xmprintf s => n.xmprintf s
  | .ethACK yes info => n.ethACK yes info
  | .sendEthPacket size counter => n.sendEthPacket crc16 size counter
  | .endOfTransmission => n.ethFeed .teee (teee ++ List.replicate 12 0)
  | .assign rest => { rest with rb := n.rb, clientConnected := n.clientConnected }

/-- The bytes it passes to `ethFeed`. -/
def Net.passed (n : Net) : Produce → List WByte
  -- a text does not get as far as the ring while printing is off
  | .xmprintf s => if n.enableEthOutput then mark .text (cstr (sbufText (ascii s))) else []
  | .ethACK yes info =>
    mark .text (ascii ((if yes then "ack," else "nak,") ++ toString info ++ "\r\n"))
  | .sendEthPacket size counter =>
    let payload := n.rbBuf.read ethHeaderSize size.toNat
    let rbBuf := n.rbBuf.write 0 (packetHeader crc16 size counter payload)
    mark (.packet counter) (rbBuf.read 0 (size + ethHeaderSize).toNat)
  | .endOfTransmission => mark .teee (teee ++ List.replicate 12 0)
  | .assign _ => []

/-- The state after a sequence of productions. -/
def Net.produceAll (n : Net) (ps : List Produce) : Net := ps.foldl (Net.produce crc16) n

/-- The bytes that a sequence of productions passes to `ethFeed`, in order. -/
def Net.passedAll : List Produce → Net → List WByte
  | [], _ => []
  | p :: ps, n => n.passed crc16 p ++ Net.passedAll ps (n.produce crc16 p)

/-- A state that is reached by productions. -/
def Net.Produces (n m : Net) : Prop := ∃ ps, m = n.produceAll crc16 ps

variable {crc16} {n m k : Net}

theorem Net.Produces.refl (n : Net) : n.Produces crc16 n := ⟨[], rfl⟩

theorem Net.Produces.trans (first : n.Produces crc16 m) (second : m.Produces crc16 k) :
    n.Produces crc16 k := by
  obtain ⟨ps, rfl⟩ := first
  obtain ⟨qs, rfl⟩ := second
  exact ⟨ps ++ qs, by simp [produceAll]⟩

/-- One more production. -/
theorem Net.Produces.produce (first : n.Produces crc16 m) (p : Produce) :
    n.Produces crc16 (m.produce crc16 p) :=
  first.trans ⟨[p], rfl⟩

/-- An assignment to the variables that are neither the ring nor the connection. -/
theorem Net.Produces.assign (ring : m.rb = n.rb) (connected : m.clientConnected = n.clientConnected) :
    n.Produces crc16 m :=
  ⟨[.assign m], by cases m; simp_all [produceAll, Net.produce]⟩

theorem Net.Produces.xmprintf (first : n.Produces crc16 m) (s : String) :
    n.Produces crc16 (m.xmprintf s) :=
  first.produce (.xmprintf s)

theorem Net.Produces.ethACK (first : n.Produces crc16 m) (yes : Bool) (info : Int) :
    n.Produces crc16 (m.ethACK yes info) :=
  first.produce (.ethACK yes info)

theorem Net.Produces.sendEthPacket (first : n.Produces crc16 m) (size : Int) (counter : Nat) :
    n.Produces crc16 (m.sendEthPacket crc16 size counter) :=
  first.produce (.sendEthPacket size counter)

/-- A production keeps the connection. -/
theorem Net.produce_clientConnected (n : Net) (p : Produce) :
    (n.produce crc16 p).clientConnected = n.clientConnected := by
  cases p <;> simp [produce, ethACK, sendEthPacket]

/-- Feeding stores the message as a whole, or drops it as a whole. -/
theorem Net.ethFeed_rb (connected : n.clientConnected = true) (origin : Origin) (s : List UInt8) :
    (n.ethFeed origin s).rb =
      if n.rb.length + (mark origin s).length ≤ ethRbSize then n.rb ++ mark origin s else n.rb := by
  rw [mark_length]
  simp only [ethFeed, connected, Bool.not_true, Bool.false_eq_true, if_false]
  split <;> rfl

/-- What a production passes is stored as a whole, or dropped as a whole. -/
theorem Net.produce_rb (connected : n.clientConnected = true) (p : Produce) :
    (n.produce crc16 p).rb =
      if n.rb.length + (n.passed crc16 p).length ≤ ethRbSize then n.rb ++ n.passed crc16 p
      else n.rb := by
  cases p with
  | xmprintf s =>
    cases printing : n.enableEthOutput with
    | true =>
      simp only [produce, passed, xmprintf, printing, if_true]
      exact n.ethFeed_rb connected _ _
    | false => simp [produce, passed, xmprintf, printing]
  | ethACK yes info => exact n.ethFeed_rb connected _ _
  | sendEthPacket size counter =>
    -- The header was written into `rbBuf`, which is not the ring.
    exact Net.ethFeed_rb (by exact connected) _ _
  | endOfTransmission => exact n.ethFeed_rb connected _ _
  | assign rest => simp [produce, passed]

/-- The ring never holds more than its capacity. -/
def Net.Bounded (n : Net) : Prop := n.rb.length ≤ ethRbSize

/-- A feed keeps the ring within its capacity. -/
theorem Net.Bounded.ethFeed (bounded : n.Bounded) (origin : Origin) (s : List UInt8) :
    (n.ethFeed origin s).Bounded := by
  unfold Net.Bounded Net.ethFeed
  split_ifs with off fits
  · exact bounded
  · simpa using fits
  · exact bounded

/-- A production keeps the ring within its capacity. -/
theorem Net.Bounded.produce (bounded : n.Bounded) (p : Produce) : (n.produce crc16 p).Bounded := by
  cases p with
  | xmprintf s =>
    simp only [Net.produce, xmprintf]
    split
    · exact bounded.ethFeed _ _
    · exact bounded
  | ethACK yes info => exact bounded.ethFeed _ _
  | sendEthPacket size counter => exact Net.Bounded.ethFeed (by exact bounded) _ _
  | endOfTransmission => exact bounded.ethFeed _ _
  | assign rest => exact bounded

/-- Whatever is produced keeps the ring within its capacity. -/
theorem Net.Bounded.produces (bounded : n.Bounded) (produces : n.Produces crc16 m) : m.Bounded := by
  obtain ⟨ps, rfl⟩ := produces
  -- One production after the other, from the front.
  induction ps generalizing n with
  | nil => exact bounded
  | cons p ps ih => exact ih (bounded.produce p)

/-- What fits is stored, in order, behind what was in the ring. -/
theorem Net.produceAll_fits (connected : n.clientConnected = true) (ps : List Produce)
    (fits : n.rb.length + (n.passedAll crc16 ps).length ≤ ethRbSize) :
    (n.produceAll crc16 ps).rb = n.rb ++ n.passedAll crc16 ps := by
  induction ps generalizing n with
  | nil => simp [produceAll, passedAll]
  | cons p ps ih =>
    simp only [passedAll, List.length_append] at fits
    -- The first message fits, since all of them together do.
    have stored : (n.produce crc16 p).rb = n.rb ++ n.passed crc16 p := by
      rw [produce_rb connected, if_pos (by omega)]
    have later := ih ((n.produce_clientConnected p).trans connected)
      (by rw [stored, List.length_append]; omega)
    show ((n.produce crc16 p).produceAll crc16 ps).rb = _
    rw [later, stored, passedAll, List.append_assoc]

/-- The next drain writes all that is produced, exactly if it fits into the ring. -/
theorem Net.Bounded.written_iff (bounded : n.Bounded) (connected : n.clientConnected = true)
    (ps : List Produce) :
    (n.produceAll crc16 ps).drain.2 = n.rb ++ n.passedAll crc16 ps ↔
      n.rb.length + (n.passedAll crc16 ps).length ≤ ethRbSize := by
  rw [drain_eq]
  constructor
  · intro written
    -- What was written was in the ring, which holds no more than its capacity.
    have kept : (n.produceAll crc16 ps).Bounded := bounded.produces ⟨ps, rfl⟩
    rw [← List.length_append, ← written]
    exact kept
  · exact n.produceAll_fits connected ps

/-- The end of a transfer only feeds the ring and assigns. -/
theorem Net.Produces.sendFileViaEthComplete (first : n.Produces crc16 m) (ms : Nat) :
    n.Produces crc16 (m.sendFileViaEthComplete ms) := by
  have closed : n.Produces crc16
      { m with infoHandler := false, ethFile := none, enableEthOutput := true } :=
    first.trans (.assign rfl rfl)
  have ended := closed.produce .endOfTransmission
  -- Two texts follow the end of transmission.
  unfold Net.sendFileViaEthComplete
  apply Net.Produces.xmprintf
  apply Net.Produces.xmprintf
  exact ended

/-- A request for the next block only feeds the ring and assigns. -/
theorem Net.pleaseSendNext_produces (sd : ReadIo) (ms pn : Nat) (n : Net) :
    n.Produces crc16 (n.pleaseSendNext crc16 sd ms pn) := by
  simp only [pleaseSendNext]
  split
  · exact .assign rfl rfl
  · split
    · -- A block was read, and goes out in a packet.
      apply Net.Produces.sendEthPacket
      exact .assign rfl rfl
    · apply Net.Produces.sendFileViaEthComplete
      exact .assign rfl rfl

/-- A request to repeat a block only feeds the ring and assigns. -/
theorem Net.pleaseRepeat_produces (ms : Nat) (n : Net) :
    n.Produces crc16 (n.pleaseRepeat crc16 ms) := by
  simp only [pleaseRepeat]
  split
  · -- Too many repetitions end the transfer, after a text.
    apply Net.Produces.sendFileViaEthComplete
    apply Net.Produces.xmprintf
    exact .assign rfl rfl
  · apply Net.Produces.sendEthPacket
    exact .assign rfl rfl

/-- A request only feeds the ring and assigns, whatever it asks for. -/
theorem Net.sendFileViaEthHandler_produces (sd : ReadIo) (ms : Nat) (r : GFrequest) (pn : Nat)
    (n : Net) : n.Produces crc16 (n.sendFileViaEthHandler crc16 sd ms r pn) := by
  cases r with
  | gfFinish => exact ((Net.Produces.refl n).xmprintf _).sendFileViaEthComplete ms
  | gfPleaseSendNext => exact n.pleaseSendNext_produces sd ms pn
  | gfPleaseRepeat => exact n.pleaseRepeat_produces ms
  | gfEmpty => exact .refl n

/-- The assertion in front of the open prints at most. -/
theorem Net.mxatClosed_produces (g : GetIn) (n : Net) : n.Produces crc16 (n.mxatClosed g) := by
  rcases n.mxatClosed_cases g with same | ⟨s, printed⟩
  · rw [same]
    exact .refl n
  · rw [printed]
    exact (Net.Produces.refl n).xmprintf s

/-- The answer to `get` only feeds the ring and assigns. -/
theorem Net.lfGetFile_produces (g : GetIn) (name : String) (n : Net) :
    n.Produces crc16 (n.lfGetFile g name).2 := by
  unfold lfGetFile
  split
  · exact ((Net.Produces.refl n).ethACK _ _).xmprintf _
  · split
    · exact ((Net.Produces.refl n).ethACK _ _).xmprintf _
    · refine (n.mxatClosed_produces g).trans ?_
      dsimp only
      generalize n.mxatClosed g = n
      split
      · -- The file object is closed before the refusal.
        apply Net.Produces.xmprintf
        apply Net.Produces.ethACK
        exact .assign rfl rfl
      · split
        · apply Net.Produces.xmprintf
          apply Net.Produces.ethACK
          exact .assign rfl rfl
        · apply Net.Produces.ethACK
          exact .assign rfl rfl

/-- The output of a command only feeds the ring and assigns. -/
theorem Net.effect_produces (n : Net) (e : Effect) : n.Produces crc16 (n.effect e) := by
  cases e with
  | xmprintf s => exact (Net.Produces.refl n).xmprintf s
  | lfGetFile g name => exact n.lfGetFile_produces g name

variable (crc16) (commands : List UInt8 → Net → List Effect)

/-- A pass keeps the ring within its capacity. -/
theorem Net.Bounded.ethLoop (bounded : n.Bounded) (i : PassIn) :
    (n.ethLoop (sessionHooks crc16 commands) i).1.Bounded := by
  have empty : ∀ k : Net, k.rb = [] → k.Bounded := by
    intro k nothing
    rw [Net.Bounded, nothing]
    exact Nat.zero_le _
  -- A pass returns early, after the checks at its start, or it drains the ring.
  cases checked : n.connection (sessionHooks crc16 commands) i with
  | mk m goes =>
    cases goes with
    | true =>
      rw [Net.ethLoop_goes checked]
      simp only [drain_eq]
      apply empty
      unfold Net.ping
      split <;> rfl
    | false =>
      rw [Net.ethLoop_returns checked]
      have m_eq : m = (n.connection (sessionHooks crc16 commands) i).1 := by rw [checked]
      rw [m_eq]
      unfold Net.connection
      dsimp only
      -- Only the loss of the connection feeds the ring, through the handler.
      split
      · exact bounded
      · split_ifs
        all_goals first
          | exact bounded
          | exact empty _ rfl
          | skip
        all_goals
          refine Net.Bounded.produces ?_
            (@Net.sendFileViaEthHandler_produces crc16 .full i.ms .gfFinish 0 _)
          exact bounded

/-- The ring is within its capacity in every state the Teensy reaches. -/
theorem EthStep.bounded {start : Net} {events : List EthEvent} (empty : start.rb = [])
    (run : Run (EthStep crc16) start events n) : n.Bounded := by
  refine run.invariant (P := Net.Bounded) ?_ ?_
  · rw [Net.Bounded, empty]
    exact Nat.zero_le _
  · rintro n e m bounded rfl
    cases e with
    | pass i commands => exact bounded.ethLoop crc16 commands i
    | other e => exact bounded.produces (@Net.effect_produces crc16 n e)

/--
In every state with a connected client, the next drain writes all that is produced before it
exactly if this fits into the ring together with what is waiting there.
-/
theorem fed_is_written_iff {start : Net} {events : List EthEvent} (empty : start.rb = [])
    (run : Run (EthStep crc16) start events n) (connected : n.clientConnected = true)
    (ps : List Produce) :
    (n.produceAll crc16 ps).drain.2 = n.rb ++ n.passedAll crc16 ps ↔
      n.rb.length + (n.passedAll crc16 ps).length ≤ ethRbSize :=
  (EthStep.bounded crc16 empty run).written_iff connected ps

/-- A pass with the link up that finds a connected console, which asks for nothing. -/
def quietPass : EthEvent := .pass ⟨.linkON, true, true, [], 0⟩ fun _ _ => []

/-- An acknowledgement and a text leave the ring with the next drain. -/
theorem fed_is_written_ack :
    let n := Net.booted.ethEvent (fun _ => 0) quietPass
    let ps := [Produce.ethACK true 3, .xmprintf "hello\r\n"]
    (n.produceAll (fun _ => 0) ps).drain.2 = n.rb ++ n.passedAll (fun _ => 0) ps :=
  (fed_is_written_iff _ rfl (Run.single (a := quietPass) rfl) rfl _).mpr (by decide +kernel)

variable {crc16} in
/-- While printing is on, texts are passed one after the other. -/
theorem Net.passedAll_texts (printing : n.enableEthOutput = true) (texts : List String) :
    n.passedAll crc16 (texts.map .xmprintf) =
      texts.flatMap fun s => mark .text (cstr (sbufText (ascii s))) := by
  induction texts generalizing n with
  | nil => rfl
  | cons s texts ih =>
    have on : (n.produce crc16 (.xmprintf s)).enableEthOutput = true := by
      simpa [produce] using printing
    simp only [List.map_cons, passedAll, passed, printing, if_true, List.flatMap_cons]
    rw [ih on]

end

/-- What `lfFiles` finds in the log module and in the root directory of the card. -/
structure FilesIn where
  lfWriting : Bool
  sdStarted : Bool
  fileNameCopy : String
  -- the names and sizes of the files, when the root directory can be opened
  root : Option (List (String × Nat))

/-- `lfFiles`: the texts it prints. -/
def lfFiles (f : FilesIn) : List String :=
  if f.lfWriting then ["writing file " ++ f.fileNameCopy ++ " right now \r\n"]
  else if !f.sdStarted then ["SD didnt start \r\n"]
  else
    match f.root with
    | none => ["cannot open root \r\n"]
    | some files => files.map fun file => file.1 ++ "\t" ++ toString file.2 ++ "\r\n"

/-- A card with sixty automatic logs. -/
def manyLogs : FilesIn :=
  ⟨false, true, "", some ((List.range 60).map fun k => ("log_" ++ toString k ++ ".xq", 1048576))⟩

/-- The listing of a card with many logs does not fit into the ring. -/
theorem listing_dropped : ¬ ∃ crc16 : List UInt8 → UInt16,
    ∀ (start n : Net) (events : List EthEvent) (ps : List Produce), start.Booted → start.rb = [] →
      Run (EthStep crc16) start events n → n.clientConnected = true →
        (n.produceAll crc16 ps).drain.2 = n.rb ++ n.passedAll crc16 ps := by
  rintro ⟨crc16, written⟩
  have run : Run (EthStep crc16) Net.booted [quietPass] (Net.booted.ethEvent crc16 quietPass) :=
    Run.single rfl
  have fits := ((EthStep.bounded crc16 rfl run).written_iff rfl _).mp
    (written _ _ _ ((lfFiles manyLogs).map .xmprintf) Net.booted_booted rfl run rfl)
  rw [Net.passedAll_texts rfl] at fits
  have listing : ethRbSize < ((lfFiles manyLogs).flatMap fun s =>
      mark Origin.text (cstr (sbufText (ascii s)))).length := by decide +kernel
  omega

end Teetest
