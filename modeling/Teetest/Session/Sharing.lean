import Teetest.Log.Writing
import Teetest.Session.Connection
import Teetest.Src.CmdHandler
import Teetest.Src.ImuAlg

/-!
The buffer `rbBuf`, which the log and the file transfer share.

A transfer is refused while a log is written, but a log is started whether a transfer is going on or not.
-/

namespace Teetest

open Lib

/-- The firmware, as far as the log and the file transfer go. -/
structure Tee (K : Type) where
  net : Net
  log : LogFile
  imu : ImuAlg K
  -- the block that was last read from the file that `ethFile` holds
  block : Option (List UInt8)
  -- whether a packet was written into `rbBuf` while log messages were queued there
  overwritten : Bool

/-- The answers of the card and of the clock, and the message of a sample with the buffer behind it. -/
structure TeeIo where
  start : StartIo
  stop : StopIo
  -- the contents of the file that a `get` names, if it can be opened
  opened : Option (List UInt8)
  ms : Nat
  -- what a failing `mxat` passes on
  mxat : Option (String × String)
  data : List UInt8
  type : UInt8
  -- `put_rb_s` writes into `rbBuf` wherever the ring stands
  mem : Mem

/-- What happens to the firmware. -/
inductive TeeEvent (K : Type)
  -- a command line from USB or infrared
  | command (s : List UInt8) (io : TeeIo)
  -- one result of `client.read` in the read loop of `ethLoop`
  | read (packet : List UInt8) (sd : ReadIo) (io : TeeIo)
  -- the part of `ethLoop` before its read loop, and the part behind it
  | connection (i : PassIn)
  | endOfPass (ms : Nat)
  | imuInfo (imu : XIMUData K) (io : TeeIo)
  -- a message or a text from another part of the program
  | lfSendMessage (io : TeeIo)
  | xmprintf (s : String)
  | lfProcess (io : Nat → BlockIo)

/-- A transfer is active: a file is open, and the handler is installed. -/
def Net.Active (n : Net) : Prop := n.ethFile.isSome = true ∧ n.infoHandler = true

/-- Whether a request gets as far as writing a packet into `rbBuf`. -/
def Net.borrows (n : Net) (sd : ReadIo) (pn : Nat) : GFrequest → Bool
  -- at the end of the file nothing is written, but a failed read sends a packet too
  | .gfPleaseSendNext =>
    !decide (n.sendFilePacketsCounter % 2 ^ 32 > pn) && decide ((readEthFile n.ethFile sd).1 ≠ 0)
  | .gfPleaseRepeat => decide (n.repeatSendCounter + 1 < maximumRepeats)
  | _ => false

/-- The block that a request reads from the file, if it reads one. -/
def Net.blockRead (n : Net) (sd : ReadIo) (pn : Nat) (block : Option (List UInt8)) :
    GFrequest → Option (List UInt8)
  | .gfPleaseSendNext =>
    if n.sendFilePacketsCounter % 2 ^ 32 > pn then block
    else
      let r := readEthFile n.ethFile sd
      if r.1 < 0 then none else some r.2.1
  | _ => block

/-- A C string as a text. -/
def nameText (s : List UInt8) : String := String.ofList (s.map fun b => Char.ofNat b.toNat)

/-- What the algorithm sees of the log. -/
def LogFile.view (s : LogFile) : LogView := ⟨s.lfState, s.lfWriting⟩

section

variable {K : Type} [Field K] [LinearOrder K]
variable (crc16 : List UInt8 → UInt16) (x : XMessage) (lib : XMatrix K)

/-- `lfGetFile`, with what it finds in the log module. -/
def Tee.lfGetFile (io : TeeIo) (name : List UInt8) (t : Tee K) : Tee K :=
  let r := t.net.lfGetFile
    ⟨t.log.lfWriting, t.log.lfState, nameText t.log.fileNameCopy, io.opened, io.ms, io.mxat⟩ (nameText name)
  -- the codes 1 and 2 are returned before the file is opened
  { t with net := r.2, block := if r.1 = 1 ∨ r.1 = 2 then t.block else none }

/-- A command of `processTheCommand`. -/
def Tee.perform (io : TeeIo) (t : Tee K) : Command → Tee K
  | .log name => { t with log := t.log.lfStart io.start name }
  | .lstop => { t with log := t.log.lfStop io.stop }
  | .get name => t.lfGetFile io name
  | .setup => { t with imu := t.imu.startImuCalibration t.log.view }
  | .enter => { t with imu := t.imu.nextImuCalibration }
  | .play => { t with imu := t.imu.rStay }
  | .stop => { t with imu := t.imu.rStop.1 }
  -- the others print, or drive the motors
  | _ => t

/-- `processTheCommand`. -/
def Tee.processTheCommand (io : TeeIo) (s : List UInt8) (t : Tee K) : Tee K :=
  match Teetest.processTheCommand s with
  | some c => t.perform io c
  | none => t

/-- A request to the handler that is installed. -/
def Tee.request (io : TeeIo) (sd : ReadIo) (r : GFrequest) (pn : Nat) (t : Tee K) : Tee K :=
  { t with
    net := t.net.sendFileViaEthHandler crc16 sd io.ms r pn
    block := t.net.blockRead sd pn t.block r
    overwritten := t.overwritten || (t.net.borrows sd pn r && !t.log.rb.isEmpty) }

/-- One round of the read loop. -/
def Tee.read (io : TeeIo) (packet : List UInt8) (sd : ReadIo) (t : Tee K) : Tee K :=
  match dispatch t.net.infoHandler packet with
  | .handler r pn => t.request crc16 io sd r pn
  | .command s => t.processTheCommand io s
  | .greet | .report _ => t

/-- `lfSendMessage`, and the buffer behind it if the message is put into the ring. -/
def Tee.lfSendMessage (io : TeeIo) (t : Tee K) : Tee K :=
  let r := t.log.lfSendMessage x io.data io.type
  { t with log := r.2, net := if r.1 = 0 then t.net else { t.net with rbBuf := io.mem } }

/-- A call that the algorithm makes of another module. -/
def Tee.call (io : TeeIo) (t : Tee K) : ImuCall K → Tee K
  | .lfStop => { t with log := t.log.lfStop io.stop }
  | .lfStart => { t with log := t.log.lfStart io.start none }
  | .lfSendMessage => t.lfSendMessage x io
  -- the motors, and a file of its own
  | _ => t

/-- `imuInfo`: the algorithm is fed, and the sample goes into the log. -/
def Tee.imuInfo (imu : XIMUData K) (io : TeeIo) (t : Tee K) : Tee K :=
  let r := t.imu.imuAlgFeed lib imu t.log.view
  (r.2.foldl (Tee.call x io) { t with imu := r.1 }).lfSendMessage x io

/-- The hooks of `ethLoop` for the checks at the start of a pass, which call the handler only. -/
def handlerHooks : Hooks where
  infoHandler := Net.sendFileViaEthHandler crc16
  processTheCommand := fun _ n => n

/-- The state after an event. -/
def Tee.after (t : Tee K) : TeeEvent K → Tee K
  | .command s io => t.processTheCommand io s
  | .read packet sd io => t.read crc16 io packet sd
  | .connection i => { t with net := (t.net.connection (handlerHooks crc16) i).1 }
  | .endOfPass ms => { t with net := (t.net.drain.1.ping ms).1 }
  | .imuInfo imu io => t.imuInfo x lib imu io
  | .lfSendMessage io => t.lfSendMessage x io
  | .xmprintf s => { t with net := t.net.xmprintf s }
  | .lfProcess io => { t with log := t.log.lfProcess io }

/-- The state after `ttSetup`, on a card and with the calibration that is found there. -/
def Tee.started (card : Files FileName UInt8) (created : List FileName) (begins : Bool)
    (parsed : List K) : Tee K where
  net := Net.booted
  log := (LogFile.powerUp card created).lfInit begins
  imu := ImuAlg.started lib ((LogFile.powerUp card created).lfInit begins).view parsed
  block := none
  overwritten := false

/-- The log and the transfer keep apart. -/
structure Tee.Apart (t : Tee K) : Prop where
  -- no log is written during a transfer
  exclusive : ¬ (t.log.lfWriting = true ∧ t.net.Active)
  -- the bytes that a repetition sends are the block that was read from the file
  block : t.net.Active → ∀ b, t.block = some b → t.net.fileReadInfoSize = b.length ∧
    t.net.rbBuf.read ethHeaderSize t.net.fileReadInfoSize = b
  -- no packet was written over queued log messages, which there are only while a log is written
  queued : t.overwritten = false
  empty : t.log.lfWriting = false → t.log.rb = []

/--
What keeps the log and the transfer apart.

No log is started during a transfer, and no request that writes a packet comes while log messages are queued.
-/
def Tee.Orderly (t : Tee K) : TeeEvent K → Prop
  | .command s io => ∀ name, Teetest.processTheCommand s = some (.log name) → t.net.Active →
      ¬ (t.log.OpensLog io.start name ∧ io.start.openLog = true ∧ io.start.preAllocated = true)
  | .read packet sd _ => ∀ r pn, dispatch t.net.infoHandler packet = .handler r pn →
      t.net.borrows sd pn r = true → t.log.rb = []
  | _ => True

end

/-- Where a transfer is still active it was active before, and its block is where it was. -/
structure Net.Holding (n m : Net) : Prop where
  active : m.Active → n.Active
  size : m.Active → m.fileReadInfoSize = n.fileReadInfoSize
  block : m.Active → ∀ k, m.rbBuf.read ethHeaderSize k = n.rbBuf.read ethHeaderSize k

section net

variable {n m k : Net} {crc16 : List UInt8 → UInt16}

theorem Net.Holding.trans (first : n.Holding m) (second : m.Holding k) : n.Holding k where
  active now := first.active (second.active now)
  size now := (second.size now).trans (first.size (second.active now))
  block now len := (second.block now len).trans (first.block (second.active now) len)

/-- A step that touches neither file nor handler nor buffer holds the block. -/
theorem Net.Holding.of_same (file : m.ethFile = n.ethFile) (handler : m.infoHandler = n.infoHandler)
    (size : m.fileReadInfoSize = n.fileReadInfoSize) (buf : m.rbBuf = n.rbBuf) : n.Holding m where
  active now := ⟨file ▸ now.1, handler ▸ now.2⟩
  size _ := size
  block _ len := by rw [buf]

/-- A step that changes the ring only holds the block. -/
theorem Net.Holding.of_frame (same : m.frame = n.frame) : n.Holding m :=
  .of_same (congrArg Net.ethFile same :) (congrArg Net.infoHandler same :)
    (congrArg Net.fileReadInfoSize same :) (congrArg Net.rbBuf same :)

/-- Behind the end of a transfer none is active. -/
theorem Net.Holding.of_terminated (ended : m.Terminated) : n.Holding m := by
  -- The file is closed, so there is nothing to hold.
  have never : ¬ m.Active := by
    rintro ⟨opened, -⟩
    rw [ended.ethFile] at opened
    cases opened
  exact ⟨fun now => absurd now never, fun now => absurd now never, fun now => absurd now never⟩

variable (crc16) in
/-- A packet is sent with its header in front of the block. -/
theorem Net.sendEthPacket_holding (n : Net) (size : Int) (counter : Nat) :
    n.Holding (n.sendEthPacket crc16 size counter) := by
  -- The packet is fed after its header was written.
  have same := Net.ethFeed_frame
    { n with rbBuf := n.rbBuf.write 0 (packetHeader crc16 size counter
        (n.rbBuf.read ethHeaderSize size.toNat)) } (.packet counter)
    ((n.rbBuf.write 0 (packetHeader crc16 size counter
        (n.rbBuf.read ethHeaderSize size.toNat))).read 0 (size + ethHeaderSize).toNat)
  refine Net.Holding.trans (m := { n with rbBuf := n.rbBuf.write 0 (packetHeader crc16 size counter
        (n.rbBuf.read ethHeaderSize size.toNat)) }) ⟨id, fun _ => rfl, fun _ len => ?_⟩ (.of_frame same)
  -- The header ends where the block begins.
  have header : (packetHeader crc16 size counter (n.rbBuf.read ethHeaderSize size.toNat)).length =
      ethHeaderSize := rfl
  show (n.rbBuf.write 0 _).read ethHeaderSize len = n.rbBuf.read ethHeaderSize len
  refine Mem.read_write_disjoint n.rbBuf (.inr ?_)
  rw [header, Nat.zero_add]

/-- A repetition holds the block, or ends the transfer. -/
theorem Net.pleaseRepeat_holding (ms : Nat) (n : Net) : n.Holding (n.pleaseRepeat crc16 ms) := by
  unfold pleaseRepeat
  dsimp only
  split_ifs
  · -- Too many repetitions end the transfer.
    exact .of_terminated (sendFileViaEthComplete_terminated _ ms)
  · -- The counter is no part of the block.
    refine Net.Holding.trans (m := { n with repeatSendCounter := n.repeatSendCounter + 1 })
      (.of_same rfl rfl rfl rfl) (sendEthPacket_holding crc16 _ _ _)

/-- What a read of a block returns. -/
theorem readEthFile_length (f : Option OpenFile) (sd : ReadIo) :
    (0 ≤ (readEthFile f sd).1 → (readEthFile f sd).1 = (readEthFile f sd).2.1.length) ∧
      (readEthFile f sd).2.1.length ≤ blockSize ∧ (readEthFile f sd).2.2.isSome = f.isSome := by
  -- A closed file fails, and a card reads a block, a part of it or nothing.
  cases f with
  | none => simp [readEthFile]
  | some f =>
    cases sd with
    | full =>
      refine ⟨fun _ => rfl, ?_, rfl⟩
      simp only [readEthFile, OpenFile.read, List.length_take]
      omega
    | short j =>
      refine ⟨fun _ => rfl, ?_, rfl⟩
      simp only [readEthFile, OpenFile.read, List.length_take]
      omega
    | error => simp [readEthFile, OpenFile.read]

/-- A block that is read stands in the buffer as long as the transfer is active. -/
theorem Net.pleaseSendNext_block (sd : ReadIo) (ms pn : Nat) (n : Net)
    (due : ¬ n.sendFilePacketsCounter % 2 ^ 32 > pn) :
    (n.pleaseSendNext crc16 sd ms pn).Active → n.Active ∧
      (0 ≤ (readEthFile n.ethFile sd).1 →
        (n.pleaseSendNext crc16 sd ms pn).fileReadInfoSize = (readEthFile n.ethFile sd).2.1.length ∧
        (n.pleaseSendNext crc16 sd ms pn).rbBuf.read ethHeaderSize
            (n.pleaseSendNext crc16 sd ms pn).fileReadInfoSize =
          (readEthFile n.ethFile sd).2.1) := by
  -- All that is known of the read is its length, and that the file stays open.
  obtain ⟨length, short, held⟩ := readEthFile_length n.ethFile sd
  unfold pleaseSendNext
  dsimp only
  rw [if_neg due]
  generalize readEthFile n.ethFile sd = r at length short held ⊢
  obtain ⟨size, block, file⟩ := r
  dsimp only at length short held ⊢
  split_ifs
  · -- A packet is sent: behind the fresh block, sending holds it.
    intro now
    have holding := Net.sendEthPacket_holding crc16 { n with
      repeatSendCounter := 0
      ethFile := file
      rbBuf := n.rbBuf.write ethHeaderSize block
      fileReadInfoSize := (size % 2 ^ 32).toNat
      ethFileBytesCounter := (n.ethFileBytesCounter + (size % 2 ^ 32).toNat) % 2 ^ 32
      sendFilePacketsCounter := n.sendFilePacketsCounter + 1 }
      (wrap32 (size % 2 ^ 32).toNat) (n.sendFilePacketsCounter + 1)
    have before := holding.active now
    refine ⟨⟨held ▸ before.1, before.2⟩, fun fine => ?_⟩
    have whole := length fine
    unfold blockSize at short
    -- A length is small enough for the unsigned variable.
    have same : (size % 2 ^ 32).toNat = block.length := by omega
    have sizes := holding.size now
    refine ⟨sizes.trans same, ?_⟩
    rw [sizes, holding.block now]
    show (n.rbBuf.write ethHeaderSize block).read ethHeaderSize (size % 2 ^ 32).toNat = block
    rw [same, Mem.read_write_same]
  · -- Nothing was read, and the transfer is over.
    intro now
    have opened := now.1
    rw [(sendFileViaEthComplete_terminated _ ms).ethFile] at opened
    cases opened

variable (crc16) in
/-- A request keeps the block where it is, or puts the block there that it reads. -/
theorem Net.request_block (sd : ReadIo) (ms : Nat) (r : GFrequest) (pn : Nat) (n : Net)
    {block : Option (List UInt8)}
    (held : n.Active → ∀ b, block = some b → n.fileReadInfoSize = b.length ∧
      n.rbBuf.read ethHeaderSize n.fileReadInfoSize = b) :
    let m := n.sendFileViaEthHandler crc16 sd ms r pn
    m.Active → n.Active ∧ ∀ b, n.blockRead sd pn block r = some b → m.fileReadInfoSize = b.length ∧
      m.rbBuf.read ethHeaderSize m.fileReadInfoSize = b := by
  -- What holds the block keeps its bytes and its size.
  have keeps : ∀ m : Net, n.Holding m → m.Active → n.Active ∧ ∀ b, block = some b →
      m.fileReadInfoSize = b.length ∧ m.rbBuf.read ethHeaderSize m.fileReadInfoSize = b := by
    intro m holding now
    refine ⟨holding.active now, fun b same => ?_⟩
    rw [holding.size now, holding.block now]
    exact held (holding.active now) b same
  intro m
  cases r with
  | gfFinish => exact keeps _ (.of_terminated (sendFileViaEthComplete_terminated _ ms))
  | gfPleaseRepeat => exact keeps _ (n.pleaseRepeat_holding ms)
  | gfEmpty => exact keeps _ (.of_same rfl rfl rfl rfl)
  | gfPleaseSendNext =>
    intro now
    unfold blockRead
    by_cases stale : n.sendFilePacketsCounter % 2 ^ 32 > pn
    · -- A request for an earlier block is dropped.
      have dropped : m = { n with repeatSendCounter := 0 } := if_pos stale
      dsimp only
      rw [if_pos stale]
      rw [dropped] at now ⊢
      exact keeps _ (.of_same rfl rfl rfl rfl) now
    · -- Any other request reads a block of its own.
      obtain ⟨before, fresh⟩ := n.pleaseSendNext_block sd ms pn stale now
      dsimp only
      rw [if_neg stale]
      refine ⟨before, fun b read => ?_⟩
      split_ifs at read with failed
      obtain rfl := Option.some.inj read
      exact fresh (by omega)

/-- The checks at the start of a pass hold the block, or end the transfer. -/
theorem Net.connection_holding (i : PassIn) (n : Net) :
    n.Holding (n.connection (handlerHooks crc16) i).1 := by
  have finished : ∀ m : Net, n.Holding ((handlerHooks crc16).infoHandler .full i.ms .gfFinish 0 m) :=
    fun m => .of_terminated (sendFileViaEthComplete_terminated _ i.ms)
  simp only [connection]
  -- Only a disconnect calls the handler, and it ends the transfer.
  split_ifs
  all_goals first
    | exact finished _
    | exact .of_same rfl rfl rfl rfl

/-- The end of a pass writes the ring out, and nothing else. -/
theorem Net.endOfPass_holding (ms : Nat) (n : Net) : n.Holding (n.drain.1.ping ms).1 := by
  -- The drain and the ping touch the ring and the time of the ping.
  rw [drain_eq]
  unfold ping
  split_ifs <;> exact .of_same rfl rfl rfl rfl

/-- A `get` is refused while a log is written, or the codes 1 and 2 are not returned. -/
theorem Net.lfGetFile_guard (g : GetIn) (name : String) (n : Net) :
    ((n.lfGetFile g name).1 = 1 ∨ (n.lfGetFile g name).1 = 2 → (n.lfGetFile g name).2.frame = n.frame) ∧
      (¬ ((n.lfGetFile g name).1 = 1 ∨ (n.lfGetFile g name).1 = 2) → g.lfWriting = false) := by
  unfold lfGetFile
  -- The guards come in front of the file object.
  by_cases writing : g.lfWriting = true
  · rw [if_pos writing]
    exact ⟨fun _ => by simp [ethACK], fun other => absurd (.inl rfl) other⟩
  rw [if_neg writing]
  by_cases bad : g.lfState ≠ .lfSGood
  · rw [if_pos bad]
    exact ⟨fun _ => by simp [ethACK], fun other => absurd (.inr rfl) other⟩
  rw [if_neg bad]
  have idle : g.lfWriting = false := by simpa using writing
  -- From here on the file is opened, and the code is another one.
  cases g.opened with
  | none => exact ⟨fun code => by simp at code, fun _ => idle⟩
  | some data =>
    dsimp only
    split_ifs
    · exact ⟨fun code => by simp at code, fun _ => idle⟩
    · exact ⟨fun code => by simp at code, fun _ => idle⟩

end net

section

variable {K : Type} {crc16 : List UInt8 → UInt16} {x : XMessage} {t : Tee K}

/-- A step of the Ethernet side that holds the block keeps log and transfer apart. -/
theorem Tee.Apart.holding (apart : t.Apart) {m : Net} (holding : t.net.Holding m) :
    ({ t with net := m } : Tee K).Apart where
  exclusive := fun both => apart.exclusive ⟨both.1, holding.active both.2⟩
  block now b same := by
    show m.fileReadInfoSize = _ ∧ m.rbBuf.read _ m.fileReadInfoSize = b
    -- The block was in place before, and was held.
    rw [holding.size now, holding.block now]
    exact apart.block (holding.active now) b same
  queued := apart.queued
  empty := apart.empty

/-- A step of the log that does not begin to write keeps log and transfer apart. -/
theorem Tee.Apart.logging (apart : t.Apart) {s : LogFile} (emptied : s.Emptied)
    (writes : s.lfWriting = true → t.log.lfWriting = true) : ({ t with log := s } : Tee K).Apart where
  exclusive := fun both => apart.exclusive ⟨writes both.1, both.2⟩
  block := apart.block
  queued := apart.queued
  empty := emptied

/-- The algorithm is no part of what is kept apart. -/
theorem Tee.Apart.algorithm (apart : t.Apart) (imu : ImuAlg K) : ({ t with imu := imu } : Tee K).Apart :=
  ⟨apart.exclusive, apart.block, apart.queued, apart.empty⟩

/-- A `get` keeps log and transfer apart: while a log is written it is refused. -/
theorem Tee.Apart.lfGetFile (apart : t.Apart) (io : TeeIo) (name : List UInt8) :
    (t.lfGetFile io name).Apart := by
  -- The codes 1 and 2 tell that the file object was not used.
  obtain ⟨refused, guarded⟩ := t.net.lfGetFile_guard
    ⟨t.log.lfWriting, t.log.lfState, nameText t.log.fileNameCopy, io.opened, io.ms, io.mxat⟩ (nameText name)
  unfold Tee.lfGetFile
  dsimp only
  by_cases code : (t.net.lfGetFile ⟨t.log.lfWriting, t.log.lfState, nameText t.log.fileNameCopy, io.opened,
      io.ms, io.mxat⟩ (nameText name)).1 = 1 ∨ (t.net.lfGetFile ⟨t.log.lfWriting, t.log.lfState,
      nameText t.log.fileNameCopy, io.opened, io.ms, io.mxat⟩ (nameText name)).1 = 2
  · rw [if_pos code]
    exact apart.holding (.of_frame (refused code))
  · rw [if_neg code]
    have idle : t.log.lfWriting = false := guarded code
    -- Of a file that was just opened no block was read.
    refine ⟨fun both => ?_, fun _ b same => (by cases same), apart.queued, apart.empty⟩
    exact absurd (idle.symm.trans both.1) (by decide)

/-- A log is started during no transfer exactly if no start that gets through comes during one. -/
theorem Tee.Apart.lfStart_iff (apart : t.Apart) (io : StartIo) (name : Option FileName) :
    ({ t with log := t.log.lfStart io name } : Tee K).Apart ↔
      (t.net.Active → ¬ (t.log.OpensLog io name ∧ io.openLog = true ∧ io.preAllocated = true)) := by
  by_cases active : t.net.Active
  · -- During a transfer no log is written, so the start goes on if the card lets it.
    have idle : t.log.lfWriting = false := by
      have off := fun on => apart.exclusive ⟨on, active⟩
      simpa using off
    obtain ⟨-, writing⟩ := LogFile.lfStart_writing io name idle (apart.empty idle)
    constructor
    · intro after _ opens
      exact after.exclusive ⟨writing.mpr opens, active⟩
    · intro fails
      exact apart.logging (LogFile.Emptied.lfStart apart.empty io name)
        fun on => absurd (writing.mp on) (fails active)
  · -- Without a transfer a log may be written.
    refine iff_of_true ?_ fun now => absurd now active
    exact ⟨fun both => active both.2, apart.block, apart.queued,
      LogFile.Emptied.lfStart apart.empty io name⟩

/-- A request keeps log and transfer apart exactly if it writes no packet over queued log messages. -/
theorem Tee.Apart.request_iff (apart : t.Apart) (io : TeeIo) (sd : ReadIo) (r : GFrequest) (pn : Nat) :
    (t.request crc16 io sd r pn).Apart ↔ (t.net.borrows sd pn r = true → t.log.rb = []) := by
  -- The block is kept by every request, so only the queued messages are at stake.
  have kept := t.net.request_block crc16 sd io.ms r pn apart.block
  constructor
  · intro after borrows
    have clean : (t.overwritten || (t.net.borrows sd pn r && !t.log.rb.isEmpty)) = false := after.queued
    rw [borrows] at clean
    simpa [apart.queued] using clean
  · intro alone
    refine ⟨fun both => apart.exclusive ⟨both.1, (kept both.2).1⟩, fun now => (kept now).2, ?_, apart.empty⟩
    show (t.overwritten || (t.net.borrows sd pn r && !t.log.rb.isEmpty)) = false
    rw [apart.queued]
    cases borrows : t.net.borrows sd pn r with
    | false => rfl
    | true => simp [alone borrows]

/-- A message into the log keeps log and transfer apart. -/
theorem Tee.Apart.lfSendMessage (apart : t.Apart) (io : TeeIo) :
    (t.lfSendMessage x io).Apart ∧ ((t.lfSendMessage x io).net.Active → t.net.Active) := by
  -- A message is put into the ring only while a log is written.
  obtain ⟨emptied, same, off⟩ := LogFile.lfSendMessage_writing x apart.empty io.data io.type
  by_cases writing : t.log.lfWriting = true
  · -- Only the buffer changes on the other side, and no transfer is active.
    have idle : ¬ t.net.Active := fun active => apart.exclusive ⟨writing, active⟩
    have never : ¬ (t.lfSendMessage x io).net.Active := by
      unfold Tee.lfSendMessage
      dsimp only
      split_ifs <;> exact idle
    exact ⟨⟨fun both => never both.2, fun now => absurd now never, apart.queued, emptied⟩,
      fun now => absurd now never⟩
  · have stays : t.lfSendMessage x io = t := by
      unfold Tee.lfSendMessage
      rw [off (by simpa using writing)]
      rfl
    rw [stays]
    exact ⟨apart, id⟩

/-- A call of the algorithm keeps log and transfer apart, unless it starts a log during a transfer. -/
theorem Tee.Apart.call (apart : t.Apart) (io : TeeIo) (c : ImuCall K)
    (fine : t.net.Active → c ≠ .lfStart) :
    (t.call x io c).Apart ∧ ((t.call x io c).net.Active → t.net.Active) := by
  -- Three calls reach the log, and the others neither side.
  cases c with
  | lfStop =>
    obtain ⟨emptied, writes⟩ := LogFile.lfStop_writing apart.empty io.stop
    exact ⟨apart.logging emptied writes, id⟩
  | lfStart =>
    exact ⟨(apart.lfStart_iff io.start none).mpr fun active => absurd rfl (fine active), id⟩
  | lfSendMessage => exact apart.lfSendMessage io
  | _ => exact ⟨apart, id⟩

/-- The calls of the algorithm keep log and transfer apart. -/
theorem Tee.Apart.calls (apart : t.Apart) (io : TeeIo) (calls : List (ImuCall K))
    (fine : t.net.Active → ∀ c ∈ calls, c ≠ .lfStart) : (calls.foldl (Tee.call x io) t).Apart := by
  -- No call starts a transfer, so a start of a log stays harmless.
  induction calls generalizing t with
  | nil => exact apart
  | cons c calls ih =>
    obtain ⟨after, active⟩ := apart.call (x := x) io c fun now => fine now c (by simp)
    exact ih after fun now d member => fine (active now) d (by simp [member])

end

section

variable {K : Type} [Field K]
variable {crc16 : List UInt8 → UInt16} {x : XMessage} {lib : XMatrix K} {t : Tee K}

/-- A command keeps log and transfer apart exactly if it starts no log during a transfer. -/
theorem Tee.Apart.processTheCommand_iff (apart : t.Apart) (io : TeeIo) (s : List UInt8) :
    (t.processTheCommand io s).Apart ↔
      ∀ name, Teetest.processTheCommand s = some (.log name) → t.net.Active →
        ¬ (t.log.OpensLog io.start name ∧ io.start.openLog = true ∧ io.start.preAllocated = true) := by
  -- Of all commands only `log` can bring the two together.
  unfold Tee.processTheCommand
  cases found : Teetest.processTheCommand s with
  | none => exact iff_of_true apart (by simp)
  | some c =>
    -- For any other command the right side says nothing.
    have other : (∀ name, c ≠ .log name) → (t.perform io c).Apart → ((t.perform io c).Apart ↔
        ∀ name, some c = some (.log name) → t.net.Active →
          ¬ (t.log.OpensLog io.start name ∧ io.start.openLog = true ∧ io.start.preAllocated = true)) :=
      fun differs kept => iff_of_true kept fun name same => absurd (Option.some.inj same) (differs name)
    cases c with
    | log name =>
      refine (apart.lfStart_iff io.start name).trans ?_
      simp
    | lstop =>
      obtain ⟨emptied, writes⟩ := LogFile.lfStop_writing apart.empty io.stop
      exact other (by simp) (apart.logging emptied writes)
    | get name => exact other (by simp) (apart.lfGetFile io name)
    | setup => exact other (by simp) (apart.algorithm _)
    | enter => exact other (by simp) (apart.algorithm _)
    | play => exact other (by simp) (apart.algorithm _)
    | stop => exact other (by simp) (apart.algorithm _)
    | _ => exact other (by simp) apart

/-- A read keeps log and transfer apart exactly if its request does. -/
theorem Tee.Apart.read_iff (apart : t.Apart) (io : TeeIo) (packet : List UInt8) (sd : ReadIo) :
    (t.read crc16 io packet sd).Apart ↔ ∀ r pn, dispatch t.net.infoHandler packet = .handler r pn →
      t.net.borrows sd pn r = true → t.log.rb = [] := by
  -- Only a request to the handler is looked at during a transfer.
  unfold Tee.read
  cases action : dispatch t.net.infoHandler packet with
  | greet => exact iff_of_true apart (by simp)
  | report s => exact iff_of_true apart (by simp)
  | handler r pn =>
    refine (apart.request_iff io sd r pn).trans ?_
    constructor
    · rintro alone r' pn' same
      cases same
      exact alone
    · exact fun all => all r pn rfl
  | command s =>
    -- A command is dispatched only while no handler is installed.
    refine iff_of_true ((apart.processTheCommand_iff io s).mpr fun name _ active => ?_) (by simp)
    have installed := active.2
    unfold dispatch at action
    rw [installed] at action
    simp only [if_true] at action
    split_ifs at action

/-- Behind `ttSetup` nothing is written or sent. -/
theorem Tee.started_apart (card : Files FileName UInt8) (created : List FileName) (begins : Bool)
    (parsed : List K) : (Tee.started lib card created begins parsed).Apart := by
  obtain ⟨idle, -, -⟩ := (LogFile.powerUp card created).lfInit_flags begins
  -- Nothing is written, open, queued or overwritten.
  refine ⟨fun both => ?_, fun _ b same => (by cases same), rfl, fun _ => ?_⟩
  · exact absurd (idle.symm.trans both.1) (by decide)
  · cases begins <;> rfl


variable [LinearOrder K]

/-- The algorithm starts a log only where it stopped one. -/
theorem ImuAlg.imuAlgFeed_starts (s : ImuAlg K) (imu : XIMUData K) {log : LogView}
    (idle : log.lfWriting = false) : ∀ c ∈ (s.imuAlgFeed lib imu log).2, c ≠ .lfStart := by
  unfold imuAlgFeed
  split
  · simp
  · simp
  · simp
  · split
    · split
      · simp
      · -- The end of the calibration stops and starts a log that is written.
        unfold static endImuCalibration
        dsimp only
        split_ifs with _ _ writing
        all_goals first
          | exact absurd (idle.symm.trans writing) (by decide)
          | simp [calibration]
      · simp
    · simp [play]
    · simp

/-- A sample keeps log and transfer apart. -/
theorem Tee.Apart.imuInfo (apart : t.Apart) (imu : XIMUData K) (io : TeeIo) :
    (t.imuInfo x lib imu io).Apart := by
  unfold Tee.imuInfo
  refine (Tee.Apart.lfSendMessage ((apart.algorithm _).calls io _ fun active => ?_) io).1
  -- During a transfer no log is written, and so none is started again.
  refine ImuAlg.imuAlgFeed_starts t.imu imu ?_
  have off := fun on => apart.exclusive ⟨on, active⟩
  show t.log.lfWriting = false
  simpa using off

/-- An event keeps log and transfer apart exactly if it is orderly. -/
theorem Tee.Apart.after_iff (apart : t.Apart) (e : TeeEvent K) :
    (t.after crc16 x lib e).Apart ↔ t.Orderly e := by
  -- Two kinds of events can be out of order, and the others keep the two sides apart.
  cases e with
  | command s io => exact apart.processTheCommand_iff io s
  | read packet sd io => exact apart.read_iff io packet sd
  | connection i => exact iff_of_true (apart.holding (t.net.connection_holding i)) trivial
  | endOfPass ms => exact iff_of_true (apart.holding (t.net.endOfPass_holding ms)) trivial
  | imuInfo imu io => exact iff_of_true (apart.imuInfo imu io) trivial
  | lfSendMessage io => exact iff_of_true (apart.lfSendMessage io).1 trivial
  | xmprintf s => exact iff_of_true (apart.holding (.of_frame (t.net.xmprintf_frame s))) trivial
  | lfProcess io =>
    obtain ⟨emptied, writing⟩ := LogFile.lfProcess_writing apart.empty io
    exact iff_of_true (apart.logging emptied fun on => writing ▸ on) trivial

end

/--
In every state of a run log and transfer are apart, exactly if every event of the run is orderly.

Then no log is written during a transfer, the bytes that are sent again are the block that was read, and no
packet is written over queued log messages.
-/
theorem apart_iff {K : Type} [Field K] [LinearOrder K] (crc16 : List UInt8 → UInt16) (x : XMessage)
    (lib : XMatrix K) (card : Files FileName UInt8) (created : List FileName) (begins : Bool)
    (parsed : List K) (events : List (TeeEvent K)) :
    let after := fun past : List (TeeEvent K) =>
      past.foldl (Tee.after crc16 x lib) (Tee.started lib card created begins parsed)
    (∀ past, past <+: events → (after past).Apart) ↔
      ∀ past e, past ++ [e] <+: events → (after past).Orderly e :=
  foldl_forall_prefix_iff (P := Tee.Apart) (Q := Tee.Orderly)
    (Tee.started_apart card created begins parsed) (fun _ e apart => apart.after_iff e) events

/-- A log that is started from USB during a transfer shares the buffer with it. -/
theorem apart_not_always : ¬ ∀ (crc16 : List UInt8 → UInt16) (x : XMessage) (lib : XMatrix ℚ)
    (card : Files FileName UInt8) (created : List FileName) (begins : Bool) (parsed : List ℚ)
    (events : List (TeeEvent ℚ)),
    (events.foldl (Tee.after crc16 x lib) (Tee.started lib card created begins parsed)).Apart := by
  intro apart
  let io : TeeIo := ⟨goodCard, ⟨fun _ => 512, true⟩, some [1, 2, 3], 0, none, [], 0, fun _ => 0⟩
  -- A file is asked for over Ethernet, and then a log over USB.
  have shared := (apart (fun _ => 0) ⟨0, fun _ _ _ => [], fun _ _ _ => rfl, fun _ => 0⟩ ⟨id, id, id⟩ [] []
    true [] [.connection ⟨.linkON, true, true, [], 0⟩, .read (ascii "get a.xq") .full io,
      .command (ascii "log b.xq") io]).exclusive
  refine shared ⟨by decide +kernel, by decide +kernel, by decide +kernel⟩

end Teetest
