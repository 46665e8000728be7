import Teetest.Lib.Bytes
import Teetest.Lib.Marked
import Teetest.Lib.Memory

/-! The Ethernet side of the Teensy: its output ring, the connection checks and the read loop of eth.cpp. -/

namespace Teetest

open Lib

/-- `EthStatus` of eth.cpp. -/
inductive EthStatus
  | sEthInit | sEthError | sEthNoLink | sEthGood
deriving DecidableEq

/-- `EthernetLinkStatus` of the NativeEthernet library. -/
inductive LinkStatus
  | unknown | linkON | linkOFF
deriving DecidableEq

/-- `GFrequest` of eth.h. -/
inductive GFrequest
  | gfFinish | gfPleaseSendNext | gfPleaseRepeat | gfEmpty
deriving DecidableEq

/-- `SFWState` of logsend.cpp. -/
inductive SFWState
  | sfwStart | sfwWorking | sfwComplete | sfwError
deriving DecidableEq

/-- What the Teensy writes to the socket, by the place in the source that writes it. -/
inductive Origin
  | text
  | greeting
  | ping
  | packet (number : Nat)
  | teee
deriving DecidableEq

/-- A byte on its way from the Teensy to the console. -/
abbrev WByte := Marked Origin

/-- A file opened for reading through `ethFile`. -/
structure OpenFile where
  name : String
  data : List UInt8
  pos : Nat
deriving DecidableEq

/-- The variables of eth.cpp and logsend.cpp, and the flag of `printfToEth`. -/
structure Net where
  ethStatus : EthStatus
  linkStatus : LinkStatus
  clientConnected : Bool
  -- whether the `EthernetClient` object names a socket
  client : Bool
  -- the handler pointer is 0 or `sendFileViaEthHandler`
  infoHandler : Bool
  rb : List WByte
  aliveTime : Nat
  enableEthOutput : Bool
  ethFile : Option OpenFile
  ethFileSize : Nat
  ethFileBytesCounter : Nat
  sendFilePacketsCounter : Nat
  repeatSendCounter : Nat
  fileReadInfoSize : Nat
  sfwState : SFWState
  ethFileStartTime : Nat
  -- the buffer of the log ring, which the file transfer borrows
  rbBuf : Mem

/-- "TBWF", the head of a data packet and of a request for the next one. -/
def tbwf : List UInt8 := [0x54, 0x42, 0x57, 0x46]

/-- "TBWN", the head of a request to repeat. -/
def tbwn : List UInt8 := [0x54, 0x42, 0x57, 0x4E]

/-- "TEEE", the head of an end of transmission. -/
def teee : List UInt8 := [0x54, 0x45, 0x45, 0x45]

/-- "console", the head of the line a new console sends. -/
def consoleWord : List UInt8 := [0x63, 0x6F, 0x6E, 0x73, 0x6F, 0x6C, 0x65]

/-- "tee ", the answer to a new console. -/
def teeGreeting : List UInt8 := [0x74, 0x65, 0x65, 0x20]

/-- "ping", a line feed and a NUL, as `client.write("ping\n", 6)` sends them. -/
def pingMessage : List UInt8 := [0x70, 0x69, 0x6E, 0x67, 0x0A, 0x00]

/-- The capacity of the output ring. -/
def ethRbSize : Nat := 1024

/-- `ethHeaderSize`, the bytes in front of a packet's payload. -/
def ethHeaderSize : Nat := 16

/-- `ethFeed`: a string goes into the ring if a client is connected and it fits as a whole. -/
def Net.ethFeed (n : Net) (origin : Origin) (s : List UInt8) : Net :=
  if !n.clientConnected then n
  else if n.rb.length + s.length ≤ ethRbSize then { n with rb := n.rb ++ mark origin s }
  else n

/-- The text `xmprintf` puts into its 512-byte buffer. -/
def sbufText (s : List UInt8) : List UInt8 :=
  if s.length = 0 ∨ 512 ≤ s.length then ascii " errror 2\n" else s.take 510

/-- `xmprintf` with bit 1 of `dst` clear: the text goes to Ethernet unless this is switched off. -/
def Net.xmprintf (n : Net) (s : String) : Net :=
  if n.enableEthOutput then n.ethFeed .text (cstr (sbufText (ascii s))) else n

/-- While printing to Ethernet is off, a text is lost. -/
theorem Net.xmprintf_off {n : Net} (off : n.enableEthOutput = false) (s : String) :
    n.xmprintf s = n := by
  simp [xmprintf, off]

/-- Everything but the output ring. -/
def Net.frame (n : Net) : Net := { n with rb := [] }

/-- Feeding the ring changes nothing else. -/
@[simp] theorem Net.ethFeed_frame (n : Net) (origin : Origin) (s : List UInt8) :
    (n.ethFeed origin s).frame = n.frame := by
  unfold ethFeed
  split_ifs <;> rfl

/-- Printing changes nothing but the ring. -/
@[simp] theorem Net.xmprintf_frame (n : Net) (s : String) : (n.xmprintf s).frame = n.frame := by
  unfold xmprintf
  split
  · exact n.ethFeed_frame _ _
  · rfl

/-- Feeding the ring leaves what is in it. -/
theorem Net.ethFeed_prefix (n : Net) (origin : Origin) (s : List UInt8) :
    n.rb <+: (n.ethFeed origin s).rb := by
  unfold ethFeed
  split_ifs
  · exact List.prefix_refl _
  · exact List.prefix_append _ _
  · exact List.prefix_refl _

/-- Printing leaves what is in the ring. -/
theorem Net.xmprintf_prefix (n : Net) (s : String) : n.rb <+: (n.xmprintf s).rb := by
  unfold xmprintf
  split
  · exact n.ethFeed_prefix _ _
  · exact List.prefix_refl _

/-- A message that fits goes into the ring while a client is connected. -/
theorem Net.ethFeed_fits {n : Net} (connected : n.clientConnected = true) (origin : Origin)
    {s : List UInt8} (fits : n.rb.length + s.length ≤ ethRbSize) :
    n.ethFeed origin s = { n with rb := n.rb ++ mark origin s } := by
  simp [ethFeed, connected, fits]

/-- What holds of every message in the ring still does after a message was fed that satisfies it. -/
theorem Net.ethFeed_heads {P : Origin → List WByte → Prop}
    (grows : ∀ origin u more, P origin u → P origin (u ++ more)) {n : Net}
    (heads : Heads P n.rb) {origin : Origin} {s : List UInt8} (message : P origin (mark origin s)) :
    Heads P (n.ethFeed origin s).rb := by
  unfold ethFeed
  split_ifs
  · exact heads
  · exact heads.append (.mark message) grows
  · exact heads

/-- Printing keeps what holds of every message, if it holds of any text. -/
theorem Net.xmprintf_heads {P : Origin → List WByte → Prop}
    (grows : ∀ origin u more, P origin u → P origin (u ++ more)) (texts : ∀ u, P .text u)
    {n : Net} (heads : Heads P n.rb) (s : String) : Heads P (n.xmprintf s).rb := by
  unfold xmprintf
  split
  · exact n.ethFeed_heads grows heads (texts _)
  · exact heads

/-- What the read loop of `ethLoop` does with one result of `client.read`. -/
inductive Action
  | greet
  | handler (r : GFrequest) (pn : Nat)
  | command (s : List UInt8)
  | report (s : List UInt8)
deriving DecidableEq

/-- The dispatch of the read loop, on the bytes read and on whether a handler is installed. -/
def dispatch (infoHandler : Bool) (packet : List UInt8) : Action :=
  if consoleWord.isPrefixOf packet then .greet
  else if infoHandler then
    if 16 ≤ packet.length ∧ tbwf.isPrefixOf packet then
      .handler .gfPleaseSendNext (u32 (packet.drop 8))
    else if 16 ≤ packet.length ∧ tbwn.isPrefixOf packet then
      .handler .gfPleaseRepeat (u32 (packet.drop 8))
    else if 16 ≤ packet.length ∧ teee.isPrefixOf packet then .handler .gfFinish 0
    else .report (cstr packet)
  -- `processTheCommand` reads its argument as a C string
  else .command (cstr packet)

/-- One round of the drain loop: at most 255 bytes leave the ring for the socket. -/
def Net.drainOnce (n : Net) : Net × List WByte :=
  ({ n with rb := n.rb.drop 255 }, n.rb.take 255)

/-- The drain loop: rounds go on until the ring is empty, and a number of rounds bounds them. -/
def Net.drainRounds : Nat → Net → Net × List WByte
  | 0, n => (n, [])
  | rounds + 1, n =>
    if n.rb.isEmpty then (n, [])
    else
      let later := Net.drainRounds rounds n.drainOnce.1
      (later.1, n.drainOnce.2 ++ later.2)

/-- The drain loop, in which every round takes at least one byte. -/
def Net.drain (n : Net) : Net × List WByte := Net.drainRounds n.rb.length n

/-- Enough rounds leave an empty ring and write what was in it, in order. -/
theorem Net.drainRounds_eq {rounds : Nat} {n : Net} (enough : n.rb.length ≤ rounds) :
    n.drainRounds rounds = ({ n with rb := [] }, n.rb) := by
  -- Each round takes a piece off the front, so the pieces together are the whole ring.
  induction rounds generalizing n with
  | zero =>
    cases n
    simp_all [drainRounds]
  | succ rounds ih =>
    by_cases empty : n.rb = []
    · cases n
      simp_all [drainRounds]
    · have positive : 0 < n.rb.length := List.length_pos_iff.mpr empty
      simp only [drainRounds]
      rw [if_neg (by simpa using empty), ih (by simp [drainOnce]; omega)]
      simp [drainOnce]

/-- The drain loop leaves an empty ring and writes what was in it, in order. -/
theorem Net.drain_eq (n : Net) : n.drain = ({ n with rb := [] }, n.rb) :=
  Net.drainRounds_eq (le_refl _)

/-- The end of `ethLoop`: a ping goes out once a second while a client is connected. -/
def Net.ping (n : Net) (ms : Nat) : Net × List WByte :=
  if 1000 < ((ms : Int) - n.aliveTime) % 2 ^ 32 then
    ({ n with aliveTime := ms }, if n.clientConnected then mark .ping pingMessage else [])
  else (n, [])

/-- How an SD read of the file transfer ends. -/
inductive ReadIo
  | full
  | short (n : Nat)
  | error
deriving DecidableEq

/-- One result of `client.read`, with the outcome of the SD read its request may cause. -/
structure Incoming where
  packet : List UInt8
  sd : ReadIo
deriving DecidableEq

/-- What one pass of `ethLoop` observes. -/
structure PassIn where
  link : LinkStatus
  -- whether `server.available()` returns a client
  available : Bool
  -- the answer of `client.connected()`
  connected : Bool
  reads : List Incoming
  ms : Nat
deriving DecidableEq

/-- The functions of other modules that `ethLoop` calls. -/
structure Hooks where
  infoHandler : ReadIo → Nat → GFrequest → Nat → Net → Net
  processTheCommand : List UInt8 → Net → Net

/-- The effect of one action of the read loop, and what it writes to the socket at once. -/
def Net.perform (h : Hooks) (sd : ReadIo) (ms : Nat) (n : Net) : Action → Net × List WByte
  | .greet => (n, mark .greeting teeGreeting)
  | .handler r pn => (h.infoHandler sd ms r pn n, [])
  | .command s => (h.processTheCommand s n, [])
  | .report _ => (n, [])

/-- The read loop of `ethLoop`, over the results of its calls of `client.read`. -/
def Net.readLoop (h : Hooks) (ms : Nat) : List Incoming → Net → Net × List WByte
  | [], n => (n, [])
  | i :: is, n =>
    let now := n.perform h i.sd ms (dispatch n.infoHandler i.packet)
    let later := Net.readLoop h ms is now.1
    (later.1, now.2 ++ later.2)

/-- The part of `ethLoop` before the read loop; the flag tells whether the pass goes on. -/
def Net.connection (h : Hooks) (i : PassIn) (n : Net) : Net × Bool :=
  let n := { n with linkStatus := i.link }
  if i.link = .linkOFF then
    ({ n with ethStatus := .sEthNoLink, clientConnected := false }, false)
  else
    let n := if !n.client then { n with client := i.available } else n
    if !n.client then ({ n with clientConnected := false }, false)
    else if n.clientConnected ≠ i.connected then
      if i.connected then
        -- a new connection starts with an empty ring
        ({ n with clientConnected := true, rb := [] }, true)
      else
        -- `client.stop()` releases the handle
        let n := { n with clientConnected := false, client := false }
        (if n.infoHandler then h.infoHandler .full i.ms .gfFinish 0 n else n, false)
    else (n, i.connected)

/-- One pass of `ethLoop`, and what it writes to the socket. -/
def Net.ethLoop (h : Hooks) (i : PassIn) (n : Net) : Net × List WByte :=
  let (n, goesOn) := n.connection h i
  if !goesOn then (n, [])
  else
    let (n, greetings) := n.readLoop h i.ms i.reads
    let (n, drained) := n.drain
    let (n, pings) := n.ping i.ms
    (n, greetings ++ drained ++ pings)

end Teetest
