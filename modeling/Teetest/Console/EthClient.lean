import Teetest.Lib.Decimal
import Teetest.Lib.Search
import Teetest.Src.LogSend

/-!
The console's client of eth_client.cpp, with the callback of console.cpp that prints received text.

A call of `process` works on a chunk that was just read and may read more from the socket itself.
The stream of bytes still to be read is therefore an argument and a result of every function.
-/

namespace Teetest

open Lib

/-- `bufSize` of eth_client.h. -/
def bufSize : Nat := 2050

/-- The buffer size given to `async_read_some`. -/
def readSize : Nat := 1024

/-- The members of `EthClient`. -/
structure Client where
  connected : Bool
  pleaseStop : Bool
  readingTheLogFile : Nat
  lastReportedProgress : Int
  fileSize : Int
  fileBytesCounter : Int
  packetsCounter : Int
  badPacketCounter : Int
  counterErrorCounter : Int
  incomingPacketsCounter : Int
  incomingPacketSize : Int
  currentFileName : List UInt8
  -- the bytes written so far through an open `theFile`
  theFile : Option (List UInt8)
  -- the files closed so far with their names, newest first
  closedFiles : List (List UInt8 × List UInt8)
  buf : Mem

/--
One call of `socket.available()`, and the `read_some` that follows it if it found bytes.

`arrived` counts the bytes that have arrived and are unread, and `got` those the read returns.
-/
structure Poll where
  arrived : Nat
  got : Nat
deriving DecidableEq

/-- The bytes a `read_some` returns when it may read `n > 0` of them. -/
def Poll.readSome (p : Poll) (n : Nat) : Nat := max 1 (min p.got n)

/-- What is left to read of the socket: the stream, and the answers of the polls to come. -/
structure Sock where
  inp : List WByte
  polls : List Poll

/-- The value of an `int` after its conversion to `size_t`. -/
def sizeT (z : Int) : Nat := (z % 2 ^ 64).toNat

/-- `bs = (bs < cap) ? bs : cap`, where there is a cap. -/
def capped (cap : Option Nat) (bs : Nat) : Nat :=
  match cap with
  | some c => if bs < c then bs else c
  | none => bs

/--
`while ((bs = socket.available()) > 0) { bs = min(bs, cap); socket.read_some(buf, bs); }`

When the answers are used up nothing more has arrived, and the loop ends.
-/
def drainLoop (cap : Option Nat) : List Poll → List WByte → Mem → Sock × Mem
  | [], inp, buf => (⟨inp, []⟩, buf)
  | p :: ps, inp, buf =>
    let bs := min p.arrived inp.length
    if bs = 0 then (⟨inp, ps⟩, buf)
    else
      let k := p.readSome (capped cap bs)
      drainLoop cap ps (inp.drop k) (buf.write 0 (bytes (inp.take k)))

/-- The state of the loops that complete a packet: the last `bs`, the socket, the buffer and `len`. -/
structure Fill where
  bs : Nat
  sock : Sock
  buf : Mem
  len : Nat

/-- `incomingPacketSize + ethHeaderSize`, in the 32 bits of an `int`. -/
def packetEnd (size : Int) : Int := wrap32 (size + ethHeaderSize)

/-- The inner loop of `checkThePacket`: read until the packet is complete or nothing has arrived. -/
def fillInner (size : Int) : List Poll → List WByte → Mem → Nat → Fill
  | [], inp, buf, len => ⟨0, ⟨inp, []⟩, buf, len⟩
  | p :: ps, inp, buf, len =>
    let bs := min p.arrived inp.length
    if bs = 0 then ⟨0, ⟨inp, ps⟩, buf, len⟩
    else
      let haveSpaceInBuffer : Int := bufSize - len
      let needed := wrap32 (packetEnd size - len)
      let bs := if bs < sizeT haveSpaceInBuffer then bs else sizeT haveSpaceInBuffer
      let bs := if bs < sizeT needed then bs else sizeT needed
      -- a read of no bytes returns 0 and consumes nothing
      let k := if bs = 0 then 0 else p.readSome bs
      let inp' := inp.drop k
      let buf' := buf.write len (bytes (inp.take k))
      if (len + k : Int) ≥ packetEnd size then ⟨k, ⟨inp', ps⟩, buf', len + k⟩
      else fillInner size ps inp' buf' (len + k)

/-- The outer loop of `checkThePacket`, with the rounds that are left of its five. -/
def fillOuter (size : Int) : Nat → Fill → Fill
  | 0, f => f
  | rounds + 1, f =>
    let f := fillInner size f.sock.polls f.sock.inp f.buf f.len
    if f.bs < 1 then f else fillOuter size rounds f

/-- What a call leaves behind: the client, the socket and the bytes written to the socket. -/
structure Reply where
  client : Client
  sock : Sock
  out : List UInt8

/-- The outcomes of the calls that a call of `process` makes: of `fopen`, and of `write_some`. -/
structure CallIo where
  opens : Bool
  writes : Bool
deriving DecidableEq

/-- The control message in the buffer goes out; a failed write ends the transfer. -/
def Client.sendControl (io : CallIo) (c : Client) (s : Sock) : Reply :=
  if io.writes then ⟨c, s, c.buf.read 0 ethHeaderSize⟩
  else ⟨{ c with readingTheLogFile := 0 }, s, []⟩

section

variable (crc16 : List UInt8 → UInt16)

/--
The checks of `checkThePacket` on a packet that is complete in the buffer.

A size that is negative, or whose `packetEnd` overflows, makes the code read other memory than this.
-/
def packetChecks (buf : Mem) (size : Int) : Bool :=
  decide (u16 (buf.read 12 2) = (crc16 (buf.read ethHeaderSize size.toNat)).toNat) &&
    decide (buf 14 = 0) && decide (buf 15 = 0)

/-- The end of `checkThePacket`: the checks, and the counter that follows the packet's number. -/
def acceptPacket (c : Client) (buf : Mem) : Bool × Client :=
  let c := { c with buf := buf }
  if packetChecks crc16 buf c.incomingPacketSize then
    (true, if c.packetsCounter < c.incomingPacketsCounter then
      { c with packetsCounter := c.incomingPacketsCounter } else c)
  else (false, c)

/-- The two fields that `checkThePacket` copies from the header. -/
def Client.readHeader (c : Client) : Client :=
  { c with
    incomingPacketsCounter := i32 (c.buf.read 8 4)
    incomingPacketSize := i32 (c.buf.read 4 4) }

/-- `checkThePacket` on a chunk of `len` bytes that stands in the buffer. -/
def checkThePacket (c : Client) (s : Sock) (len : Nat) : Bool × Client × Sock × Nat :=
  if len < ethHeaderSize then (false, c, s, len)
  else if c.buf.read 0 4 ≠ tbwf then
    let (s, buf) := drainLoop none s.polls s.inp c.buf
    (false, { c with buf := buf }, s, len)
  else
    let c := c.readHeader
    if c.incomingPacketSize ≠ (len : Int) - ethHeaderSize then
      let f := fillOuter c.incomingPacketSize 5 ⟨0, s, c.buf, len⟩
      if (f.len : Int) ≥ packetEnd c.incomingPacketSize then
        let (ok, c) := acceptPacket crc16 c f.buf
        (ok, c, f.sock, f.len)
      else (false, { c with buf := f.buf }, f.sock, f.len)
    else
      let (ok, c) := acceptPacket crc16 c c.buf
      (ok, c, s, len)

/-- `fclose(theFile)`. -/
def Client.closeFile (c : Client) : Client :=
  { c with
    theFile := none
    closedFiles := c.theFile.elim c.closedFiles fun data => (c.currentFileName, data) :: c.closedFiles }

/-- A 16-byte control message, built in the buffer as the source builds it. -/
def controlBuf (buf : Mem) (head : List UInt8) (counter : Option Int) : Mem :=
  let buf := (buf.write 0 (List.replicate ethHeaderSize 0)).write 0 head
  match counter with
  | some k => buf.write 8 (le32 k)
  | none => buf

/--
The progress that is reported, `fileBytesCounter * 100 / fileSize` in 32-bit arithmetic.

A `fileSize` of 0 ends the program here, where the quotient of the model is 0.
-/
def progress (c : Client) : Int := (wrap32 (c.fileBytesCounter * 100)).tdiv c.fileSize

/-- The progress is reported in steps of ten per cent. -/
def Client.reportProgress (c : Client) : Client :=
  let p := progress c
  if p ≠ c.lastReportedProgress ∧ p % 10 = 0 then { c with lastReportedProgress := p } else c

/--
A packet whose payload is written: the end of the file is acknowledged with TEEE, else with TBWF.

As for the checks, this is what the code writes if the size is one that was received.
-/
def Client.savePacket (io : CallIo) (c : Client) (s : Sock) : Reply :=
  let data := c.buf.read ethHeaderSize c.incomingPacketSize.toNat
  let c := { c with
    theFile := c.theFile.map (· ++ data)
    fileBytesCounter := wrap32 (c.fileBytesCounter + c.incomingPacketSize) }.reportProgress
  if c.fileBytesCounter ≥ c.fileSize then
    let c := { c with readingTheLogFile := 0, lastReportedProgress := 100 }.closeFile
    let buf := (c.buf.write 0 teee).write 4 [0]
    let message := buf.read 0 ethHeaderSize
    ⟨{ c with buf := buf }, s, if io.writes then message ++ message else []⟩
  else
    { c with
      buf := controlBuf c.buf tbwf (some c.packetsCounter)
      packetsCounter := wrap32 (c.packetsCounter + 1) }.sendControl io s

/-- A chunk that is no packet: TEEE ends the transfer; the socket is drained and a NAK is sent. -/
def Client.badPacket (io : CallIo) (c : Client) (s : Sock) : Reply :=
  let c := if c.buf.read 0 4 = teee then { c.closeFile with readingTheLogFile := 0 } else c
  let (s, buf) := drainLoop (some bufSize) s.polls s.inp c.buf
  { c with
    buf := controlBuf buf tbwn (some c.packetsCounter)
    badPacketCounter := wrap32 (c.badPacketCounter + 1) }.sendControl io s

/-- State 2 of `readingTheFile`: a file is being received. -/
def Client.receiving (io : CallIo) (c : Client) (s : Sock) (len : Nat) : Reply :=
  match checkThePacket crc16 c s len with
  | (true, c, s, _) =>
    if c.incomingPacketsCounter < c.packetsCounter then
      -- a packet that was saved before is answered by nothing
      ⟨{ c with
        counterErrorCounter :=
          wrap32 (c.counterErrorCounter + (c.packetsCounter - c.incomingPacketsCounter)) }, s, []⟩
    else c.savePacket io s
  | (false, c, s, _) => c.badPacket io s

/-- "ack,", the head of a positive answer to `get`. -/
def ackWord : List UInt8 := [0x61, 0x63, 0x6B, 0x2C]

/-- "nak,", the head of a negative answer to `get`. -/
def nakWord : List UInt8 := [0x6E, 0x61, 0x6B, 0x2C]

/-- `teeData` of console.cpp, the callback `cb1`: it puts a NUL behind the chunk and prints it. -/
def teeData (buf : Mem) (size : Nat) : Mem := buf.write size [0]

/-- State 1 of `readingTheFile`: the answer to `get` is looked for in the text. -/
def Client.awaitingAnswer (io : CallIo) (c : Client) (s : Sock) (len : Nat) : Reply :=
  let c := { c with buf := teeData c.buf len }
  let text := cstr (c.buf.read 0 bufSize)
  match (strstr ackWord text).filter (fun sch => 4 < sch.length) with
  | some sch =>
    match scanInt (sch.drop 4) with
    | some k =>
      if io.opens then
        let buf := controlBuf c.buf tbwf none
        ⟨{ c with
            fileSize := k
            theFile := some []
            readingTheLogFile := 2
            fileBytesCounter := 0
            packetsCounter := 1
            badPacketCounter := 0
            counterErrorCounter := 0
            buf := buf }, s, if io.writes then buf.read 0 ethHeaderSize else []⟩
      else ⟨{ c with fileSize := k, theFile := none, readingTheLogFile := 0 }, s, []⟩
    | none => ⟨{ c with fileSize := 0, readingTheLogFile := 0 }, s, []⟩
  | none =>
    if (strstr nakWord text).isSome then ⟨{ c with readingTheLogFile := 0 }, s, []⟩ else ⟨c, s, []⟩

/-- `readingTheFile`. -/
def Client.readingTheFile (io : CallIo) (c : Client) (s : Sock) (len : Nat) : Reply :=
  match c.readingTheLogFile with
  | 1 => c.awaitingAnswer io s len
  | 2 => c.receiving crc16 io s len
  | _ => ⟨c, s, []⟩

/-- "tee", by which `process` knows the greeting. -/
def teeWord : List UInt8 := [0x74, 0x65, 0x65]

/-- "ping", by which `process` knows a ping. -/
def pingWord : List UInt8 := [0x70, 0x69, 0x6E, 0x67]

/-- Where `process` hands a chunk. -/
inductive Consumer
  | greeting | ping | readingTheFile | cb1
deriving DecidableEq

/-- The dispatch of `process`, on the first bytes of the whole chunk. -/
def classify (readingTheLogFile : Nat) (chunk : List UInt8) : Consumer :=
  if teeWord.isPrefixOf chunk then .greeting
  else if pingWord.isPrefixOf chunk then .ping
  else if readingTheLogFile ≠ 0 then .readingTheFile
  else .cb1

/-- `process` on a chunk that was read without error. -/
def Client.process (io : CallIo) (c : Client) (chunk : List UInt8) (s : Sock) : Reply :=
  let c := { c with buf := c.buf.write 0 chunk }
  if c.pleaseStop ∨ chunk.length < 1 then ⟨c, s, []⟩
  else
    match classify c.readingTheLogFile chunk with
    | .greeting => ⟨{ c with connected := true }, s, []⟩
    | .ping => ⟨c, s, []⟩
    | .readingTheFile =>
      let c := { c with buf := c.buf.write (bufSize - 1) [0] }
      c.readingTheFile crc16 io s chunk.length
    | .cb1 => ⟨{ c with buf := teeData c.buf chunk.length }, s, []⟩

end

/-- `process` on a failed read: the end of the stream and a reset close the socket. -/
def Client.processError (disconnected : Bool) (c : Client) : Client :=
  if disconnected then { c with connected := false } else c

/-- The file name of a `get` command, without the line ends behind it. -/
def getName (s : List UInt8) : List UInt8 :=
  match s with
  | [] => []
  | c :: cs => c :: (cs.reverse.dropWhile fun x => x = 0x0A || x = 0x0D).reverse

/-- "get ", the head of a request for a file. -/
def getWord : List UInt8 := [0x67, 0x65, 0x74, 0x20]

/-- `do_write` of a non-empty command: the client after it, and whether `write_some` succeeded. -/
def Client.do_write (writes : Bool) (c : Client) (s : List UInt8) : Client × List UInt8 :=
  if s = [] then (c, [])
  else
    let c := if getWord.isPrefixOf s then
      { c with readingTheLogFile := 1, currentFileName := getName (s.drop 4), lastReportedProgress := 0 }
      else c
    if writes then (c, s) else ({ c with readingTheLogFile := 0 }, [])

/-- The members that `startClient` sets, before it connects. -/
def Client.startClient (c : Client) : Client :=
  { c with
    pleaseStop := false
    connected := false
    readingTheLogFile := 0
    -- a file that is still open is forgotten
    theFile := none
    lastReportedProgress := 0 }

/-- `StopClient`. -/
def Client.stopClient (c : Client) : Client := { c with pleaseStop := true, connected := false }

/-- The client after `startClient`, before anything was received. -/
def Client.started : Client where
  connected := false
  pleaseStop := false
  readingTheLogFile := 0
  lastReportedProgress := 0
  fileSize := 0
  fileBytesCounter := 0
  packetsCounter := 0
  badPacketCounter := 0
  counterErrorCounter := 0
  incomingPacketsCounter := 0
  incomingPacketSize := 0
  currentFileName := []
  theFile := none
  closedFiles := []
  buf := fun _ => 0

end Teetest
