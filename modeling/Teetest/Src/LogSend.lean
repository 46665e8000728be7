import Teetest.Src.Eth

/-! The file transfer of logsend.cpp: the answer to `get`, the data packets and the request handler. -/

namespace Teetest

open Lib

/-- `LFState` of logfile.h. -/
inductive LFState
  | lfSInit | lfSGood | lfSError
deriving DecidableEq

/-- `maximumRepeats`. -/
def maximumRepeats : Nat := 5

/-- The payload of a full packet: `bSize - ethHeaderSize`. -/
def blockSize : Nat := 1024 - ethHeaderSize

/-- `ethACK`: the answer to a request for a file. -/
def Net.ethACK (n : Net) (yes : Bool) (info : Int) : Net :=
  n.ethFeed .text (ascii ((if yes then "ack," else "nak,") ++ toString info ++ "\r\n"))

/-- What `lfGetFile` finds in the log module, on the card and on the clock. -/
structure GetIn where
  lfWriting : Bool
  lfState : LFState
  fileNameCopy : String
  -- the contents of the named file, when it can be opened
  opened : Option (List UInt8)
  ms : Nat
  -- the file name and the text that a failing `mxat` passes to `assert_failed`, if it is compiled in
  mxat : Option (String × String)

/-- `assert_failed`: the text that it prints. -/
def assertFailed (file : String) (line : Nat) (str : String) : String :=
  "AF: file " ++ file ++ ", line " ++ toString line ++ ", " ++ str ++ " \r\n"

/-- `mxat(!ethFile.isOpen())`, which prints and goes on. -/
def Net.mxatClosed (g : GetIn) (n : Net) : Net :=
  if n.ethFile.isSome then
    match g.mxat with
    | some (file, str) => n.xmprintf (assertFailed file 77 str)
    | none => n
  else n

/--
`lfGetFile`: its result code and the state after it.

The mode of the LED and the line that is printed to USB only are left out.
-/
def Net.lfGetFile (g : GetIn) (name : String) (n : Net) : Nat × Net :=
  if g.lfWriting then
    (1, (n.ethACK false 0).xmprintf ("writing file " ++ g.fileNameCopy ++ " right now \r\n"))
  else if g.lfState ≠ .lfSGood then
    (2, (n.ethACK false 0).xmprintf "SD didnt started ? \r\n")
  else
    let n := n.mxatClosed g
    match g.opened with
    | none =>
      -- opening through a file object closes what it held, also when it fails
      let n := { n with ethFile := none }
      (3, (n.ethACK false 0).xmprintf ("cannot open file \x7b" ++ name ++ "\x7d (bad file name?) \r\n"))
    | some data =>
      let n := { n with ethFile := some ⟨name, data, 0⟩, ethFileSize := data.length }
      if data.length = 0 then (4, (n.ethACK false 0).xmprintf "file empty \r\n")
      else
        let n := { n with
          ethFileBytesCounter := 0
          sendFilePacketsCounter := 0
          enableEthOutput := false
          infoHandler := true
          ethFileStartTime := g.ms }
        (0, n.ethACK true (wrap32 data.length))

/-- The assertion prints a text, or does nothing. -/
theorem Net.mxatClosed_cases (g : GetIn) (n : Net) :
    n.mxatClosed g = n ∨ ∃ s, n.mxatClosed g = n.xmprintf s := by
  unfold mxatClosed
  split
  · split
    · exact .inr ⟨_, rfl⟩
    · exact .inl rfl
  · exact .inl rfl

/-- The assertion changes nothing but the ring. -/
@[simp] theorem Net.mxatClosed_frame (g : GetIn) (n : Net) : (n.mxatClosed g).frame = n.frame := by
  rcases n.mxatClosed_cases g with same | ⟨s, printed⟩
  · rw [same]
  · rw [printed, xmprintf_frame]

/-- `sendFileViaEthComplete`: the transfer ends, whatever the reason. -/
def Net.sendFileViaEthComplete (n : Net) (ms : Nat) : Net :=
  let n := { n with infoHandler := false, ethFile := none, enableEthOutput := true }
  let n := n.ethFeed .teee (teee ++ List.replicate 12 0)
  let n := n.xmprintf ("getFileViaEth ended in " ++ toString (wrap32 (ms - n.ethFileStartTime)) ++
    " ms; ethFileBytesCounter = " ++ toString n.ethFileBytesCounter ++
    "; ethFileSize=" ++ toString (n.ethFileSize % 2 ^ 32) ++ "\r\n")
  n.xmprintf ("sendFilePacketsCounter=" ++ toString n.sendFilePacketsCounter ++
    "; sfwState = " ++ toString n.sfwState.ctorIdx ++ "\r\n")

section

variable (crc16 : List UInt8 → UInt16)

/-- The 16-byte header of a data packet. -/
def packetHeader (size : Int) (counter : Nat) (payload : List UInt8) : List UInt8 :=
  tbwf ++ le32 size ++ le32 counter ++ le16 (crc16 payload).toNat ++ [0, 0]

/-- A data packet: header and payload. -/
def packetImage (counter : Nat) (payload : List UInt8) : List UInt8 :=
  packetHeader crc16 payload.length counter payload ++ payload

theorem packetHeader_length (size : Int) (counter : Nat) (payload : List UInt8) :
    (packetHeader crc16 size counter payload).length = ethHeaderSize := rfl

/-- A packet is as long as its header and its payload. -/
theorem packetImage_length (counter : Nat) (payload : List UInt8) :
    (packetImage crc16 counter payload).length = ethHeaderSize + payload.length := by
  rw [packetImage, List.length_append, packetHeader_length]

/-- The header of a payload, written in front of it, makes the image of a packet. -/
theorem packetImage_read (buf : Mem) (k counter : Nat) :
    (buf.write 0 (packetHeader crc16 k counter (buf.read ethHeaderSize k))).read 0
      (ethHeaderSize + k) = packetImage crc16 counter (buf.read ethHeaderSize k) := by
  have behind : (buf.write 0 (packetHeader crc16 k counter (buf.read ethHeaderSize k))).read
      ethHeaderSize k = buf.read ethHeaderSize k :=
    Mem.read_write_disjoint buf (.inr (by rw [packetHeader_length]; simp))
  -- The header is as long as the gap in front of the payload, which stays where it is.
  rw [Mem.read_append, Nat.zero_add, behind, packetImage, Mem.read_length]
  congr 1

/-- `sendEthPacket`: the header is written in front of the payload in `rbBuf`, and both are fed. -/
def Net.sendEthPacket (n : Net) (size : Int) (counter : Nat) : Net :=
  let payload := n.rbBuf.read ethHeaderSize size.toNat
  let rbBuf := n.rbBuf.write 0 (packetHeader crc16 size counter payload)
  { n with rbBuf := rbBuf }.ethFeed (.packet counter) (rbBuf.read 0 (size + ethHeaderSize).toNat)

/-- `ethFile.read` of at most a block: its result, the bytes read and the file after it. -/
def OpenFile.read (f : OpenFile) : ReadIo → Int × List UInt8 × OpenFile
  | .full =>
    let block := (f.data.drop f.pos).take blockSize
    (block.length, block, { f with pos := f.pos + block.length })
  | .short k =>
    let block := (f.data.drop f.pos).take (min k blockSize)
    (block.length, block, { f with pos := f.pos + block.length })
  | .error => (-1, [], f)

/-- `ethFile.read` on the file object, which fails when no file is open. -/
def readEthFile (f : Option OpenFile) (sd : ReadIo) : Int × List UInt8 × Option OpenFile :=
  match f with
  | none => (-1, [], none)
  | some f => let (k, block, f) := f.read sd; (k, block, some f)

/-- The `gfPleaseSendNext` branch of `sendFileViaEthHandler`. -/
def Net.pleaseSendNext (sd : ReadIo) (ms : Nat) (pn : Nat) (n : Net) : Net :=
  let n := { n with repeatSendCounter := 0 }
  -- the signed counter is compared as an unsigned number
  if n.sendFilePacketsCounter % 2 ^ 32 > pn then n
  else
    let (k, block, file) := readEthFile n.ethFile sd
    let n := { n with
      ethFile := file
      rbBuf := n.rbBuf.write ethHeaderSize block
      fileReadInfoSize := (k % 2 ^ 32).toNat
      ethFileBytesCounter := (n.ethFileBytesCounter + (k % 2 ^ 32).toNat) % 2 ^ 32
      sendFilePacketsCounter := n.sendFilePacketsCounter + 1 }
    if n.fileReadInfoSize > 0 then
      n.sendEthPacket crc16 (wrap32 n.fileReadInfoSize) n.sendFilePacketsCounter
    else { n with sfwState := .sfwError }.sendFileViaEthComplete ms

/-- The `gfPleaseRepeat` branch of `sendFileViaEthHandler`. -/
def Net.pleaseRepeat (ms : Nat) (n : Net) : Net :=
  let n := { n with repeatSendCounter := n.repeatSendCounter + 1 }
  if n.repeatSendCounter ≥ maximumRepeats then
    let n := { n with sfwState := .sfwError }
    let n := n.xmprintf ("gfPleaseSendNext: wehPleaseRepeat: sfwError! repeatSendCounter >= maximumRepeats; repeatSendCounter = " ++ toString n.repeatSendCounter ++ "  \r\n")
    n.sendFileViaEthComplete ms
  else n.sendEthPacket crc16 (wrap32 n.fileReadInfoSize) n.sendFilePacketsCounter

/-- `sendFileViaEthHandler`. -/
def Net.sendFileViaEthHandler (sd : ReadIo) (ms : Nat) (r : GFrequest) (pn : Nat) (n : Net) : Net :=
  match r with
  | .gfFinish => (n.xmprintf "got TEEE from file receiver\r\n").sendFileViaEthComplete ms
  | .gfPleaseSendNext => n.pleaseSendNext crc16 sd ms pn
  | .gfPleaseRepeat => n.pleaseRepeat crc16 ms
  | .gfEmpty => n

end

end Teetest
