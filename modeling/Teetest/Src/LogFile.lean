import Teetest.Lib.Decimal
import Teetest.Lib.Files
import Teetest.Src.LogSend

/-!
The log file of logfile.cpp, with the card it is written to.

The card decides how each operation on it ends, so its answers are arguments.
The settings file that `logSetup` writes has its own file object and is left out.
-/

namespace Teetest

open Lib

/-- `fileSize`, the space that is allocated for a log file. -/
def fileSize : Nat := 104857600

/-- `fileSize2`: another file is started when more than this is written. -/
def fileSize2 : Nat := fileSize - 16 * 512

/-- `tmpSize`, the bytes written at once. -/
def tmpSize : Nat := 512

/-- `rbSize`, the capacity of the ring. -/
def rbSize : Nat := 4096

/-- The name of a file. -/
abbrev FileName := List UInt8

/-- An open file, and the position in it. -/
structure Handle where
  name : FileName
  pos : Nat
deriving DecidableEq

/-- The card, and the file object `file` that is used on it. -/
structure Sd where
  file : Option Handle
  -- the bytes that were written; space that is only allocated is cut off when the file is closed
  card : Files FileName UInt8
  -- the names that were opened with `O_TRUNC`, in order
  created : List FileName
deriving DecidableEq

/-- `file.open` of an existing file; it first closes what the file object holds. -/
def Sd.open (sd : Sd) (ok : Bool) (name : FileName) : Bool × Sd :=
  if ok && (sd.card.get name).isSome then (true, { sd with file := some ⟨name, 0⟩ })
  else (false, { sd with file := none })

/-- `file.open` with `O_CREAT | O_TRUNC`; it first closes what the file object holds. -/
def Sd.create (sd : Sd) (ok : Bool) (name : FileName) : Bool × Sd :=
  if ok then (true, ⟨some ⟨name, 0⟩, sd.card.create name, sd.created ++ [name]⟩)
  else (false, { sd with file := none })

/-- `file.write`, of which the card takes so many bytes. -/
def Sd.write (sd : Sd) (data : List UInt8) (written : Nat) : Sd :=
  match sd.file with
  | none => sd
  | some h =>
    let bs := data.take written
    { sd with
      card := sd.card.update h.name fun c => c.take h.pos ++ bs ++ c.drop (h.pos + bs.length)
      file := some { h with pos := h.pos + bs.length } }

/-- `file.truncate()`: the file ends at the current position. -/
def Sd.truncate (sd : Sd) (ok : Bool) : Bool × Sd :=
  match sd.file with
  | none => (false, sd)
  | some h =>
    if ok then (true, { sd with card := sd.card.update h.name fun c => c.take h.pos })
    else (false, sd)

/-- `file.seek(0)`. -/
def Sd.rewind (sd : Sd) : Sd := { sd with file := sd.file.map fun h => { h with pos := 0 } }

/-- `file.close()`. -/
def Sd.close (sd : Sd) : Sd := { sd with file := none }

/-- The loop of `fgets`: the line without carriage returns, and the number of bytes it took. -/
def fgetsLine : Nat → List UInt8 → List UInt8 × Nat
  | 0, _ => ([], 0)
  | _ + 1, [] => ([], 0)
  | room + 1, c :: cs =>
    if c = 0x0D then ((fgetsLine (room + 1) cs).1, (fgetsLine (room + 1) cs).2 + 1)
    else if c = 0x0A then ([c], 1)
    else (c :: (fgetsLine room cs).1, (fgetsLine room cs).2 + 1)

/-- `file.fgets(stmp, 64)`; nothing is returned when the card cannot be read. -/
def Sd.fgets (sd : Sd) (ok : Bool) : List UInt8 × Sd :=
  match sd.file with
  | none => ([], sd)
  | some h =>
    if ok then
      let line := fgetsLine 63 (((sd.card.get h.name).getD []).drop h.pos)
      (line.1, { sd with file := some { h with pos := h.pos + line.2 } })
    else ([], sd)

/-- The variables of logfile.cpp, and the card. -/
structure LogFile where
  rb : List UInt8
  ffOverflowCounter : Int
  counter : UInt8
  fileNumber : Int
  lfWriting : Bool
  fileCounter : Nat
  fileBytesCounter : Nat
  fileNameCopy : FileName
  lfState : LFState
  sdStarted : Bool
  sd : Sd
  printed : List (List UInt8)
deriving DecidableEq

/-- `xmprintf`. -/
def LogFile.xmprintf (s : LogFile) (text : List UInt8) : LogFile :=
  { s with printed := s.printed ++ [text] }

/-- `lfInit`; `begins` is the result of `sd.begin`. -/
def LogFile.lfInit (begins : Bool) (s : LogFile) : LogFile :=
  let s := { s with
    fileNameCopy := ascii "log.xq"
    rb := []
    ffOverflowCounter := 0
    lfWriting := false }
  if !begins then
    { s with lfState := .lfSError, sdStarted := false }.xmprintf
      (ascii "cannot start CD card (no card in slot?)\r\n")
  else { s with sdStarted := true, lfState := .lfSGood }.xmprintf (ascii "sd card started \r\n")

/-- The answers of the card to the operations of an `lfStart`. -/
structure StartIo where
  begins : Bool
  -- fn.txt: opened, created, read, truncated, and how much of the number is written
  openNumber : Bool
  createNumber : Bool
  readNumber : Bool
  truncated : Bool
  written : Nat
  -- the log file
  openLog : Bool
  preAllocated : Bool

/-- A card that answers everything with success. -/
def goodCard : StartIo where
  begins := true
  openNumber := true
  createNumber := true
  readNumber := true
  truncated := true
  written := 64
  openLog := true
  preAllocated := true

/-- "fn.txt", the file with the number of the last automatic log. -/
def fnTxt : FileName := ascii "fn.txt"

/-- The name of an automatic log: "log_%d.xq". -/
def logName (fileNumber : Int) : FileName := ascii ("log_" ++ toString fileNumber ++ ".xq")

/-- The end of the automatic branch of `lfStart`, with fn.txt open: the number is written. -/
def LogFile.saveNumber (io : StartIo) (s : LogFile) : LogFile :=
  let stmp := ascii (toString s.fileNumber ++ "\r\n")
  -- `truncate(0)` goes to the start of the file, also when it cannot cut it there
  let sd := (s.sd.rewind.truncate io.truncated).2
  { s with sd := (sd.write stmp io.written).close, fileNameCopy := logName s.fileNumber }

/-- What `lfStart` does with the line it read from fn.txt. -/
def LogFile.takeNumber (stmp : List UInt8) (s : LogFile) : LogFile :=
  match scanInt (cstr stmp) with
  -- a bad file leaves the number as it is
  | none => s
  | some k =>
    { s with fileNumber := wrap32 (k + 1) }.xmprintf
      (ascii ("lfStart next file #" ++ toString (wrap32 (k + 1)) ++ "\r\n"))

/-- The automatic branch of `lfStart`: whether there is a number, and the state after it. -/
def LogFile.nextNumber (io : StartIo) (s : LogFile) : Bool × LogFile :=
  let found := s.sd.open io.openNumber fnTxt
  if !found.1 then
    let made := found.2.create io.createNumber fnTxt
    if !made.1 then
      (false, { s with sd := made.2, lfState := .lfSError }.xmprintf
        (ascii "ERROR: cannot create a file fn.txt \r\n"))
    else (true, { s with sd := made.2 }.saveNumber io)
  else
    let stmp := found.2.rewind.fgets io.readNumber
    (true, ({ s with sd := stmp.2 }.takeNumber stmp.1).saveNumber io)

/-- The second half of `lfStart`: the log file is opened under the name in `fileNameCopy`. -/
def LogFile.openLogFile (io : StartIo) (s : LogFile) : LogFile :=
  let s := { s with fileCounter := 0, fileBytesCounter := 0, rb := [], ffOverflowCounter := 0 }
  let made := s.sd.create io.openLog s.fileNameCopy
  if !made.1 then
    { s with sd := made.2, lfState := .lfSError }.xmprintf
      (ascii "cannot open file " ++ s.fileNameCopy ++ ascii " for writing \r\n")
  else if !io.preAllocated then
    { s with sd := made.2, lfState := .lfSError }.xmprintf
      (ascii "cannot preallocate space for log file; card full?\r\n")
  else
    { s with sd := made.2, lfWriting := true, lfState := .lfSGood }.xmprintf
      (ascii "log started\r\n")

/-- `lfStart` tries to start a card that was not started. -/
def LogFile.tryCard (begins : Bool) (s : LogFile) : LogFile :=
  if s.sdStarted then s else s.lfInit begins

/-- `lfStart` on a card that is started. -/
def LogFile.startLog (io : StartIo) (fileName : Option FileName) (s : LogFile) : LogFile :=
  match fileName with
  | none =>
    let next := s.nextNumber io
    if !next.1 then next.2 else next.2.openLogFile io
  | some fileName =>
    let s := s.xmprintf (ascii "lfStart! " ++ fileName ++ ascii " \r\n")
    { s with fileNameCopy := fileName.take 64 }.openLogFile io

/-- `lfStart`; without a name it is automatic. -/
def LogFile.lfStart (io : StartIo) (fileName : Option FileName) (s : LogFile) : LogFile :=
  if s.lfWriting then
    s.xmprintf (ascii "writing file " ++ s.fileNameCopy ++ ascii " already \r\n")
  else
    let s := s.tryCard io.begins
    if !s.sdStarted then s.xmprintf (ascii "cannot2 start CD card (no card in slot?)\r\n")
    else s.startLog io fileName

/-- `get_rb_s`: the state without the bytes it takes. -/
def LogFile.dropBlock (bs : Nat) (s : LogFile) : LogFile := { s with rb := s.rb.drop bs }

/-- A block is written to the file and counted. -/
def LogFile.writeBlock (tmpBuf : List UInt8) (written : Nat) (s : LogFile) : LogFile :=
  { s with
    sd := s.sd.write tmpBuf written
    fileBytesCounter := s.fileBytesCounter + tmpBuf.length }

/-- `file.truncate` and `file.close`, as a log file is ended. -/
def LogFile.endFile (truncated : Bool) (s : LogFile) : LogFile :=
  let ended := s.sd.truncate truncated
  { s with sd := ended.2.close, lfState := if !ended.1 then .lfSError else s.lfState }

/-- The answers of the card to the operations of an `lfStop`. -/
structure StopIo where
  -- how much the card takes of each block
  written : Nat → Nat
  truncated : Bool

/-- The size of the next block of `lfStop`, out of so many bytes. -/
def stopSize (n : Nat) : Nat := if n > tmpSize then tmpSize else n

/-- The loop of `lfStop`, in which `i` counts the blocks. -/
def LogFile.drain (written : Nat → Nat) : Nat → Nat → LogFile → LogFile
  | 0, _, s => s
  | fuel + 1, i, s =>
    if s.rb.length > 0 then
      let bs := stopSize s.rb.length
      drain written fuel (i + 1) ((s.dropBlock bs).writeBlock (s.rb.take bs) (written i))
    else s

/-- `lfStop`. -/
def LogFile.lfStop (io : StopIo) (s : LogFile) : LogFile :=
  -- this is said, and the function goes on
  let s := if !s.lfWriting then s.xmprintf (ascii "not writing now \r\n") else s
  if !s.sdStarted then s.xmprintf (ascii "sd card didnt started \r\n")
  else if s.lfState ≠ .lfSGood then s.xmprintf (ascii "state not good \r\n")
  else
    let s := { s with lfWriting := false }
    -- every round takes at least one byte out of the ring
    let s := (s.drain io.written s.rb.length 0).endFile io.truncated
    s.xmprintf (ascii ("log stopped; fileBytesCounter=" ++ toString s.fileBytesCounter ++ "\r\n"))

/-- The answers of the card to the operations of one round of `lfProcess`. -/
structure BlockIo where
  written : Nat
  truncated : Bool
  openNext : Bool
  preAllocated : Bool

/-- The name of the next file of a log: `fileNameCopy` with "_%d" appended. -/
def LogFile.nextName (s : LogFile) : FileName :=
  s.fileNameCopy.take 64 ++ (ascii ("_" ++ toString s.fileCounter)).take 8

/-- The first half of a change of files: the current file is ended. -/
def LogFile.endFull (truncated : Bool) (s : LogFile) : LogFile :=
  { s.endFile truncated with fileCounter := s.fileCounter + 1, fileBytesCounter := 0 }

/-- The second half of a change of files: whether the next file is ready, and the state after it. -/
def LogFile.openNext (io : BlockIo) (s : LogFile) : Bool × LogFile :=
  let made := s.sd.create io.openNext s.nextName
  if !made.1 ∨ !io.preAllocated then (false, { s with sd := made.2, lfState := .lfSError })
  else (true, { s with sd := made.2 })

/-- One round of `lfProcess`: whether the loop goes on, and the state after it. -/
def LogFile.processBlock (io : BlockIo) (s : LogFile) : Bool × LogFile :=
  let s := (s.dropBlock tmpSize).writeBlock (s.rb.take tmpSize) io.written
  if s.fileBytesCounter > fileSize2 then (s.endFull io.truncated).openNext io else (true, s)

/-- The loop of `lfProcess`, in which `i` counts the rounds. -/
def LogFile.processLoop (io : Nat → BlockIo) : Nat → Nat → LogFile → LogFile
  | 0, _, s => s
  | fuel + 1, i, s =>
    if s.rb.length ≥ tmpSize then
      let next := s.processBlock (io i)
      if next.1 then processLoop io fuel (i + 1) next.2 else next.2
    else s

/-- `lfProcess`. -/
def LogFile.lfProcess (io : Nat → BlockIo) (s : LogFile) : LogFile :=
  if s.lfState ≠ .lfSGood ∨ !s.lfWriting then s
  -- every round takes a block out of the ring
  else s.processLoop io s.rb.length 0

/-- The interrupts-disabled section of `lfFeed` and `lfSendMessage`: all of the bytes, or none. -/
def LogFile.put (image : List UInt8) (s : LogFile) : Bool × LogFile :=
  if rbSize - s.rb.length < image.length then
    (false, { s with ffOverflowCounter := wrap32 (s.ffOverflowCounter + 1) })
  else (true, { s with rb := s.rb ++ image })

/-- `lfFeed`. -/
def LogFile.lfFeed (data : List UInt8) (s : LogFile) : LogFile :=
  if s.lfState ≠ .lfSGood ∨ !s.lfWriting then s else (s.put data).2

/-- `xqm::MsgHeader` and `XQ_updateCRC` of the message library. -/
structure XMessage where
  headerSize : Nat
  -- the bytes of a header with the fields `count`, `length` and `type`
  header : UInt8 → Nat → UInt8 → List UInt8
  header_length : ∀ count length type, (header count length type).length = headerSize
  crc : List UInt8 → UInt8

/-- A message as it stands in the log: header, body, CRC and line feed. -/
def XMessage.image (x : XMessage) (count : UInt8) (type : UInt8) (data : List UInt8) : List UInt8 :=
  let hdr := x.header count data.length type
  hdr ++ data ++ [x.crc (hdr ++ data), 0x0A]

/-- The interrupts-disabled section of `lfSendMessage`. -/
def LogFile.putMessage (image : List UInt8) (s : LogFile) : Bool × LogFile :=
  let put := s.put image
  if put.1 then (true, { put.2 with counter := put.2.counter + 1 }) else put

/-- A message is put into the ring and counted, or refused. -/
theorem LogFile.putMessage_eq (image : List UInt8) (s : LogFile) :
    s.putMessage image =
      if rbSize - s.rb.length < image.length then
        (false, { s with ffOverflowCounter := wrap32 (s.ffOverflowCounter + 1) })
      else (true, { s with rb := s.rb ++ image, counter := s.counter + 1 }) := by
  -- The counter follows what became of the bytes.
  unfold putMessage put
  split_ifs <;> rfl

/-- `lfSendMessage`. -/
def LogFile.lfSendMessage (x : XMessage) (data : List UInt8) (type : UInt8) (s : LogFile) :
    Nat × LogFile :=
  if !s.sdStarted ∨ s.lfState ≠ .lfSGood ∨ !s.lfWriting then (0, s)
  else
    let ret := data.length + x.headerSize + 2
    let put := s.putMessage (x.image s.counter type data)
    if put.1 then (ret, put.2) else (0, put.2)

/-- The values of the variables when the program starts, on a card. -/
def LogFile.powerUp (card : Files FileName UInt8) (created : List FileName) : LogFile where
  rb := []
  ffOverflowCounter := 0
  counter := 0
  fileNumber := 0
  lfWriting := false
  fileCounter := 0
  fileBytesCounter := 0
  fileNameCopy := []
  lfState := .lfSInit
  sdStarted := false
  sd := ⟨none, card, created⟩
  printed := []

end Teetest
