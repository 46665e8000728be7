import Teetest.Console.Order
import Teetest.Session.Connection
import Teetest.Session.Demux

/-!
The start of a transfer: the answer of the Teensy, and what the console's client takes for it.

The answer is a line in a stream of text that is cut at any place.
The client looks for a word in every piece of it, and knows no line.
-/

namespace Teetest

open Lib

/-- The "ack," that `readingTheFile` takes for an answer in state 1: something must stand behind it. -/
def ackIn (text : List UInt8) : Option (List UInt8) :=
  (strstr ackWord text).filter fun sch => 4 < sch.length

/-- The place of the word by which `readingTheFile` decides in state 1. -/
def decisiveAt (text : List UInt8) : Option Nat :=
  match ackIn text with
  | some sch => some (text.length - sch.length)
  | none => (strstr nakWord text).map fun sch => text.length - sch.length

/-- No "ack," stands in a text, but at its very end. -/
def NoAck (text : List UInt8) : Prop := ∀ i, ackWord <+: text.drop i → text.length ≤ i + 4

/-- Nothing in a text is taken for an answer. -/
def Silent (text : List UInt8) : Prop := NoAck text ∧ ∀ i, ¬ nakWord <+: text.drop i

/-- The search for "ack," fails exactly on a text without it. -/
theorem ackIn_eq_none_iff (text : List UInt8) : ackIn text = none ↔ NoAck text := by
  have some_ : ackWord ≠ [] := by simp [ackWord]
  unfold ackIn NoAck
  cases finds : strstr ackWord text with
  | none => exact iff_of_true rfl fun i here => absurd here ((strstr_eq_none_iff some_ text).mp finds i)
  | some found =>
    obtain ⟨i, first, rfl⟩ := strstr_eq_some some_ finds
    -- The search finds the first place, and the test looks at what stands behind it.
    have whole := first.le some_
    have four : ackWord.length = 4 := rfl
    rw [Option.filter_some]
    by_cases ends : 4 < (text.drop i).length
    · -- Something stands behind it, which contradicts a text without an answer.
      rw [if_pos (by simpa using ends)]
      refine iff_of_false (by simp) fun none_ => ?_
      have := none_ i first.here
      rw [List.length_drop] at ends
      omega
    · rw [if_neg (by simpa using ends)]
      refine iff_of_true rfl fun j here => ?_
      -- The first place is the last one, and stands at the end.
      have later : i ≤ j := by
        by_contra low
        exact first.first j (by omega) here
      rw [List.length_drop] at ends
      omega

/-- The "ack," that is found is the first one, and something stands behind it. -/
theorem ackIn_eq_some_iff {text sch : List UInt8} :
    ackIn text = some sch ↔ ∃ i, FirstAt ackWord text i ∧ i + 4 < text.length ∧ sch = text.drop i := by
  have some_ : ackWord ≠ [] := by simp [ackWord]
  unfold ackIn
  -- The search and the test are the two halves of the statement.
  rw [Option.filter_eq_some_iff]
  constructor
  · rintro ⟨finds, long⟩
    obtain ⟨i, first, rfl⟩ := strstr_eq_some some_ finds
    refine ⟨i, first, ?_, rfl⟩
    simp only [List.length_drop, decide_eq_true_eq] at long
    omega
  · rintro ⟨i, first, long, rfl⟩
    refine ⟨first.strstr_eq some_, ?_⟩
    simp only [List.length_drop, decide_eq_true_eq]
    omega

/-- A text with an "ack," that something stands behind is not silent. -/
theorem not_silent_of_ack {text : List UInt8} {i : Nat} (at_ : FirstAt ackWord text i)
    (long : i + 4 < text.length) : ¬ Silent text := by
  intro silent
  -- The "ack," would have to stand at the very end.
  have ends := silent.1 i at_.here
  omega

/-- A text with a "nak," is not silent. -/
theorem not_silent_of_nak {text : List UInt8} {i : Nat} (at_ : FirstAt nakWord text i) :
    ¬ Silent text := by
  intro silent
  exact silent.2 i at_.here

/-- What decides in a text is its first "ack,", or its first "nak," if there is none. -/
theorem decisiveAt_eq_some_iff {text : List UInt8} {i : Nat} :
    decisiveAt text = some i ↔ (FirstAt ackWord text i ∧ i + 4 < text.length) ∨
      (NoAck text ∧ FirstAt nakWord text i) := by
  have some_ : nakWord ≠ [] := by simp [nakWord]
  unfold decisiveAt
  cases finds : ackIn text with
  | none =>
    -- Without an "ack," the search for a "nak," decides.
    have noAck := (ackIn_eq_none_iff text).mp finds
    constructor
    · intro at_
      obtain ⟨sch, found, rfl⟩ := Option.map_eq_some_iff.mp at_
      obtain ⟨j, first, rfl⟩ := strstr_eq_some some_ found
      have := first.le some_
      rw [length_sub_drop (by omega)]
      exact .inr ⟨noAck, first⟩
    · rintro (⟨first, long⟩ | ⟨-, first⟩)
      · -- The "ack," was not found, so nothing stands behind it.
        have := noAck i first.here
        omega
      · have := first.le some_
        rw [first.strstr_eq some_, Option.map_some, length_sub_drop (by omega)]
  | some sch =>
    -- The place of the "ack," is the one that is returned.
    obtain ⟨j, first, long, rfl⟩ := ackIn_eq_some_iff.mp finds
    dsimp only
    rw [length_sub_drop (by omega), Option.some.injEq]
    constructor
    · rintro rfl
      exact .inl ⟨first, long⟩
    · rintro (⟨other, -⟩ | ⟨noAck, -⟩)
      · exact first.unique other
      · -- A text with this "ack," is not one without.
        have := noAck j first.here
        omega

section

variable {crc16 : List UInt8 → UInt16} {c : Client}

/-- The text in which state 1 looks for the answer is that of the chunk. -/
theorem chunk_text (buf : Mem) {chunk : List UInt8} (small : chunk.length ≤ readSize) :
    cstr ((teeData ((buf.write 0 chunk).write (bufSize - 1) [0]) chunk.length).read 0 bufSize) =
      cstr chunk := by
  unfold readSize at small
  -- The text is read from the whole buffer, of which the chunk is the front.
  have sizes : bufSize = chunk.length + 1 + (2049 - chunk.length) := by
    unfold bufSize
    omega
  have held : ((buf.write 0 chunk).write (bufSize - 1) [0]).read 0 chunk.length = chunk := by
    rw [Mem.read_write_disjoint _ (.inl (by unfold bufSize; omega)), Mem.read_write_same]
  generalize (buf.write 0 chunk).write (bufSize - 1) [0] = m at held
  -- The NUL that is put behind the chunk ends its text.
  have front : (m.write chunk.length [0]).read 0 (chunk.length + 1) = chunk ++ [0] := by
    have behind := Mem.read_write_behind m 0 chunk.length [0]
    rw [Nat.zero_add, held] at behind
    exact behind
  rw [sizes, Mem.read_append, teeData, front, cstr_append_of_mem (by simp)]
  by_cases closed : 0 ∈ chunk
  · -- A NUL inside of the chunk ends the text already.
    exact cstr_append_of_mem closed _
  · rw [cstr_closed closed, cstr_of_text closed]

/-- What a call does to a client that waits for the answer. -/
inductive Client.Answered (c : Client) (a : Chunk) (c' : Client) : Prop
  | dropped (lost : dropped a.chunk = true) (state : c'.readingTheLogFile = 1)
  | silent (kept : Teetest.dropped a.chunk = false) (text : Silent (cstr a.chunk))
      (state : c'.readingTheLogFile = 1)
  | refused {i : Nat} (kept : Teetest.dropped a.chunk = false) (noAck : NoAck (cstr a.chunk))
      (at_ : FirstAt nakWord (cstr a.chunk) i) (state : c'.readingTheLogFile = 0)
  | garbled {i : Nat} (kept : Teetest.dropped a.chunk = false) (at_ : FirstAt ackWord (cstr a.chunk) i)
      (long : i + 4 < (cstr a.chunk).length)
      (size : scanInt ((cstr a.chunk).drop (i + 4)) = none) (state : c'.readingTheLogFile = 0)
  | granted {i : Nat} (kept : Teetest.dropped a.chunk = false) (at_ : FirstAt ackWord (cstr a.chunk) i)
      (long : i + 4 < (cstr a.chunk).length)
      (size : scanInt ((cstr a.chunk).drop (i + 4)) = some c'.fileSize)
      (state : c'.readingTheLogFile = 2)

/-- A call of `process` in state 1, on a chunk of the size of a read. -/
structure Waiting (c : Client) (a : Chunk) : Prop where
  waits : c.readingTheLogFile = 1
  runs : c.pleaseStop = false
  opens : a.io.opens = true
  some_ : 1 ≤ a.chunk.length
  small : a.chunk.length ≤ readSize

variable (crc16) in
/-- In state 1 a call decides by the text of its chunk. -/
theorem Waiting.answered {a : Chunk} (waiting : Waiting c a) : c.Answered a (c.take crc16 a) := by
  obtain ⟨waits, runs, opens, some_, small⟩ := waiting
  -- A running client handles a chunk that is not empty.
  have handed : ¬ (c.pleaseStop = true ∨ a.chunk.length < 1) := by
    rintro (stopped | nothing)
    · rw [runs] at stopped
      cases stopped
    · omega
  unfold Client.take Client.reply
  cases lost : Teetest.dropped a.chunk with
  | true =>
    -- A greeting or a ping leaves the client waiting.
    have same := (c.process_discarded crc16 a.io (classify_dropped c.readingTheLogFile lost) a.sock).1
    exact .dropped lost ((congrArg Receiver.readingTheLogFile same).trans waits)
  | false =>
    -- In state 1 every other chunk goes to `readingTheFile`.
    have consumer : c.consumer = .readingTheFile := by
      unfold Client.consumer
      rw [if_pos (by omega)]
    rw [Client.process_handsOn crc16 a.io ⟨handed, (classify_kept c lost).trans consumer⟩]
    show c.Answered a ((c.filledWith a.chunk).readingTheFile crc16 a.io a.sock a.chunk.length).client
    unfold Client.filledWith Client.readingTheFile
    dsimp only
    rw [waits]
    unfold Client.awaitingAnswer
    dsimp only
    rw [chunk_text c.buf small]
    cases finds : ackIn (cstr a.chunk) with
    | some sch =>
      -- An "ack," was found, and the number is read behind it.
      obtain ⟨i, first, long, rfl⟩ := ackIn_eq_some_iff.mp finds
      unfold ackIn at finds
      rw [finds]
      dsimp only
      cases size : scanInt (((cstr a.chunk).drop i).drop 4) with
      | some k =>
        -- The number is the size of the file that is opened.
        rw [List.drop_drop] at size
        dsimp only
        rw [if_pos opens]
        exact .granted lost first long size rfl
      | none =>
        -- What stands there is no number, and the request is over.
        rw [List.drop_drop] at size
        exact .garbled lost first long size rfl
    | none =>
      -- Without an "ack," a "nak," is looked for.
      have noAck := (ackIn_eq_none_iff _).mp finds
      unfold ackIn at finds
      rw [finds]
      dsimp only
      cases refuses : strstr nakWord (cstr a.chunk) with
      | some found =>
        obtain ⟨i, first, -⟩ := strstr_eq_some (by simp [nakWord]) refuses
        exact .refused lost noAck first rfl
      | none =>
        exact .silent lost ⟨noAck, (strstr_eq_none_iff (by simp [nakWord]) _).mp refuses⟩ rfl

/-- A client that waits for the answer is not stopped by it. -/
theorem Waiting.runs_on {a : Chunk} (waiting : Waiting c a) : (c.take crc16 a).pleaseStop = false :=
  (c.process_runs crc16 a.io a.chunk a.sock).trans waiting.runs

variable (crc16) in
/-- A "nak," ends the request, if no "ack," is found. -/
theorem Waiting.refuses {a : Chunk} {i : Nat} (waiting : Waiting c a) (kept : dropped a.chunk = false)
    (noAck : NoAck (cstr a.chunk)) (first : FirstAt nakWord (cstr a.chunk) i) :
    (c.take crc16 a).readingTheLogFile = 0 := by
  cases waiting.answered crc16 with
  | dropped lost => cases kept.symm.trans lost
  | silent _ text => exact absurd text (not_silent_of_nak first)
  | refused _ _ _ state => exact state
  | garbled _ _ _ _ state => exact state
  | @granted j _ other long =>
    -- The "ack," that it takes for the answer does not stand there.
    have ends := noAck j other.here
    omega

variable (crc16) in
/-- An "ack," starts the transfer, with the number behind it. -/
theorem Waiting.grants {a : Chunk} {i : Nat} {k : Int} (waiting : Waiting c a)
    (kept : dropped a.chunk = false) (first : FirstAt ackWord (cstr a.chunk) i)
    (long : i + 4 < (cstr a.chunk).length) (read : scanInt ((cstr a.chunk).drop (i + 4)) = some k) :
    (c.take crc16 a).readingTheLogFile = 2 ∧ (c.take crc16 a).fileSize = k := by
  cases waiting.answered crc16 with
  | dropped lost => cases kept.symm.trans lost
  | silent _ text => exact absurd text (not_silent_of_ack first long)
  | refused _ noAck =>
    have ends := noAck i first.here
    omega
  | garbled _ other _ size =>
    -- There is one first "ack,", and a number stands behind it.
    rw [other.unique first, read] at size
    cases size
  | granted _ other _ size state =>
    rw [other.unique first, read] at size
    exact ⟨state, (Option.some.inj size).symm⟩

/-- A chunk that leaves the client waiting for the answer. -/
def Quiet (chunk : List UInt8) : Prop := dropped chunk = true ∨ Silent (cstr chunk)

/-- A chunk that is handed on with a text that is not silent is not quiet. -/
theorem not_quiet {chunk : List UInt8} (kept : dropped chunk = false)
    (speaks : ¬ Silent (cstr chunk)) : ¬ Quiet chunk := by
  rintro (lost | silent)
  · cases kept.symm.trans lost
  · exact speaks silent

variable (crc16) in
/-- A call waits on exactly if its chunk is quiet, and else decides. -/
theorem Waiting.quiet_iff {a : Chunk} (waiting : Waiting c a) :
    ((c.take crc16 a).readingTheLogFile = 1 ↔ Quiet a.chunk) ∧
      ((c.take crc16 a).readingTheLogFile ≠ 1 →
        (c.take crc16 a).readingTheLogFile = 2 ∨ (c.take crc16 a).readingTheLogFile = 0) := by
  -- By what the call decides.
  cases waiting.answered crc16 with
  | dropped lost state => exact ⟨iff_of_true state (.inl lost), fun other => absurd state other⟩
  | silent kept text state => exact ⟨iff_of_true state (.inr text), fun other => absurd state other⟩
  | refused kept noAck at_ state =>
    exact ⟨iff_of_false (by omega) (not_quiet kept (not_silent_of_nak at_)), fun _ => .inr state⟩
  | garbled kept at_ long size state =>
    exact ⟨iff_of_false (by omega) (not_quiet kept (not_silent_of_ack at_ long)), fun _ => .inr state⟩
  | granted kept at_ long size state =>
    exact ⟨iff_of_false (by omega) (not_quiet kept (not_silent_of_ack at_ long)), fun _ => .inl state⟩

variable (crc16) in
/-- A client that has decided does not wait again, whatever it reads. -/
theorem Client.takeAll_decided (calls : List Chunk)
    (decided : c.readingTheLogFile = 2 ∨ c.readingTheLogFile = 0) :
    (c.takeAll crc16 calls).readingTheLogFile ≠ 1 := by
  induction calls generalizing c with
  | nil =>
    -- In neither state a call leads back to state 1.
    show c.readingTheLogFile ≠ 1
    omega
  | cons a calls ih =>
    refine ih (c := c.take crc16 a) ?_
    rcases decided with receives | idle
    · exact (c.reply_writes crc16 a receives).state
    · have kept := congrArg Receiver.readingTheLogFile (c.take_idle crc16 a idle).2
      exact .inr (kept.trans idle)

variable (crc16) in
/-- The client waits through a sequence of chunks exactly if all of them are quiet. -/
theorem Client.takeAll_waits_iff {calls : List Chunk} (fit : ∀ a ∈ calls, a.io.opens = true ∧
      1 ≤ a.chunk.length ∧ a.chunk.length ≤ readSize)
    (waits : c.readingTheLogFile = 1) (runs : c.pleaseStop = false) :
    ((c.takeAll crc16 calls).readingTheLogFile = 1 ↔ ∀ a ∈ calls, Quiet a.chunk) ∧
      ((c.takeAll crc16 calls).readingTheLogFile = 1 → (c.takeAll crc16 calls).pleaseStop = false) := by
  induction calls generalizing c with
  | nil => exact ⟨iff_of_true waits (by simp), fun _ => runs⟩
  | cons a calls ih =>
    -- The first chunk is read while the client waits.
    obtain ⟨opens, some_, small⟩ := fit a (by simp)
    have waiting : Waiting c a := ⟨waits, runs, opens, some_, small⟩
    obtain ⟨quiet, decides⟩ := waiting.quiet_iff crc16
    by_cases on : (c.take crc16 a).readingTheLogFile = 1
    · -- It is quiet, and the client waits for the others.
      obtain ⟨later, stopped⟩ := ih (fun b mem => fit b (by simp [mem])) on waiting.runs_on
      refine ⟨later.trans ?_, stopped⟩
      simp only [List.mem_cons, forall_eq_or_imp]
      exact ⟨fun all => ⟨quiet.mp on, all⟩, fun all => all.2⟩
    · -- It decides, and nothing leads back from that.
      have never := (c.take crc16 a).takeAll_decided crc16 calls (decides on)
      refine ⟨iff_of_false never fun all => on (quiet.mpr (all a (by simp))), fun again => ?_⟩
      exact absurd again never

end

/-- The file that `lfGetFile` sends, if it sends one. -/
def GetIn.sends (g : GetIn) : Option (List UInt8) :=
  if g.lfWriting = true ∨ g.lfState ≠ .lfSGood then none else g.opened.filter fun data => data ≠ []

/-- A line feed behind a carriage return. -/
def crlf : List UInt8 := [0x0D, 0x0A]

/-- The line by which `lfGetFile` answers. -/
def GetIn.answer (g : GetIn) : List UInt8 :=
  match g.sends with
  | some data => ackWord ++ intText (wrap32 data.length) ++ crlf
  | none => nakWord ++ intText 0 ++ crlf

/-- A refusal is answered by a "nak,". -/
theorem GetIn.answer_of_none {g : GetIn} (refused : g.sends = none) :
    g.answer = nakWord ++ intText 0 ++ crlf := by
  unfold GetIn.answer
  rw [refused]

/-- A file that is sent is announced by an "ack," and its size as an `int`. -/
theorem GetIn.answer_of_some {g : GetIn} {data : List UInt8} (sent : g.sends = some data) :
    g.answer = ackWord ++ intText (wrap32 data.length) ++ crlf := by
  unfold GetIn.answer
  rw [sent]

/-- What `ethACK` feeds is a word, a number and a line end. -/
theorem Net.ethACK_eq (n : Net) (yes : Bool) (info : Int) :
    n.ethACK yes info =
      n.ethFeed .text ((if yes then ackWord else nakWord) ++ intText info ++ crlf) := by
  -- The word, the number and the line end are appended as characters.
  unfold ethACK intText
  congr 1
  cases yes <;> simp [ascii, String.toList_append] <;> rfl

/-- What `lfGetFile` leaves: its result, the size, and its answer at the end of the ring. -/
structure Net.Replied (g : GetIn) (n : Net) (r : Nat × Net) : Prop where
  code : r.1 = 0 ↔ g.sends.isSome = true
  size : ∀ data, g.sends = some data → r.2.ethFileSize = data.length
  queued : (n.ethFeed .text g.answer).rb <+: r.2.rb
  few : r.2.rb.length ≤ max n.rb.length ethRbSize
  lost : n.clientConnected = false → r.2.rb = n.rb

/-- Feeding a message fills the ring at most. -/
theorem Net.ethFeed_few (n : Net) (origin : Origin) (m : List UInt8) :
    (n.ethFeed origin m).rb.length ≤ max n.rb.length ethRbSize := by
  -- A message is fed whole, or not at all.
  unfold ethFeed
  split_ifs with _ fits
  · exact le_max_left _ _
  · refine le_trans ?_ (le_max_right _ _)
    simpa using fits
  · exact le_max_left _ _

/-- A text fills the ring at most. -/
theorem Net.xmprintf_few (n : Net) (s : String) : (n.xmprintf s).rb.length ≤ max n.rb.length ethRbSize := by
  unfold xmprintf
  split
  · exact n.ethFeed_few _ _
  · exact le_max_left _ _

/-- Without a client nothing is queued. -/
theorem Net.ethFeed_lost {n : Net} (alone : n.clientConnected = false) (origin : Origin) (m : List UInt8) :
    n.ethFeed origin m = n := by
  simp [ethFeed, alone]

/-- What feeding makes of the ring depends on the ring and on the connection. -/
theorem Net.ethFeed_rb_congr {m n : Net} (rb : m.rb = n.rb)
    (connected : m.clientConnected = n.clientConnected) (origin : Origin) (s : List UInt8) :
    (m.ethFeed origin s).rb = (n.ethFeed origin s).rb := by
  -- Whether a message is fed is decided by the connection and by the room in the ring.
  unfold ethFeed
  rw [connected, rb]
  split_ifs
  · exact rb
  · rfl
  · exact rb

/-- A refusal and a text behind it. -/
theorem Net.replied_refusal {g : GetIn} (n : Net) {code : Nat} {r : Net} (s : String)
    (refused : g.sends = none) (fails : code ≠ 0) (rb : n.rb = r.rb)
    (connected : n.clientConnected = r.clientConnected) :
    n.Replied g (code, (r.ethACK false 0).xmprintf s) := by
  -- The refusal is the answer, and the text comes behind it.
  have fed : (r.ethACK false 0).rb = (n.ethFeed .text g.answer).rb := by
    rw [ethACK_eq, g.answer_of_none refused]
    exact ethFeed_rb_congr rb.symm connected.symm _ _
  refine ⟨?_, fun data sent => ?_, ?_, ?_, fun alone => ?_⟩
  · rw [refused]
    exact iff_of_false fails (by simp)
  · rw [refused] at sent
    cases sent
  · rw [← fed]
    exact xmprintf_prefix _ _
  · -- Both the refusal and the text fill the ring at most.
    have few := (r.ethACK false 0).xmprintf_few s
    have fed' := n.ethFeed_few .text g.answer
    rw [fed] at few
    dsimp only
    omega
  · -- Without a client neither of them is fed.
    have alone' : r.clientConnected = false := connected ▸ alone
    unfold ethACK
    rw [ethFeed_lost alone']
    unfold xmprintf
    split
    · rw [ethFeed_lost alone', rb]
    · exact rb.symm

/-- The announcement of a file, whatever else a transfer sets. -/
theorem Net.replied_grant {g : GetIn} (n : Net) {r : Net} {data : List UInt8}
    (sent : g.sends = some data) (rb : n.rb = r.rb) (connected : n.clientConnected = r.clientConnected)
    (size : r.ethFileSize = data.length) : n.Replied g (0, r.ethACK true (wrap32 data.length)) := by
  have answered : r.ethACK true (wrap32 data.length) = r.ethFeed .text g.answer := by
    rw [ethACK_eq, g.answer_of_some sent]
    rfl
  -- The ring is fed by the same rule on both sides.
  have fed := ethFeed_rb_congr rb.symm connected.symm .text g.answer
  rw [answered]
  refine ⟨iff_of_true rfl (by simp [sent]), fun data' same => ?_, ?_, ?_, fun alone => ?_⟩
  · obtain rfl : data = data' := Option.some.inj (sent.symm.trans same)
    -- Feeding touches the ring only.
    exact (congrArg Net.ethFileSize (r.ethFeed_frame .text g.answer)).trans size
  · rw [fed]
  · dsimp only
    rw [fed]
    exact n.ethFeed_few _ _
  · -- Without a client the answer is not fed.
    dsimp only
    rw [ethFeed_lost (connected ▸ alone), rb]

/-- The state in which `lfGetFile` answers: the text of an assertion that fails is queued by then. -/
def Net.answering (g : GetIn) (n : Net) : Net :=
  if g.lfWriting = true ∨ g.lfState ≠ .lfSGood then n else n.mxatClosed g

/-- The assertion does not touch the connection. -/
theorem Net.answering_clientConnected (g : GetIn) (n : Net) :
    (n.answering g).clientConnected = n.clientConnected := by
  unfold answering
  split
  · rfl
  · exact (congrArg Net.clientConnected (n.mxatClosed_frame g) :)

/-- `lfGetFile` answers as its inputs say. -/
theorem Net.lfGetFile_replied (g : GetIn) (name : String) (n : Net) :
    (n.answering g).Replied g (n.lfGetFile g name) := by
  unfold lfGetFile answering
  by_cases writing : g.lfWriting = true
  · rw [if_pos writing, if_pos (.inl writing)]
    -- A log is being written.
    exact n.replied_refusal _ (if_pos (.inl writing)) (by simp) rfl rfl
  rw [if_neg writing]
  by_cases state : g.lfState ≠ .lfSGood
  · rw [if_pos state, if_pos (.inr state)]
    -- The card is not ready.
    exact n.replied_refusal _ (if_pos (.inr state)) (by simp) rfl rfl
  rw [if_neg state, if_neg (not_or.mpr ⟨writing, state⟩)]
  dsimp only
  generalize n.mxatClosed g = n
  have sends : g.sends = g.opened.filter fun data => data ≠ [] := if_neg (by simp [writing, state])
  cases opened : g.opened with
  | none =>
    rw [opened] at sends
    -- The file cannot be opened.
    exact n.replied_refusal _ sends (by simp) rfl rfl
  | some data =>
    rw [opened] at sends
    dsimp only
    by_cases empty : data.length = 0
    · -- An empty file is refused.
      rw [if_pos empty]
      have nothing : data = [] := List.length_eq_zero_iff.mp empty
      exact n.replied_refusal _ (by simp [sends, nothing]) (by simp) rfl rfl
    · rw [if_neg empty]
      have some_ : data ≠ [] := fun nothing => empty (by simp [nothing])
      have sent : g.sends = some data := by simp [sends, some_]
      -- Any other file is announced.
      exact n.replied_grant sent rfl rfl rfl

/-- The answer stands in the ring exactly if it fits into it, with a client connected. -/
theorem Net.Replied.queued_iff {g : GetIn} {n : Net} {r : Nat × Net} (replied : n.Replied g r) :
    n.rb ++ mark .text g.answer <+: r.2.rb ↔
      n.clientConnected = true ∧ n.rb.length + g.answer.length ≤ ethRbSize := by
  have some_ : 0 < g.answer.length := by
    unfold GetIn.answer
    split <;> simp [ackWord, nakWord]
  constructor
  · intro queued
    -- A ring that is fed in vain is no longer than it was, or full.
    have long := queued.length_le
    rw [List.length_append, mark_length] at long
    have few := replied.few
    refine ⟨?_, by omega⟩
    cases connected : n.clientConnected with
    | true => rfl
    | false =>
      rw [replied.lost connected] at long
      omega
  · rintro ⟨connected, fits⟩
    have queued := replied.queued
    rw [ethFeed_fits connected _ fits] at queued
    exact queued

/-- A result that is not 0 refuses. -/
theorem Net.Replied.refuses {g : GetIn} {n : Net} {r : Nat × Net} (replied : n.Replied g r)
    (fails : r.1 ≠ 0) : g.sends = none := by
  have unsent := mt replied.code.mpr fails
  simpa using unsent

/-- The bytes of the chunks of some calls. -/
def readBy (calls : List Chunk) : List UInt8 := calls.flatMap Chunk.chunk

/-- A client that waits for an answer, and the chunks in which it reads a text. -/
structure Reading (c : Client) (calls : List Chunk) (text : List UInt8) : Prop where
  waits : c.readingTheLogFile = 1
  runs : c.pleaseStop = false
  -- every `fopen` of the client succeeds, and every chunk is one that a read returns
  fit : ∀ a ∈ calls, a.io.opens = true ∧ 1 ≤ a.chunk.length ∧ a.chunk.length ≤ readSize
  text : readBy calls = text

/-- The text that the client reads: some text, the ring behind `lfGetFile`, and some more text. -/
def answerStream (g : GetIn) (name : String) (n : Net) (earlier after : List UInt8) : List UInt8 :=
  earlier ++ bytes (n.lfGetFile g name).2.rb ++ after

/--
The client decides on the answer of `lfGetFile`, and as it says.

The answer is in the ring, the word by which the client decides is that of the answer,
and the state and the size after it are those of the result.
-/
def StartAgrees (crc16 : List UInt8 → UInt16) (g : GetIn) (name : String) (n : Net) (c : Client)
    (earlier : List UInt8) (calls : List Chunk) : Prop :=
  let r := n.lfGetFile g name
  (n.answering g).rb ++ mark .text g.answer <+: r.2.rb ∧
    ∃ past a later i, calls = past ++ a :: later ∧
      (c.takeAll crc16 past).readingTheLogFile = 1 ∧ decisiveAt (cstr a.chunk) = some i ∧
      (readBy past).length + i = earlier.length + (n.answering g).rb.length ∧
      let c' := (c.takeAll crc16 past).take crc16 a
      (c'.readingTheLogFile = 2 ↔ r.1 = 0) ∧ (c'.readingTheLogFile = 0 ↔ r.1 ≠ 0) ∧
        (r.1 = 0 → c'.fileSize = r.2.ethFileSize)

/-- A text tells the answer at a place: its first word is that of the answer, and its number is whole. -/
def GetIn.Told (g : GetIn) (text : List UInt8) (i : Nat) : Prop :=
  match g.sends with
  | some data => FirstAt ackWord text i ∧ data.length < 2 ^ 31 ∧
      i + 4 + (decimal data.length).length ≤ text.length
  | none => FirstAt nakWord text i ∧ NoAck text

/-- The answer fits into the ring, and is told by one chunk behind quiet ones. -/
structure Legible (g : GetIn) (n : Net) (earlier : List UInt8) (calls : List Chunk) : Prop where
  connected : n.clientConnected = true
  fits : (n.answering g).rb.length + g.answer.length ≤ ethRbSize
  told : ∃ past a later i, calls = past ++ a :: later ∧
    (readBy past).length + i = earlier.length + (n.answering g).rb.length ∧ (∀ b ∈ past, Quiet b.chunk) ∧
    dropped a.chunk = false ∧ g.Told (cstr a.chunk) i

section

variable {crc16 : List UInt8 → UInt16} {g : GetIn} {name : String} {n : Net} {c : Client}
  {earlier after : List UInt8} {calls past later : List Chunk} {a : Chunk} {i : Nat}

/-- Behind its place in a chunk the text is that of the answer, up to the end of the chunk. -/
theorem text_at_answer
    (stream : readBy (past ++ a :: later) = answerStream g name n earlier after)
    (queued : (n.answering g).rb ++ mark .text g.answer <+: (n.lfGetFile g name).2.rb)
    (place : (readBy past).length + i = earlier.length + (n.answering g).rb.length)
    (inside : i ≤ a.chunk.length) :
    ∃ more, (cstr a.chunk).drop i <+: g.answer ++ more := by
  obtain ⟨rest, ring⟩ := queued
  -- Seen from the reader and from the ring, the stream is cut in two ways.
  have whole : readBy past ++ (a.chunk ++ readBy later) =
      (earlier ++ bytes (n.answering g).rb) ++ (g.answer ++ (bytes rest ++ after)) := by
    have split : readBy (past ++ a :: later) = readBy past ++ (a.chunk ++ readBy later) := by
      simp [readBy]
    rw [← split, stream, answerStream, ← ring]
    simp
  refine ⟨bytes rest ++ after, ?_⟩
  -- The same number of bytes is in front on both sides.
  have behind := congrArg (List.drop (earlier ++ bytes (n.answering g).rb).length) whole
  have front : (earlier ++ bytes (n.answering g).rb).length = (readBy past).length + i := by
    rw [List.length_append, bytes_length, place]
  rw [List.drop_left, front, List.drop_length_add_append, List.drop_append_of_le_length inside] at behind
  rw [← behind]
  have text : (cstr a.chunk).drop i <+: a.chunk.drop i := (List.takeWhile_prefix _).drop i
  exact text.trans (List.prefix_append _ _)

variable {text more : List UInt8}

/-- A file that is sent is not empty. -/
theorem GetIn.sends_pos {data : List UInt8} (sent : g.sends = some data) : 0 < data.length := by
  -- An empty file is not sent.
  unfold GetIn.sends at sent
  split_ifs at sent
  have some_ := (Option.filter_eq_some_iff.mp sent).2
  exact List.length_pos_iff.mpr (by simpa using some_)

/-- The size is read from a text exactly if it is an `int` and all its digits are in the text. -/
theorem size_read_iff {data : List UInt8} (sent : g.sends = some data) (first : FirstAt ackWord text i)
    (cut : text.drop i <+: g.answer ++ more) :
    scanInt (text.drop (i + 4)) = some (data.length : Int) ↔
      data.length < 2 ^ 31 ∧ i + 4 + (decimal data.length).length ≤ text.length := by
  -- The first "ack," of the text is that of the answer.
  have whole := first.le (by simp [ackWord])
  have four : ackWord.length = 4 := rfl
  obtain ⟨behind, split⟩ := first.here
  have rest : text.drop (i + 4) = behind := by
    rw [← List.drop_drop, ← split]
    rfl
  -- Behind the word stands the number, and a carriage return behind that.
  rw [← split, g.answer_of_some sent, List.append_assoc, List.append_assoc,
    List.prefix_append_right_inj] at cut
  rw [rest, scanInt_cut_iff (GetIn.sends_pos sent) cut]
  have length : behind.length = text.length - (i + 4) := by
    rw [← rest, List.length_drop]
  omega

/-- Where a refusal stands, no "ack," does. -/
theorem not_ack_of_refused (refused : g.sends = none) (cut : text.drop i <+: g.answer ++ more) :
    ¬ FirstAt ackWord text i := by
  -- The text goes on as the answer does, which begins with another letter.
  intro first
  have begins := first.here.trans cut
  rw [g.answer_of_none refused] at begins
  simp [ackWord, nakWord] at begins

/-- A client waits behind some chunks exactly if they are quiet. -/
theorem Reading.waits_iff (reading : Reading c (past ++ a :: later) text) :
    (c.takeAll crc16 past).readingTheLogFile = 1 ↔ ∀ b ∈ past, Quiet b.chunk :=
  (c.takeAll_waits_iff crc16 (fun b member => reading.fit b (by simp [member])) reading.waits
    reading.runs).1

/-- A client that still waits reads the next chunk as an answer. -/
theorem Reading.waiting (reading : Reading c (past ++ a :: later) text)
    (waits : (c.takeAll crc16 past).readingTheLogFile = 1) : Waiting (c.takeAll crc16 past) a := by
  -- The chunks before this one fit too, so waiting has not stopped the client.
  obtain ⟨opens, some_, small⟩ := reading.fit a (by simp)
  have fit : ∀ b ∈ past, b.io.opens = true ∧ 1 ≤ b.chunk.length ∧ b.chunk.length ≤ readSize :=
    fun b member => reading.fit b (by simp [member])
  exact ⟨waits, (c.takeAll_waits_iff crc16 fit reading.waits reading.runs).2 waits, opens, some_, small⟩

/-- A client that agrees has read a legible answer. -/
theorem StartAgrees.legible (reading : Reading c calls (answerStream g name n earlier after))
    (agrees : StartAgrees crc16 g name n c earlier calls) : Legible g n earlier calls := by
  -- What the client took for the answer is told by the case of its call.
  obtain ⟨queued, past, a, later, i, rfl, waits, decides, place, transfer, refusal, size⟩ := agrees
  have replied := n.lfGetFile_replied g name
  obtain ⟨connected, fits⟩ := replied.queued_iff.mp queued
  have waiting := reading.waiting waits
  have inside : ∀ j word, FirstAt word (cstr a.chunk) j → word ≠ [] → j ≤ a.chunk.length := by
    intro j word first nonempty
    have := first.le nonempty
    have := cstr_length_le a.chunk
    omega
  rw [Net.answering_clientConnected] at connected
  refine ⟨connected, fits, past, a, later, i, rfl, place, reading.waits_iff.mp waits, ?_⟩
  cases waiting.answered crc16 with
  | dropped _ state => omega
  | silent _ _ state => omega
  | @refused j kept noAck first state =>
    -- The place that decides is the one of the "nak,".
    have sent := replied.refuses (refusal.mp state)
    obtain rfl : i = j := by
      rcases decisiveAt_eq_some_iff.mp decides with ⟨ack, long⟩ | ⟨-, nak⟩
      · have := noAck i ack.here
        omega
      · exact nak.unique first
    refine ⟨kept, ?_⟩
    unfold GetIn.Told
    rw [sent]
    exact ⟨first, noAck⟩
  | @garbled j kept first long _ state =>
    -- A number that cannot be read stands behind an "ack,", and the answer would be a refusal.
    have sent := replied.refuses (refusal.mp state)
    have at_ := decisiveAt_eq_some_iff.mpr (.inl ⟨first, long⟩)
    obtain rfl : i = j := Option.some.inj (decides.symm.trans at_)
    obtain ⟨more, cut⟩ := text_at_answer reading.text queued place (inside i _ first (by simp [ackWord]))
    exact absurd first (not_ack_of_refused sent cut)
  | @granted j kept first long read state =>
    -- The number behind the "ack," is the size, so the chunk has all of its digits.
    have fine := transfer.mp state
    obtain ⟨data, sent⟩ := Option.isSome_iff_exists.mp (replied.code.mp fine)
    have at_ := decisiveAt_eq_some_iff.mpr (.inl ⟨first, long⟩)
    obtain rfl : i = j := Option.some.inj (decides.symm.trans at_)
    obtain ⟨more, cut⟩ := text_at_answer reading.text queued place (inside i _ first (by simp [ackWord]))
    rw [size fine, replied.size data sent] at read
    refine ⟨kept, ?_⟩
    unfold GetIn.Told
    rw [sent]
    exact ⟨first, (size_read_iff sent first cut).mp read⟩

/-- A client that reads a legible answer agrees. -/
theorem Legible.agrees (reading : Reading c calls (answerStream g name n earlier after))
    (legible : Legible g n earlier calls) : StartAgrees crc16 g name n c earlier calls := by
  -- The chunk that tells the answer is read while the client still waits.
  obtain ⟨connected, fits, past, a, later, i, rfl, place, quiet, kept, told⟩ := legible
  have replied := n.lfGetFile_replied g name
  have queued := replied.queued_iff.mpr ⟨(n.answering_clientConnected g).trans connected, fits⟩
  have waits : (c.takeAll crc16 past).readingTheLogFile = 1 := reading.waits_iff.mpr quiet
  have waiting := reading.waiting waits
  unfold GetIn.Told at told
  cases sent : g.sends with
  | none =>
    rw [sent] at told
    -- A refusal that is told ends the request.
    obtain ⟨first, noAck⟩ := told
    have fails : (n.lfGetFile g name).1 ≠ 0 := by
      intro fine
      have := replied.code.mp fine
      simp [sent] at this
    have at_ := decisiveAt_eq_some_iff.mpr (.inr ⟨noAck, first⟩)
    have state := waiting.refuses crc16 kept noAck first
    refine ⟨queued, past, a, later, i, rfl, waits, at_, place, ?_⟩
    dsimp only
    rw [state]
    exact ⟨iff_of_false (by omega) fails, iff_of_true rfl fails, fun fine => absurd fine fails⟩
  | some data =>
    rw [sent] at told
    -- An announcement that is told starts the transfer with the right size.
    obtain ⟨first, int, whole⟩ := told
    have fine : (n.lfGetFile g name).1 = 0 := replied.code.mpr (by simp [sent])
    have digits : 0 < (decimal data.length).length := List.length_pos_iff.mpr (decimal_ne_nil _)
    have long : i + 4 < (cstr a.chunk).length := by omega
    have at_ := decisiveAt_eq_some_iff.mpr (.inl ⟨first, long⟩)
    have inside : i ≤ a.chunk.length := by
      have := cstr_length_le a.chunk
      omega
    obtain ⟨more, cut⟩ := text_at_answer reading.text queued place inside
    have read := (size_read_iff sent first cut).mpr ⟨int, whole⟩
    obtain ⟨state, size⟩ := waiting.grants crc16 kept first long read
    refine ⟨queued, past, a, later, i, rfl, waits, at_, place, ?_⟩
    dsimp only
    rw [state, size, replied.size data sent]
    exact ⟨iff_of_true rfl fine, iff_of_false (by omega) (not_not.mpr fine), fun _ => rfl⟩

end

/--
The client agrees with `lfGetFile` on the start of a transfer exactly if the answer is legible.

The texts before and behind the answer are any, and so are the cuts between the chunks.
-/
theorem start_agrees_iff (crc16 : List UInt8 → UInt16) (g : GetIn) (name : String) (n : Net) (c : Client)
    (earlier after : List UInt8) (calls : List Chunk)
    (reading : Reading c calls (answerStream g name n earlier after)) :
    StartAgrees crc16 g name n c earlier calls ↔ Legible g n earlier calls :=
  ⟨fun agrees => agrees.legible reading, fun legible => legible.agrees reading⟩

/-- A Teensy with a connected console. -/
def Net.ready : Net := { Net.booted with clientConnected := true }

/-- A client that waits for the answer to `get`. -/
def Client.asking : Client := { Client.started with readingTheLogFile := 1 }

/-- A chunk that is read while every call succeeds. -/
def readChunk (chunk : List UInt8) : Chunk := ⟨⟨true, true⟩, chunk, ⟨[], []⟩⟩

/-- A file of three bytes is announced in one chunk. -/
theorem start_agrees_three :
    StartAgrees (fun _ => 0) ⟨false, .lfSGood, "", some [1, 2, 3], 0, none⟩ "a" Net.ready Client.asking []
      [readChunk (ackWord ++ decimal 3 ++ crlf)] := by
  refine (start_agrees_iff (fun _ => 0) _ "a" Net.ready Client.asking [] []
    [readChunk (ackWord ++ decimal 3 ++ crlf)] ⟨rfl, rfl, ?_, by decide +kernel⟩).mpr ?_
  · intro a member
    obtain rfl := List.mem_singleton.mp member
    exact ⟨rfl, by decide +kernel, by decide +kernel⟩
  · refine ⟨rfl, by decide +kernel, [], _, [], 0, rfl, rfl, by simp, by decide +kernel, ?_⟩
    refine ⟨⟨by decide +kernel, by simp⟩, by decide, by decide +kernel⟩

/-- The refusal of a file that is named like an answer is taken for that answer. -/
theorem start_agrees_not_always :
    ¬ ∀ (crc16 : List UInt8 → UInt16) (g : GetIn) (name : String) (n : Net) (c : Client)
      (earlier after : List UInt8) (calls : List Chunk),
      Reading c calls (answerStream g name n earlier after) →
      ∀ past a later, calls = past ++ a :: later → (c.takeAll crc16 past).readingTheLogFile = 1 →
        ((c.takeAll crc16 past).take crc16 a).readingTheLogFile = 2 → (n.lfGetFile g name).1 = 0 := by
  intro agrees
  -- The text behind the refusal repeats the name.
  have code := agrees (fun _ => 0) ⟨false, .lfSGood, "", none, 0, none⟩ "ack,5" Net.ready Client.asking [] []
    [readChunk (bytes (Net.ready.lfGetFile ⟨false, .lfSGood, "", none, 0, none⟩ "ack,5").2.rb)]
    ⟨rfl, rfl, fun a member => by
      obtain rfl := List.mem_singleton.mp member
      exact ⟨rfl, by decide +kernel, by decide +kernel⟩, by simp [readBy, readChunk, answerStream]⟩
    [] _ [] rfl rfl (by decide +kernel)
  revert code
  decide +kernel

end Teetest
