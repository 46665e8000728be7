import Teetest.Log.Consistent
import Teetest.Log.Preemption

/-!
The bytes of a log, from the calls through the ring to the files of the session.

At every point where a call may preempt the main loop, the files, the block in `tmpBuf` and the ring hold,
in this order, exactly the bytes that were accepted.
-/

namespace Teetest

open Lib

/-- The name of a file of a session: the base name, with a suffix for the later ones. -/
def sessionName (base : FileName) (k : Nat) : FileName :=
  if k = 0 then base else base.take 64 ++ (ascii ("_" ++ toString k)).take 8

/-- The bytes in `tmpBuf` that are not yet written. -/
def MainPc.block : MainPc → List UInt8
  | .taken tmpBuf _ => tmpBuf
  | .stopTaken tmpBuf _ => tmpBuf
  | _ => []

/-- The number of files that the session has created. -/
def Machine.files (m : Machine) : Nat :=
  match m.main with
  | .between _ => m.log.fileCounter
  | _ => m.log.fileCounter + 1

/-- The contents of all files of the session, in the order in which they were created. -/
def Machine.onCard (m : Machine) : List UInt8 :=
  ((List.range m.files).map fun k =>
    (m.log.sd.card.get (sessionName m.log.fileNameCopy k)).getD []).flatten

/-- The bytes of the accepted calls, in the order of their sections with interrupts disabled. -/
def Machine.accepted (x : XMessage) (m : Machine) : List UInt8 :=
  ((m.decided.filter fun d => d.2).map fun d => d.1.image x).flatten

/-- The number of calls that were rejected for lack of space. -/
def Machine.rejected (m : Machine) : Nat := m.decided.countP fun d => !d.2

/-- The calls in progress that have found the log on. -/
def Frame.passed : Frame → Bool
  | .entered _ => false
  | _ => true

/-- The suffix of a later file: an underscore and the digits of its number. -/
theorem sessionSuffix {k : Nat} (few : k < 10 ^ 7) :
    (ascii ("_" ++ toString k)).take 8 = 0x5F :: decimal k := by
  -- There are at most seven digits, so nothing is cut off.
  have text : ascii ("_" ++ toString k) = 0x5F :: decimal k := by
    rw [ascii, String.toList_append, List.map_append, decimal, ascii]
    rfl
  have digits : (decimal k).length ≤ 7 := decimal_length_le (by decide) few
  rw [text]
  exact List.take_of_length_le (by rw [List.length_cons]; omega)

/-- The files of a session have different names. -/
theorem sessionName_injective {base : FileName} (fits : base.length ≤ 64) {j k : Nat}
    (few : j < 10 ^ 7) (few' : k < 10 ^ 7) (same : sessionName base j = sessionName base k) :
    j = k := by
  -- Only the first file has no suffix.
  unfold sessionName at same
  rw [sessionSuffix few, sessionSuffix few', List.take_of_length_le fits] at same
  split_ifs at same with first first' first'
  · rw [first, first']
  · have := congrArg List.length same
    simp at this
  · have := congrArg List.length same
    simp at this
  · exact decimal_injective (List.cons.inj (List.append_cancel_left same)).2

section files

variable {recent : Files FileName UInt8} {base : FileName}

/-- The names of the first files of a session. -/
def SessionFiles (base : FileName) (recent : Files FileName UInt8) : Prop :=
  recent.map (·.1) = (List.range recent.length).map (sessionName base)

/-- The contents of files, one behind the other. -/
def contents (recent : Files FileName UInt8) : List UInt8 := (recent.map (·.2)).flatten

theorem contents_append (recent more : Files FileName UInt8) :
    contents (recent ++ more) = contents recent ++ contents more := by
  simp [contents]

/-- The files take as much room as their contents are long. -/
theorem used_eq (recent : Files FileName UInt8) : recent.used = (contents recent).length := by
  simp [Files.used, contents, List.length_flatten, Function.comp_def]

/-- Files of a certain size take at least so much room. -/
theorem length_mul_le_used {size : Nat} (big : ∀ e ∈ recent, size ≤ e.2.length) :
    recent.length * size ≤ recent.used := by
  -- The sum has one summand for each file.
  have := List.card_nsmul_le_sum (recent.map fun e => e.2.length) size ?_
  · simpa [Files.used] using this
  · intro n member
    obtain ⟨e, inside, rfl⟩ := List.mem_map.mp member
    exact big e inside

/-- A card of 2^32 sectors does not hold ten million full files. -/
theorem few_files {sectorCount : UInt32} (big : ∀ e ∈ recent, fileSize2 < e.2.length)
    (room : recent.used ≤ 512 * sectorCount.toNat) : recent.length + 1 < 10 ^ 7 := by
  have taken : recent.length * fileSize2 ≤ recent.used :=
    length_mul_le_used fun e member => (big e member).le
  have sectors : sectorCount.toNat < 2 ^ 32 := sectorCount.toNat_lt
  have size : fileSize2 = 104849408 := rfl
  rw [size] at taken
  omega

/-- The next file of a session has a new name. -/
theorem SessionFiles.fresh (session : SessionFiles base recent) (fits : base.length ≤ 64)
    (few : recent.length < 10 ^ 7) : ∀ e ∈ recent, e.1 ≠ sessionName base recent.length := by
  intro e member same
  -- The name of an earlier file is that of an earlier number.
  have named : e.1 ∈ recent.map (·.1) := List.mem_map_of_mem member
  rw [session] at named
  obtain ⟨k, earlier, name⟩ := List.mem_map.mp named
  have less : k < recent.length := List.mem_range.mp earlier
  have := sessionName_injective fits (by omega) few (name.trans same)
  omega

/-- One more file of a session. -/
theorem SessionFiles.append (session : SessionFiles base recent) (bs : List UInt8) :
    SessionFiles base (recent ++ [(sessionName base recent.length, bs)]) := by
  unfold SessionFiles at session ⊢
  simp [session, List.range_succ]

/-- The files of a session are found under their names. -/
theorem SessionFiles.read (session : SessionFiles base recent) {fs : Files FileName UInt8}
    (newest : fs.Newest recent) :
    ((List.range recent.length).map fun k => (fs.get (sessionName base k)).getD []).flatten =
      contents recent := by
  -- Reading by name goes through the list of the names.
  have byName : (List.range recent.length).map (fun k => (fs.get (sessionName base k)).getD []) =
      (recent.map (·.1)).map fun name => (fs.get name).getD [] := by
    rw [session, List.map_map]
    rfl
  rw [byName, contents, List.map_map]
  congr 1
  apply List.map_congr_left
  intro e member
  have found : fs.get e.1 = some e.2 := newest.get member
  simp [found]

end files

/-- The last file of the session is open at its end, and the earlier ones are full. -/
structure LogFile.OpenAt (base : FileName) (recent : Files FileName UInt8) (s : LogFile) : Prop where
  last : ∃ earlier cur, recent = earlier ++ [(sessionName base s.fileCounter, cur)] ∧
    earlier.length = s.fileCounter ∧ s.fileBytesCounter = cur.length ∧
    (∀ e ∈ earlier, fileSize2 < e.2.length) ∧
    s.sd.file = some ⟨sessionName base s.fileCounter, cur.length⟩

/-- All files of the session are closed, and the ring is empty. -/
structure LogFile.Closed (recent : Files FileName UInt8) (s : LogFile) : Prop where
  file : s.sd.file = none
  counter : recent.length = s.fileCounter + 1
  ring : s.rb = []

/-- What goes with each place in which the main loop can stand. -/
def Machine.Phase (base : FileName) (recent : Files FileName UInt8) (m : Machine) : Prop :=
  match m.main with
  | .idle =>
    m.log.lfWriting = true ∧ m.log.OpenAt base recent ∨
      m.log.lfWriting = false ∧ m.log.Closed recent
  | .between _ =>
    m.log.lfWriting = true ∧ m.log.sd.file = none ∧ recent.length = m.log.fileCounter ∧
      0 < m.log.fileCounter ∧ m.log.fileBytesCounter = 0 ∧ ∀ e ∈ recent, fileSize2 < e.2.length
  | .stopLook n =>
    m.log.lfWriting = false ∧ n = m.log.rb.length ∧
      (m.log.OpenAt base recent ∨ m.log.Closed recent)
  | .stopTaken _ n => m.log.lfWriting = false ∧ n = m.log.rb.length ∧ m.log.OpenAt base recent
  | _ => m.log.lfWriting = true ∧ m.log.OpenAt base recent

section

variable (x : XMessage) (sectorCount : UInt32)

/-- The invariant of a session: its files are the newest on the card and hold, with `tmpBuf` and the
ring, the bytes that were accepted. -/
structure Machine.Stream (base : FileName) (recent : Files FileName UInt8) (m : Machine) : Prop where
  name : m.log.fileNameCopy = base
  newest : m.log.sd.card.Newest recent
  session : SessionFiles base recent
  bytes : contents recent ++ m.main.block ++ m.log.rb = m.accepted x
  room : recent.used ≤ 512 * sectorCount.toNat
  phase : m.Phase base recent
  -- a call that has found the log on does not outlive it
  off : m.log.lfWriting = false → ∀ f ∈ m.stack, f.passed = false

end

variable {x : XMessage} {sectorCount : UInt32} {base : FileName} {recent : Files FileName UInt8}
variable {m m' : Machine} {s : LogFile}

/-- A block is appended to the last file. -/
theorem LogFile.OpenAt.writeBlock (opened : s.OpenAt base recent) (newest : s.sd.card.Newest recent)
    (session : SessionFiles base recent) (block : List UInt8) :
    ∃ recent', (s.writeBlock block block.length).OpenAt base recent' ∧
      (s.writeBlock block block.length).sd.card.Newest recent' ∧ SessionFiles base recent' ∧
      contents recent' = contents recent ++ block := by
  obtain ⟨earlier, cur, rfl, count, size, full, held⟩ := opened.last
  -- The position is the end of the file, so the block comes behind everything.
  let put := fun c : List UInt8 => c.take cur.length ++ block ++ c.drop (cur.length + block.length)
  have card : (s.sd.write block block.length).card =
      s.sd.card.update (sessionName base s.fileCounter) put := by
    simp [Sd.write, held, put]
  have file : (s.sd.write block block.length).file =
      some ⟨sessionName base s.fileCounter, cur.length + block.length⟩ := by
    simp [Sd.write, held]
  have behind : put cur = cur ++ block := by
    simp only [put]
    rw [List.take_length, List.drop_of_length_le (by omega), List.append_nil]
  refine ⟨earlier ++ [(sessionName base s.fileCounter, cur ++ block)], ?_, ?_, ?_, ?_⟩
  · refine ⟨earlier, cur ++ block, rfl, count, ?_, full, ?_⟩
    · show s.fileBytesCounter + block.length = _
      rw [size, List.length_append]
    · show (s.sd.write block block.length).file = _
      rw [file, List.length_append]
      rfl
  · show (s.sd.write block block.length).card.Newest _
    rw [card, ← behind]
    exact newest.update put
  · unfold SessionFiles at session ⊢
    simpa using session
  · simp [contents]

/-- A full file is cut at its end, which changes nothing, and closed. -/
theorem LogFile.OpenAt.endFile (opened : s.OpenAt base recent) (newest : s.sd.card.Newest recent) :
    (s.endFile true).sd.card.Newest recent ∧ (s.endFile true).sd.file = none := by
  obtain ⟨earlier, cur, rfl, -, -, -, held⟩ := opened.last
  refine ⟨?_, rfl⟩
  have cut := newest.update fun c => c.take cur.length
  rw [List.take_length] at cut
  simpa [LogFile.endFile, Sd.truncate, Sd.close, held] using cut

/-- A main-loop step that touches neither card nor ring. -/
theorem Machine.Stream.moves (stream : m.Stream x sectorCount base recent)
    (same : m.SameCalls m') (sd : m'.log.sd = m.log.sd)
    (bytes : m'.main.block ++ m'.log.rb = m.main.block ++ m.log.rb)
    (phase : m'.Phase base recent) (empty : m.stack = []) :
    m'.Stream x sectorCount base recent := by
  refine ⟨same.name.trans stream.name, by rw [sd]; exact stream.newest, stream.session, ?_,
    stream.room, phase, ?_⟩
  · rw [List.append_assoc, bytes, ← List.append_assoc, stream.bytes, accepted, accepted, same.decided]
  · rw [same.stack, empty]
    simp

/-- A block is written. -/
theorem Machine.Stream.write (stream : m.Stream x sectorCount base recent) {tmpBuf : List UInt8}
    {next : MainPc} (block : m.main.block = tmpBuf) (empty : m.stack = [])
    (opened : m.log.OpenAt base recent) (written : m.write sectorCount tmpBuf next = some m')
    (none : next.block = [])
    (phase : ∀ recent', (m.log.writeBlock tmpBuf tmpBuf.length).OpenAt base recent' →
      m'.Phase base recent') :
    ∃ recent', m'.Stream x sectorCount base recent' := by
  have same := Machine.write_sameCalls written
  simp only [Machine.write, Option.ite_none_right_eq_some, Option.some.injEq] at written
  obtain ⟨fits, rfl⟩ := written
  obtain ⟨recent', opened', newest', session', grown⟩ :=
    opened.writeBlock stream.newest stream.session tmpBuf
  refine ⟨recent', stream.name, newest', session', ?_, ?_, phase recent' opened', ?_⟩
  · -- The block has gone from `tmpBuf` to the file.
    have bytes := stream.bytes
    rw [block] at bytes
    show contents recent' ++ next.block ++ m.log.rb = _
    rw [grown, none, List.append_nil]
    exact bytes
  · -- There was room for the block.
    have before : recent.used ≤ m.log.sd.card.used := stream.newest.used_le
    have now : recent'.used = recent.used + tmpBuf.length := by
      rw [used_eq, used_eq, grown, List.length_append]
    omega
  · rw [same.stack, empty]
    simp

/-- Taking bytes out of the ring leaves the files alone. -/
theorem LogFile.OpenAt.dropBlock (opened : s.OpenAt base recent) (bs : Nat) :
    (s.dropBlock bs).OpenAt base recent :=
  ⟨opened.last⟩

/-- A full file is closed, and the next one comes. -/
theorem Machine.Stream.endFull (stream : m.Stream x sectorCount base recent) {n : Nat}
    (block : m.main.block = []) (empty : m.stack = []) (writing : m.log.lfWriting = true)
    (opened : m.log.OpenAt base recent) (full : fileSize2 < m.log.fileBytesCounter) :
    { m with log := m.log.endFull true, main := .between n }.Stream x sectorCount base recent := by
  -- The last file has become one of the full ones.
  obtain ⟨newest, closed⟩ := opened.endFile stream.newest
  obtain ⟨earlier, cur, rfl, count, size, big, -⟩ := opened.last
  have bytes := stream.bytes
  rw [block] at bytes
  refine ⟨stream.name, newest, stream.session, bytes, stream.room, ?_, by simp [empty]⟩
  refine ⟨writing, closed, by simp [LogFile.endFull, count], Nat.succ_pos _, rfl, ?_⟩
  intro e member
  rcases List.mem_append.mp member with old | last
  · exact big e old
  · obtain rfl : e = (_, cur) := by simpa using last
    rwa [← size]

/-- The next file of the session is opened. -/
theorem Machine.Stream.openNext (stream : m.Stream x sectorCount base recent)
    (fits : base.length ≤ 64) {n : Nat} (between : m.main = .between n) (empty : m.stack = []) :
    ∃ recent', { m with log := (m.log.openNext (.good tmpSize)).2, main := .look n }.Stream x
      sectorCount base recent' := by
  have phase := stream.phase
  rw [Machine.Phase, between] at phase
  obtain ⟨writing, -, count, later, zero, big⟩ := phase
  -- Its name is that of the session's next number, and it is new.
  have name : m.log.nextName = sessionName base recent.length := by
    rw [LogFile.nextName, sessionName, stream.name, count, if_neg (by omega)]
  have few := few_files big stream.room
  have fresh := stream.session.fresh fits (by omega)
  have opened : (m.log.openNext (.good tmpSize)).2 =
      { m.log with sd := (m.log.sd.create true (sessionName base recent.length)).2 } := by
    simp [LogFile.openNext, BlockIo.good, Sd.create, name]
  have bytes := stream.bytes
  rw [between] at bytes
  rw [opened]
  refine ⟨recent ++ [(sessionName base recent.length, [])], stream.name, stream.newest.create fresh,
    stream.session.append [], ?_, ?_, ⟨writing, ⟨recent, [], ?_, count, zero, big, ?_⟩⟩, by simp [empty]⟩
  · -- A new file adds no bytes.
    have none : contents (recent ++ [(sessionName base recent.length, [])]) = contents recent := by
      rw [contents_append]
      simp [contents]
    show contents (recent ++ _) ++ [] ++ m.log.rb = _
    rw [none]
    exact bytes
  · have room := stream.room
    rw [used_eq] at room ⊢
    rw [contents_append]
    simpa [contents] using room
  · rw [count]
  · rw [← count]
    rfl

/-- The last file is closed by a stop. -/
theorem Machine.Stream.endFile (stream : m.Stream x sectorCount base recent)
    (stopping : m.main = .stopLook 0) (empty : m.stack = []) :
    { m with log := m.log.endFile true, main := .idle }.Stream x sectorCount base recent := by
  have phase := stream.phase
  rw [Machine.Phase, stopping] at phase
  obtain ⟨off, none, files⟩ := phase
  have ring : m.log.rb = [] := List.eq_nil_of_length_eq_zero none.symm
  have bytes := stream.bytes
  rw [stopping] at bytes
  rcases files with opened | closed
  · obtain ⟨newest, gone⟩ := opened.endFile stream.newest
    obtain ⟨earlier, cur, same, count, -, -, -⟩ := opened.last
    refine ⟨stream.name, newest, stream.session, bytes, stream.room, .inr ⟨off, gone, ?_, ring⟩,
      by simp [empty]⟩
    rw [same, List.length_append, count]
    rfl
  · -- A second stop finds no file to cut.
    have same : (m.log.endFile true).sd = m.log.sd := by
      have file := closed.file
      cases sd : m.log.sd
      rw [sd] at file
      simp only at file
      simp [LogFile.endFile, Sd.truncate, Sd.close, sd, file]
    refine ⟨stream.name, ?_, stream.session, bytes, stream.room,
      .inr ⟨off, rfl, closed.counter, ring⟩, by simp [empty]⟩
    show (m.log.endFile true).sd.card.Newest recent
    rw [same]
    exact stream.newest

/-- A step of the main loop keeps the stream. -/
theorem Machine.Stream.mainStep (stream : m.Stream x sectorCount base recent)
    (fits : base.length ≤ 64) (empty : m.stack = []) (stepped : m.mainStep sectorCount = some m') :
    ∃ recent', m'.Stream x sectorCount base recent' := by
  have same := Machine.mainStep_sameCalls stepped
  have phase := stream.phase
  -- One case for each place where the main loop can stand.
  unfold Machine.Phase at phase
  unfold Machine.mainStep at stepped
  cases main : m.main with
  | idle => simp [main] at stepped
  | process =>
    simp only [main, Option.some.injEq] at stepped phase
    subst stepped
    exact ⟨recent, stream.moves same rfl (by rw [main]; rfl) phase empty⟩
  | look n =>
    simp only [main] at stepped phase
    split_ifs at stepped
    · -- A block goes from the ring to `tmpBuf`.
      obtain rfl := Option.some.inj stepped
      refine ⟨recent, stream.moves same rfl ?_ ⟨phase.1, phase.2.dropBlock _⟩ empty⟩
      rw [main]
      exact List.take_append_drop _ _
    · obtain rfl := Option.some.inj stepped
      exact ⟨recent, stream.moves same rfl (by rw [main]; rfl) (.inl phase) empty⟩
  | taken tmpBuf n =>
    simp only [main] at stepped phase
    have written := stepped
    simp only [Machine.write, Option.ite_none_right_eq_some, Option.some.injEq] at written
    obtain ⟨-, rfl⟩ := written
    exact stream.write (by rw [main]; rfl) empty phase.2 stepped rfl
      fun recent' opened => ⟨phase.1, opened⟩
  | written n =>
    simp only [main] at stepped phase
    split_ifs at stepped with full
    · obtain rfl := Option.some.inj stepped
      exact ⟨recent, stream.endFull (by rw [main]; rfl) empty phase.1 phase.2 full⟩
    · obtain rfl := Option.some.inj stepped
      exact ⟨recent, stream.moves same rfl (by rw [main]; rfl) phase empty⟩
  | between n =>
    simp only [main, Option.some.injEq] at stepped
    subst stepped
    exact stream.openNext fits main empty
  | stopLook n =>
    simp only [main] at stepped phase
    obtain ⟨off, counted, files⟩ := phase
    split_ifs at stepped with some_left
    · obtain rfl := Option.some.inj stepped
      -- There is something left, so the file is still open.
      have opened : m.log.OpenAt base recent := by
        rcases files with opened | closed
        · exact opened
        · rw [closed.ring] at counted
          exact absurd counted (by simp only [List.length_nil]; omega)
      refine ⟨recent, stream.moves same rfl ?_ ⟨off, rfl, opened.dropBlock _⟩ empty⟩
      rw [main]
      exact List.take_append_drop _ _
    · obtain rfl := Option.some.inj stepped
      obtain rfl : n = 0 := by omega
      exact ⟨recent, stream.endFile main empty⟩
  | stopTaken tmpBuf n =>
    simp only [main] at stepped phase
    have written := stepped
    simp only [Machine.write, Option.ite_none_right_eq_some, Option.some.injEq] at written
    obtain ⟨-, rfl⟩ := written
    exact stream.write (by rw [main]; rfl) empty phase.2.2 stepped rfl
      fun recent' opened => ⟨phase.1, phase.2.1, .inl opened⟩

/-- What a section with interrupts disabled does: all of the bytes, or none and one more overflow. -/
theorem LogFile.exclusive_cases (x : XMessage) (s : LogFile) (p : Put) :
    (s.exclusive x p = (false, { s with ffOverflowCounter := wrap32 (s.ffOverflowCounter + 1) })) ∨
      ∃ counter, s.exclusive x p = (true, { s with rb := s.rb ++ p.image x, counter := counter }) := by
  -- Messages and fed bytes differ in the counter of messages only.
  cases p with
  | message data type count seen =>
    simp only [LogFile.exclusive, LogFile.putMessage_eq]
    split_ifs
    · exact .inl rfl
    · exact .inr ⟨_, rfl⟩
  | feed data =>
    simp only [LogFile.exclusive, LogFile.put]
    split_ifs
    · exact .inl rfl
    · exact .inr ⟨_, rfl⟩

/-- What a section with interrupts disabled leaves alone. -/
structure LogFile.SameFiles (s t : LogFile) : Prop where
  writing : t.lfWriting = s.lfWriting
  sd : t.sd = s.sd
  counter : t.fileCounter = s.fileCounter
  bytes : t.fileBytesCounter = s.fileBytesCounter
  name : t.fileNameCopy = s.fileNameCopy

/-- A section with interrupts disabled leaves the files alone. -/
theorem LogFile.exclusive_sameFiles (x : XMessage) (s : LogFile) (p : Put) :
    s.SameFiles (s.exclusive x p).2 := by
  rcases s.exclusive_cases x p with refused | ⟨counter, stored⟩
  · rw [refused]
    exact ⟨rfl, rfl, rfl, rfl, rfl⟩
  · rw [stored]
    exact ⟨rfl, rfl, rfl, rfl, rfl⟩

/-- While the log is on, no place of the main loop depends on the ring. -/
theorem Machine.Phase.put (phase : m.Phase base recent) (writing : m.log.lfWriting = true)
    (main : m'.main = m.main) (same : m.log.SameFiles m'.log) : m'.Phase base recent := by
  have still : m'.log.lfWriting = true := same.writing.trans writing
  have opened : m.log.OpenAt base recent → m'.log.OpenAt base recent := by
    rintro ⟨last⟩
    exact ⟨by rw [same.counter, same.bytes, same.sd]; exact last⟩
  unfold Machine.Phase at phase ⊢
  rw [main]
  cases place : m.main with
  | idle =>
    simp only [place, writing] at phase
    rcases phase with ⟨-, now⟩ | ⟨off, -⟩
    · exact .inl ⟨still, opened now⟩
    · exact absurd off (by decide)
  | between n =>
    simp only [place] at phase
    obtain ⟨-, phase⟩ := phase
    refine ⟨still, ?_⟩
    rw [same.sd, same.counter, same.bytes]
    exact phase
  | stopLook n =>
    -- A stop has switched the log off.
    simp only [place, writing] at phase
    exact absurd phase.1 (by decide)
  | stopTaken tmpBuf n =>
    simp only [place, writing] at phase
    exact absurd phase.1 (by decide)
  | process | look n | taken tmpBuf n | written n =>
    simp only [place] at phase
    exact ⟨still, opened phase.2⟩

/-- The accepted bytes after one more section. -/
theorem Machine.accepted_enter (x : XMessage) (m : Machine) (p : Put) (rest : List Frame) :
    (m.enter x p rest).accepted x =
      m.accepted x ++ if (m.log.exclusive x p).1 then p.image x else [] := by
  -- Only an accepted call is kept by the filter.
  cases ok : (m.log.exclusive x p).1 <;> simp [Machine.accepted, Machine.enter, ok]

/-- A section with interrupts disabled keeps the stream: its bytes come behind all others. -/
theorem Machine.Stream.enter (stream : m.Stream x sectorCount base recent) (p : Put)
    (writing : m.log.lfWriting = true) (rest : List Frame) :
    (m.enter x p rest).Stream x sectorCount base recent := by
  have same := m.log.exclusive_sameFiles x p
  refine ⟨same.name.trans stream.name, ?_, stream.session, ?_, stream.room,
    stream.phase.put writing rfl same, fun off => ?_⟩
  · show (m.log.exclusive x p).2.sd.card.Newest recent
    rw [same.sd]
    exact stream.newest
  · rw [accepted_enter, ← stream.bytes]
    show contents recent ++ m.main.block ++ (m.log.exclusive x p).2.rb = _
    rcases m.log.exclusive_cases x p with refused | ⟨counter, stored⟩
    · simp [refused]
    · simp [stored]
  · exact absurd (writing.symm.trans (same.writing.symm.trans off)) (by decide)

/-- A call that finds the log on finds the flag set. -/
theorem LogFile.on_writing {c : LogCall} (on : s.on c = true) : s.lfWriting = true := by
  cases c <;> simp_all [LogFile.on]

/-- A step of a call changes the calls in progress, or comes to a section while the log is on. -/
theorem Machine.producer_cases (x : XMessage)
    (off : m.log.lfWriting = false → ∀ f ∈ m.stack, f.passed = false) {f : Frame} {rest : List Frame}
    (calls : m.stack = f :: rest) :
    (∃ stack made, m.producer x rest f = { m with stack := stack, made := made } ∧
      (m.log.lfWriting = false → ∀ f ∈ stack, f.passed = false)) ∨
    ∃ p, m.producer x rest f = m.enter x p rest ∧ m.log.lfWriting = true := by
  have later : m.log.lfWriting = false → ∀ g ∈ rest, g.passed = false := fun stopped g member =>
    off stopped g (by rw [calls]; exact List.mem_cons_of_mem _ member)
  -- A call that has found the log on still finds it on.
  have on : f.passed = true → m.log.lfWriting = true := by
    intro passed
    by_contra stopped
    have := off (by simpa using stopped) f (by rw [calls]; simp)
    exact absurd (passed.symm.trans this) (by decide)
  cases f with
  | entered c =>
    simp only [Machine.producer]
    split_ifs with found
    · refine .inl ⟨_, _, rfl, fun stopped => ?_⟩
      exact absurd ((LogFile.on_writing found).symm.trans stopped) (by decide)
    · exact .inl ⟨_, m.made, rfl, later⟩
  | checked c =>
    have writing := on rfl
    cases c with
    | lfFeed data => exact .inr ⟨_, rfl, writing⟩
    | lfSendMessage data type =>
      exact .inl ⟨_, m.made, rfl, fun stopped => absurd (writing.symm.trans stopped) (by decide)⟩
  | ready p => exact .inr ⟨p, rfl, on rfl⟩

/-- A step of a call keeps the stream. -/
theorem Machine.Stream.producer (stream : m.Stream x sectorCount base recent) {f : Frame}
    {rest : List Frame} (calls : m.stack = f :: rest) :
    (m.producer x rest f).Stream x sectorCount base recent := by
  rcases Machine.producer_cases x stream.off calls with ⟨stack, made, same, off⟩ | ⟨p, same, writing⟩
  · rw [same]
    exact ⟨stream.name, stream.newest, stream.session, stream.bytes, stream.room, stream.phase, off⟩
  · rw [same]
    exact stream.enter p writing rest

/-- The call of a function by the main loop keeps the stream. -/
theorem Machine.Stream.called (stream : m.Stream x sectorCount base recent) (empty : m.stack = [])
    (idle : m.main = .idle) (called : m' = m.lfProcess ∨ m' = m.lfStop) :
    m'.Stream x sectorCount base recent := by
  have phase := stream.phase
  unfold Machine.Phase at phase
  simp only [idle] at phase
  have bytes := stream.bytes
  rw [idle] at bytes
  rcases called with rfl | rfl
  · unfold Machine.lfProcess
    split_ifs with off
    · exact stream
    · -- The log is on, so its file is open.
      have writing : m.log.lfWriting = true := by
        by_contra stopped
        exact off (.inr (by simpa using stopped))
      have opened : m.log.OpenAt base recent := by
        rcases phase with ⟨-, opened⟩ | ⟨stopped, -⟩
        · exact opened
        · exact absurd (writing.symm.trans stopped) (by decide)
      exact ⟨stream.name, stream.newest, stream.session, bytes, stream.room, ⟨writing, opened⟩,
        stream.off⟩
  · unfold Machine.lfStop
    split_ifs
    · exact stream
    · refine ⟨stream.name, stream.newest, stream.session, bytes, stream.room, ⟨rfl, rfl, ?_⟩,
        by simp [empty]⟩
      rcases phase with ⟨-, opened⟩ | ⟨-, closed⟩
      · exact .inl ⟨opened.last⟩
      · exact .inr ⟨closed.file, closed.counter, closed.ring⟩

/-- Every step keeps the stream. -/
theorem Machine.Stream.step (stream : m.Stream x sectorCount base recent) (fits : base.length ≤ 64)
    {a : LogAct} (stepped : MachineStep x sectorCount m a m') :
    ∃ recent', m'.Stream x sectorCount base recent' := by
  rcases stepped.cases with ⟨c, rfl⟩ | ⟨f, rest, calls, rfl⟩ | ⟨empty, idle, called⟩ | ⟨empty, moved⟩
  · refine ⟨recent, stream.name, stream.newest, stream.session, stream.bytes, stream.room, stream.phase,
      fun off f member => ?_⟩
    rcases List.mem_cons.mp member with rfl | old
    · rfl
    · exact stream.off off f old
  · exact ⟨recent, stream.producer calls⟩
  · exact ⟨recent, stream.called empty idle called⟩
  · exact stream.mainStep fits empty moved

/-- In a stream, the files of the session are read under their names. -/
theorem Machine.Stream.onCard_eq (stream : m.Stream x sectorCount base recent) :
    m.onCard = contents recent := by
  -- There are as many files as the place of the main loop tells.
  have count : m.files = recent.length := by
    have phase := stream.phase
    have opened : m.log.OpenAt base recent → m.log.fileCounter + 1 = recent.length := by
      rintro ⟨earlier, cur, rfl, count, -⟩
      rw [List.length_append, count]
      rfl
    unfold Machine.Phase at phase
    unfold Machine.files
    cases place : m.main with
    | idle =>
      simp only [place] at phase
      rcases phase with ⟨-, now⟩ | ⟨-, closed⟩
      · exact opened now
      · exact closed.counter.symm
    | between n =>
      simp only [place] at phase
      exact phase.2.2.1.symm
    | stopLook n =>
      simp only [place] at phase
      rcases phase.2.2 with now | closed
      · exact opened now
      · exact closed.counter.symm
    | stopTaken tmpBuf n =>
      simp only [place] at phase
      exact opened phase.2.2
    | process | look n | taken tmpBuf n | written n =>
      simp only [place] at phase
      exact opened phase.2
  rw [Machine.onCard, count, stream.name]
  exact stream.session.read stream.newest

/-- The calls that found the log on are counted, and so are the rejected ones. -/
structure Machine.Tally (m : Machine) : Prop where
  overflow : m.log.ffOverflowCounter = wrap32 m.rejected
  made : m.made = m.decided.length + m.stack.countP Frame.passed

/-- An overflow is counted once. -/
theorem wrap32_succ (n : Nat) : wrap32 (wrap32 n + 1) = wrap32 ((n + 1 : Nat) : Int) := by
  rw [wrap32_wrap32_add, Nat.cast_succ]

/-- A section with interrupts disabled keeps the tally. -/
theorem Machine.Tally.enter (tally : m.Tally) {f : Frame} {rest : List Frame}
    (calls : m.stack = f :: rest) (passed : f.passed = true) (p : Put) :
    (m.enter x p rest).Tally := by
  have made := tally.made
  rw [calls, List.countP_cons, if_pos passed] at made
  constructor
  · have rejected : (m.enter x p rest).rejected =
        m.rejected + if (m.log.exclusive x p).1 then 0 else 1 := by
      cases ok : (m.log.exclusive x p).1 <;> simp [Machine.rejected, Machine.enter, ok]
    rw [rejected]
    show (m.log.exclusive x p).2.ffOverflowCounter = _
    rcases m.log.exclusive_cases x p with refused | ⟨counter, stored⟩
    · rw [refused, tally.overflow]
      exact wrap32_succ m.rejected
    · rw [stored]
      exact tally.overflow
  · show m.made = (m.decided ++ [_]).length + rest.countP Frame.passed
    rw [List.length_append, List.length_singleton]
    omega

/-- Every step keeps the tally. -/
theorem Machine.Tally.step (tally : m.Tally) {a : LogAct}
    (stepped : MachineStep x sectorCount m a m') : m'.Tally := by
  have of_same : m.SameCalls m' → m'.Tally := by
    intro same
    refine ⟨?_, by rw [same.made, same.decided, same.stack]; exact tally.made⟩
    rw [same.overflow, rejected, same.decided]
    exact tally.overflow
  rcases stepped.cases with ⟨c, rfl⟩ | ⟨f, rest, calls, rfl⟩ | ⟨-, -, called⟩ | ⟨-, moved⟩
  · refine ⟨tally.overflow, ?_⟩
    show m.made = _ + (Frame.entered c :: m.stack).countP Frame.passed
    rw [List.countP_cons_of_neg (by simp [Frame.passed])]
    exact tally.made
  · have made := tally.made
    rw [calls, List.countP_cons] at made
    cases f with
    | entered c =>
      simp only [Machine.producer]
      split_ifs
      · -- The call has found the log on, and is counted from now on.
        refine ⟨tally.overflow, ?_⟩
        show m.made + 1 = m.decided.length + (Frame.checked c :: rest).countP Frame.passed
        rw [List.countP_cons_of_pos (by rfl)]
        simp only [Frame.passed, Bool.false_eq_true, if_false] at made
        omega
      · refine ⟨tally.overflow, ?_⟩
        simpa [Frame.passed] using made
    | checked c =>
      cases c with
      | lfFeed data => exact tally.enter calls rfl _
      | lfSendMessage data type =>
        refine ⟨tally.overflow, ?_⟩
        show m.made = m.decided.length + (Frame.ready _ :: rest).countP Frame.passed
        rw [List.countP_cons_of_pos (by rfl)]
        simp only [Frame.passed, if_true] at made
        omega
    | ready p => exact tally.enter calls rfl p
  · rcases called with rfl | rfl
    · exact of_same m.lfProcess_sameCalls
    · exact of_same m.lfStop_sameCalls
  · exact of_same (Machine.mainStep_sameCalls moved)

/-- A log that was just started: one empty file, under a name that fits into its array. -/
structure LogFile.Started (s : LogFile) : Prop where
  fits : s.fileNameCopy.length ≤ 64
  writing : s.lfWriting = true
  ring : s.rb = []
  overflow : s.ffOverflowCounter = 0
  fileCounter : s.fileCounter = 0
  fileBytesCounter : s.fileBytesCounter = 0
  file : s.sd.file = some ⟨s.fileNameCopy, 0⟩
  newest : s.sd.card.Newest [(s.fileNameCopy, [])]

/-- Where the log file is opened and the module writes afterwards, a log was started. -/
theorem LogFile.openLogFile_started {io : StartIo} (fits : s.fileNameCopy.length ≤ 64)
    (idle : s.lfWriting = false) (writing : (s.openLogFile io).lfWriting = true) :
    (s.openLogFile io).Started := by
  -- The other two ends of the function leave the flag as it was.
  simp only [LogFile.openLogFile] at writing ⊢
  split_ifs at writing ⊢ with closed short
  · exact absurd (idle.symm.trans writing) (by decide)
  · exact absurd (idle.symm.trans writing) (by decide)
  · have opened : io.openLog = true := by
      cases log : io.openLog
      · simp [log, Sd.create] at closed
      · rfl
    refine ⟨fits, rfl, rfl, rfl, rfl, rfl, ?_, ?_⟩
    · simp [opened, Sd.create, LogFile.xmprintf]
    · simpa [opened, Sd.create, LogFile.xmprintf] using Files.Newest.created s.sd.card s.fileNameCopy

/-- A number of 32 bits makes a name that fits into its array. -/
theorem logName_length {n : Int} (low : -2 ^ 31 ≤ n) (high : n < 2 ^ 31) :
    (logName n).length ≤ 64 := by
  have digits : (toString n).toList.length ≤ 11 := by
    have short : ∀ k : Nat, k ≤ 2 ^ 31 → (toString k).toList.length ≤ 10 := by
      intro k small
      have := decimal_length_le (n := k) (k := 10) (by decide) (by omega)
      simpa [decimal, ascii] using this
    cases n with
    | ofNat k =>
      have small : (k : Int) < 2 ^ 31 := high
      exact (short k (by omega)).trans (by decide)
    | negSucc k =>
      -- A sign stands in front of the digits.
      have := short (k + 1) (by omega)
      show ("-" ++ toString (k + 1)).toList.length ≤ 11
      rw [String.toList_append, List.length_append]
      have sign : "-".toList.length = 1 := rfl
      omega
  rw [logName, ascii, List.length_map, String.toList_append, String.toList_append,
    List.length_append, List.length_append]
  have front : "log_".toList.length = 4 := rfl
  have back : ".xq".toList.length = 3 := rfl
  omega

/-- The variable `fileNumber` holds an `int`. -/
def LogFile.IntNumber (s : LogFile) : Prop := -2 ^ 31 ≤ s.fileNumber ∧ s.fileNumber < 2 ^ 31

/-- An automatic name fits into its array. -/
theorem LogFile.nextNumber_fits {io : StartIo} (int : s.IntNumber)
    (found : (s.nextNumber io).1 = true) : (s.nextNumber io).2.fileNameCopy.length ≤ 64 := by
  -- The number is the old one, or one more than what was read.
  have saved : ∀ t : LogFile, t.IntNumber → (t.saveNumber io).fileNameCopy.length ≤ 64 :=
    fun t range => logName_length range.1 range.2
  simp only [LogFile.nextNumber] at found ⊢
  split_ifs at found ⊢
  · exact saved _ int
  · refine saved _ ?_
    unfold LogFile.takeNumber
    split
    · exact int
    · exact wrap32_range _

/-- A start after which the module writes has started a log. -/
theorem LogFile.lfStart_started {io : StartIo} {name : Option FileName} (int : s.IntNumber)
    (idle : s.lfWriting = false) (writing : (s.lfStart io name).lfWriting = true) :
    (s.lfStart io name).Started := by
  obtain ⟨idle', -, -⟩ := s.tryCard_flags io.begins idle
  have int' : (s.tryCard io.begins).IntNumber := by
    unfold LogFile.tryCard
    split_ifs
    · exact int
    · cases io.begins <;> exact int
  have start : (s.lfStart io name) =
      if !(s.tryCard io.begins).sdStarted then
        (s.tryCard io.begins).xmprintf (ascii "cannot2 start CD card (no card in slot?)\r\n")
      else (s.tryCard io.begins).startLog io name := by
    simp only [LogFile.lfStart, idle, Bool.false_eq_true, if_false]
  rw [start] at writing ⊢
  split_ifs at writing ⊢ with missing
  · exact absurd (idle'.symm.trans writing) (by decide)
  · cases name with
    | some name => exact openLogFile_started (by simp) (by exact idle') writing
    | none =>
      simp only [LogFile.startLog] at writing ⊢
      obtain ⟨-, still, -⟩ := (s.tryCard io.begins).nextNumber_flags io
      split_ifs at writing ⊢ with missing
      · -- Without a number, nothing was started.
        exact absurd ((still.trans idle').symm.trans writing) (by decide)
      · exact openLogFile_started (nextNumber_fits int' (by simpa using missing))
          (still.trans idle') writing

/-- The stream begins with an empty file. -/
theorem Machine.Stream.begins (x : XMessage) (sectorCount : UInt32) (started : s.Started) :
    (Machine.session s).Stream x sectorCount s.fileNameCopy [(s.fileNameCopy, [])] := by
  have first : sessionName s.fileNameCopy s.fileCounter = s.fileNameCopy := by
    rw [started.fileCounter]
    rfl
  refine ⟨rfl, started.newest, rfl, ?_, by simp [Files.used],
    .inl ⟨started.writing, [], [], ?_, ?_, ?_, by simp, ?_⟩, by simp [Machine.session]⟩
  · simp [Machine.session, contents, MainPc.block, Machine.accepted, started.ring]
  · show _ = [] ++ [(sessionName s.fileNameCopy s.fileCounter, [])]
    rw [first]
    rfl
  · exact started.fileCounter.symm
  · exact started.fileBytesCounter
  · show s.sd.file = some ⟨sessionName s.fileNameCopy s.fileCounter, 0⟩
    rw [first]
    exact started.file

/-- In every run of a session, whatever preempts what: the files of the session, the block in `tmpBuf`
and the ring hold together the bytes of the accepted calls in order, and after a stop the files alone
do. Every rejected call is an overflow, and every call that found the log on is accepted or rejected,
unless it is still in progress. -/
theorem log_stream {io : StartIo} {name : Option FileName} {acts : List LogAct} (int : s.IntNumber)
    (idle : s.lfWriting = false) (writing : (s.lfStart io name).lfWriting = true)
    (run : Run (MachineStep x sectorCount) (.session (s.lfStart io name)) acts m) :
    m.onCard ++ m.main.block ++ m.log.rb = m.accepted x ∧
      (m.log.lfWriting = false → m.main = .idle → m.onCard = m.accepted x) ∧
      m.log.ffOverflowCounter = wrap32 m.rejected ∧
      m.made = m.decided.length + m.stack.countP Frame.passed := by
  have started := LogFile.lfStart_started int idle writing
  have stream : ∃ recent, m.Stream x sectorCount (s.lfStart io name).fileNameCopy recent := by
    refine Run.invariant (P := fun m => ∃ recent, m.Stream x sectorCount
      (s.lfStart io name).fileNameCopy recent) ⟨_, .begins x sectorCount started⟩ ?_ run
    rintro _ _ _ ⟨recent, stream⟩ stepped
    exact stream.step started.fits stepped
  have tally : m.Tally := by
    refine Run.invariant ⟨?_, rfl⟩ (fun _ _ _ tally stepped => tally.step stepped) run
    show (s.lfStart io name).ffOverflowCounter = wrap32 ((0 : Nat) : Int)
    rw [started.overflow]
    decide
  obtain ⟨recent, stream⟩ := stream
  rw [stream.onCard_eq]
  refine ⟨stream.bytes, fun stopped returned => ?_, tally.overflow, tally.made⟩
  -- After a stop there is nothing left in `tmpBuf` and in the ring.
  have phase := stream.phase
  have bytes := stream.bytes
  unfold Machine.Phase at phase
  simp only [returned] at phase
  rw [returned] at bytes
  rcases phase with ⟨still, -⟩ | ⟨-, closed⟩
  · exact absurd (stopped.symm.trans still) (by decide)
  · rw [closed.ring] at bytes
    simpa [MainPc.block] using bytes

/-- A log with fed bytes and a message, from its start to its stop. -/
theorem log_stream_short :
    ∃ m : Machine, m.log.lfWriting = false ∧ m.main = .idle ∧
      m.onCard = List.replicate 600 7 ++ plainMessage.image 0 1 [9] := by
  let acts : List LogAct := [.call (.lfFeed (List.replicate 600 7)), .producer, .producer,
    .lfProcess, .main, .main, .main, .main, .main,
    .call (.lfSendMessage [9] 1), .producer, .producer, .producer,
    .lfStop, .main, .main, .main]
  let last := acts.foldlM (Machine.step plainMessage 1000) (.session justStarted)
  have seen : last.map (fun m => (m.log.lfWriting, m.main, m.accepted plainMessage)) =
      some (false, .idle, List.replicate 600 7 ++ plainMessage.image 0 1 [9]) := by
    decide +kernel
  obtain ⟨m, ran, state⟩ := Option.map_eq_some_iff.mp seen
  simp only [Prod.mk.injEq] at state
  obtain ⟨stopped, returned, accepted⟩ := state
  have int : ((LogFile.powerUp [] []).lfInit true).IntNumber := ⟨by decide, by decide⟩
  have stream := log_stream int (by decide) (by decide +kernel) (MachineStep.run ran)
  exact ⟨m, stopped, returned, (stream.2.1 stopped returned).trans accepted⟩

end Teetest
