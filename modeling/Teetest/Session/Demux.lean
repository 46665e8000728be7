import Teetest.Transfer.System

/-!
How the console's client takes its stream apart into greetings, pings and data.

The client knows a chunk by its first bytes only, whatever TCP has merged into it.
-/

namespace Teetest

open Lib

/-- What happens at the client: a command is written, or a chunk of `n` bytes is handed to `process`. -/
inductive ClientEvent
  | do_write (writes : Bool) (s : List UInt8)
  | process (io : CallIo) (n : Nat) (polls : List Poll)

/-- One call of `process`: the client before it, its chunk, and all bytes it took from the stream. -/
structure Handling where
  client : Client
  chunk : List WByte
  taken : List WByte

/-- A byte that belongs neither to a ping nor to the greeting. -/
def isData (b : WByte) : Bool := b.kind ≠ .ping && b.kind ≠ .greeting

/-- The consumer that is waiting for data: `readingTheFile` during a transfer, else `cb1`. -/
def Client.consumer (c : Client) : Consumer :=
  if c.readingTheLogFile ≠ 0 then .readingTheFile else .cb1

/-- Whether `process` takes a chunk for a greeting or a ping, and drops it. -/
def dropped (chunk : List UInt8) : Bool := teeWord.isPrefixOf chunk || pingWord.isPrefixOf chunk

/-- The data bytes of a call that reach a consumer, with that consumer. -/
def Handling.reached (h : Handling) : List (Consumer × WByte) :=
  if h.client.pleaseStop ∨ h.chunk.length < 1 then []
  else
    match classify h.client.readingTheLogFile (bytes h.chunk) with
    | .greeting | .ping => []
    -- `readingTheFile` may read on from the socket, and what it reads has reached it
    | consumer => (h.taken.filter isData).map (consumer, ·)

section

variable (crc16 : List UInt8 → UInt16)

/-- The calls of `process` in a session, and what is left of the stream. -/
def handlings : List ClientEvent → Client → List WByte → List Handling × List WByte
  | [], _, stream => ([], stream)
  | .do_write writes s :: events, c, stream => handlings events (c.do_write writes s).1 stream
  | .process io n polls :: events, c, stream =>
    let r := c.process crc16 io (bytes (stream.take n)) ⟨stream.drop n, polls⟩
    let later := handlings events r.client r.sock.inp
    (⟨c, stream.take n, stream.take (stream.length - r.sock.inp.length)⟩ :: later.1, later.2)

/-- Every data byte that was read reached the right consumer, once and in the order of the stream. -/
structure Demultiplexed (events : List ClientEvent) (c : Client) (stream : List WByte) : Prop where
  inOrder : ((handlings crc16 events c stream).1.flatMap Handling.reached).map Prod.snd ++
    (handlings crc16 events c stream).2.filter isData = stream.filter isData
  consumers : ∀ h ∈ (handlings crc16 events c stream).1, ∀ r ∈ h.reached, r.1 = h.client.consumer

/-- The inner completion loop reads from the front of the stream. -/
theorem fillInner_drop (size : Int) (polls : List Poll) (inp : List WByte) (buf : Mem) (len : Nat) :
    ∃ k, (fillInner size polls inp buf len).sock.inp = inp.drop k := by
  -- A round for each poll, and each of them takes what its poll lets through.
  induction polls generalizing inp buf len with
  | nil => exact ⟨0, rfl⟩
  | cons p polls ih =>
    rw [fillInner_cons]
    dsimp only
    generalize p.answer _ = k
    split_ifs
    · exact ⟨0, rfl⟩
    · exact ⟨k, rfl⟩
    · -- The later rounds read on from where this one ended.
      obtain ⟨j, rest⟩ := ih (inp.drop k) (buf.write len (bytes (inp.take k))) (len + k)
      exact ⟨k + j, by rw [rest, List.drop_drop]⟩

/-- The outer completion loop reads from the front of the stream. -/
theorem fillOuter_drop (size : Int) (rounds : Nat) (f : Fill) :
    ∃ k, (fillOuter size rounds f).sock.inp = f.sock.inp.drop k := by
  induction rounds generalizing f with
  | zero => exact ⟨0, rfl⟩
  | succ rounds ih =>
    obtain ⟨k, first⟩ := fillInner_drop size f.sock.polls f.sock.inp f.buf f.len
    simp only [fillOuter]
    -- The loop ends behind this round, or goes on with the next.
    split
    · exact ⟨k, first⟩
    · obtain ⟨j, later⟩ := ih (fillInner size f.sock.polls f.sock.inp f.buf f.len)
      exact ⟨k + j, by rw [later, first, List.drop_drop]⟩

/-- `checkThePacket` reads from the front of the stream. -/
theorem checkThePacket_drop (c : Client) (s : Sock) (len : Nat) :
    ∃ k, (checkThePacket crc16 c s len).2.2.1.inp = s.inp.drop k := by
  -- Only behind a header it reads on.
  have filled : ∃ k, (c.filled s len).sock.inp = s.inp.drop k := by
    unfold Client.filled
    split_ifs
    · exact fillOuter_drop c.sizeField 5 ⟨0, s, c.buf, len⟩
    · exact ⟨0, rfl⟩
  rw [checkThePacket_eq]
  split_ifs
  · exact ⟨0, rfl⟩
  · -- Without a head, the socket is drained.
    obtain ⟨k, _, rest⟩ := drainLoop_drop none (by simp) s.polls s.inp c.buf
    exact ⟨k, rest⟩
  · exact filled
  · exact filled

theorem Client.sendControl_sock (io : CallIo) (c : Client) (s : Sock) :
    (c.sendControl io s).sock = s := by
  unfold sendControl
  split <;> rfl

theorem Client.savePacket_sock (io : CallIo) (c : Client) (s : Sock) :
    (c.savePacket io s).sock = s := by
  simp only [savePacket]
  split
  · rfl
  · exact sendControl_sock _ _ _

/-- State 2 of `readingTheFile` reads from the front of the stream. -/
theorem Client.receiving_drop (io : CallIo) (c : Client) (s : Sock) (len : Nat) :
    ∃ k, (c.receiving crc16 io s len).sock.inp = s.inp.drop k := by
  obtain ⟨k, checked⟩ := checkThePacket_drop crc16 c s len
  unfold receiving
  -- What is read behind the chunk depends on whether the packet was good.
  generalize checkThePacket crc16 c s len = r at checked ⊢
  obtain ⟨ok, c', s', len'⟩ := r
  cases ok with
  | true =>
    simp only
    split
    · exact ⟨k, checked⟩
    · exact ⟨k, by rw [savePacket_sock]; exact checked⟩
  | false =>
    simp only [badPacket, sendControl_sock]
    -- A bad packet is answered, and the socket is drained.
    obtain ⟨j, _, rest⟩ := drainLoop_drop (some bufSize) (by simp [bufSize]) s'.polls s'.inp
      (if c'.buf.read 0 4 = teee then { c'.closeFile with readingTheLogFile := 0 } else c').buf
    exact ⟨k + j, by rw [rest, checked, List.drop_drop]⟩

theorem Client.awaitingAnswer_sock (io : CallIo) (c : Client) (s : Sock) (len : Nat) :
    (c.awaitingAnswer io s len).sock = s := by
  unfold awaitingAnswer
  dsimp only
  -- The answer changes the client only, whatever its text is.
  generalize cstr _ = text
  split
  · split
    · split <;> rfl
    · rfl
  · split <;> rfl

/-- A call reads from the front of the stream behind its chunk. -/
theorem Client.process_drop (io : CallIo) (c : Client) (chunk : List UInt8) (s : Sock) :
    ∃ k, (c.process crc16 io chunk s).sock.inp = s.inp.drop k := by
  by_cases hands : c.HandsOn chunk
  · rw [process_handsOn crc16 io hands]
    unfold readingTheFile
    split
    · -- The answer to a request is looked for in the chunk alone.
      refine ⟨0, ?_⟩
      rw [awaitingAnswer_sock, List.drop_zero]
    · exact receiving_drop crc16 _ _ _ _
    · exact ⟨0, rfl⟩
  · rw [(process_kept crc16 io hands s).2.2]
    exact ⟨0, rfl⟩

/-- Accepting a packet does not stop the client. -/
theorem acceptPacket_runs (c : Client) (buf : Mem) :
    (acceptPacket crc16 c buf).2.pleaseStop = c.pleaseStop := by
  simp only [acceptPacket]
  split
  · split <;> rfl
  · rfl

/-- The check of a packet does not stop the client. -/
theorem checkThePacket_runs (c : Client) (s : Sock) (len : Nat) :
    (checkThePacket crc16 c s len).2.1.pleaseStop = c.pleaseStop := by
  have header : c.readHeader.pleaseStop = c.pleaseStop :=
    congrArg Receiver.pleaseStop c.readHeader_receiver
  rw [checkThePacket_eq]
  split_ifs
  · rfl
  · rfl
  · rw [acceptPacket_runs, header]
  · exact header

theorem Client.sendControl_runs (io : CallIo) (c : Client) (s : Sock) :
    (c.sendControl io s).client.pleaseStop = c.pleaseStop := by
  unfold sendControl
  split <;> rfl

theorem Client.reportProgress_runs (c : Client) : c.reportProgress.pleaseStop = c.pleaseStop :=
  congrArg Receiver.pleaseStop c.reportProgress_receiver

theorem Client.savePacket_runs (io : CallIo) (c : Client) (s : Sock) :
    (c.savePacket io s).client.pleaseStop = c.pleaseStop := by
  simp only [savePacket]
  split
  · -- The last packet closes the file, any other is answered.
    simp only [closeFile, reportProgress_runs]
  · simp only [sendControl_runs, reportProgress_runs]

theorem Client.badPacket_runs (io : CallIo) (c : Client) (s : Sock) :
    (c.badPacket io s).client.pleaseStop = c.pleaseStop := by
  simp only [badPacket, sendControl_runs]
  split <;> rfl

theorem Client.receiving_runs (io : CallIo) (c : Client) (s : Sock) (len : Nat) :
    (c.receiving crc16 io s len).client.pleaseStop = c.pleaseStop := by
  have checked := checkThePacket_runs crc16 c s len
  unfold receiving
  -- Whether the packet was good or not, the flag is that of the client that was checked.
  generalize checkThePacket crc16 c s len = r at checked ⊢
  obtain ⟨ok, c', s', len'⟩ := r
  cases ok with
  | true =>
    simp only
    split
    · exact checked
    · exact (savePacket_runs _ _ _).trans checked
  | false => exact (badPacket_runs _ _ _).trans checked

theorem Client.awaitingAnswer_runs (io : CallIo) (c : Client) (s : Sock) (len : Nat) :
    (c.awaitingAnswer io s len).client.pleaseStop = c.pleaseStop := by
  unfold awaitingAnswer
  dsimp only
  generalize cstr _ = text
  split
  · split
    · split <;> rfl
    · rfl
  · split <;> rfl

/-- A call does not stop the client. -/
theorem Client.process_runs (io : CallIo) (c : Client) (chunk : List UInt8) (s : Sock) :
    (c.process crc16 io chunk s).client.pleaseStop = c.pleaseStop := by
  by_cases hands : c.HandsOn chunk
  · rw [process_handsOn crc16 io hands]
    unfold readingTheFile
    split
    · exact awaitingAnswer_runs io _ s chunk.length
    · exact receiving_runs crc16 io _ s chunk.length
    · rfl
  · exact congrArg Receiver.pleaseStop (process_kept crc16 io hands s).1

/-- A command does not stop the client. -/
theorem Client.do_write_runs (writes : Bool) (c : Client) (s : List UInt8) :
    (c.do_write writes s).1.pleaseStop = c.pleaseStop := by
  unfold do_write
  split
  · rfl
  · simp only
    split <;> split <;> rfl

/-- A chunk is dropped exactly if it is taken for a greeting or a ping. -/
theorem classify_dropped (reading : Nat) {chunk : List UInt8} (drop : dropped chunk = true) :
    classify reading chunk = .greeting ∨ classify reading chunk = .ping := by
  simp only [dropped, Bool.or_eq_true] at drop
  unfold classify
  split
  · -- The greeting is looked for first.
    exact .inl rfl
  · rename_i other
    rw [if_pos (drop.resolve_left other)]
    exact .inr rfl

/-- A chunk that is not dropped is handed to the consumer that is waiting. -/
theorem classify_kept (c : Client) {chunk : List UInt8} (keep : dropped chunk = false) :
    classify c.readingTheLogFile chunk = c.consumer := by
  simp only [dropped, Bool.or_eq_false_iff] at keep
  simp [classify, Client.consumer, keep.1, keep.2]

/-- The chunk is the front of what a call takes, and all of it if the call drops it. -/
structure Handling.Proper (h : Handling) : Prop where
  front : h.chunk <+: h.taken
  only : dropped (bytes h.chunk) = true → h.taken = h.chunk
  nothing : h.chunk = [] → h.taken = []

/-- What a call of `process` takes. -/
theorem Client.process_takes (io : CallIo) (c : Client) (n : Nat) (polls : List Poll)
    (stream : List WByte) :
    let r := c.process crc16 io (bytes (stream.take n)) ⟨stream.drop n, polls⟩
    let h : Handling := ⟨c, stream.take n, stream.take (stream.length - r.sock.inp.length)⟩
    h.taken ++ r.sock.inp = stream ∧ h.Proper := by
  intro r h
  obtain ⟨k, rest⟩ := c.process_drop crc16 io (bytes (stream.take n)) ⟨stream.drop n, polls⟩
  -- What is left is the stream behind what was read, so the front is what was taken.
  have left : r.sock.inp = stream.drop (n + k) := by rw [← List.drop_drop]; exact rest
  have taken : stream.take (stream.length - r.sock.inp.length) = stream.take (n + k) := by
    rw [left, List.length_drop]
    rcases Nat.le_total (n + k) stream.length with inside | outside
    · rw [Nat.sub_sub_self inside]
    · rw [Nat.sub_eq_zero_of_le outside, Nat.sub_zero, List.take_length, List.take_of_length_le outside]
  have chunkTaken : stream.take n <+: stream.take (n + k) := List.take_prefix_take_left (by omega)
  -- A call that reads nothing more takes the chunk alone.
  have alone : r.sock.inp = stream.drop n →
      stream.take (stream.length - r.sock.inp.length) = stream.take n := by
    intro same
    rw [taken]
    rw [left] at same
    have lengths := congrArg List.length same
    simp only [List.length_drop] at lengths
    exact (chunkTaken.eq_of_length (by simp only [List.length_take]; omega)).symm
  refine ⟨?_, ?_, fun drop => alone ?_, fun empty => ?_⟩
  · simp only [h, taken]
    rw [left, List.take_append_drop]
  · simp only [h, taken]
    exact chunkTaken
  · exact congrArg Sock.inp (c.process_discarded crc16 io (classify_dropped _ drop) _).2.2
  · -- Without a chunk the call returns at once.
    have nothing : bytes (stream.take n) = [] := congrArg bytes empty
    refine (alone ?_).trans empty
    simp [r, process, nothing]

/-- The calls of a session take the stream from its front, and none finds the client stopped. -/
theorem handlings_take (events : List ClientEvent) {c : Client} (runs : c.pleaseStop = false)
    (stream : List WByte) :
    (handlings crc16 events c stream).1.flatMap Handling.taken ++
        (handlings crc16 events c stream).2 = stream ∧
      ∀ h ∈ (handlings crc16 events c stream).1, h.client.pleaseStop = false ∧ h.Proper := by
  -- The induction carries that the client is not stopped, and goes on with what the call left.
  induction events generalizing c stream with
  | nil => exact ⟨rfl, by simp [handlings]⟩
  | cons event events ih =>
    cases event with
    | do_write writes s => exact ih ((c.do_write_runs writes s).trans runs) stream
    | process io n polls =>
      obtain ⟨split, proper⟩ := c.process_takes crc16 io n polls stream
      obtain ⟨later, all⟩ := ih ((c.process_runs crc16 io _ _).trans runs)
        (c.process crc16 io (bytes (stream.take n)) ⟨stream.drop n, polls⟩).sock.inp
      simp only [handlings, List.flatMap_cons, List.append_assoc, List.mem_cons]
      refine ⟨by rw [later]; exact split, ?_⟩
      rintro h (rfl | member)
      · exact ⟨runs, proper⟩
      · exact all h member

end

/-- The callback `cb1` finds the chunk in the buffer it is handed. -/
theorem Client.process_cb1 (crc16 : List UInt8 → UInt16) (io : CallIo) {c : Client}
    (runs : c.pleaseStop = false) {chunk : List UInt8} (some_ : chunk ≠ [])
    (handed : classify c.readingTheLogFile chunk = .cb1) (s : Sock) :
    (c.process crc16 io chunk s).client.buf.read 0 chunk.length = chunk := by
  have positive := List.length_pos_iff.mpr some_
  simp only [process]
  -- The NUL at the end of the buffer lies behind the chunk.
  rw [if_neg (by simp [runs]; omega), handed]
  simp only [teeData]
  rw [Mem.read_write_disjoint _ (.inl (by omega)), Mem.read_write_same]

/-- A chunk that is dropped reaches nobody. -/
theorem Handling.reached_of_dropped {h : Handling} (drop : dropped (bytes h.chunk) = true) :
    h.reached = [] := by
  unfold reached
  split
  · rfl
  · rcases classify_dropped h.client.readingTheLogFile drop with kind | kind <;> rw [kind]

/-- The data of any other chunk, and of what is read behind it, reaches the consumer that is waiting. -/
theorem Handling.reached_of_kept {h : Handling} (runs : h.client.pleaseStop = false)
    (proper : h.Proper) (keep : dropped (bytes h.chunk) = false) :
    h.reached = (h.taken.filter isData).map (h.client.consumer, ·) := by
  unfold reached
  split
  · rename_i ends
    -- A call without a chunk takes nothing.
    have empty : h.chunk = [] := List.length_eq_zero_iff.mp (by simp [runs] at ends; simp [ends])
    simp [proper.nothing empty]
  · rw [classify_kept h.client keep]
    -- The waiting consumer is one of the two that take data.
    by_cases waiting : h.client.readingTheLogFile = 0 <;> simp [Client.consumer, waiting]

/-- What reaches a consumer reaches the one that is waiting. -/
theorem Handling.reached_consumer {h : Handling} (runs : h.client.pleaseStop = false)
    (proper : h.Proper) {r : Consumer × WByte} (member : r ∈ h.reached) :
    r.1 = h.client.consumer := by
  cases drop : dropped (bytes h.chunk) with
  | true => simp [reached_of_dropped drop] at member
  | false =>
    rw [reached_of_kept runs proper drop, List.mem_map] at member
    obtain ⟨_, _, rfl⟩ := member
    rfl

/-- A call loses data exactly if it drops a chunk that holds some. -/
theorem Handling.reached_all_iff {h : Handling} (runs : h.client.pleaseStop = false)
    (proper : h.Proper) :
    h.reached.map Prod.snd = h.taken.filter isData ↔
      (dropped (bytes h.chunk) = true → ∀ b ∈ h.chunk, isData b = false) := by
  cases drop : dropped (bytes h.chunk) with
  | true =>
    rw [reached_of_dropped drop, proper.only drop, List.map_nil, eq_comm, List.filter_eq_nil_iff]
    simp
  | false =>
    rw [reached_of_kept runs proper drop, List.map_map]
    simp

/-- Lists joined from pieces that are no longer than others are the same only if the pieces are. -/
theorem flatMap_eq_iff_of_length_le {α β : Type*} {f g : α → List β} {l : List α}
    (shorter : ∀ a ∈ l, (f a).length ≤ (g a).length) :
    l.flatMap f = l.flatMap g ↔ ∀ a ∈ l, f a = g a := by
  induction l with
  | nil => simp
  | cons a l ih =>
    have later := ih fun b member => shorter b (by simp [member])
    -- The totals can only be the same if the lengths of the pieces are.
    have total : (l.flatMap f).length ≤ (l.flatMap g).length := by
      simp only [List.length_flatMap]
      exact List.sum_le_sum fun b member => shorter b (by simp [member])
    simp only [List.flatMap_cons, List.forall_mem_cons]
    constructor
    · intro same
      have lengths := congrArg List.length same
      have first := shorter a (by simp)
      simp only [List.length_append] at lengths
      obtain ⟨head, tail⟩ := List.append_inj same (by omega)
      exact ⟨head, later.mp tail⟩
    · rintro ⟨head, tail⟩
      rw [head, later.mpr tail]

/-- All data arrives exactly if every dropped chunk consists of bytes of pings and greetings. -/
theorem demultiplexed_iff (crc16 : List UInt8 → UInt16) (events : List ClientEvent) (c : Client)
    (runs : c.pleaseStop = false) (stream : List WByte) :
    Demultiplexed crc16 events c stream ↔
      ∀ h ∈ (handlings crc16 events c stream).1,
        dropped (bytes h.chunk) = true → ∀ b ∈ h.chunk, isData b = false := by
  obtain ⟨split, proper⟩ := handlings_take crc16 events runs stream
  generalize calls_eq : (handlings crc16 events c stream).1 = calls at split proper
  -- The order of the data is the only condition, since nothing reaches the wrong consumer.
  have exact_iff : Demultiplexed crc16 events c stream ↔
      calls.flatMap (fun h => h.reached.map Prod.snd) =
        calls.flatMap fun h => h.taken.filter isData := by
    have whole : stream.filter isData = calls.flatMap (fun h => h.taken.filter isData) ++
        (handlings crc16 events c stream).2.filter isData := by
      rw [← List.filter_flatMap, ← List.filter_append, split]
    constructor
    · intro all
      have inOrder := all.inOrder
      rw [calls_eq, whole, List.map_flatMap] at inOrder
      exact List.append_cancel_right inOrder
    · intro same
      constructor
      · rw [calls_eq, whole, List.map_flatMap, same]
      · intro h member r reached
        rw [calls_eq] at member
        exact Handling.reached_consumer (proper h member).1 (proper h member).2 reached
  rw [exact_iff, flatMap_eq_iff_of_length_le]
  · constructor
    · intro same h member
      exact (Handling.reached_all_iff (proper h member).1 (proper h member).2).mp (same h member)
    · intro all h member
      exact (Handling.reached_all_iff (proper h member).1 (proper h member).2).mpr (all h member)
  · -- A call hands on no more than it takes.
    intro h member
    cases drop : dropped (bytes h.chunk) with
    | true => simp [Handling.reached_of_dropped drop]
    | false => simp [Handling.reached_of_kept (proper h member).1 (proper h member).2 drop]

/-- A ping, and the text of the next pass. -/
def pingThenText : List WByte := mark .ping pingMessage ++ mark .text (ascii "log started\r\n")

/-- Read apart, the ping is dropped and the text reaches `cb1`. -/
theorem demultiplexed_apart :
    Demultiplexed (fun _ => 0) [.process succeeds 6 [], .process succeeds 13 []] .started pingThenText :=
  (demultiplexed_iff _ _ _ rfl _).mpr (by decide +kernel)

/-- Read as one chunk, the text is dropped with the ping, whatever the CRC is. -/
theorem text_dropped_with_ping : ¬ ∃ crc16 : List UInt8 → UInt16,
    Demultiplexed crc16 [.process succeeds 19 []] .started pingThenText := by
  rintro ⟨crc16, all⟩
  -- The only call drops its chunk, and nothing is left in the stream.
  have none : (handlings crc16 [.process succeeds 19 []] .started pingThenText).1.flatMap
      Handling.reached = [] := rfl
  have rest : (handlings crc16 [.process succeeds 19 []] .started pingThenText).2 = [] := rfl
  have inOrder := all.inOrder
  rw [none, rest] at inOrder
  exact absurd inOrder (by decide)

end Teetest
