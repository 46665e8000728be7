import Teetest.Session.Connection
import Teetest.Transfer.Safety

/-!
Which packets the handler sends, whatever it is asked and whatever an earlier transfer left behind.

The handler is compared with a sender that knows only how many packets it sent.
-/

namespace Teetest

open Lib

/-- A request that the read loop hands to the handler. -/
inductive Asked
  | next (pn : Nat)
  | again (pn : Nat)
  | finish
deriving DecidableEq

/-- The arguments with which the handler is called. -/
def Asked.call : Asked → GFrequest × Nat
  | .next pn => (.gfPleaseSendNext, pn)
  | .again pn => (.gfPleaseRepeat, pn)
  | .finish => (.gfFinish, 0)

/-- Whether a byte belongs to a data packet. -/
def isPacket (b : WByte) : Bool :=
  match b.kind with
  | .packet _ => true
  | _ => false

section

variable (crc16 : List UInt8 → UInt16)

/-- The state after a request, while SD reads succeed. -/
def Net.asked (n : Net) (a : Asked) (ms : Nat) : Net :=
  n.sendFileViaEthHandler crc16 .full ms a.call.1 a.call.2

/-- What a request passes to `ethFeed` of data packets: what an empty ring then holds of them. -/
def Net.packetsFed (n : Net) (a : Asked) (ms : Nat) : List WByte :=
  (({ n with rb := [], clientConnected := true } : Net).asked crc16 a ms).rb.filter isPacket

/-- The packets fed in answer to a sequence of requests, as long as the handler is installed. -/
def Net.answers : List (Asked × Nat) → Net → List (List WByte)
  | [], _ => []
  | (a, ms) :: requests, n =>
    if n.infoHandler then n.packetsFed crc16 a ms :: Net.answers requests (n.asked crc16 a ms)
    else []

end

/-- How far a sender has come: the packets it sent, and the repetitions since the last request. -/
structure Sender where
  sent : Nat
  repeats : Nat
deriving DecidableEq

/-- The number of the packet a sender answers with, if any, and the sender after it, if it goes on. -/
def Sender.answer (data : List UInt8) (s : Sender) : Asked → Option Nat × Option Sender
  | .next pn =>
    -- a stale request is answered by nothing
    if s.sent % 2 ^ 32 > pn then (none, some ⟨s.sent, 0⟩)
    else if blockSize * s.sent < data.length then (some (s.sent + 1), some ⟨s.sent + 1, 0⟩)
    else (none, none)
  | .again _ =>
    if maximumRepeats ≤ s.repeats + 1 then (none, none)
    else (some s.sent, some ⟨s.sent, s.repeats + 1⟩)
  | .finish => (none, none)

/-- The numbers of the packets a sender answers with. -/
def Sender.answers (data : List UInt8) : List Asked → Option Sender → List (Option Nat)
  | [], _ => []
  | _, none => []
  | a :: requests, some s =>
    (s.answer data a).1 :: Sender.answers data requests (s.answer data a).2

section

variable (crc16 : List UInt8 → UInt16) (data : List UInt8)

/-- The packet of a number, with the block of that number. -/
def packetOf (k : Nat) : List WByte :=
  mark (.packet k) (packetImage crc16 k (block data (k - 1)))

/-- The bytes of an answer. -/
def answerBytes (k : Option Nat) : List WByte := k.elim [] (packetOf crc16 data)

/-- A transfer of a file that has sent `k` packets. -/
structure Ready (k : Nat) (n : Net) : Prop where
  handler : n.infoHandler = true
  counter : n.sendFilePacketsCounter = k
  file : ∃ name, n.ethFile = some ⟨name, data, min (blockSize * k) data.length⟩

/-- A transfer that has sent a packet, and holds its block in the buffer. -/
structure Holds (s : Sender) (n : Net) : Prop extends Ready data s.sent n where
  repeats : n.repeatSendCounter = s.repeats
  started : 0 < s.sent
  size : n.fileReadInfoSize = (block data (s.sent - 1)).length
  held : n.rbBuf.read ethHeaderSize n.fileReadInfoSize = block data (s.sent - 1)

variable {crc16 data} {s : Sender} {n m : Net}

/-- The ring does not matter to what a transfer holds. -/
theorem Holds.of_frame (holds : Holds data s n) (same : m.frame = n.frame) : Holds data s m := by
  -- All that the transfer looks at belongs to the frame.
  have handler := (congrArg Net.infoHandler same :)
  have counter := (congrArg Net.sendFilePacketsCounter same :)
  have file := (congrArg Net.ethFile same :)
  have repeats := (congrArg Net.repeatSendCounter same :)
  have size := (congrArg Net.fileReadInfoSize same :)
  have buf := (congrArg Net.rbBuf same :)
  simp only [Net.frame] at handler counter file repeats size buf
  refine ⟨⟨?_, ?_, ?_⟩, ?_, holds.started, ?_, ?_⟩
  · rw [handler, holds.handler]
  · rw [counter, holds.counter]
  · rw [file]
    exact holds.file
  · rw [repeats, holds.repeats]
  · rw [size, holds.size]
  · rw [buf, size, holds.held]

/-- A packet that goes out carries the block of its number, and the transfer holds what it held. -/
theorem Holds.send (holds : Holds data s n) (crc16 : List UInt8 → UInt16) :
    Holds data s (n.sendEthPacket crc16 (wrap32 n.fileReadInfoSize) n.sendFilePacketsCounter) ∧
      (n.rb = [] → n.clientConnected = true →
        (n.sendEthPacket crc16 (wrap32 n.fileReadInfoSize) n.sendFilePacketsCounter).rb =
          packetOf crc16 data s.sent) := by
  have small : n.fileReadInfoSize ≤ blockSize := holds.size ▸ block_length_le _ _
  obtain ⟨rbBuf, same, fed⟩ := n.sendEthPacket_eq crc16 small n.sendFilePacketsCounter
  rw [fed, holds.held]
  -- The header was written in front of the block, which stays in the buffer.
  have kept : Holds data s { n with rbBuf := rbBuf } :=
    ⟨⟨holds.handler, holds.counter, holds.file⟩, holds.repeats, holds.started, holds.size, by
      simp only [same]
      exact holds.held⟩
  refine ⟨kept.of_frame (Net.ethFeed_frame _ _ _), fun empty connected => ?_⟩
  -- The largest packet fits into an empty ring.
  have fits : (packetImage crc16 n.sendFilePacketsCounter (block data (s.sent - 1))).length ≤
      ethRbSize := by
    have : (block data (s.sent - 1)).length ≤ 1008 := block_length_le _ _
    rw [packetImage_length]
    simp only [ethHeaderSize, ethRbSize]
    omega
  rw [Net.ethFeed_fits (by exact connected) _ (by simpa [empty] using fits)]
  simp only [empty, List.nil_append]
  rw [holds.counter, packetOf]

/-- Feeding anything else adds no packet to the ring. -/
theorem Net.ethFeed_packets (n : Net) {o : Origin} (other : ∀ k, o ≠ .packet k) (bs : List UInt8) :
    (n.ethFeed o bs).rb.filter isPacket = n.rb.filter isPacket := by
  unfold ethFeed
  split_ifs
  · rfl
  · -- What is fed comes from elsewhere.
    have none : (mark o bs).filter isPacket = [] := by
      rw [List.filter_eq_nil_iff]
      intro b member
      rw [isPacket, kind_of_mem_mark member]
      cases o with
      | packet k => exact absurd rfl (other k)
      | text | greeting | ping | teee => simp
    simp [none]
  · rfl

/-- Printing adds no packet to the ring. -/
theorem Net.xmprintf_packets (n : Net) (text : String) :
    (n.xmprintf text).rb.filter isPacket = n.rb.filter isPacket := by
  unfold xmprintf
  split
  · exact n.ethFeed_packets (by simp) _
  · rfl

/-- The end of a transfer adds no packet to the ring. -/
theorem Net.sendFileViaEthComplete_packets (n : Net) (ms : Nat) :
    (n.sendFileViaEthComplete ms).rb.filter isPacket = n.rb.filter isPacket := by
  simp only [sendFileViaEthComplete, xmprintf_packets]
  exact ethFeed_packets _ (by simp) _

/-- A packet is made of bytes of packets. -/
theorem mark_packets (k : Nat) (bs : List UInt8) :
    (mark (.packet k) bs).filter isPacket = mark (.packet k) bs := by
  rw [List.filter_eq_self]
  intro b member
  rw [isPacket, kind_of_mem_mark member]

variable (crc16 data) in
/-- A call of the handler does what a sender does, and feeds the packet it answers with. -/
structure Meets (out : Option Nat × Option Sender) (n m : Net) : Prop where
  goesOn : ∀ s, out.2 = some s → Holds data s m
  ends : out.2 = none → m.infoHandler = false
  feeds : n.rb = [] → n.clientConnected = true → m.rb.filter isPacket = answerBytes crc16 data out.1

/-- A transfer that holds a block and sends it meets the answer with that block's number. -/
theorem Holds.meets_send (holds : Holds data s m) (ring : m.rb = n.rb)
    (connected : m.clientConnected = n.clientConnected) :
    Meets crc16 data (some s.sent, some s) n
      (m.sendEthPacket crc16 (wrap32 m.fileReadInfoSize) m.sendFilePacketsCounter) := by
  obtain ⟨kept, fed⟩ := holds.send crc16
  refine ⟨fun s' same => Option.some.inj same ▸ kept, by simp, fun empty on => ?_⟩
  rw [fed (ring.trans empty) (connected.trans on), packetOf, mark_packets]
  rfl

/-- A transfer that ends without another packet meets the empty answer. -/
theorem meets_complete (ring : m.rb.filter isPacket = n.rb.filter isPacket) (ms : Nat) :
    Meets crc16 data (none, none) n (m.sendFileViaEthComplete ms) := by
  refine ⟨by simp, fun _ => (m.sendFileViaEthComplete_terminated ms).infoHandler, fun empty _ => ?_⟩
  rw [m.sendFileViaEthComplete_packets, ring, empty]
  rfl

variable (crc16 data n) in
/-- The end that the console announces meets the empty answer, and is only reported. -/
theorem meets_finish (ms : Nat) : Meets crc16 data (none, none) n (n.asked crc16 .finish ms) :=
  meets_complete (n.xmprintf_packets "got TEEE from file receiver\r\n") ms

/-- A request that is not stale is met by the next block, or by the end of the transfer. -/
theorem Ready.meets_next {k : Nat} (ready : Ready data k n) {pn : Nat} (due : ¬ k % 2 ^ 32 > pn)
    (ms : Nat) :
    Meets crc16 data
      (if blockSize * k < data.length then (some (k + 1), some ⟨k + 1, 0⟩) else (none, none)) n
      (n.pleaseSendNext crc16 .full ms pn) := by
  have counter := ready.counter
  subst counter
  obtain ⟨name, file⟩ := ready.file
  rw [Net.pleaseSendNext_eq file due ms]
  have some_iff : 0 < (block data n.sendFilePacketsCounter).length ↔
      blockSize * n.sendFilePacketsCounter < data.length := by
    have positive : 0 < blockSize := by decide
    simp only [block, List.length_take, List.length_drop]
    omega
  -- The handler asks the file whether a block was read, the sender compares the lengths.
  by_cases more : blockSize * n.sendFilePacketsCounter < data.length
  · rw [if_pos more, if_pos (some_iff.mpr more)]
    -- The block that was read is held from now on.
    have holds : Holds data ⟨n.sendFilePacketsCounter + 1, 0⟩ (n.afterRead data) :=
      ⟨⟨ready.handler, rfl, name, by simp only [Net.afterRead, file, Option.map_some]⟩, rfl,
        Nat.succ_pos _, rfl, Mem.read_write_same _ _ _⟩
    exact holds.meets_send rfl rfl
  · rw [if_neg more, if_neg (fun some_ => more (some_iff.mp some_))]
    refine meets_complete ?_ ms
    rfl

/-- A transfer that has sent a packet answers every request as a sender does. -/
theorem Holds.meets (holds : Holds data s n) (a : Asked) (ms : Nat) :
    Meets crc16 data (s.answer data a) n (n.asked crc16 a ms) := by
  cases a with
  | finish => exact meets_finish crc16 data n ms
  | next pn =>
    by_cases stale : s.sent % 2 ^ 32 > pn
    · -- A stale request only ends a row of repetitions.
      have same : n.asked crc16 (.next pn) ms = { n with repeatSendCounter := 0 } := by
        show n.pleaseSendNext crc16 .full ms pn = _
        simp only [Net.pleaseSendNext, holds.counter, if_pos stale]
      rw [same, Sender.answer, if_pos stale]
      refine ⟨fun s' go => ?_, by simp, fun empty _ => by simp [empty, answerBytes]⟩
      rw [← Option.some.inj go]
      exact ⟨⟨holds.handler, holds.counter, holds.file⟩, rfl, holds.started, holds.size, holds.held⟩
    · rw [Sender.answer, if_neg stale]
      exact holds.toReady.meets_next stale ms
  | again pn =>
    show Meets crc16 data _ n (n.pleaseRepeat crc16 ms)
    have counted : Holds data ⟨s.sent, s.repeats + 1⟩
        { n with repeatSendCounter := n.repeatSendCounter + 1 } :=
      ⟨⟨holds.handler, holds.counter, holds.file⟩, congrArg (· + 1) holds.repeats, holds.started,
        holds.size, holds.held⟩
    simp only [Net.pleaseRepeat, Sender.answer, ge_iff_le, holds.repeats]
    by_cases many : maximumRepeats ≤ s.repeats + 1
    · rw [if_pos many, if_pos many]
      -- Too many repetitions in a row end the transfer, and only a text goes out.
      refine meets_complete ?_ ms
      rw [Net.xmprintf_packets]
    · -- The packet goes out once more, from the buffer that still holds its block.
      rw [if_neg many, if_neg many]
      rw [holds.repeats] at counted
      exact counted.meets_send rfl rfl

/-- If one request is met as a sender answers it, and all later ones are, then all of them are. -/
theorem Net.answers_cons (handler : n.infoHandler = true) {a : Asked} {ms : Nat}
    (alone : n.packetsFed crc16 a ms = answerBytes crc16 data (s.answer data a).1)
    (meets : Meets crc16 data (s.answer data a) n (n.asked crc16 a ms))
    (requests : List (Asked × Nat))
    (later : ∀ s', (s.answer data a).2 = some s' → (n.asked crc16 a ms).answers crc16 requests =
      (Sender.answers data (requests.map Prod.fst) (some s')).map (answerBytes crc16 data)) :
    n.answers crc16 ((a, ms) :: requests) =
      (Sender.answers data (a :: requests.map Prod.fst) (some s)).map (answerBytes crc16 data) := by
  simp only [Net.answers, handler, if_true, List.map_cons, Sender.answers, alone]
  -- The transfer goes on as the sender does, or both have ended.
  cases next : (s.answer data a).2 with
  | some s' => rw [later s' next]
  | none =>
    have ended : (n.asked crc16 a ms).answers crc16 requests = [] := by
      cases requests <;> simp [Net.answers, meets.ends next]
    rw [ended]
    cases requests <;> rfl

/-- The packets fed in answer to requests are those a sender answers with. -/
theorem Holds.answers (holds : Holds data s n) (crc16 : List UInt8 → UInt16)
    (requests : List (Asked × Nat)) :
    n.answers crc16 requests =
      (Sender.answers data (requests.map Prod.fst) (some s)).map (answerBytes crc16 data) := by
  -- The induction is for every sender and every state that holds what the sender sent.
  induction requests generalizing s n with
  | nil => rfl
  | cons request requests ih =>
    obtain ⟨a, ms⟩ := request
    have alone : Holds data s { n with rb := [], clientConnected := true } :=
      ⟨⟨holds.handler, holds.counter, holds.file⟩, holds.repeats, holds.started, holds.size, holds.held⟩
    have fed : n.packetsFed crc16 a ms = answerBytes crc16 data (s.answer data a).1 :=
      (alone.meets a ms).feeds rfl rfl
    have meets := @Holds.meets crc16 data s n holds a ms
    exact Net.answers_cons holds.handler fed meets requests fun s' next => ih (meets.goesOn s' next)

/-- What a sender can answer to a request, and what becomes of it. -/
theorem Sender.answer_cases (data : List UInt8) (s : Sender) (a : Asked) :
    s.answer data a = (none, none) ∨ s.answer data a = (none, some ⟨s.sent, 0⟩) ∨
      (∃ pn, a = .again pn) ∧ s.answer data a = (some s.sent, some ⟨s.sent, s.repeats + 1⟩) ∨
      blockSize * s.sent < data.length ∧
        s.answer data a = (some (s.sent + 1), some ⟨s.sent + 1, 0⟩) := by
  cases a with
  | finish => exact .inl rfl
  | next pn =>
    simp only [Sender.answer]
    split
    · exact .inr (.inl rfl)
    · split
      · rename_i more
        exact .inr (.inr (.inr ⟨more, rfl⟩))
      · exact .inl rfl
  | again pn =>
    simp only [Sender.answer]
    split
    · exact .inl rfl
    · exact .inr (.inr (.inl ⟨⟨pn, rfl⟩, rfl⟩))

variable (data) in
/--
Numbers of packets as they are asked for: every number names a block of the file.

They never decrease, start at 1 and grow by at most one.
-/
structure Numbered (ks : List (Option Nat)) : Prop where
  names : ∀ k, some k ∈ ks → 1 ≤ k ∧ blockSize * (k - 1) < data.length
  order : List.IsChain (fun k k' => k ≤ k' ∧ k' ≤ k + 1) (0 :: ks.filterMap id)

/-- A packet that names a block, in front of packets that do. -/
theorem names_cons {k : Nat} {ks : List (Option Nat)} (first : 1 ≤ k ∧ blockSize * (k - 1) < data.length)
    (later : ∀ k, some k ∈ ks → 1 ≤ k ∧ blockSize * (k - 1) < data.length) :
    ∀ k', some k' ∈ some k :: ks → 1 ≤ k' ∧ blockSize * (k' - 1) < data.length := by
  intro k' member
  rcases List.mem_cons.mp member with same | behind
  · obtain rfl : k' = k := Option.some.inj same
    exact first
  · exact later k' behind

/-- The answers of a sender that has sent a packet go on from its number. -/
theorem Sender.answers_numbered (requests : List Asked) {s : Sender} (started : 0 < s.sent)
    (names : blockSize * (s.sent - 1) < data.length) :
    (∀ k, some k ∈ Sender.answers data requests (some s) →
        1 ≤ k ∧ blockSize * (k - 1) < data.length) ∧
      List.IsChain (fun k k' => k ≤ k' ∧ k' ≤ k + 1)
        (s.sent :: (Sender.answers data requests (some s)).filterMap id) := by
  induction requests generalizing s with
  | nil => simp [Sender.answers]
  | cons a requests ih =>
    simp only [Sender.answers]
    rcases s.answer_cases data a with ended | stale | ⟨-, again⟩ | ⟨more, next⟩
    · -- Behind the end of the transfer nothing is answered.
      rw [ended]
      cases requests <;> simp [Sender.answers]
    · -- No packet goes out, and the number stays.
      rw [stale]
      obtain ⟨exist, order⟩ := ih (s := ⟨s.sent, 0⟩) started names
      exact ⟨by simpa using exist, by simpa using order⟩
    · -- The same number once more.
      rw [again]
      obtain ⟨exist, order⟩ := ih (s := ⟨s.sent, s.repeats + 1⟩) started names
      exact ⟨names_cons ⟨started, names⟩ exist, by simpa using order⟩
    · -- The next number, since there is another block.
      rw [next]
      obtain ⟨exist, order⟩ := ih (s := ⟨s.sent + 1, 0⟩) (Nat.succ_pos _) (by simpa using more)
      exact ⟨names_cons ⟨Nat.succ_pos _, by simpa using more⟩ exist, by simpa using order⟩

/-- A successful `get` starts a transfer from the first block, whatever was left behind. -/
theorem Net.lfGetFile_ready {left : Net} {g : GetIn} {name : String} (opened : g.opened = some data)
    (success : (left.lfGetFile g name).1 = 0) : Ready data 0 (left.lfGetFile g name).2 := by
  unfold lfGetFile at success ⊢
  split at success
  · simp at success
  · split at success
    · simp at success
    · rw [opened] at success ⊢
      simp only at success ⊢
      -- What the assertion may have printed stays in the ring.
      generalize left.mxatClosed g = left at success ⊢
      split at success
      · simp at success
      · rename_i writing bad empty
        rw [if_neg writing, if_neg bad, if_neg empty]
        -- The answer is fed last, and touches none of the counters.
        have same := ethFeed_frame { left with
          ethFile := some ⟨name, data, 0⟩
          ethFileSize := data.length
          ethFileBytesCounter := 0
          sendFilePacketsCounter := 0
          enableEthOutput := false
          infoHandler := true
          ethFileStartTime := g.ms } .text
            (ascii ((if true then "ack," else "nak,") ++ toString (wrap32 data.length) ++ "\r\n"))
        exact ⟨by simp [ethACK], (congrArg Net.sendFilePacketsCounter same :), name, by simp [ethACK]⟩

variable (crc16) in
/-- A sequence of requests is answered by blocks of the file, the same ones whatever was left behind. -/
def BlocksAgree (data : List UInt8) (requests : List (Asked × Nat)) : Prop :=
  ∃ ks, Numbered data ks ∧
    ∀ (left : Net) (g : GetIn) (name : String), g.opened = some data →
      (left.lfGetFile g name).1 = 0 →
        (left.lfGetFile g name).2.answers crc16 requests = ks.map (answerBytes crc16 data)

/-- The first request, if it does not ask for a repetition, is answered as a sender does. -/
theorem Ready.meets (ready : Ready data 0 n) {a : Asked} (first : ∀ pn, a ≠ .again pn) (ms : Nat) :
    Meets crc16 data (Sender.answer data ⟨0, 0⟩ a) n (n.asked crc16 a ms) := by
  cases a with
  | again pn => exact absurd rfl (first pn)
  | next pn =>
    have due : ¬ 0 % 2 ^ 32 > pn := by omega
    rw [Sender.answer, if_neg due]
    exact ready.meets_next due ms
  | finish => exact meets_finish crc16 data n ms

/-- From the first request on, a transfer answers as a sender does. -/
theorem Ready.answers (ready : Ready data 0 n) (crc16 : List UInt8 → UInt16)
    {requests : List (Asked × Nat)}
    (first : ∀ request ∈ requests.head?, ∀ pn, request.1 ≠ .again pn) :
    n.answers crc16 requests =
      (Sender.answers data (requests.map Prod.fst) (some ⟨0, 0⟩)).map (answerBytes crc16 data) := by
  cases requests with
  | nil => rfl
  | cons request requests =>
    obtain ⟨a, ms⟩ := request
    have start := first _ rfl
    have alone : Ready data 0 { n with rb := [], clientConnected := true } :=
      ⟨ready.handler, ready.counter, ready.file⟩
    have fed : n.packetsFed crc16 a ms = answerBytes crc16 data (Sender.answer data ⟨0, 0⟩ a).1 :=
      (alone.meets start ms).feeds rfl rfl
    have meets := @Ready.meets crc16 data n ready a start ms
    -- Behind the first answer the transfer holds a block.
    exact Net.answers_cons ready.handler fed meets requests fun s' next =>
      (meets.goesOn s' next).answers crc16 requests

/-- The answers of a sender to requests that do not begin with a repetition are numbered as asked. -/
theorem Sender.numbered {requests : List Asked}
    (first : ∀ a ∈ requests.head?, ∀ pn, a ≠ .again pn) :
    Numbered data (Sender.answers data requests (some ⟨0, 0⟩)) := by
  cases requests with
  | nil => exact ⟨by simp [Sender.answers], by simp [Sender.answers]⟩
  | cons a requests =>
    simp only [Sender.answers]
    rcases Sender.answer_cases data ⟨0, 0⟩ a with ended | stale | ⟨⟨pn, again⟩, -⟩ | ⟨more, next⟩
    · rw [ended]
      constructor <;> cases requests <;> simp [Sender.answers]
    · -- Nothing is stale before the first block.
      cases a with
      | next pn => simp [Sender.answer] at stale; split at stale <;> simp at stale
      | again pn => exact absurd rfl (first _ rfl pn)
      | finish => simp [Sender.answer] at stale
    · exact absurd again (first _ rfl pn)
    · -- The first packet of the transfer is number 1.
      rw [next]
      obtain ⟨exist, order⟩ := Sender.answers_numbered requests (s := ⟨0 + 1, 0⟩) (Nat.succ_pos _)
        (by simpa using more)
      exact ⟨names_cons ⟨le_refl _, by simpa using more⟩ exist, by simpa using order⟩

/-- Before the first block, and after a restart, a request to repeat is answered by a packet 0. -/
theorem Net.packetsFed_again (counter : n.sendFilePacketsCounter = 0)
    (repeats : n.repeatSendCounter = 0) (size : n.fileReadInfoSize = 0) (pn ms : Nat) :
    n.packetsFed crc16 (.again pn) ms = mark (.packet 0) (packetImage crc16 0 []) := by
  show (Net.pleaseRepeat crc16 ms _).rb.filter isPacket = _
  -- One repetition is allowed, and it sends what the buffer holds for a block of no bytes.
  have few : ¬ n.repeatSendCounter + 1 ≥ maximumRepeats := by
    rw [repeats]
    decide
  simp only [Net.pleaseRepeat, if_neg few, size, counter]
  obtain ⟨rbBuf, -, fed⟩ := Net.sendEthPacket_eq crc16
    { n with rb := [], clientConnected := true, repeatSendCounter := n.repeatSendCounter + 1 }
    (Nat.zero_le blockSize) 0
  have nothing (buf : Mem) : buf.read ethHeaderSize 0 = [] := rfl
  simp only [size, counter, nothing] at fed
  rw [fed, Net.ethFeed_fits rfl _ (by simp [packetImage_length, ethHeaderSize, ethRbSize])]
  show ([] ++ mark (Origin.packet 0) (packetImage crc16 0 [])).filter isPacket = _
  rw [List.nil_append, mark_packets]

/-- The state after a successful `get` on a Teensy that was just started. -/
theorem Net.booted_lfGetFile (nonempty : data ≠ []) :
    let m := Net.booted.lfGetFile ⟨false, .lfSGood, "", some data, 0, none⟩ "a"
    m.1 = 0 ∧ m.2.repeatSendCounter = 0 ∧ m.2.fileReadInfoSize = 0 := by
  have positive : ¬ data.length = 0 := by simpa using nonempty
  simp only [lfGetFile, positive, if_false, Bool.false_eq_true, ne_eq, not_true_eq_false]
  exact ⟨trivial, rfl, rfl⟩

/-- Requests that begin with one to repeat are answered by a packet 0, which names no block. -/
theorem not_blocksAgree_again (crc16 : List UInt8 → UInt16) (nonempty : data ≠ []) (pn ms : Nat)
    (requests : List (Asked × Nat)) : ¬ BlocksAgree crc16 data ((.again pn, ms) :: requests) := by
  rintro ⟨ks, numbered, same⟩
  obtain ⟨success, repeats, size⟩ := Net.booted_lfGetFile nonempty
  -- On a Teensy that was just started, the first answer is a packet 0.
  have ready := Net.lfGetFile_ready rfl success
  have answers := same _ _ _ rfl success
  rw [Net.answers, if_pos ready.handler, Net.packetsFed_again ready.counter repeats size] at answers
  obtain ⟨k, rest, rfl, zero, -⟩ := List.map_eq_cons_iff.mp answers.symm
  cases k with
  | none =>
    -- An empty answer has no header.
    have lengths := congrArg List.length zero
    simp [answerBytes, packetImage_length, ethHeaderSize] at lengths
  | some k =>
    -- The first byte of the packet tells its number.
    have positive := (numbered.names k (by simp)).1
    have first : (⟨0x54, .packet 0, true⟩ : WByte) ∈ packetOf crc16 data k := by
      rw [show packetOf crc16 data k = _ from zero]
      exact List.mem_cons_self
    have number := kind_of_mem_mark first
    simp only [Origin.packet.injEq] at number
    omega

/--
The packets of a transfer carry the blocks of their numbers, whatever was left behind, exactly if
the first request is not one to repeat.
-/
theorem blocks_agree_iff (crc16 : List UInt8 → UInt16) (nonempty : data ≠ [])
    (requests : List (Asked × Nat)) :
    BlocksAgree crc16 data requests ↔
      ∀ request ∈ requests.head?, ∀ pn, request.1 ≠ .again pn := by
  constructor
  · -- A request to repeat at the head is answered by a packet that names no block.
    intro agree request isHead pn asks
    obtain ⟨a, ms⟩ := request
    obtain ⟨later, rfl⟩ : ∃ later, requests = (a, ms) :: later :=
      ⟨requests.tail, (List.cons_head?_tail isHead).symm⟩
    simp only at asks
    subst asks
    exact not_blocksAgree_again crc16 nonempty pn ms later agree
  · -- The numbers are those of a sender that starts with nothing sent.
    intro first
    have start : ∀ a ∈ (requests.map Prod.fst).head?, ∀ pn, a ≠ .again pn := by
      intro a isHead
      rw [List.head?_map] at isHead
      obtain ⟨request, member, rfl⟩ := Option.mem_map.mp isHead
      exact first request member
    exact ⟨_, Sender.numbered start, fun left g name opened success =>
      (Net.lfGetFile_ready opened success).answers crc16 first⟩

/-- A short file is asked for, and its only packet is repeated once. -/
theorem blocks_agree_short :
    BlocksAgree checksum [1, 2, 3] [(.next 0, 5), (.again 0, 7), (.finish, 9)] :=
  (blocks_agree_iff checksum (by decide) _).mpr (by simp)

/-- Asked to repeat before the first block, the Teensy sends a packet 0, whatever the CRC is. -/
theorem packet_zero :
    ¬ ∃ crc16 : List UInt8 → UInt16, BlocksAgree crc16 [1, 2, 3] [(.again 0, 0)] := by
  rintro ⟨crc16, agree⟩
  exact not_blocksAgree_again crc16 (by decide) 0 0 [] agree

end

end Teetest
