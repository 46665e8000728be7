import Teetest.Transfer.System

/-!
The framing of what the console writes, as the read loop of `ethLoop` sees it.

TCP may merge and split the messages, and each read is taken for one message.
-/

namespace Teetest

open Lib

/-- A call that the read loop makes on behalf of the console. -/
inductive Call
  | infoHandler (r : GFrequest) (pn : Nat)
  | processTheCommand (s : List UInt8)
deriving DecidableEq

/-- The call an action of the read loop consists of, if any. -/
def Action.call : Action → Option Call
  | .handler r pn => some (.infoHandler r pn)
  | .command s => some (.processTheCommand s)
  | .greet | .report _ => none

/-- The calls that the read loop makes, in order. -/
def Net.calls (h : Hooks) (ms : Nat) : List Incoming → Net → List Call
  | [], _ => []
  | i :: is, n =>
    let action := dispatch n.infoHandler i.packet
    action.call.toList ++ Net.calls h ms is (n.perform h i.sd ms action).1

/-- Results of `client.read` during which the SD card can be read. -/
def incoming (pieces : List (List UInt8)) : List Incoming := pieces.map (⟨·, .full⟩)

/-- Two ways to cut a stream lead to the same calls, whatever the calls do and whatever state they start from. -/
def SameCalls (reads msgs : List (List UInt8)) : Prop :=
  ∀ (h : Hooks) (ms : Nat) (n : Net),
    n.calls h ms (incoming reads) = n.calls h ms (incoming msgs)

/-- What the dispatch looks at in a piece: its C string, and the request it is to a handler. -/
structure Look where
  text : List UInt8
  request : Option (GFrequest × Nat)
deriving DecidableEq

/-- The request a piece is, if a handler is installed. -/
def request (packet : List UInt8) : Option (GFrequest × Nat) :=
  match dispatch true packet with
  | .handler r pn => some (r, pn)
  | _ => none

/-- What the dispatch finds in a piece. -/
def lookAt (packet : List UInt8) : Look := ⟨cstr packet, request packet⟩

/-- The look at a piece, if it is not taken for the line of a new console. -/
def look (packet : List UInt8) : Option Look :=
  if consoleWord.isPrefixOf packet then none else some (lookAt packet)

/-- The pieces that are not taken for the line of a new console. -/
def notGreeting (pieces : List (List UInt8)) : List (List UInt8) :=
  pieces.filter fun p => !consoleWord.isPrefixOf p

/-- A look that is taken is the look at the piece. -/
theorem lookAt_of_look {packet : List UInt8} {l : Look} (seen : look packet = some l) :
    l = lookAt packet := by
  unfold look at seen
  split at seen
  · cases seen
  · exact (Option.some.inj seen).symm

theorem notGreeting_cons_none {packet : List UInt8} (unseen : look packet = none)
    (pieces : List (List UInt8)) : notGreeting (packet :: pieces) = notGreeting pieces := by
  unfold look at unseen
  split at unseen
  · -- The piece is filtered out.
    rename_i greeting
    simp [notGreeting, greeting]
  · cases unseen

theorem notGreeting_cons_some {packet : List UInt8} {l : Look} (seen : look packet = some l)
    (pieces : List (List UInt8)) :
    notGreeting (packet :: pieces) = packet :: notGreeting pieces := by
  unfold look at seen
  split at seen
  · cases seen
  · rename_i other
    -- The piece is kept.
    simp [notGreeting, other]

/-- The action on a piece that was looked at. -/
def Look.action (l : Look) (infoHandler : Bool) : Action :=
  if infoHandler then
    match l.request with
    | some (r, pn) => .handler r pn
    | none => .report l.text
  else .command l.text

/-- The dispatch depends on a look at the piece. -/
theorem dispatch_of_look {packet : List UInt8} {l : Look} (seen : look packet = some l)
    (infoHandler : Bool) : dispatch infoHandler packet = l.action infoHandler := by
  unfold look at seen
  split at seen
  · cases seen
  · rename_i other
    cases seen
    -- Without a handler the text is all that counts, with one the request is.
    cases infoHandler
    · simp [dispatch, Look.action, lookAt, other]
    · simp only [Look.action, lookAt, request, dispatch, other]
      split_ifs <;> simp_all

/-- A piece without a look is a greeting. -/
theorem dispatch_of_greeting {packet : List UInt8} (unseen : look packet = none)
    (infoHandler : Bool) : dispatch infoHandler packet = .greet := by
  unfold look at unseen
  split at unseen
  · rename_i greeting
    simp [dispatch, greeting]
  · cases unseen

/-- The calls for pieces that were looked at. -/
def Net.lookCalls (h : Hooks) (ms : Nat) : List Look → Net → List Call
  | [], _ => []
  | l :: ls, n =>
    let action := l.action n.infoHandler
    action.call.toList ++ Net.lookCalls h ms ls (n.perform h .full ms action).1

/-- The calls depend on the looks at the pieces. -/
theorem Net.calls_eq (h : Hooks) (ms : Nat) (pieces : List (List UInt8)) (n : Net) :
    n.calls h ms (incoming pieces) = n.lookCalls h ms (pieces.filterMap look) := by
  induction pieces generalizing n with
  | nil => rfl
  | cons p pieces ih =>
    simp only [incoming, List.map_cons, calls] at ih ⊢
    cases seen : look p with
    | none =>
      -- A greeting is answered without a call, and changes nothing.
      rw [dispatch_of_greeting seen, List.filterMap_cons_none seen]
      exact ih n
    | some l =>
      -- Any other piece leads to the call of its look.
      rw [dispatch_of_look seen, List.filterMap_cons_some seen, ih]
      rfl

/--
Hooks that tell two sequences of looks apart.

The handler is installed once `aliveTime` commands were processed, and removed by its first request.
-/
def probe : Hooks where
  infoHandler := fun _ _ _ _ n => { n with infoHandler := false, aliveTime := 0 }
  processTheCommand := fun _ n =>
    { n with infoHandler := decide (n.aliveTime = 1), aliveTime := n.aliveTime - 1 }

/-- Without a handler, and with none to come, every look leads to a command. -/
theorem Net.probe_off (ms : Nat) (ls : List Look) {n : Net} (off : n.infoHandler = false)
    (never : n.aliveTime = 0) :
    n.lookCalls probe ms ls = ls.map (.processTheCommand ·.text) := by
  -- The induction keeps both facts: no command installs a handler once the count is down.
  induction ls generalizing n with
  | nil => rfl
  | cons l ls ih =>
    simp only [lookCalls, Look.action, off, Bool.false_eq_true, if_false, Action.call,
      Option.toList_some, List.singleton_append, List.map_cons, List.cons.injEq, true_and]
    exact ih (by simp [perform, probe, never]) (by simp [perform, probe, never])

/-- With the handler installed, a look leads to at most one call. -/
theorem Net.probe_length_le (ms : Nat) (ls : List Look) (n : Net) :
    (n.lookCalls probe ms ls).length ≤ ls.length := by
  induction ls generalizing n with
  | nil => simp [lookCalls]
  | cons l ls ih =>
    simp only [lookCalls, List.length_append, List.length_cons]
    -- Whatever state the first look leaves, the rest adds at most a call for each look.
    have later := ih (n.perform probe .full ms (l.action n.infoHandler)).1
    have one : (l.action n.infoHandler).call.toList.length ≤ 1 := Option.length_toList_le
    omega

/-- A state in which the handler is installed after so many commands. -/
def Net.armed (n : Net) (after : Nat) : Net :=
  { n with infoHandler := decide (after = 0), aliveTime := after }

/-- A command counts down to the handler. -/
theorem Net.lookCalls_armed_succ (ms : Nat) (l : Look) (ls : List Look) (n : Net) (after : Nat) :
    (n.armed (after + 1)).lookCalls probe ms (l :: ls) =
      .processTheCommand l.text :: (n.armed after).lookCalls probe ms ls := by
  simp [lookCalls, armed, Look.action, Action.call, perform, probe]

/-- A request that meets the handler is the only one that does. -/
theorem Net.lookCalls_armed_request (ms : Nat) {l : Look} {r : GFrequest} {pn : Nat}
    (request : l.request = some (r, pn)) (ls : List Look) (n : Net) :
    (n.armed 0).lookCalls probe ms (l :: ls) =
      .infoHandler r pn :: ls.map (.processTheCommand ·.text) := by
  simp only [lookCalls, armed, Look.action, request, decide_true, if_true, Action.call,
    Option.toList_some, List.singleton_append, List.cons.injEq, true_and]
  exact Net.probe_off ms ls rfl rfl

/-- What is no request does not reach the handler. -/
theorem Net.lookCalls_armed_other (ms : Nat) {l : Look} (request : l.request = none)
    (ls : List Look) (n : Net) :
    (n.armed 0).lookCalls probe ms (l :: ls) = (n.armed 0).lookCalls probe ms ls := by
  simp [lookCalls, armed, Look.action, request, Action.call, perform]

/-- The probe tells any two sequences of looks apart. -/
theorem looks_of_calls (ms : Nat) (n : Net) {xs ys : List Look}
    (same : ∀ after, (n.armed after).lookCalls probe ms xs =
      (n.armed after).lookCalls probe ms ys) : xs = ys := by
  -- A count of one or more lets a command through, which shows the text of the first look.
  induction xs generalizing ys with
  | nil =>
    cases ys with
    | nil => rfl
    | cons y ys =>
      -- A command is called for on one side only.
      have one := same 1
      rw [Net.lookCalls_armed_succ] at one
      cases one
  | cons x xs ih =>
    cases ys with
    | nil =>
      have one := same 1
      rw [Net.lookCalls_armed_succ] at one
      cases one
    | cons y ys =>
      have shifted (after : Nat) := same (after + 1)
      simp only [Net.lookCalls_armed_succ, List.cons.injEq, Call.processTheCommand.injEq] at shifted
      have text : x.text = y.text := (shifted 0).1
      have tails : xs = ys := ih fun after => (shifted after).2
      subst tails
      -- The heads meet the handler, and a call less shows that one of them is no request.
      have first := same 0
      have request : x.request = y.request := by
        cases xRequest : x.request with
        | none =>
          -- The induction is on the first sequence, and the probe is armed for every count.
          cases yRequest : y.request with
          | none => rfl
          | some r =>
            rw [Net.lookCalls_armed_other ms xRequest, Net.lookCalls_armed_request ms yRequest] at first
            have short := Net.probe_length_le ms xs (n.armed 0)
            simp [first] at short
        | some r =>
          cases yRequest : y.request with
          | none =>
            rw [Net.lookCalls_armed_request ms xRequest, Net.lookCalls_armed_other ms yRequest] at first
            have short := Net.probe_length_le ms xs (n.armed 0)
            simp [← first] at short
          | some r' =>
            rw [Net.lookCalls_armed_request ms xRequest, Net.lookCalls_armed_request ms yRequest] at first
            simp only [List.cons.injEq, Call.infoHandler.injEq, and_true] at first
            rw [Prod.ext_iff.mpr first]
      -- Text and request are all of a look.
      cases x
      cases y
      simp_all

/-- A state to start from. -/
def Net.idle : Net where
  ethStatus := .sEthGood
  linkStatus := .linkON
  clientConnected := true
  client := true
  infoHandler := false
  rb := []
  aliveTime := 0
  enableEthOutput := true
  ethFile := none
  ethFileSize := 0
  ethFileBytesCounter := 0
  sendFilePacketsCounter := 0
  repeatSendCounter := 0
  fileReadInfoSize := 0
  sfwState := .sfwStart
  ethFileStartTime := 0
  rbBuf := fun _ => 0

/-- Two ways to cut a stream lead to the same calls exactly if the looks at the pieces are the same. -/
theorem sameCalls_iff_looks (reads msgs : List (List UInt8)) :
    SameCalls reads msgs ↔ reads.filterMap look = msgs.filterMap look := by
  constructor
  · -- The probe is one of the hooks, and the armed states are states to start from.
    intro same
    refine looks_of_calls 0 .idle fun after => ?_
    rw [← Net.calls_eq, ← Net.calls_eq]
    exact same probe 0 _
  · -- The calls are read off the looks.
    intro looks h ms n
    rw [Net.calls_eq, Net.calls_eq, looks]

/-- A text that the console sends: `do_write` sends nothing for an empty one, and stops at a NUL. -/
structure Text where
  bytes : List UInt8
  written : bytes ≠ []
  plain : 0 ∉ bytes

/-- A message of the console. -/
inductive Message
  | text (t : Text)
  | tbwf (number : Int)
  | tbwn (number : Int)
  -- the end of a received file; behind the head and a zero stand eleven bytes of the last packet
  | teee (left : List.Vector UInt8 11)

/-- The bytes of a message. -/
def Message.bytes : Message → List UInt8
  | .text t => t.bytes
  | .tbwf number => control Teetest.tbwf number
  | .tbwn number => control Teetest.tbwn number
  | .teee left => Teetest.teee ++ 0 :: left.toList

/-- The line a console sends first. -/
def consoleLine : List UInt8 := ascii "console\r\n"

/-- A message that is not taken for the line of a new console. -/
def Message.Plain (m : Message) : Prop := consoleWord.isPrefixOf m.bytes = false
deriving Decidable

/-- A message is a text, or it has a head of four bytes, a NUL behind it and eleven bytes more. -/
theorem Message.bytes_cases (m : Message) :
    0 ∉ m.bytes ∨ ∃ head left, m.bytes = head ++ 0 :: left ∧ 0 ∉ head ∧ head.length = 4 ∧
      left.length = 11 ∧ (request m.bytes).isSome := by
  cases m with
  | text t => exact .inl t.plain
  | tbwf number =>
    refine .inr ⟨Teetest.tbwf, _, rfl, by decide, rfl, rfl, ?_⟩
    simp [request, dispatch, bytes, control, Teetest.tbwf, consoleWord]
  | tbwn number =>
    refine .inr ⟨Teetest.tbwn, _, rfl, by decide, rfl, rfl, ?_⟩
    simp [request, dispatch, bytes, control, Teetest.tbwf, Teetest.tbwn, consoleWord]
  | teee left =>
    refine .inr ⟨Teetest.teee, left.toList, rfl, by decide, rfl, left.toList_length, ?_⟩
    simp [request, dispatch, bytes, Teetest.teee, Teetest.tbwf, Teetest.tbwn, consoleWord]

/-- Every request has at least sixteen bytes. -/
theorem request_length {packet : List UInt8} (isRequest : (request packet).isSome) :
    16 ≤ packet.length := by
  by_contra short
  simp only [request, dispatch, short, false_and, if_false, if_true] at isRequest
  split_ifs at isRequest <;> simp at isRequest

/-- A piece that looks like a message is at least as long. -/
theorem lookAt_length {r : List UInt8} {m : Message} (same : lookAt r = lookAt m.bytes) :
    m.bytes.length ≤ r.length := by
  -- A text is compared with the C string of the piece, a request by its least length.
  rcases m.bytes_cases with plain | ⟨head, left, bytes, _, short, rest, isRequest⟩
  · have text : cstr r = m.bytes := (congrArg Look.text same).trans (cstr_of_text plain)
    exact text ▸ cstr_length_le r
  · have long := request_length (congrArg Look.request same ▸ isRequest : (lookAt r).request.isSome)
    simp only [bytes, List.length_append, List.length_cons]
    omega

/-- Pieces that look like the messages have at least as many bytes. -/
theorem looks_length {rs : List (List UInt8)} {ms : List Message}
    (looks : rs.filterMap look = ms.map (lookAt ·.bytes)) :
    (ms.map Message.bytes).flatten.length ≤ rs.flatten.length := by
  induction rs generalizing ms with
  | nil =>
    rw [List.map_eq_nil_iff.mp looks.symm]
    simp
  | cons r rs ih =>
    cases seen : look r with
    | none =>
      -- A greeting adds bytes and no look.
      rw [List.filterMap_cons_none seen] at looks
      have later := ih looks
      simp only [List.flatten_cons, List.length_append]
      omega
    | some l =>
      rw [List.filterMap_cons_some seen] at looks
      obtain ⟨m, ms, rfl, head, tail⟩ := List.map_eq_cons_iff.mp looks.symm
      -- The look belongs to the next message.
      have first := lookAt_length ((lookAt_of_look seen).symm.trans head.symm)
      have later := ih tail.symm
      simp only [List.map_cons, List.flatten_cons, List.length_append]
      omega

/-- A request has a NUL behind its head and a text in front of it reaches up to that. -/
theorem text_nil_of_begins {t head left r : List UInt8} (plain : 0 ∉ t) (closed : 0 ∉ head)
    (long : head.length < r.length) (within : r <+: t ++ (head ++ 0 :: left))
    (same : cstr r = head) : t = [] := by
  -- A C string that ends before the piece does ends at a NUL of the piece.
  have nul : 0 ∈ r := by
    by_contra none
    rw [cstr_of_text none] at same
    simp [same] at long
  obtain ⟨rest, whole⟩ := within
  have text : cstr r = t ++ head := by
    rw [← cstr_append_of_mem nul rest, whole, cstr_append plain, cstr_closed closed]
  exact List.append_left_eq_self.mp (text.symm.trans same)

/-- Behind a text, pieces that look like the messages are the messages and pieces of greetings. -/
theorem pieces_behind_text {t : List UInt8} {rs : List (List UInt8)} {ms : List Message}
    (plain : 0 ∉ t) (stream : t ++ (ms.map Message.bytes).flatten = rs.flatten)
    (looks : rs.filterMap look = ms.map (lookAt ·.bytes)) :
    notGreeting rs = ms.map Message.bytes := by
  -- The induction carries a text that is still to be read in front of the messages.
  induction rs generalizing t ms with
  | nil =>
    rw [List.map_eq_nil_iff.mp looks.symm]
    rfl
  | cons r rs ih =>
    have total := congrArg List.length stream
    cases seen : look r with
    | none =>
      rw [List.filterMap_cons_none seen] at looks
      have later := looks_length looks
      simp only [List.flatten_cons, List.length_append] at total stream
      -- The greeting ends within the text.
      obtain ⟨t', rfl⟩ : r <+: t :=
        List.prefix_of_prefix_length_le ⟨_, stream.symm⟩ (List.prefix_append _ _) (by omega)
      rw [List.append_assoc, List.append_cancel_left_eq] at stream
      rw [notGreeting_cons_none seen]
      exact ih (fun zero => plain (by simp [zero])) stream looks
    | some l =>
      rw [List.filterMap_cons_some seen] at looks
      obtain ⟨m, ms, rfl, head, tail⟩ := List.map_eq_cons_iff.mp looks.symm
      have same := (lookAt_of_look seen).symm.trans head.symm
      have first := lookAt_length same
      have later := looks_length tail.symm
      rw [notGreeting_cons_some seen, List.map_cons]
      simp only [List.map_cons, List.flatten_cons, List.length_append] at total stream
      -- The piece ends within the text and the next message.
      obtain ⟨t', split⟩ : r <+: t ++ m.bytes :=
        List.prefix_of_prefix_length_le ⟨_, stream.symm⟩
          ⟨_, List.append_assoc t m.bytes _⟩ (by simp; omega)
      rw [← List.append_assoc, ← split, List.append_assoc, List.append_cancel_left_eq] at stream
      rcases m.bytes_cases with mPlain | ⟨h, left, bytes, closed, short, rest, isRequest⟩
      · -- Texts come one behind the other, and each piece is the text it looks like.
        have noNul : 0 ∉ r ++ t' := by
          rw [split]
          simp [plain, mPlain]
        simp only [List.mem_append, not_or] at noNul
        have text := congrArg Look.text same
        simp only [lookAt, cstr_of_text noNul.1, cstr_of_text mPlain] at text
        rw [text, ih noNul.2 stream tail.symm]
      · -- A control message is met at its head only, so no text is left in front of it.
        have text : cstr r = h := by
          have both := congrArg Look.text same
          simpa only [lookAt, bytes, cstr_closed closed] using both
        have long := request_length (congrArg Look.request same ▸ isRequest : (lookAt r).request.isSome)
        have none : t = [] := @text_nil_of_begins t h left r plain closed (by omega)
          ⟨t', bytes ▸ split⟩ text
        subst none
        -- Both have the length of the whole message, so the piece ends where the message does.
        have whole : r = m.bytes ∧ t' = [] := by
          rw [List.nil_append] at split
          have lengths := congrArg List.length split
          have ends : t'.length = 0 := by simp only [List.length_append] at lengths; omega
          rw [List.length_eq_zero_iff] at ends
          exact ⟨by simpa [ends] using split, ends⟩
        rw [whole.1, ih (by simp [whole.2]) stream tail.symm]

/-- The looks are the looks at the pieces that are no greetings. -/
theorem looks_eq (pieces : List (List UInt8)) :
    pieces.filterMap look = (notGreeting pieces).map lookAt := by
  induction pieces with
  | nil => rfl
  | cons p pieces ih =>
    cases seen : look p with
    | none => rw [List.filterMap_cons_none seen, notGreeting_cons_none seen, ih]
    | some l =>
      rw [List.filterMap_cons_some seen, notGreeting_cons_some seen, List.map_cons, ih,
        lookAt_of_look seen]

/-- Of a session, only the first line is a greeting. -/
theorem notGreeting_session {ms : List Message} (plain : ∀ m ∈ ms, m.Plain) :
    notGreeting (consoleLine :: ms.map Message.bytes) = ms.map Message.bytes := by
  rw [notGreeting_cons_none (by decide), notGreeting, List.filter_eq_self]
  -- A later message does not begin like the first line.
  intro p member
  obtain ⟨m, isMessage, rfl⟩ := List.mem_map.mp member
  have other : consoleWord.isPrefixOf m.bytes = false := plain m isMessage
  simp only [other, Bool.not_false]

/-- The messages of a session are read as such exactly if the pieces behind the first line are the messages. -/
theorem session_sameCalls_iff {ms : List Message} (plain : ∀ m ∈ ms, m.Plain)
    {reads : List (List UInt8)}
    (stream : reads.flatten = (consoleLine :: ms.map Message.bytes).flatten) :
    SameCalls reads (consoleLine :: ms.map Message.bytes) ↔
      notGreeting reads = ms.map Message.bytes := by
  rw [sameCalls_iff_looks, looks_eq (consoleLine :: _), notGreeting_session plain]
  constructor
  · -- The first line is the text in front of the messages.
    intro looks
    rw [List.map_map] at looks
    exact pieces_behind_text (t := consoleLine) (by decide) (by simp [stream]) looks
  · intro pieces
    rw [looks_eq, pieces]

/--
When a segmentation leads to the same calls as reads of whole messages.

The first part is about any messages, the second about a session in which no later text begins like
the first line.
-/
theorem requests_framed_iff (reads msgs : List (List UInt8)) :
    (SameCalls reads msgs ↔ reads.filterMap look = msgs.filterMap look) ∧
    ∀ ms : List Message, (∀ m ∈ ms, m.Plain) → msgs = consoleLine :: ms.map Message.bytes →
      reads.flatten = msgs.flatten →
        (SameCalls reads msgs ↔ notGreeting reads = ms.map Message.bytes) := by
  refine ⟨sameCalls_iff_looks reads msgs, fun ms plain session stream => ?_⟩
  subst session
  exact session_sameCalls_iff plain stream

/-- "play" and then "stop", as the console sends them. -/
def playStop : List Message :=
  [.text ⟨ascii "play", by decide, by decide⟩, .text ⟨ascii "stop", by decide, by decide⟩]

/-- A session is read as such if each read returns one message. -/
theorem requests_framed_playStop :
    SameCalls [consoleLine, ascii "play", ascii "stop"] (consoleLine :: playStop.map Message.bytes) :=
  ((requests_framed_iff _ _).2 playStop (by decide) rfl rfl).mpr (by decide)

/-- One read of both commands is one command, which is neither of them. -/
theorem stop_swallowed :
    [consoleLine, ascii "playstop"].flatten = (consoleLine :: playStop.map Message.bytes).flatten ∧
    ¬ SameCalls [consoleLine, ascii "playstop"] (consoleLine :: playStop.map Message.bytes) ∧
    ∀ crc16 : List UInt8 → UInt16,
      Net.idle.calls (transferHooks crc16) 0 (incoming [consoleLine, ascii "playstop"]) =
        [.processTheCommand (ascii "playstop")] ∧
      Net.idle.calls (transferHooks crc16) 0
          (incoming (consoleLine :: playStop.map Message.bytes)) =
        [.processTheCommand (ascii "play"), .processTheCommand (ascii "stop")] := by
  refine ⟨by decide, fun same => ?_, fun crc16 => ⟨rfl, rfl⟩⟩
  have calls := same (transferHooks fun _ => 0) 0 .idle
  exact absurd calls (by decide)

end Teetest
