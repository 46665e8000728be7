import Teetest.Console.Received
import Teetest.Lib.Trace

/-!
A file transfer as two parties over two reliable byte streams, with the connection staying up.

TCP may merge, split and delay the bytes of either stream in any way.
The Teensy's steps that fall into a call of `process` are taken before it, since the call answers at
its end and its polls say how much has arrived.
-/

namespace Teetest

open Lib

/-- The two parties, and the bytes under way to each of them. -/
structure Sys where
  tee : Net
  cli : Client
  down : List WByte
  up : List UInt8

/-- The steps of the two parties. -/
inductive Act
  -- one read of `ethLoop`, of `n` bytes, and what it leads to
  | teeRead (n ms : Nat)
  | teeDrain
  | teePing (ms : Nat)
  -- one call of `process` on a chunk of `n` bytes
  | cliProcess (n : Nat) (polls : List Poll)
deriving DecidableEq

/-- The outcomes of a call of `process` in which every system call succeeds. -/
def succeeds : CallIo := ⟨true, true⟩

theorem succeeds_writes : succeeds.writes = true := rfl

/-- The most bytes one `client.read` of `ethLoop` returns: `maxPacketSize - 2`. -/
def maxRead : Nat := 510

section

variable (crc16 : List UInt8 → UInt16)

/--
The hooks of `ethLoop` during a transfer.

What is read as a command once the handler is gone is a piece of a control message, and no command.
-/
def transferHooks : Hooks where
  infoHandler := Net.sendFileViaEthHandler crc16
  processTheCommand := fun _ n => n

/-- When a step can be taken. -/
def Sys.enabled (s : Sys) : Act → Prop
  | .teeRead n _ => 1 ≤ n ∧ n ≤ maxRead ∧ n ≤ s.up.length
  | .teeDrain => True
  | .teePing _ => s.tee.rb = []
  | .cliProcess n _ => 1 ≤ n ∧ n ≤ readSize ∧ n ≤ s.down.length

/-- The state after a step. -/
def Sys.next (s : Sys) : Act → Sys
  | .teeRead n ms =>
    let r := s.tee.perform (transferHooks crc16) .full ms
      (dispatch s.tee.infoHandler (s.up.take n))
    { s with tee := r.1, up := s.up.drop n, down := s.down ++ r.2 }
  | .teeDrain => { s with tee := s.tee.drain.1, down := s.down ++ s.tee.drain.2 }
  | .teePing ms => { s with tee := (s.tee.ping ms).1, down := s.down ++ (s.tee.ping ms).2 }
  | .cliProcess n polls =>
    let r := s.cli.process crc16 succeeds (bytes (s.down.take n)) ⟨s.down.drop n, polls⟩
    { s with cli := r.client, down := r.sock.inp, up := s.up ++ r.out }

/-- The step relation of the system. -/
def Step (s : Sys) (a : Act) (t : Sys) : Prop := s.enabled a ∧ t = s.next crc16 a

/-- The results of the reads of one pass, when the bytes under way are read in pieces of these sizes. -/
def readsOf : List Nat → List UInt8 → List Incoming
  | [], _ => []
  | n :: ns, up => ⟨up.take n, .full⟩ :: readsOf ns (up.drop n)

/-- The read loop of a pass is a run of read steps. -/
theorem readLoop_run (ms : Nat) (ns : List Nat) {s : Sys} (sizes : ∀ n ∈ ns, 1 ≤ n ∧ n ≤ maxRead)
    (enough : ns.sum ≤ s.up.length) :
    Run (Step crc16) s (ns.map (.teeRead · ms))
      { s with
        tee := (s.tee.readLoop (transferHooks crc16) ms (readsOf ns s.up)).1
        down := s.down ++ (s.tee.readLoop (transferHooks crc16) ms (readsOf ns s.up)).2
        up := s.up.drop ns.sum } := by
  induction ns generalizing s with
  | nil =>
    simp only [readsOf, Net.readLoop, List.append_nil, List.sum_nil, List.drop_zero, List.map_nil]
    exact .refl
  | cons n ns ih =>
    -- The first read is one step, and the later ones start from the state it leaves.
    have fits := sizes n (by simp)
    rw [List.sum_cons] at enough
    have first : Step crc16 s (.teeRead n ms) (s.next crc16 (.teeRead n ms)) :=
      ⟨⟨fits.1, fits.2, by omega⟩, rfl⟩
    have later := ih (s := s.next crc16 (.teeRead n ms))
      (fun m member => sizes m (by simp [member])) (by simp [Sys.next]; omega)
    have whole := (Run.single first).trans later
    simp only [Sys.next, List.append_assoc, List.drop_drop, List.singleton_append] at whole
    simp only [readsOf, Net.readLoop, List.sum_cons, List.map_cons]
    exact whole

/-- While the connection stays up, a pass goes on to its read loop with nothing changed. -/
theorem Net.connection_stays (h : Hooks) {i : PassIn} {n : Net} (link : i.link = n.linkStatus)
    (on : i.link ≠ .linkOFF) (client : n.client = true) (clientConnected : n.clientConnected = true)
    (connected : i.connected = true) : n.connection h i = (n, true) := by
  cases n
  simp only at link client clientConnected
  subst client clientConnected
  rw [link] at on
  simp [connection, on, connected, link]

/-- A pass that goes on reads, drains the ring and pings. -/
theorem Net.ethLoop_goes {h : Hooks} {i : PassIn} {n m : Net} (goes : n.connection h i = (m, true)) :
    n.ethLoop h i =
      let read := m.readLoop h i.ms i.reads
      let drained := read.1.drain
      let pinged := drained.1.ping i.ms
      (pinged.1, read.2 ++ drained.2 ++ pinged.2) := by
  rw [Net.ethLoop, goes]
  rfl

/-- While the connection stays up, one pass of `ethLoop` is a run of the system's steps. -/
theorem ethLoop_run {s : Sys} {i : PassIn} (ns : List Nat)
    (sizes : ∀ n ∈ ns, 1 ≤ n ∧ n ≤ maxRead) (enough : ns.sum ≤ s.up.length)
    (link : i.link = s.tee.linkStatus) (on : i.link ≠ .linkOFF) (client : s.tee.client = true)
    (clientConnected : s.tee.clientConnected = true) (connected : i.connected = true)
    (reads : i.reads = readsOf ns s.up) :
    Run (Step crc16) s (ns.map (.teeRead · i.ms) ++ [.teeDrain] ++ [.teePing i.ms])
      { s with
        tee := (s.tee.ethLoop (transferHooks crc16) i).1
        down := s.down ++ (s.tee.ethLoop (transferHooks crc16) i).2
        up := s.up.drop ns.sum } := by
  have goes := s.tee.connection_stays (transferHooks crc16) link on client clientConnected connected
  have read := readLoop_run crc16 i.ms ns sizes enough
  have drained := Run.tail (a := Act.teeDrain) read ⟨trivial, rfl⟩
  have pinged := Run.tail (a := Act.teePing i.ms) drained
    ⟨by simp only [Sys.next, Sys.enabled, Net.drain_eq], rfl⟩
  simp only [Sys.next, List.append_assoc] at pinged
  simp only [Net.ethLoop_goes goes, reads, List.append_assoc]
  exact pinged

end

end Teetest
