import Teetest.Console.Order
import Teetest.Lib.Totals
import Teetest.Src.LogFile

/-!
The progress that the client reports of a download.

It is computed whenever a packet is saved, from the number of bytes that have come.
The product is formed in an `int` before it is divided, and that is too small for the largest log files.
-/

namespace Teetest

open Lib

/-- The part of a file that has come, in whole per cent. -/
def percent (size arrived : Nat) : Nat := arrived * 100 / size

/-- The client that computes the progress: the packet in its buffer was written and counted. -/
def Client.counts (c : Client) : Client :=
  { c with
    theFile := c.theFile.map (· ++ c.packet.2)
    fileBytesCounter := wrap32 (c.fileBytesCounter + c.incomingPacketSize) }

/-- The download of a file of this size begins. -/
structure Client.Downloads (c : Client) (size : Nat) : Prop where
  state : c.readingTheLogFile = 2
  announced : c.fileSize = size
  counter : c.fileBytesCounter = 0

/-- A client at the start of the download of a file of this size. -/
def Client.downloading (size : Nat) : Client := { Client.started.transferring with fileSize := size }

theorem Client.downloading_downloads (size : Nat) : (Client.downloading size).Downloads size :=
  ⟨rfl, rfl, rfl⟩

/-- The progress is right for packets of these sizes, at each of the clients that compute it. -/
structure ProgressRight (size : Nat) (sizes : List Nat) (computed : List Client) : Prop where
  -- the product is what an `int` can hold, and something is there to divide it by
  fits : ∀ d ∈ computed, wrap32 (d.fileBytesCounter * 100) = d.fileBytesCounter * 100
  divisor : ∀ d ∈ computed, d.fileSize ≠ 0
  range : ∀ d ∈ computed, 0 ≤ progress d ∧ progress d ≤ 100
  rises : (computed.map progress).Pairwise (· ≤ ·)
  percentage : computed.map progress =
    sizes.partialSums.tail.map fun arrived => (percent size arrived : Int)

/-- The percentage does not fall while bytes arrive. -/
theorem percent_mono (size : Nat) {before after : Nat} (more : before ≤ after) :
    percent size before ≤ percent size after :=
  Nat.div_le_div_right (Nat.mul_le_mul_right 100 more)

/-- No more than the whole file arrives. -/
theorem percent_le {size arrived : Nat} (within : arrived ≤ size) : percent size arrived ≤ 100 :=
  Nat.div_le_of_le_mul (Nat.mul_le_mul_right 100 within)

/-- Where the product fits, the progress is the percentage. -/
theorem progress_eq_percent {d : Client} {size arrived : Nat} (announced : d.fileSize = size)
    (counter : d.fileBytesCounter = arrived) (fits : arrived * 100 < 2 ^ 31) :
    progress d = percent size arrived := by
  -- The product is what it is without the bound of an `int`.
  have product : wrap32 (d.fileBytesCounter * 100) = (arrived * 100 : Nat) := by
    rw [counter, wrap32_of_range (by omega) (by omega)]
    exact (Nat.cast_mul arrived 100).symm
  -- Neither number is negative, so the quotient is rounded down.
  rw [progress, product, announced, Int.tdiv_eq_ediv_of_nonneg (Int.natCast_nonneg _)]
  exact (Int.natCast_ediv _ _).symm

/-- Of more bytes than an `int` can count, no progress is reported. -/
theorem progress_nonpos {d : Client} (large : 2 ^ 31 ≤ d.fileSize) : progress d ≤ 0 := by
  have range := wrap32_range (d.fileBytesCounter * 100)
  unfold progress
  generalize wrap32 (d.fileBytesCounter * 100) = p at range ⊢
  rcases Int.le_total 0 p with nonneg | negative
  · -- The product is less than the divisor.
    exact (Int.tdiv_eq_zero_of_lt nonneg (by omega)).le
  · have positive := Int.tdiv_nonneg (Int.neg_nonneg_of_nonpos negative) (show 0 ≤ d.fileSize by omega)
    rw [Int.neg_tdiv] at positive
    omega

section

variable (crc16 : List UInt8 → UInt16)

/-- The client that computes the progress in a call of `process`, if that saves a packet. -/
def Client.computing (c : Client) (a : Chunk) : Option Client :=
  ((c.checked crc16 a).filter fun c' =>
    decide (¬ c'.incomingPacketsCounter < c'.packetsCounter)).map Client.counts

/-- The clients that compute the progress through a sequence of calls. -/
def computations : List Chunk → Client → List Client
  | [], _ => []
  | a :: later, c => (c.computing crc16 a).toList ++ computations later (c.take crc16 a)

/-- Packets of these sizes, each as a chunk, with their numbers from this one on. -/
def packetCalls : Nat → List Nat → List Chunk
  | _, [] => []
  | number, size :: later =>
    ⟨⟨true, true⟩, packetImage crc16 number (List.replicate size 0), ⟨[], []⟩⟩ ::
      packetCalls (number + 1) later

variable {crc16} {c : Client}

/-- What a call does with the counter of a transfer, by the client that computes the progress in it. -/
structure Computes (c : Client) (computing : Option Client) (c' : Client) : Prop where
  state : c'.readingTheLogFile = 2 ∨ c'.readingTheLogFile = 0
  size : c'.fileSize = c.fileSize
  none : computing = none → c'.fileBytesCounter = c.fileBytesCounter
  some : ∀ d, computing = some d → d.fileSize = c.fileSize ∧
    d.fileBytesCounter = wrap32 (c.fileBytesCounter + d.incomingPacketSize) ∧
    c'.fileBytesCounter = d.fileBytesCounter ∧
    -- what is reported is what this client computes, up to the end of the file
    c'.lastReportedProgress =
      if d.fileBytesCounter ≥ d.fileSize then 100 else d.reportProgress.lastReportedProgress

/-- A message may end the transfer, and leaves the counter and the report alone. -/
theorem Computes.sendControl {computing : Option Client} {c' : Client} (computes : Computes c computing c')
    (io : CallIo) (s : Sock) : Computes c computing (c'.sendControl io s).client := by
  rw [Client.sendControl_client]
  split_ifs
  · -- The message was written.
    exact computes
  · exact ⟨.inr rfl, computes.size, computes.none, computes.some⟩

/-- A packet is counted whatever becomes of the transfer, and the progress is computed behind that. -/
theorem Client.savePacket_computes (io : CallIo) {c' : Client} (s : Sock)
    (receives : c.readingTheLogFile = 2) {ok : Bool} (counted : Counted c ok c') :
    Computes c (some c'.counts) (c'.savePacket io s).client := by
  -- The checks have not touched the counter.
  obtain ⟨counter, size⟩ := counted.progress
  unfold savePacket
  dsimp only
  -- The report changes nothing but what was reported last.
  generalize reported : Client.reportProgress _ = w
  have computed : c'.counts.reportProgress = w := reported
  have kept : w.receiver = c'.counts.receiver := by
    rw [← computed, reportProgress_receiver]
  have state : w.readingTheLogFile = 2 :=
    (congrArg Receiver.readingTheLogFile kept).trans (counted.state.trans receives)
  have size' : w.fileSize = c'.counts.fileSize := congrArg Receiver.fileSize kept
  have counter' : w.fileBytesCounter = c'.counts.fileBytesCounter :=
    congrArg Receiver.fileBytesCounter kept
  have arrived : c'.counts.fileBytesCounter =
      wrap32 (c.fileBytesCounter + c'.counts.incomingPacketSize) := by
    rw [← counter]
    rfl
  by_cases complete : w.fileBytesCounter ≥ w.fileSize
  · -- The file is complete, and 100 per cent are noted.
    rw [if_pos complete]
    rw [counter', size'] at complete
    refine ⟨.inr rfl, size'.trans size, by simp, fun d same => ?_⟩
    cases same
    exact ⟨size, arrived, counter', (if_pos complete).symm⟩
  · rw [if_neg complete]
    rw [counter', size'] at complete
    -- The packet is acknowledged, and what was computed stays reported.
    refine Computes.sendControl ?_ io s
    refine ⟨.inl state, size'.trans size, by simp, fun d same => ?_⟩
    cases same
    refine ⟨size, arrived, counter', ?_⟩
    rw [if_neg complete, computed]

/-- A chunk that is no packet is not counted. -/
theorem Client.badPacket_computes (io : CallIo) {c' : Client} (s : Sock)
    (receives : c.readingTheLogFile = 2) {ok : Bool} (counted : Counted c ok c') :
    Computes c none (c'.badPacket io s).client := by
  obtain ⟨counter, size⟩ := counted.progress
  have state := counted.state.trans receives
  unfold badPacket
  dsimp only
  by_cases ends : c'.buf.read 0 4 = teee
  · -- The transfer is over, with what was counted until then.
    rw [if_pos ends]
    refine Computes.sendControl ?_ io _
    exact ⟨.inr rfl, size, fun _ => counter, by simp⟩
  · -- Any other chunk is only complained about.
    rw [if_neg ends]
    refine Computes.sendControl ?_ io _
    exact ⟨.inl state, size, fun _ => counter, by simp⟩

/-- A call that counts nothing and keeps the receiver leaves the transfer as it is. -/
theorem Computes.of_kept {c' : Client} (state : c.readingTheLogFile = 2 ∨ c.readingTheLogFile = 0)
    (kept : c'.receiver = c.receiver) : Computes c Option.none c' := by
  have state' : c'.readingTheLogFile = c.readingTheLogFile := congrArg Receiver.readingTheLogFile kept
  refine ⟨?_, congrArg Receiver.fileSize kept, fun _ => congrArg Receiver.fileBytesCounter kept, by simp⟩
  rwa [state']

variable (crc16) in
/-- What a call does with the counter, during a transfer and behind it. -/
theorem Client.take_computes (a : Chunk) (state : c.readingTheLogFile = 2 ∨ c.readingTheLogFile = 0) :
    Computes c (c.computing crc16 a) (c.take crc16 a) := by
  rcases state with receives | idle
  · have call := c.reply_call crc16 a receives
    show Computes c ((c.toSave crc16 a).map Client.counts) (c.reply crc16 a).client
    generalize c.toSave crc16 a = what at call ⊢
    generalize c.reply crc16 a = r at call ⊢
    -- Only a packet that is saved is counted.
    cases call with
    | keeps kept => exact .of_kept (.inl receives) kept
    | skips s' counted =>
      exact ⟨.inl (counted.state.trans receives), counted.progress.2, fun _ => counted.progress.1, by simp⟩
    | saves s' counted => exact savePacket_computes a.io s' receives counted
    | complains s' counted => exact badPacket_computes a.io s' receives counted
  · -- Behind the transfer nothing is saved, and nothing changes.
    obtain ⟨skipped, kept⟩ := c.take_idle crc16 a idle
    have nothing : c.computing crc16 a = Option.none :=
      Option.map_eq_none_iff.mpr (Option.map_eq_none_iff.mp skipped)
    rw [nothing]
    exact .of_kept (.inr idle) kept

variable (crc16) in
/-- Through a sequence of calls the counter takes the running totals of what is saved. -/
theorem computations_counted (calls : List Chunk)
    (state : c.readingTheLogFile = 2 ∨ c.readingTheLogFile = 0) :
    (∀ d ∈ computations crc16 calls c, d.fileSize = c.fileSize) ∧
      (computations crc16 calls c).map Client.fileBytesCounter =
        ((computations crc16 calls c).map Client.incomingPacketSize).partialSums.tail.map
          fun t => wrap32 (c.fileBytesCounter + t) := by
  induction calls generalizing c with
  | nil => exact ⟨by simp [computations], by simp [computations]⟩
  | cons a calls ih =>
    -- The induction follows the calls, and the counter changes along with them.
    have step := c.take_computes crc16 a state
    obtain ⟨sizes, counters⟩ := ih step.state
    simp only [computations]
    cases computing : c.computing crc16 a with
    | none =>
      -- Nothing is saved: the counter and the size are what they were.
      rw [step.none computing] at counters
      rw [step.size] at sizes
      exact ⟨sizes, counters⟩
    | some d =>
      -- The counter of the later calls begins where this one left it.
      obtain ⟨size, arrived, counter, -⟩ := step.some d computing
      simp only [Option.toList_some, List.singleton_append, List.map_cons]
      refine ⟨?_, ?_⟩
      · -- No call changes the size that was announced.
        intro d' mem
        rcases List.mem_cons.mp mem with rfl | later
        · exact size
        · exact (sizes d' later).trans step.size
      · -- Both lists have this size added in front of the later ones.
        rw [counters, tail_partialSums_cons, List.map_cons, List.map_map, counter, arrived]
        congr 1
        refine List.map_congr_left fun t _ => ?_
        -- What was stored is added to, and stored again.
        rw [Function.comp_apply, wrap32_wrap32_add, add_assoc]

/-- During a download the counter takes the running totals of the sizes. -/
theorem Client.Downloads.counted {size : Nat} (begins : c.Downloads size) {sizes : List Nat}
    {calls : List Chunk}
    (saved : (computations crc16 calls c).map Client.incomingPacketSize = sizes.map Nat.cast) :
    (∀ d ∈ computations crc16 calls c, d.fileSize = size) ∧
      (computations crc16 calls c).map Client.fileBytesCounter =
        sizes.partialSums.tail.map fun t : Nat => wrap32 t := by
  obtain ⟨announced, counters⟩ := computations_counted crc16 calls (.inl begins.state)
  refine ⟨fun d mem => (announced d mem).trans begins.announced, ?_⟩
  -- The sizes are natural numbers, and the counter begins at 0.
  have casts : (sizes.map (Nat.cast : Nat → Int)).partialSums = sizes.partialSums.map Nat.cast :=
    partialSums_map (Nat.castAddMonoidHom Int) sizes
  rw [counters, saved, casts, begins.counter, ← List.map_tail, List.map_map]
  exact List.map_congr_left fun t _ => by rw [Function.comp_apply, zero_add]

/-- Every total is the counter of a client that computes the progress. -/
theorem Client.Downloads.computed {size : Nat} (begins : c.Downloads size) {sizes : List Nat}
    {calls : List Chunk}
    (saved : (computations crc16 calls c).map Client.incomingPacketSize = sizes.map Nat.cast)
    {arrived : Nat} (total : arrived ∈ sizes.partialSums.tail) :
    ∃ d ∈ computations crc16 calls c, d.fileSize = size ∧ d.fileBytesCounter = wrap32 arrived := by
  obtain ⟨announced, counters⟩ := begins.counted saved
  -- The counters are exactly the totals.
  have counter : wrap32 arrived ∈ (computations crc16 calls c).map Client.fileBytesCounter := by
    rw [counters]
    exact List.mem_map_of_mem (f := fun t : Nat => wrap32 t) total
  obtain ⟨d, mem, same⟩ := List.mem_map.mp counter
  exact ⟨d, mem, announced d mem, same⟩

/-- What fits for the whole file is right for every packet of it. -/
theorem Client.Downloads.right {size : Nat} (begins : c.Downloads size) (some_ : 1 ≤ size)
    {sizes : List Nat} (whole : sizes.sum = size) {calls : List Chunk}
    (saved : (computations crc16 calls c).map Client.incomingPacketSize = sizes.map Nat.cast)
    (small : size * 100 < 2 ^ 31) : ProgressRight size sizes (computations crc16 calls c) := by
  obtain ⟨announced, counters⟩ := begins.counted saved
  -- No total is above the size, and so none is too large for the counter.
  have within : ∀ t ∈ sizes.partialSums.tail, t ≤ size := fun t total =>
    whole ▸ le_sum_of_mem_partialSums (List.mem_of_mem_tail total)
  have exact_ : ∀ t ∈ sizes.partialSums.tail, wrap32 t = t := fun t total =>
    wrap32_of_range (by omega) (by have := within t total; omega)
  have arrived : ∀ d ∈ computations crc16 calls c, ∃ t : Nat, d.fileBytesCounter = t ∧ t ≤ size := by
    intro d mem
    have counter := List.mem_map_of_mem (f := Client.fileBytesCounter) mem
    rw [counters] at counter
    obtain ⟨t, total, same⟩ := List.mem_map.mp counter
    exact ⟨t, same.symm.trans (exact_ t total), within t total⟩
  -- So the progress is the percentage of that total, packet by packet.
  have percentage : (computations crc16 calls c).map progress =
      sizes.partialSums.tail.map fun t => (percent size t : Int) := by
    calc (computations crc16 calls c).map progress
      _ = ((computations crc16 calls c).map Client.fileBytesCounter).map
          fun z => (percent size z.toNat : Int) := by
        rw [List.map_map]
        refine List.map_congr_left fun d mem => ?_
        obtain ⟨t, counter, within⟩ := arrived d mem
        rw [progress_eq_percent (announced d mem) counter (by omega), Function.comp_apply, counter]
        rfl
      _ = sizes.partialSums.tail.map fun t => (percent size t : Int) := by
        rw [counters, List.map_map]
        refine List.map_congr_left fun t total => ?_
        rw [Function.comp_apply, exact_ t total]
        rfl
  refine ⟨fun d mem => ?_, fun d mem => ?_, fun d mem => ?_, ?_, percentage⟩
  · -- What fits for the size fits for less.
    obtain ⟨t, counter, within⟩ := arrived d mem
    exact wrap32_of_range (by omega) (by omega)
  · -- The file is not empty.
    rw [announced d mem]
    omega
  · obtain ⟨t, counter, within⟩ := arrived d mem
    rw [progress_eq_percent (announced d mem) counter (by omega)]
    have le := percent_le within
    omega
  · -- The totals do not fall, and so their percentages do not.
    rw [percentage, List.pairwise_map]
    refine (partialSums_pairwise sizes).tail.imp fun more => ?_
    exact_mod_cast percent_mono size more

variable (crc16) in
/-- The image of a packet that is due is saved, and its size counted. -/
theorem Client.computing_image (receives : c.readingTheLogFile = 2) (runs : c.pleaseStop = false)
    {i : Nat} (range : i < 2 ^ 31) (due : c.packetsCounter ≤ i) {payload : List UInt8}
    (small : payload.length ≤ blockSize) (io : CallIo) (s : Sock) :
    ∃ d, c.computing crc16 ⟨io, packetImage crc16 i payload, s⟩ = some d ∧
      d.incomingPacketSize = payload.length := by
  obtain ⟨hands, c', checked, receiver, number, size, -⟩ :=
    Client.image_checked crc16 receives runs range small due s
  -- The checks moved the counter up to the number, so the packet is no duplicate.
  have counter : c'.packetsCounter = i := congrArg Receiver.packetsCounter receiver
  have fresh : ¬ c'.incomingPacketsCounter < c'.packetsCounter := by omega
  unfold Client.computing Client.checked
  dsimp only
  rw [if_neg hands.1, if_pos ⟨hands.2, receives⟩, checked]
  exact ⟨c'.counts, by simp [not_lt.mp fresh], size⟩

variable (crc16) in
/-- Every division of a file into packets can be received. -/
theorem computations_packetCalls (sizes : List Nat) (number : Nat) (receives : c.readingTheLogFile = 2)
    (runs : c.pleaseStop = false) (due : c.packetsCounter ≤ number)
    (range : number + sizes.length ≤ 2 ^ 31) (nonneg : 0 ≤ c.fileBytesCounter)
    (int : c.fileSize < 2 ^ 31) (packets : ∀ size ∈ sizes, 1 ≤ size ∧ size ≤ blockSize)
    (within : c.fileBytesCounter + sizes.sum ≤ c.fileSize) :
    (computations crc16 (packetCalls crc16 number sizes) c).map Client.incomingPacketSize =
      sizes.map Nat.cast := by
  induction sizes generalizing c number with
  | nil => rfl
  | cons size sizes ih =>
    -- The first packet is saved, by the lemma above.
    have short := packets size List.mem_cons_self
    have length : (List.replicate size (0 : UInt8)).length = size := List.length_replicate
    rw [List.length_cons] at range
    rw [List.sum_cons, Nat.cast_add] at within
    obtain ⟨d, computing, counted⟩ := c.computing_image crc16 receives runs (by omega) due
      (by rw [length]; exact short.2) ⟨true, true⟩ ⟨[], []⟩
    rw [length] at counted
    simp only [packetCalls, computations, computing, Option.toList_some, List.singleton_append,
      List.map_cons, counted]
    congr 1
    -- It is the last one, or the client goes on to expect the next number.
    cases sizes with
    | nil => rfl
    | cons next later =>
      -- There are bytes to come, so the transfer goes on behind this packet.
      have more := packets next (by simp)
      rw [List.sum_cons] at within
      have sum : wrap32 (c.fileBytesCounter + size) = c.fileBytesCounter + size :=
        wrap32_of_range (by omega) (by omega)
      have written : (c.process crc16 ⟨true, true⟩ (packetImage crc16 number (List.replicate size 0))
          ⟨[], []⟩).client.receiver = _ :=
        (c.process_image crc16 rfl receives runs (by omega) (by omega) due
          (by rw [length, sum]; omega) ⟨[], []⟩).1
      rw [length] at written
      generalize taken : c.take crc16 _ = c'
      have kept := (congrArg Client.receiver taken).symm.trans written
      have counter : c'.packetsCounter = wrap32 (number + 1) := congrArg Receiver.packetsCounter kept
      have arrived : c'.fileBytesCounter = c.fileBytesCounter + size :=
        (congrArg Receiver.fileBytesCounter kept).trans sum
      rw [wrap32_of_range (by omega) (by rw [List.length_cons] at range; omega)] at counter
      have announced : c'.fileSize = c.fileSize := congrArg Receiver.fileSize kept
      refine ih (number + 1) ((congrArg Receiver.readingTheLogFile kept).trans receives)
        ((congrArg Receiver.pleaseStop kept).trans runs) (by omega) (by omega) (by omega)
        (by rw [announced]; exact int) (fun size mem => packets size (List.mem_cons_of_mem _ mem)) ?_
      rw [arrived, announced, List.sum_cons]
      omega

/--
The progress is right through a download exactly if a hundred times the size of the file fits into an `int`.

These are the files of at most 21474836 bytes, and the robot's log files may be longer.
-/
theorem progress_right_iff (crc16 : List UInt8 → UInt16) {size : Nat} (some_ : 1 ≤ size) {c : Client}
    (begins : c.Downloads size) {sizes : List Nat} (whole : sizes.sum = size) {calls : List Chunk}
    (saved : (computations crc16 calls c).map Client.incomingPacketSize = sizes.map Nat.cast) :
    ProgressRight size sizes (computations crc16 calls c) ↔ size * 100 < 2 ^ 31 := by
  constructor
  · intro right
    -- A file that is not empty comes in at least one packet.
    have packets : sizes ≠ [] := by
      rintro rfl
      simp at whole
      omega
    have total := sum_mem_partialSums packets
    by_cases int : size < 2 ^ 31
    · -- With the last packet the counter is the size.
      obtain ⟨d, mem, -, counter⟩ := begins.computed saved total
      have fits := right.fits d mem
      rw [counter, whole, wrap32_of_range (z := size) (by omega) (by omega)] at fits
      have range := (wrap32_range (size * 100)).2
      omega
    · -- A size that no `int` holds is never reached, though the last packet is to be 100 per cent.
      have last := List.mem_map_of_mem (f := fun arrived => (percent size arrived : Int)) total
      rw [← right.percentage, whole, percent, Nat.mul_div_cancel_left _ (by omega)] at last
      obtain ⟨d, mem, done⟩ := List.mem_map.mp last
      have none := progress_nonpos (d := d) (by rw [(begins.counted saved).1 d mem]; omega)
      omega
  · exact begins.right some_ whole saved

/-- Three bytes in two packets. -/
theorem progress_right_three :
    ProgressRight 3 [2, 1] (computations (fun _ => 0) (packetCalls (fun _ => 0) 1 [2, 1])
      (Client.downloading 3)) :=
  (progress_right_iff (fun _ => 0) (by decide) (Client.downloading_downloads 3) (by decide)
    (computations_packetCalls (fun _ => 0) [2, 1] 1 rfl rfl (by decide) (by decide) (by decide)
      (by decide) (by decide) (by decide))).mpr (by decide)

/-- The packets of a log file of the largest size, all of them full but the last one. -/
def largestFile : List Nat := List.replicate 104025 blockSize ++ [400]

theorem largestFile_sum : largestFile.sum = fileSize := by
  rw [largestFile, List.sum_append_nat, List.sum_replicate_nat]
  decide

theorem largestFile_length : largestFile.length = 104026 := by
  rw [largestFile, List.length_append, List.length_replicate]
  rfl

theorem largestFile_packets : ∀ size ∈ largestFile, 1 ≤ size ∧ size ≤ blockSize := by
  intro size mem
  -- A full one, or the one of 400 bytes.
  rcases List.mem_append.mp mem with full | last
  · rw [List.eq_of_mem_replicate full]
    decide
  · rw [List.mem_singleton.mp last]
    decide

/-- Full packets only, up to the 21305th of them. -/
theorem largestFile_total : 21305 * blockSize ∈ largestFile.partialSums.tail := by
  have taken := sum_take_mem_partialSums (l := largestFile) (k := 21304)
    (by rw [largestFile_length]; decide)
  -- The last packet is not among them.
  have full : 21305 ≤ (List.replicate 104025 blockSize).length := by
    rw [List.length_replicate]
    decide
  rwa [largestFile, List.take_append_of_le_length full, List.take_replicate, List.sum_replicate_nat,
    Nat.min_eq_left (by decide)] at taken

/-- With the packet 21305 of a file of the largest size, the progress is -20. -/
theorem progress_overflows :
    ¬ ∀ (crc16 : List UInt8 → UInt16) (size : Nat), 1 ≤ size → size ≤ fileSize →
      ∀ c : Client, c.Downloads size → ∀ sizes : List Nat, sizes.sum = size → ∀ calls : List Chunk,
        (computations crc16 calls c).map Client.incomingPacketSize = sizes.map Nat.cast →
          ProgressRight size sizes (computations crc16 calls c) := by
  intro right
  have begins := Client.downloading_downloads fileSize
  have saved := computations_packetCalls (fun _ => 0) largestFile 1 (c := Client.downloading fileSize)
    rfl rfl (by decide) (by rw [largestFile_length]; decide) (by decide) (by decide) largestFile_packets
    (by rw [largestFile_sum]; decide)
  -- A hundred times the 21475440 bytes that have come then is more than an `int` can hold.
  obtain ⟨d, mem, announced, counter⟩ := begins.computed saved largestFile_total
  have value : progress d = -20 := by
    rw [progress, announced, counter]
    decide
  have range := ((right _ fileSize (by decide) (le_refl _) _ begins _ largestFile_sum _ saved).range d mem).1
  omega

end

end Teetest
