import SpresenseOpus.Library.Slot
import SpresenseOpus.Subcore.Encoder
import SpresenseOpus.Subcore.Pipeline

/-!
# A recording on its way through the two cores

The main core as it meets a real microphone: `readFrames` gets as much of the recording as there is,
a frame or less, and a failure of it ends the core. A short read is not sent, but it is in the
static buffer, over the front of a frame that the sub core may not have looked at yet. The sub core
runs `exec` of its program on what an address leads to.

With this memory the cores are a slot that a stream is read into (`refines_run`), so that two exact
conditions on schedules come from there. The frames that are encoded are the first ones captured,
whatever is recorded, if and only if the schedule is untorn (`encoded_prefix_iff_untorn`): no
address is taken while another one waits, or after another read has put something into the buffer.
And they are the recording, without a gap, if and only if it is gapless
(`encoded_flatten_prefix_iff_gapless`). In an untorn schedule the sub core sends the beginning of
what a run of its program over the captured frames sends, and only how much is a matter of the
schedule (`sub_of_untorn`).
-/

namespace SpresenseOpus.Subcore

open Reads (segment length_segment)

/-- One pass of the loop of a core. -/
inductive Pass where
  /-- `loop` of the main core: `readFrames` stores `read_size`, and returns an error that is neither
  `AUDIOLIB_ECODE_OK` nor `AUDIOLIB_ECODE_INSUFFICIENT_BUFFER_AREA` if it has failed. -/
  | main (read_size : ℕ) (failed : Bool)
  /-- The loop of `__main` of the sub core. -/
  | sub
  deriving DecidableEq, Repr

/-- The cores, and what the main core has done with the recording. -/
structure Capturing extends Cores where
  /-- How much of the recording `readFrames` has delivered. -/
  taken : ℕ := 0
  /-- The main core has called `exit`. -/
  exited : Bool := false

section Capturing

variable (buffer capture : UInt32) (recording : ℕ → UInt8)

/-- One pass of `loop`, unless the main core has exited. -/
def Capturing.loop (read_size : ℕ) (failed : Bool) (w : Capturing) : Capturing :=
  if w.exited then w
  else
    let read := segment recording w.taken read_size
    let w := { w with taken := w.taken + read_size }
    if failed then
      -- What was read is in the buffer when `exit` is called.
      { w with
        buffers := Function.update w.buffers buffer (read ++ (w.buffers buffer).drop read.length)
        exited := true }
    else { w with toCores := Subcore.loop buffer capture read w.toCores }

/-- One pass of a core. -/
def Capturing.step (w : Capturing) : Pass → Capturing
  | .main read_size failed => w.loop buffer capture recording read_size failed
  | .sub => { w with toCores := recv w.toCores }

/-- The cores after the passes of a schedule. -/
def Capturing.run (schedule : List Pass) (w : Capturing) : Capturing :=
  schedule.foldl (Capturing.step buffer capture recording) w

/-- The cores before the first pass. -/
def Capturing.start : Capturing := { toCores := Subcore.start }

/-! ## The cores as a slot -/

/-- The turns of the slot in a schedule. The main core takes none after it has exited. -/
def turnsFrom : Bool → List Pass → List Slot.Turn
  | _, [] => []
  | true, .main _ _ :: schedule => turnsFrom true schedule
  | false, .main read_size failed :: schedule =>
    .read read_size failed :: turnsFrom failed schedule
  | exited, .sub :: schedule => .take :: turnsFrom exited schedule

/-- A pass of the sub core is a turn of the reader, whether the main core has exited or not. -/
@[simp] theorem turnsFrom_sub (exited : Bool) (schedule : List Pass) :
    turnsFrom exited (.sub :: schedule) = .take :: turnsFrom exited schedule := by
  cases exited <;> rfl

/-- Whenever the sub core takes an address, no other waits, and the last read that was not empty was
a frame that was sent. -/
def Untorn (schedule : List Pass) : Prop := Slot.Untorn bufferSize (turnsFrom false schedule)

/-- Whenever the sub core takes an address, no other waits, and every read so far was a frame that
was sent, or empty. -/
def Gapless (schedule : List Pass) : Prop := Slot.Gapless bufferSize (turnsFrom false schedule)

/-- What the cores have done, as a slot. -/
def Capturing.slot (w : Capturing) : Slot.State UInt8 where
  position := w.taken
  slot := w.buffers buffer
  notices := w.queue.length
  kept := w.captured
  taken := w.encoded

/-- Every address that waits is that of the one record, which points to the one buffer. -/
structure Points (w : Capturing) : Prop where
  queued : ∀ addr ∈ w.queue, addr = capture
  record : w.queue ≠ [] →
    (w.records capture).buff = buffer ∧ (w.records capture).sample = 960

variable {buffer capture recording}

/-- Before the first pass no address waits. -/
theorem points_start : Points buffer capture .start := by
  constructor <;> simp [Capturing.start, start]

variable (recording) in
/-- A pass of the main core is a turn of the writer. -/
theorem slot_loop {w : Capturing} (h : Points buffer capture w) (hexited : w.exited = false)
    (read_size : ℕ) (failed : Bool) :
    Points buffer capture (w.loop buffer capture recording read_size failed) ∧
      (w.loop buffer capture recording read_size failed).exited = failed ∧
      (w.loop buffer capture recording read_size failed).slot buffer =
        (w.slot buffer).read bufferSize recording read_size failed := by
  unfold Capturing.loop Slot.State.read
  rw [hexited]
  cases failed with
  | true =>
    refine ⟨⟨h.queued, h.record⟩, rfl, ?_⟩
    simp [Capturing.slot]
  | false =>
    unfold Subcore.loop
    by_cases hfull : read_size = bufferSize
    · have hne : read_size ≠ 0 ∧ read_size = bufferSize := by
        have hsize : bufferSize = 1920 := by decide
        omega
      simp only [Bool.false_eq_true, if_false, length_segment, if_pos hne]
      refine ⟨⟨?_, fun _ => ?_⟩, trivial, ?_⟩
      · intro addr haddr
        rcases List.mem_append.mp haddr with hold | hnew
        · exact h.queued addr hold
        · exact List.mem_singleton.mp hnew
      · simp only [Function.update_self]
        exact ⟨trivial, rfl⟩
      · rw [if_pos ⟨hfull, trivial⟩]
        simp [Capturing.slot]
    · have hne : ¬ (read_size ≠ 0 ∧ read_size = bufferSize) := fun h => hfull h.2
      simp only [Bool.false_eq_true, if_false, length_segment, if_neg hne]
      refine ⟨⟨h.queued, h.record⟩, trivial, ?_⟩
      rw [if_neg fun h => hfull h.1]
      simp [Capturing.slot]

/-- A pass of the sub core is a turn of the reader. -/
theorem slot_recv {w : Capturing} (h : Points buffer capture w) :
    Points buffer capture { w with toCores := recv w.toCores } ∧
      Capturing.slot buffer { w with toCores := recv w.toCores } =
        (w.slot buffer).take bufferSize := by
  unfold recv Slot.State.take
  cases hq : w.queue with
  | nil =>
    have hnone : (w.slot buffer).notices = 0 := by
      rw [Capturing.slot, hq]
      rfl
    rw [if_pos hnone]
    exact ⟨h, rfl⟩
  | cons addr queue =>
    have hsome : (w.slot buffer).notices ≠ 0 := by
      rw [Capturing.slot, hq]
      exact Nat.succ_ne_zero _
    obtain ⟨hbuff, hsample⟩ := h.record (by rw [hq]; exact List.cons_ne_nil _ _)
    obtain rfl : addr = capture := h.queued addr (by rw [hq]; exact List.mem_cons_self)
    have hsize : ((960 : Int32).toUInt32 * 2).toInt32.toInt.toNat = bufferSize := by decide
    rw [if_neg hsome]
    simp only [Subcore.exec, hbuff, hsample, hsize]
    refine ⟨⟨fun a ha => ?_, fun _ => ⟨hbuff, hsample⟩⟩, ?_⟩
    · exact h.queued a (by rw [hq]; exact List.mem_cons_of_mem _ ha)
    · simp [Capturing.slot, hq]

/-- A main core that has exited does nothing. -/
theorem loop_of_exited {w : Capturing} (hexited : w.exited = true) (read_size : ℕ)
    (failed : Bool) : w.loop buffer capture recording read_size failed = w := by
  rw [Capturing.loop, if_pos hexited]

variable (recording) in
/-- The cores run as the slot does. -/
theorem refines_from : ∀ (schedule : List Pass) {w : Capturing}, Points buffer capture w →
    (Capturing.run buffer capture recording schedule w).slot buffer =
      (turnsFrom w.exited schedule).foldl (Slot.step bufferSize recording) (w.slot buffer)
  | [], _, _ => rfl
  | .sub :: schedule, w, h => by
    obtain ⟨hpoints, hslot⟩ := slot_recv h
    have ih := refines_from schedule hpoints
    rw [hslot] at ih
    rw [turnsFrom_sub]
    exact ih
  | .main read_size failed :: schedule, w, h => by
    cases hexited : w.exited with
    | true =>
      have ih := refines_from schedule h
      rw [hexited] at ih
      show (Capturing.run buffer capture recording schedule
        (w.loop buffer capture recording read_size failed)).slot buffer = _
      rw [loop_of_exited hexited]
      exact ih
    | false =>
      obtain ⟨hpoints, hfailed, hslot⟩ := slot_loop recording h hexited read_size failed
      have ih := refines_from schedule hpoints
      rw [hfailed, hslot] at ih
      exact ih

variable (buffer capture) in
/-- What the cores do with a recording is what a slot does with it. -/
theorem refines_run (recording : ℕ → UInt8) (schedule : List Pass) :
    (Capturing.run buffer capture recording schedule .start).slot buffer =
      Slot.run bufferSize recording (turnsFrom false schedule) :=
  refines_from recording schedule points_start

instance (schedule : List Pass) : Decidable (Untorn schedule) :=
  inferInstanceAs (Decidable (Slot.Untorn _ _))

instance (schedule : List Pass) : Decidable (Gapless schedule) :=
  inferInstanceAs (Decidable (Slot.Gapless _ _))

/-- A frame that waits is torn by a short read but not by an empty one, and a frame behind a short
read is whole, but not in its place. -/
example : ¬ Untorn [.main 1920 false, .main 10 false, .sub] ∧
    Untorn [.main 1920 false, .main 0 false, .sub] ∧
    Untorn [.main 10 false, .main 1920 false, .sub] ∧
    ¬ Gapless [.main 10 false, .main 1920 false, .sub] := by
  decide +kernel

/-- The buffer is not empty. -/
theorem bufferSize_pos : 0 < bufferSize := by decide

variable (buffer capture) in
/-- In an untorn schedule the frames that are encoded are the first ones captured. -/
theorem encoded_prefix_of_untorn (recording : ℕ → UInt8) {schedule : List Pass}
    (h : Untorn schedule) :
    (Capturing.run buffer capture recording schedule .start).encoded <+:
      (Capturing.run buffer capture recording schedule .start).captured := by
  have hprefix := Slot.taken_prefix_of_untorn bufferSize_pos recording h
  rw [← refines_run buffer capture recording schedule] at hprefix
  exact hprefix

variable (buffer capture) in
/-- The frames that are encoded are the first ones captured, whatever is recorded, if and only if
whenever the sub core takes an address, no other waits, and the last read that was not empty was a
frame that was sent. -/
theorem encoded_prefix_iff_untorn (schedule : List Pass) :
    (∀ recording, (Capturing.run buffer capture recording schedule .start).encoded <+:
      (Capturing.run buffer capture recording schedule .start).captured) ↔ Untorn schedule := by
  have hbytes : Nontrivial UInt8 := ⟨0, 1, by decide⟩
  refine Iff.trans ?_ (Slot.taken_prefix_iff_untorn (α := UInt8) bufferSize_pos _)
  refine forall_congr' fun recording => ?_
  rw [← refines_run buffer capture recording schedule]
  rfl

variable (buffer capture) in
/-- What is encoded is the recording, whatever it is, as far as it was read, if and only if whenever
the sub core takes an address, no other waits, and every read so far was a frame that was sent, or
empty. -/
theorem encoded_flatten_prefix_iff_gapless (schedule : List Pass) :
    (∀ recording, (Capturing.run buffer capture recording schedule .start).encoded.flatten <+:
      segment recording 0 (Capturing.run buffer capture recording schedule .start).taken) ↔
        Gapless schedule := by
  have hbytes : Nontrivial UInt8 := ⟨0, 1, by decide⟩
  refine Iff.trans ?_ (Slot.taken_flatten_prefix_iff_gapless (α := UInt8) bufferSize_pos _)
  refine forall_congr' fun recording => ?_
  rw [← refines_run buffer capture recording schedule]
  rfl

end Capturing

/-! ## The program of the sub core -/

/-- The cores, with the program of the sub core and why it has stopped. -/
structure Device (ε σ : Type) extends Capturing where
  sub : EncoderSub ε σ
  halt : Option Halt := none

section Device

variable {ε σ : Type} (opus : Libopus ε) (z : Liboggz σ) (fuel : ℕ)
variable (buffer capture : UInt32) (recording : ℕ → UInt8)

/-- What the loop of `__main` passes to `exec` for an address: the bytes that the record leads to,
and its size. -/
def Cores.handed (w : Cores) (addr : UInt32) : Handed :=
  let record := w.records addr
  let size := (record.sample.toUInt32 * 2).toInt32
  ⟨(w.buffers record.buff).take size.toInt.toNat, record.sample⟩

/-- One pass of the loop of `__main`, unless the program has stopped. -/
def Device.recv (d : Device ε σ) : Device ε σ :=
  match d.halt, d.queue with
  | none, addr :: _ =>
    let t := Machine.run (EncoderSub.exec opus z fuel) [d.handed addr] d.sub
    { d with toCores := Subcore.recv d.toCores, sub := t.state, halt := t.halt }
  | _, _ => d

/-- One pass of a core. -/
def Device.step (d : Device ε σ) : Pass → Device ε σ
  | .main read_size failed =>
    { d with toCapturing := d.toCapturing.loop buffer capture recording read_size failed }
  | .sub => d.recv opus z fuel

/-- The device after the passes of a schedule. -/
def Device.run (schedule : List Pass) (d : Device ε σ) : Device ε σ :=
  schedule.foldl (Device.step opus z fuel buffer capture recording) d

/-- The device when the program of the sub core waits for its first address. -/
def Device.start (sub : EncoderSub ε σ) : Device ε σ := { toCapturing := .start, sub }

/-- The run of `exec` over frames, one after another. -/
def encodeFrames (frames : List (List UInt8)) (sub : EncoderSub ε σ) :
    Machine.Trace (EncoderSub ε σ) Unit Halt :=
  Machine.run (EncoderSub.exec opus z fuel) (frames.map fun f => ⟨f, 960⟩) sub

/-- `exec` only adds to what was sent. -/
theorem serial_prefix_exec (c : Handed) (w : EncoderSub ε σ) :
    w.serial <+: (Machine.stateAfter ((EncoderSub.exec opus z fuel c).run w)).serial := by
  cases henc : w.enc with
  | none =>
    rw [exec_failedHandle opus z fuel c henc]
    exact List.prefix_rfl
  | some enc =>
    cases hpage : w.page opus z fuel c enc with
    | ok u g =>
      rw [exec_ok henc hpage]
      exact List.prefix_append ..
    | error e g =>
      rw [exec_error henc hpage]
      exact List.prefix_rfl

variable {opus z fuel}

/-- A run of `exec` only adds to what was sent. -/
theorem serial_prefix_run (frames : List (List UInt8)) (w : EncoderSub ε σ) :
    w.serial <+: (encodeFrames opus z fuel frames w).state.serial := by
  refine Machine.run_invariant (P := fun _ s => w.serial <+: s.serial) ?_ ?_ _ [] w List.prefix_rfl
  · intro _ c s _ s' h hexec
    have hnext := serial_prefix_exec opus z fuel c s
    rw [hexec] at hnext
    exact h.trans hnext
  · intro _ c s _ s' h hexec
    have hnext := serial_prefix_exec opus z fuel c s
    rw [hexec] at hnext
    exact h.trans hnext

/-- More frames only add to what is sent. -/
theorem serial_prefix_append (more : List (List UInt8)) :
    ∀ (frames : List (List UInt8)) (w : EncoderSub ε σ),
      (encodeFrames opus z fuel frames w).state.serial <+:
        (encodeFrames opus z fuel (frames ++ more) w).state.serial
  | [], w => serial_prefix_run more w
  | f :: frames, w => by
    unfold encodeFrames
    rw [List.cons_append, List.map_cons, List.map_cons]
    cases hexec : (EncoderSub.exec opus z fuel ⟨f, 960⟩).run w with
    | ok u w' =>
      rw [Machine.run_cons_ok hexec, Machine.run_cons_ok hexec]
      exact serial_prefix_append more frames w'
    | error e w' =>
      rw [Machine.run_cons_error hexec, Machine.run_cons_error hexec]

/-- A full read is captured. -/
theorem loop_captured (read : List UInt8) (w : Cores) :
    (Subcore.loop buffer capture read w).captured =
      w.captured ++ if read.length ≠ 0 ∧ read.length = bufferSize then [read] else [] := by
  unfold Subcore.loop
  split_ifs
  · rfl
  · exact (List.append_nil _).symm

/-- An address is sent for a full read. -/
theorem loop_queue (read : List UInt8) (w : Cores) :
    (Subcore.loop buffer capture read w).queue =
      w.queue ++ if read.length ≠ 0 ∧ read.length = bufferSize then [capture] else [] := by
  unfold Subcore.loop
  split_ifs
  · rfl
  · exact (List.append_nil _).symm

/-- A pass of the main core encodes nothing. -/
theorem loop_encoded (read : List UInt8) (w : Cores) :
    (Subcore.loop buffer capture read w).encoded = w.encoded := by
  unfold Subcore.loop
  split_ifs <;> rfl

/-- What a pass of the main core does is a matter of what it has done before. -/
theorem loop_congr {w w' : Capturing} (htaken : w.taken = w'.taken)
    (hexited : w.exited = w'.exited) (hcaptured : w.captured = w'.captured) (read_size : ℕ)
    (failed : Bool) :
    (w.loop buffer capture recording read_size failed).taken =
        (w'.loop buffer capture recording read_size failed).taken ∧
      (w.loop buffer capture recording read_size failed).exited =
        (w'.loop buffer capture recording read_size failed).exited ∧
      (w.loop buffer capture recording read_size failed).captured =
        (w'.loop buffer capture recording read_size failed).captured := by
  unfold Capturing.loop
  rw [htaken, hexited]
  split_ifs
  · exact ⟨htaken, hexited, hcaptured⟩
  · exact ⟨rfl, rfl, hcaptured⟩
  · refine ⟨rfl, rfl, ?_⟩
    simp only [loop_captured, hcaptured]

/-- A pass of the main core encodes nothing, and an address goes with every frame captured. -/
theorem loop_balance (w : Capturing) (read_size : ℕ) (failed : Bool) :
    (w.loop buffer capture recording read_size failed).encoded = w.encoded ∧
      (w.loop buffer capture recording read_size failed).queue.length + w.captured.length =
        w.queue.length + (w.loop buffer capture recording read_size failed).captured.length := by
  unfold Capturing.loop
  split_ifs
  · exact ⟨rfl, rfl⟩
  · exact ⟨rfl, rfl⟩
  · simp only [loop_encoded, loop_queue, loop_captured, List.length_append]
    split_ifs
    · simp only [List.length_singleton, true_and]
      omega
    · simp only [List.length_nil, true_and]
      omega

variable {buffer capture recording}

variable (opus z fuel buffer capture) in
/-- What a device has done, beside cores whose sub core never stops: the main core does the same,
and the sub core encodes the same until it stops. -/
structure Works (sub : EncoderSub ε σ) (w : Capturing) (d : Device ε σ) : Prop where
  points : Points buffer capture d.toCapturing
  taken : d.taken = w.taken
  exited : d.exited = w.exited
  captured : d.captured = w.captured
  encoded : d.encoded <+: w.encoded
  running : d.halt = none → d.toCapturing = w
  balance : d.encoded.length + d.queue.length = d.captured.length
  program : d.sub = (encodeFrames opus z fuel d.encoded sub).state
  halt : d.halt = (encodeFrames opus z fuel d.encoded sub).halt

/-- Any pass keeps the points. -/
theorem points_loop {w : Capturing} (h : Points buffer capture w) (read_size : ℕ) (failed : Bool) :
    Points buffer capture (w.loop buffer capture recording read_size failed) := by
  cases hexited : w.exited with
  | true =>
    rw [loop_of_exited hexited]
    exact h
  | false => exact (slot_loop recording h hexited read_size failed).1

/-- A pass of the sub core captures nothing. -/
theorem recv_captured (w : Cores) : (recv w).captured = w.captured := by
  unfold recv
  cases w.queue <;> rfl

/-- A pass of the sub core only adds to what is encoded. -/
theorem encoded_prefix_recv (w : Cores) : w.encoded <+: (recv w).encoded := by
  unfold recv
  cases w.queue with
  | nil => exact List.prefix_rfl
  | cons addr queue => exact List.prefix_append ..

/-- A pass of the main core. -/
theorem works_loop {sub : EncoderSub ε σ} {w : Capturing} {d : Device ε σ}
    (h : Works opus z fuel buffer capture sub w d) (read_size : ℕ) (failed : Bool) :
    Works opus z fuel buffer capture sub (w.loop buffer capture recording read_size failed)
      { d with toCapturing := d.toCapturing.loop buffer capture recording read_size failed } := by
  obtain ⟨htaken, hexited, hcaptured⟩ := loop_congr buffer capture recording h.taken
    h.exited h.captured read_size failed
  obtain ⟨hencoded, hqueue⟩ := loop_balance buffer capture recording d.toCapturing read_size
    failed
  have hother := (loop_balance buffer capture recording w read_size failed).1
  refine ⟨points_loop h.points read_size failed, htaken, hexited, hcaptured, ?_, fun hhalt => ?_,
    ?_, ?_, ?_⟩
  · show (d.toCapturing.loop buffer capture recording read_size failed).encoded <+: _
    rw [hencoded, hother]
    exact h.encoded
  · show d.toCapturing.loop buffer capture recording read_size failed = _
    rw [h.running hhalt]
  · have hbalance := h.balance
    show (d.toCapturing.loop buffer capture recording read_size failed).encoded.length +
      (d.toCapturing.loop buffer capture recording read_size failed).queue.length =
        (d.toCapturing.loop buffer capture recording read_size failed).captured.length
    rw [hencoded]
    omega
  · show d.sub = _
    rw [hencoded]
    exact h.program
  · show d.halt = _
    rw [hencoded]
    exact h.halt

/-- A program that has stopped takes nothing. -/
theorem recv_of_halt {d : Device ε σ} {e : Halt} (hhalt : d.halt = some e) :
    d.recv opus z fuel = d := by
  unfold Device.recv
  rw [hhalt]

/-- Without an address in the queue nothing happens. -/
theorem recv_of_nil {d : Device ε σ} (hq : d.queue = []) : d.recv opus z fuel = d := by
  unfold Device.recv
  rw [hq]
  cases d.halt <;> rfl

/-- The program is given the frame that the first address leads to. -/
theorem recv_of_cons {d : Device ε σ} (hhalt : d.halt = none) {addr : UInt32} {queue : List UInt32}
    (hq : d.queue = addr :: queue) :
    d.recv opus z fuel = { d with
      toCores := Subcore.recv d.toCores
      sub := (Machine.run (EncoderSub.exec opus z fuel) [d.handed addr] d.sub).state
      halt := (Machine.run (EncoderSub.exec opus z fuel) [d.handed addr] d.sub).halt } := by
  unfold Device.recv
  rw [hhalt, hq]

/-- The first address leads to a frame of the expected size, and this is what is encoded. -/
theorem handed_of_cons {w : Capturing} (h : Points buffer capture w) {addr : UInt32}
    {queue : List UInt32} (hq : w.queue = addr :: queue) :
    w.handed addr = ⟨(w.handed addr).buf, 960⟩ ∧
      (recv w.toCores).encoded = w.encoded ++ [(w.handed addr).buf] ∧
      (recv w.toCores).queue = queue := by
  obtain ⟨-, hsample⟩ := h.record (by rw [hq]; exact List.cons_ne_nil _ _)
  obtain rfl : addr = capture := h.queued addr (by rw [hq]; exact List.mem_cons_self)
  refine ⟨congrArg (Handed.mk _) hsample, ?_⟩
  unfold recv
  rw [hq]
  exact ⟨rfl, rfl⟩

/-- One more frame, when the program has not stopped at those before. -/
theorem encodeFrames_concat {frames : List (List UInt8)} {sub : EncoderSub ε σ}
    (h : (encodeFrames opus z fuel frames sub).halt = none) (frame : List UInt8) :
    let last := Machine.run (EncoderSub.exec opus z fuel) [⟨frame, 960⟩]
      (encodeFrames opus z fuel frames sub).state
    (encodeFrames opus z fuel (frames ++ [frame]) sub).state = last.state ∧
      (encodeFrames opus z fuel (frames ++ [frame]) sub).halt = last.halt := by
  unfold encodeFrames at h ⊢
  rw [List.map_append, Machine.run_append _ _ _ h]
  exact ⟨rfl, rfl⟩

/-- A pass of the sub core: what an address leads to is encoded by the program, unless that has
stopped. -/
theorem works_recv {sub : EncoderSub ε σ} {w : Capturing} {d : Device ε σ}
    (h : Works opus z fuel buffer capture sub w d) :
    Works opus z fuel buffer capture sub { w with toCores := recv w.toCores }
      (d.recv opus z fuel) := by
  cases hhalt : d.halt with
  | some e =>
    rw [recv_of_halt hhalt]
    exact ⟨h.points, h.taken, h.exited, h.captured.trans (recv_captured w.toCores).symm,
      h.encoded.trans (encoded_prefix_recv w.toCores), fun hnone => absurd hnone (by simp [hhalt]),
      h.balance, h.program, h.halt⟩
  | none =>
    have hw := h.running hhalt
    cases hq : d.queue with
    | nil =>
      have hnothing : recv w.toCores = w.toCores := by
        unfold recv
        rw [← hw, hq]
      rw [recv_of_nil hq, hnothing]
      exact h
    | cons addr queue =>
      -- The address leads to one more frame of the run.
      obtain ⟨hhanded, hencoded, hqueue⟩ := handed_of_cons h.points hq
      obtain ⟨hstate, hstop⟩ := encodeFrames_concat (h.halt.symm.trans hhalt) (d.handed addr).buf
      rw [← h.program, ← hhanded, ← hencoded] at hstate hstop
      rw [recv_of_cons hhalt hq, ← hw]
      refine ⟨(slot_recv h.points).1, rfl, rfl, rfl, List.prefix_rfl, fun _ => rfl, ?_,
        hstate.symm, hstop.symm⟩
      show (recv d.toCores).encoded.length + (recv d.toCores).queue.length =
        (recv d.toCores).captured.length
      have hbalance := h.balance
      rw [hq, List.length_cons] at hbalance
      rw [hencoded, hqueue, recv_captured, List.length_append, List.length_singleton]
      omega

/-- A device works from its start. -/
theorem works_start (sub : EncoderSub ε σ) :
    Works opus z fuel buffer capture sub .start (.start sub) :=
  ⟨points_start, rfl, rfl, rfl, List.prefix_rfl, fun _ => rfl, rfl, rfl, rfl⟩

variable (opus z fuel buffer capture) in
/-- A device works beside cores whose sub core never stops. -/
theorem works_run (recording : ℕ → UInt8) (sub : EncoderSub ε σ) : ∀ (schedule : List Pass)
    {w : Capturing} {d : Device ε σ}, Works opus z fuel buffer capture sub w d →
      Works opus z fuel buffer capture sub (Capturing.run buffer capture recording schedule w)
        (Device.run opus z fuel buffer capture recording schedule d)
  | [], _, _, h => h
  | .main read_size failed :: schedule, _, _, h =>
    works_run recording sub schedule (works_loop h read_size failed)
  | .sub :: schedule, _, _, h => works_run recording sub schedule (works_recv h)

variable (opus z fuel buffer capture) in
/-- In an untorn schedule the program of the sub core is where the run over the first frames
captured leaves it, every other frame captured has its address in the queue, and what was sent is
the beginning of what the run over all frames captured sends. -/
theorem sub_of_untorn (recording : ℕ → UInt8) (sub : EncoderSub ε σ) {schedule : List Pass}
    (h : Untorn schedule) :
    let d := Device.run opus z fuel buffer capture recording schedule (.start sub)
    let t := encodeFrames opus z fuel (d.captured.take d.encoded.length) sub
    d.encoded.length + d.queue.length = d.captured.length ∧
      d.sub = t.state ∧ d.halt = t.halt ∧
      d.sub.serial <+: (encodeFrames opus z fuel d.captured sub).state.serial := by
  intro d t
  have hworks : Works opus z fuel buffer capture sub
      (Capturing.run buffer capture recording schedule .start) d :=
    works_run opus z fuel buffer capture recording sub schedule (works_start sub)
  have hprefix : d.encoded <+: d.captured := by
    rw [hworks.captured]
    exact hworks.encoded.trans (encoded_prefix_of_untorn buffer capture recording h)
  have htake : d.encoded = d.captured.take d.encoded.length := List.prefix_iff_eq_take.mp hprefix
  refine ⟨hworks.balance, ?_, ?_, ?_⟩
  · exact hworks.program.trans
      (congrArg (fun frames => (encodeFrames opus z fuel frames sub).state) htake)
  · exact hworks.halt.trans
      (congrArg (fun frames => (encodeFrames opus z fuel frames sub).halt) htake)
  · obtain ⟨rest, hrest⟩ := hprefix
    rw [hworks.program, ← hrest]
    exact serial_prefix_append rest d.encoded sub

end Device

/-- The sub core looks too early, finds a frame, and another one after an empty read; a short read
follows. -/
def frameSchedule : List Pass :=
  [.sub, .main 1920 false, .sub, .main 1920 false, .main 0 false, .sub, .main 100 false]

/-- Both frames are whole when they are taken. -/
theorem untorn_frameSchedule : Untorn frameSchedule := by decide +kernel

/-- The program of the sub core after `begin`. -/
def begun : EncoderSub Int32 (List UInt8) :=
  Machine.stateAfter ((EncoderSub.begin silentOpus bareOggz 50).run {})

/-- The program of the sub core after these frames, of silence. -/
theorem sub_of_untorn_frame :
    let d := Device.run silentOpus bareOggz 50 0x1000 0x2000 (fun _ => 0) frameSchedule
      (.start begun)
    let t := encodeFrames silentOpus bareOggz 50 (d.captured.take d.encoded.length) begun
    d.encoded.length + d.queue.length = d.captured.length ∧
      d.sub = t.state ∧ d.halt = t.halt ∧
      d.sub.serial <+: (encodeFrames silentOpus bareOggz 50 d.captured begun).state.serial :=
  sub_of_untorn silentOpus bareOggz 50 0x1000 0x2000 (fun _ => 0) begun untorn_frameSchedule

end SpresenseOpus.Subcore
