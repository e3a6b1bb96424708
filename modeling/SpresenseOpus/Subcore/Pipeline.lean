import Mathlib.Data.Int.Notation
import Mathlib.Logic.Function.Basic
import SpresenseOpus.Library.Mailbox

/-!
# The capture pipeline of the main core and the sub core

`loop` of `MainAudio.ino` reads a frame into a static buffer, fills in a record that points to it,
and sends the record's address; `__main` of `EncoderSub.ino` takes an address from the queue and
encodes what it points to by then. There is one buffer and one record, and nothing holds the main
core back. The queue is that of the MP library, in the order of sending and without a bound.

With this memory the cores are a mailbox with one slot, which the main core writes and the sub core
reads (`run_refines`). So each address that is taken leads to the frame captured last. Whatever is
captured, the frames encoded are the first ones captured, in order, exactly in the schedules where
the sub core never finds more than one address waiting (`encoded_prefix_iff_prompt`).
-/

namespace SpresenseOpus.Subcore

open Mailbox hiding run step waiting Prompt

/-- `mic_channel_num`. -/
def micChannelNum : Int32 := 1
/-- `buffer_sample`. -/
def bufferSample : Int32 := 960 * micChannelNum
/-- `buffer_size`, in bytes. -/
def bufferSize : ℕ := (bufferSample * 2).toInt.toNat

/-- `Capture`. -/
structure Capture where
  buff : UInt32
  sample : Int32
  chnum : Int32
  deriving DecidableEq, Repr

/-- The memory that the cores share, as far as it is used, the queue of the MP library, and two
histories. -/
structure Cores where
  /-- The bytes from an address on. -/
  buffers : UInt32 → List UInt8
  /-- The record at an address. -/
  records : UInt32 → Capture
  /-- The addresses that are sent and not yet received. -/
  queue : List UInt32 := []
  /-- History: the frames that the main core has captured. -/
  captured : List (List UInt8) := []
  /-- History: the frames that the sub core has passed to `encodeFrame`. -/
  encoded : List (List UInt8) := []

/-- A full read: a frame of `bufferSize` bytes. -/
abbrev Frame := { f : List UInt8 // f.length = bufferSize }

/-- The core that takes the next step. -/
inductive Core where
  | main
  | sub
  deriving DecidableEq, Repr

section Pipeline

variable (buffer capture : UInt32)

/-- One pass of `loop`, for the bytes that `readFrames` has put into `buffer`; `capture` is the
address of the local record, which is the same in every pass. -/
def loop (read : List UInt8) (w : Cores) : Cores :=
  let w := { w with
    buffers := Function.update w.buffers buffer (read ++ (w.buffers buffer).drop read.length) }
  if read.length ≠ 0 ∧ read.length = bufferSize then
    { w with
      records := Function.update w.records capture
        { buff := buffer, sample := bufferSample / micChannelNum, chnum := micChannelNum }
      queue := w.queue ++ [capture]
      captured := w.captured ++ [read] }
  else w

/-- `exec`. A size that is not the expected one is only logged. -/
def exec (buf : List UInt8) (size : Int32) (w : Cores) : Cores :=
  { w with encoded := w.encoded ++ [buf.take size.toInt.toNat] }

/-- One pass of the loop of `__main`, whose `MP.Recv` does not wait. -/
def recv (w : Cores) : Cores :=
  match w.queue with
  | [] => w
  | addr :: queue =>
    let record := w.records addr
    exec (w.buffers record.buff) (record.sample.toUInt32 * 2).toInt32 { w with queue }

/-- One step of a core. `frames` are the frames that the microphone delivers, in order. -/
def step (frames : ℕ → Frame) (w : Cores) : Core → Cores
  | .main => loop buffer capture (frames w.captured.length).1 w
  | .sub => recv w

/-- The cores before any frame is captured. -/
def start : Cores where
  buffers _ := []
  records _ := { buff := 0, sample := 0, chnum := 0 }

/-- The cores after the steps of a schedule. -/
def run (frames : ℕ → Frame) (schedule : List Core) : Cores :=
  schedule.foldl (step buffer capture frames) start

/-! ## The cores as a mailbox -/

/-- The part that a core has in the mailbox. -/
def Core.party : Core → Party
  | .main => .writer
  | .sub => .reader

/-- The number of addresses that wait after a schedule. -/
def waiting (schedule : List Core) : ℕ := Mailbox.waiting (schedule.map Core.party)

/-- The sub core keeps up: whenever it looks, at most one address waits. -/
def Prompt (schedule : List Core) : Prop := Mailbox.Prompt (schedule.map Core.party)

/-- What the cores have done, as a mailbox: the slot is the memory that the record leads to. -/
def Cores.box (w : Cores) : Box (List UInt8) where
  notices := w.queue.length
  written := w.captured
  taken := w.encoded

/-- A full read leaves its frame in the buffer and sends the address of a record that points to
it. -/
theorem loop_full (f : Frame) (w : Cores) :
    ∃ buffers records, loop buffer capture f.1 w =
      { buffers, records, queue := w.queue ++ [capture], captured := w.captured ++ [f.1]
        encoded := w.encoded } ∧
      (records capture).buff = buffer ∧ (records capture).sample = 960 ∧
      (buffers buffer).take bufferSize = f.1 := by
  have hlen : f.1.length ≠ 0 ∧ f.1.length = bufferSize := by
    have hsize : bufferSize = 1920 := by decide
    have hf := f.2
    omega
  -- A full read is not empty, so that the branch that sends is taken.
  unfold loop
  simp only [if_pos hlen]
  refine ⟨_, _, rfl, ?_, ?_, ?_⟩
  · rw [Function.update_self]
  · rw [Function.update_self]
    rfl
  · rw [Function.update_self, List.take_append_of_le_length (by omega),
      List.take_of_length_le (by omega)]

/-- What holds between any two steps: every address that waits is that of the one record, which
points to the one buffer, which holds the frame captured last; and no address waits that was not
sent for a frame. -/
structure Inv (w : Cores) : Prop where
  queued : ∀ addr ∈ w.queue, addr = capture
  sent : w.queue.length ≤ w.captured.length
  record : w.captured ≠ [] →
    (w.records capture).buff = buffer ∧ (w.records capture).sample = 960
  content : ∀ f ∈ w.captured.getLast?, (w.buffers buffer).take bufferSize = f

variable {buffer capture}

/-- A step of the main core writes its frame into the slot. -/
theorem step_main (frames : ℕ → Frame) {w : Cores} (hw : Inv buffer capture w) :
    Inv buffer capture (step buffer capture frames w .main) ∧
      (step buffer capture frames w .main).box = w.box.write (frames w.captured.length).1 := by
  obtain ⟨buffers, records, heq, hbuff, hsample, hcontent⟩ :=
    loop_full buffer capture (frames w.captured.length) w
  unfold step
  rw [heq]
  refine ⟨⟨?_, ?_, fun _ => ⟨hbuff, hsample⟩, ?_⟩, ?_⟩
  · intro addr haddr
    rcases List.mem_append.mp haddr with hold | hnew
    · exact hw.queued addr hold
    · exact List.mem_singleton.mp hnew
  · have hsent := hw.sent
    simp only [List.length_append, List.length_singleton]
    omega
  · intro f hf
    have hlast : (frames w.captured.length).1 = f := by simpa using hf
    rw [← hlast]
    exact hcontent
  · unfold Cores.box Box.write
    rw [List.length_append, List.length_singleton]

/-- A step of the sub core reads the slot, if an address waits. -/
theorem step_sub (frames : ℕ → Frame) {w : Cores} (hw : Inv buffer capture w) :
    Inv buffer capture (step buffer capture frames w .sub) ∧
      (step buffer capture frames w .sub).box = w.box.read := by
  unfold step recv Cores.box Box.read
  cases hq : w.queue with
  | nil => exact ⟨hw, by rw [hq]; rfl⟩
  | cons addr queue =>
    have hsent := hw.sent
    rw [hq, List.length_cons] at hsent
    have haddr : addr = capture := hw.queued addr (by rw [hq]; exact List.mem_cons_self)
    have hne : w.captured ≠ [] := by
      rw [← List.length_pos_iff]
      omega
    obtain ⟨hbuff, hsample⟩ := hw.record hne
    have hlast := List.getLast?_eq_some_getLast hne
    -- The record leads to the one buffer, by now overwritten with the last frame.
    have hsize : ((960 : Int32).toUInt32 * 2).toInt32.toInt.toNat = bufferSize := by decide
    have hread : (w.buffers (w.records capture).buff).take
        (((w.records capture).sample.toUInt32 * 2).toInt32.toInt.toNat) =
          w.captured.getLast hne := by
      rw [hbuff, hsample, hsize]
      exact hw.content _ hlast
    subst haddr
    simp only [exec, hread]
    refine ⟨⟨?_, ?_, hw.record, hw.content⟩, ?_⟩
    · intro a ha
      exact hw.queued a (by rw [hq]; exact List.mem_cons_of_mem _ ha)
    · show queue.length ≤ w.captured.length
      omega
    · rw [List.length_cons, if_neg (Nat.succ_ne_zero _), hlast]
      rfl

variable (buffer capture)

/-- A run takes the steps of its schedule one after another. -/
theorem run_concat (frames : ℕ → Frame) (schedule : List Core) (core : Core) :
    run buffer capture frames (schedule ++ [core]) =
      step buffer capture frames (run buffer capture frames schedule) core :=
  List.foldl_concat ..

/-- The cores run as the mailbox does. -/
theorem run_refines (frames : ℕ → Frame) (schedule : List Core) :
    Inv buffer capture (run buffer capture frames schedule) ∧
      (run buffer capture frames schedule).box =
        Mailbox.run (fun i => (frames i).1) (schedule.map Core.party) := by
  induction schedule using List.reverseRecOn with
  | nil =>
    refine ⟨?_, rfl⟩
    constructor <;> simp [run, start]
  | append_singleton schedule core ih =>
    obtain ⟨hinv, hbox⟩ := ih
    rw [run_concat, List.map_append, List.map_singleton]
    cases core with
    | main =>
      obtain ⟨hinv', hbox'⟩ := step_main frames hinv
      refine ⟨hinv', ?_⟩
      rw [hbox', Core.party, run_writer, ← hbox]
      rfl
    | sub =>
      obtain ⟨hinv', hbox'⟩ := step_sub frames hinv
      refine ⟨hinv', ?_⟩
      rw [hbox', Core.party, Mailbox.run_reader, ← hbox]

/-- The frames captured by a run are those of its mailbox. -/
theorem run_captured (frames : ℕ → Frame) (schedule : List Core) :
    (run buffer capture frames schedule).captured =
      (Mailbox.run (fun i => (frames i).1) (schedule.map Core.party)).written :=
  congrArg Box.written (run_refines buffer capture frames schedule).2

/-- The frames encoded by a run are those taken from its mailbox. -/
theorem run_encoded (frames : ℕ → Frame) (schedule : List Core) :
    (run buffer capture frames schedule).encoded =
      (Mailbox.run (fun i => (frames i).1) (schedule.map Core.party)).taken :=
  congrArg Box.taken (run_refines buffer capture frames schedule).2

/-- The writer's turns are the steps of the main core. -/
theorem count_party (schedule : List Core) :
    (schedule.map Core.party).count .writer = schedule.count .main := by
  have hinj : Function.Injective Core.party := by
    intro c d
    cases c <;> cases d <;> decide
  exact List.count_map_of_injective schedule Core.party hinj .main

/-! ## Which schedules keep the frames in order -/

/-- The frame with one value in all its bytes. -/
def plainFrame (v : UInt8) : Frame := ⟨List.replicate bufferSize v, List.length_replicate⟩

/-- Frames of different values differ. -/
theorem plainFrame_zero_ne_one : (plainFrame 0).1 ≠ (plainFrame 1).1 := by
  intro h
  have hmem : (1 : UInt8) ∈ (plainFrame 0).1 := by
    rw [h]
    exact List.mem_replicate.mpr ⟨by decide, rfl⟩
  exact absurd (List.eq_of_mem_replicate hmem) (by decide)

/-- If the frames encoded are the first ones captured, whatever they are, then the schedule is
prompt. -/
theorem prompt_of_encoded_prefix {schedule : List Core}
    (h : ∀ frames, (run buffer capture frames schedule).encoded <+:
      (run buffer capture frames schedule).captured) : Prompt schedule := by
  refine prompt_of_taken_prefix plainFrame_zero_ne_one fun values hvalues => ?_
  -- Values that are among two frames are those of a microphone.
  let frames : ℕ → Frame := fun i =>
    if values i = (plainFrame 0).1 then plainFrame 0 else plainFrame 1
  have hframes : (fun i => (frames i).1) = values := by
    funext i
    unfold frames
    split_ifs with hzero
    · exact hzero.symm
    · exact ((hvalues i).resolve_left hzero).symm
  have hprefix := h frames
  rw [run_encoded, run_captured, hframes] at hprefix
  exact hprefix

/-- In every schedule: the frames captured are those that the microphone delivers, each of them is
waiting or has led to one frame encoded, and the frame that is encoded for an address is the last
one captured before. The frames encoded are the first ones captured, whatever they are, if and
only if the schedule is prompt. -/
theorem encoded_prefix_iff_prompt (schedule : List Core) :
    (∀ frames, let w := run buffer capture frames schedule
      w.captured = (List.range (schedule.count .main)).map (fun i => (frames i).1) ∧
      w.encoded.length + waiting schedule = w.captured.length ∧
      (run buffer capture frames (schedule ++ [.sub])).encoded =
        w.encoded ++ if waiting schedule = 0 then [] else w.captured.getLast?.toList) ∧
    ((∀ frames, (run buffer capture frames schedule).encoded <+:
      (run buffer capture frames schedule).captured) ↔ Prompt schedule) := by
  refine ⟨fun frames => ⟨?_, ?_, ?_⟩, prompt_of_encoded_prefix buffer capture, fun h frames => ?_⟩
  · rw [run_captured, run_written, count_party]
  · rw [run_captured, run_encoded, length_run_written]
    exact run_balance _ _
  · rw [run_encoded, run_encoded, run_captured, List.map_append, List.map_singleton, Core.party,
      Mailbox.run_reader, Box.read_taken, run_notices]
    rfl
  · rw [run_encoded, run_captured]
    exact taken_prefix_of_prompt _ h

/-- Two frames are captured before the sub core looks: the second one is encoded in the place of
the first one. -/
theorem exists_not_encoded_prefix :
    ∃ schedule frames, ¬ (run 0x1000 0x2000 frames schedule).encoded <+:
      (run 0x1000 0x2000 frames schedule).captured := by
  refine ⟨[.main, .main, .sub], fun i => plainFrame i.toUInt8, ?_⟩
  decide +kernel

end Pipeline

end SpresenseOpus.Subcore
