import Mathlib.Data.Int.Notation
import Mathlib.Data.List.Basic

/-!
# The commands of the encoder component

The parts of `apu_cmd.h`, `apu_cmd_defs.h` and `wien2_common_defs.h` that the DSP worker reads and
writes. The union of `Wien2ApuCmd` is modelled by its three encoder members side by side: which of
them the peer has filled in is said by the header, and the worker never writes to any of them.
-/

namespace SpresenseOpus.Worker

/-- `ExecResult`. -/
inductive ExecResult where
  | ApuExecOK
  | ApuExecError
  | ApuWarning
  deriving DecidableEq, Repr

/-- `AudioCodec`. -/
inductive AudioCodec where
  | InvalidCodecType
  | AudCodecMP3
  | AudCodecLPCM
  | AudCodecAAC
  | AudCodecOPUS
  | AudCodecHEAAC
  | AudCodecMP2
  | AudCodecFLAC
  | AudCodecSBC
  | AudCodecLDAC
  | AudCodecWMA
  | AudCodecNoCodec
  | AudCodecNum
  deriving DecidableEq, Repr

/-- `Wien2::Apu::EncMode`. -/
def EncMode : UInt8 := 3
/-- `Wien2::Apu::InitEvent`. -/
def InitEvent : UInt8 := 1
/-- `Wien2::Apu::ExecEvent`. -/
def ExecEvent : UInt8 := 2
/-- `Wien2::Apu::FlushEvent`. -/
def FlushEvent : UInt8 := 3

/-- The fields of `ApuCmdHeader` that say what a command is. -/
structure ApuCmdHeader where
  process_mode : UInt8
  event_type : UInt8
  deriving DecidableEq, Repr

/-- `BufferHeader`: a size and an address. -/
structure BufferHeader where
  size : UInt32
  p_buffer : UInt32
  deriving DecidableEq, Repr

/-- `ApuInitOPUSEncParam`, as far as the worker reads it. -/
structure ApuInitOPUSEncParam where
  complexity : UInt32
  deriving DecidableEq, Repr

/-- `ApuInitEncCmd`, as far as the worker reads it. -/
structure ApuInitEncCmd where
  codec_type : AudioCodec
  channel_num : UInt8
  input_sampling_rate : UInt32
  init_opus_enc_param : ApuInitOPUSEncParam
  deriving DecidableEq, Repr

/-- `ApuExecEncCmd`. -/
structure ApuExecEncCmd where
  input_buffer : BufferHeader
  output_buffer : BufferHeader
  deriving DecidableEq, Repr

/-- `ApuFlushEncCmd`. -/
structure ApuFlushEncCmd where
  output_buffer : BufferHeader
  deriving DecidableEq, Repr

/-- `ApuResult`, as far as the worker writes it. -/
structure ApuResult where
  exec_result : ExecResult
  deriving DecidableEq, Repr

/-- `Wien2ApuCmd`, with the members of its union that belong to the encoder. -/
structure Wien2ApuCmd where
  header : ApuCmdHeader
  init_enc_cmd : ApuInitEncCmd
  exec_enc_cmd : ApuExecEncCmd
  flush_enc_cmd : ApuFlushEncCmd
  result : ApuResult
  deriving DecidableEq, Repr

/-- The assignment to `com_param->result.exec_result`. -/
def Wien2ApuCmd.setExecResult (com_param : Wien2ApuCmd) (exec_result : ExecResult) : Wien2ApuCmd :=
  { com_param with result := { com_param.result with exec_result } }

/-- A result leaves the Exec command. -/
@[simp] theorem Wien2ApuCmd.setExecResult_exec_enc_cmd (c : Wien2ApuCmd) (x : ExecResult) :
    (c.setExecResult x).exec_enc_cmd = c.exec_enc_cmd := rfl

/-- A result leaves the Flush command. -/
@[simp] theorem Wien2ApuCmd.setExecResult_flush_enc_cmd (c : Wien2ApuCmd) (x : ExecResult) :
    (c.setExecResult x).flush_enc_cmd = c.flush_enc_cmd := rfl

/-- The result set is the result. -/
@[simp] theorem Wien2ApuCmd.setExecResult_exec_result (c : Wien2ApuCmd) (x : ExecResult) :
    (c.setExecResult x).result.exec_result = x := rfl

/-- The assignment to `output_buffer.size` of a local copy of an Exec command. -/
def ApuExecEncCmd.setOutputSize (execCmd : ApuExecEncCmd) (size : UInt32) : ApuExecEncCmd :=
  { execCmd with output_buffer := { execCmd.output_buffer with size } }

/-- The assignment to `output_buffer.size` of a local copy of a Flush command. -/
def ApuFlushEncCmd.setOutputSize (flushCmd : ApuFlushEncCmd) (size : UInt32) : ApuFlushEncCmd :=
  { flushCmd with output_buffer := { flushCmd.output_buffer with size } }

/-- What the worker takes from the message queue, with the memory that it finds: the command
structure at the address received, and the bytes in the shared memory. -/
structure Message where
  /-- The value that `mpmq_receive` returns. -/
  command : Int32
  /-- The word that `mpmq_receive` stores: an address, in a message of address type. -/
  msgdata : UInt32
  /-- The structure at the address `msgdata`. -/
  com_param : Wien2ApuCmd
  /-- The bytes in the shared memory. -/
  mem : UInt32 → UInt8

/-- `size` bytes of the shared memory from an address on. -/
def readBytes (mem : UInt32 → UInt8) (p_buffer size : UInt32) : List UInt8 :=
  (List.range size.toNat).map fun i => mem (p_buffer + UInt32.ofNat i)

/-- Bytes that the worker has put at an address. -/
structure Write where
  p_buffer : UInt32
  bytes : List UInt8
  deriving DecidableEq, Repr

/-- What handling a command leads to: what the memory that the peer sees holds afterwards, and what
the worker has noted for itself. -/
structure Handled where
  /-- The structure at the address received, as the worker leaves it. -/
  com_param : Wien2ApuCmd
  /-- What `opus_encode` has left in the output buffer. -/
  encoded : Option Write := none
  /-- What `memcpy` has then put there from `oggzBuffer`. -/
  copied : Option Write := none
  /-- `output_buffer.size` of the worker's local copy of an Exec or Flush command, at the end. -/
  local_size : Option UInt32 := none
  deriving DecidableEq, Repr

/-- `result.exec_result` of the structure that the worker leaves. -/
def Handled.exec_result (h : Handled) : ExecResult := h.com_param.result.exec_result

/-- The number of valid bytes at the start of the output buffer: what was put there last. -/
def Handled.validBytes (h : Handled) : ℕ :=
  match h.copied, h.encoded with
  | some w, _ => w.bytes.length
  | none, some w => w.bytes.length
  | none, none => 0

/-- A message sent back, and what was done before it was sent: a message of value type names no
command to handle. -/
structure Reply where
  msg_id : UInt8
  msg_data : UInt32
  handled : Option Handled
  deriving DecidableEq, Repr

/-- `result.exec_result` of the command that a reply hands back. -/
def Reply.exec_result (r : Reply) : Option ExecResult := r.handled.map Handled.exec_result

/-- The bytes that `memcpy` has put into the output buffer before a reply. -/
def Reply.copied (r : Reply) : Option (List UInt8) :=
  r.handled.bind fun h => h.copied.map Write.bytes

/-! ## Messages -/

/-- `COMMAND_DATATYPE_ADDRESS`. -/
def COMMAND_DATATYPE_ADDRESS : UInt8 := 0

/-- `MSGID_DATATYPE_MASK`. -/
def MSGID_DATATYPE_MASK : UInt8 := 1

/-- `CRE_MSGID`. -/
def creMsgid (mode type : UInt8) : UInt8 := mode <<< 4 ||| (type &&& MSGID_DATATYPE_MASK)

/-- `reply_to_spu`: the address goes back as it came. -/
def replyToSpu (addr : UInt32) (handled : Option Handled) : Reply :=
  { msg_id := creMsgid EncMode COMMAND_DATATYPE_ADDRESS, msg_data := addr, handled }

/-- The message type that the loop makes of the value of `mpmq_receive`. -/
def Message.type (m : Message) : UInt8 := m.command.toUInt32.toUInt8 &&& MSGID_DATATYPE_MASK

end SpresenseOpus.Worker
