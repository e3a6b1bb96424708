import SpresenseOpus.Codec.Sample
import SpresenseOpus.Worker.Turn

/-!
# The messages of a peer

The commands that the main core sends to the worker, as it fills them in: the header says which
member of the union is meant and the other members are zero. Together with the two builds of the
worker over the libraries of `SpresenseOpus.Codec.Sample` they make up the concrete runs.
-/

namespace SpresenseOpus.Worker

/-- A zeroed command structure with an encoder event in its header. -/
def encCmd (event_type : UInt8) : Wien2ApuCmd where
  header := { process_mode := EncMode, event_type }
  init_enc_cmd := {
    codec_type := .InvalidCodecType, channel_num := 0, input_sampling_rate := 0
    init_opus_enc_param := { complexity := 0 } }
  exec_enc_cmd := { input_buffer := ⟨0, 0⟩, output_buffer := ⟨0, 0⟩ }
  flush_enc_cmd := { output_buffer := ⟨0, 0⟩ }
  result := { exec_result := .ApuExecOK }

/-- The message that hands over a command: its identifier is that of an address. -/
def sendToDsp (msgdata : UInt32) (com_param : Wien2ApuCmd) (mem : UInt32 → UInt8) : Message where
  command := (creMsgid EncMode COMMAND_DATATYPE_ADDRESS).toUInt32.toInt32
  msgdata := msgdata
  com_param := com_param
  mem := mem

/-- An Init command for the Opus codec. -/
def initMessage (channel_num : UInt8) (input_sampling_rate complexity : UInt32) : Message :=
  sendToDsp 0x1000
    { encCmd InitEvent with
      init_enc_cmd := {
        codec_type := .AudCodecOPUS, channel_num, input_sampling_rate
        init_opus_enc_param := { complexity } } }
    fun _ => 0

/-- An Exec command on two buffers of a memory. -/
def execMessage (input_buffer output_buffer : BufferHeader) (mem : UInt32 → UInt8) : Message :=
  sendToDsp 0x1000
    { encCmd ExecEvent with exec_enc_cmd := { input_buffer, output_buffer } } mem

/-- A Flush command with an output buffer. -/
def flushMessage (output_buffer : BufferHeader) : Message :=
  sendToDsp 0x1000 { encCmd FlushEvent with flush_enc_cmd := { output_buffer } } fun _ => 0

/-- A message that hands over a command is handled by the header of the command. -/
theorem kind_sendToDsp (msgdata : UInt32) (c : Wien2ApuCmd) (mem : UInt32 → UInt8)
    (hmode : c.header.process_mode = EncMode) :
    (sendToDsp msgdata c mem).kind =
      if c.header.event_type = InitEvent then .init
      else if c.header.event_type = ExecEvent then .exec
      else if c.header.event_type = FlushEvent then .flush
      else .other := by
  have htype : (sendToDsp msgdata c mem).type = COMMAND_DATATYPE_ADDRESS := by
    simp only [sendToDsp, Message.type]
    decide
  have hheader : (sendToDsp msgdata c mem).com_param.header = c.header := rfl
  simp [Message.kind, htype, hheader, hmode]

/-- The worker takes the Init of the peer for one. -/
@[simp] theorem kind_initMessage (ch : UInt8) (rate complexity : UInt32) :
    (initMessage ch rate complexity).kind = .init :=
  kind_sendToDsp _ _ _ rfl

/-- It takes the Exec for one. -/
@[simp] theorem kind_execMessage (input output : BufferHeader) (mem : UInt32 → UInt8) :
    (execMessage input output mem).kind = .exec :=
  kind_sendToDsp _ _ _ rfl

/-- It takes the Flush for one. -/
@[simp] theorem kind_flushMessage (output : BufferHeader) : (flushMessage output).kind = .flush :=
  kind_sendToDsp _ _ _ rfl

/-- The worker as it is shipped, without Ogg. -/
def plainBuild : Build Int32 (List UInt8) where
  useOgg := false
  opus := silentOpus
  oggz := bareOggz
  fuel := 0

/-- The worker with Ogg. Its packets are shorter than `WRITE_CHUNK_SIZE`, so that a drain loop
takes at most two iterations. -/
def oggBuild : Build Int32 (List UInt8) where
  useOgg := true
  opus := silentOpus
  oggz := bareOggz
  fuel := 2

/-- The Init of a peer that opens a mono encoder for 48 kHz. -/
def monoInit : Message := initMessage 1 48000 5

/-- An Exec with a frame of 20 ms for that encoder and room for 256 bytes of output. -/
def monoExec : Message := execMessage ⟨1920, 0x2000⟩ ⟨256, 0x3000⟩ fun _ => 0

/-- A Flush with room for 256 bytes of output. -/
def monoFlush : Message := flushMessage ⟨256, 0x3000⟩

/-- So it does with the mono Init. -/
@[simp] theorem kind_monoInit : monoInit.kind = .init := kind_initMessage _ _ _

/-- So it does with the mono Exec. -/
@[simp] theorem kind_monoExec : monoExec.kind = .exec := kind_execMessage _ _ _

/-- So it does with the mono Flush. -/
@[simp] theorem kind_monoFlush : monoFlush.kind = .flush := kind_flushMessage _

end SpresenseOpus.Worker
