import SpresenseOpus.Codec.OggWriter
import SpresenseOpus.Library.Machine
import SpresenseOpus.Worker.Command

/-!
# The execution loop of the DSP worker

`__main` of `opusenc.ino`, which `worker/main.cpp` of the SDK build repeats word by word, and the
`OpusAudioEncoder` of its `encoderPoc_opus.h`. `handle` is one turn of the loop, from a received
message to its reply. It halts where the code reads through the null pointer `opusEncoder`, divides
by a channel count of zero, hands a failed handle to `opus_encode`, or does not come out of a drain
loop. `USE_OGG` is a parameter, since both builds of the worker are considered.
-/

namespace SpresenseOpus.Worker

/-- A build of the worker: whether `USE_OGG` is set, the libraries that it is linked with, and the
number of iterations that a drain loop is granted. -/
structure Build (ε σ : Type) where
  useOgg : Bool
  opus : Libopus ε
  oggz : Liboggz σ
  fuel : ℕ

/-- `OpusAudioEncoder`: the handle, with `none` for a failed creation, and its settings. -/
structure OpusAudioEncoder (ε : Type) where
  enc : Option ε
  cfg : OpusEncoderSettings

/-- One call of `opus_encode`: its encoder and its arguments. -/
structure EncodeCall (ε : Type) where
  enc : ε
  pcm : List UInt8
  frame_size : Int32
  max_data_bytes : Int32

/-- The globals of the worker and of its Ogg module, whose sink is `oggzBuffer`. -/
structure Globals (ε σ : Type) where
  initialized : Bool := false
  opusEncoder : Option (OpusAudioEncoder ε) := none
  posInSamples : UInt32 := 0
  ogg : Ogg σ := {}
  /-- History: the calls of `opus_encode`. -/
  encodeCalls : List (EncodeCall ε) := []

/-- The globals after boot. -/
def boot {ε σ : Type} : Globals ε σ := {}

/-- A program over the globals of the worker. -/
abbrev WorkerM (ε σ : Type) := EStateM Halt (Globals ε σ)

/-! ## The encoder -/

section Encoder

variable {ε : Type}

/-- The constructor of `OpusAudioEncoder`. -/
def OpusAudioEncoder.new (opus : Libopus ε) (cfg : OpusEncoderSettings) : OpusAudioEncoder ε where
  enc := createEncoder opus cfg
  cfg := cfg

/-- `getExpectedPackageSize`, in the 32-bit unsigned arithmetic of `size_t`. -/
def OpusAudioEncoder.getExpectedPackageSize (e : OpusAudioEncoder ε) : UInt32 :=
  (e.cfg.getFrameSizeSamples e.cfg.sample_rate).toUInt32 * 2 * e.cfg.channels.toUInt32

/-- The number of frames that `encodeFrame` passes to `opus_encode`. -/
def OpusAudioEncoder.frames (e : OpusAudioEncoder ε) (dataInLen : UInt32) : Int32 :=
  (dataInLen / e.cfg.channels.toUInt32 / 2).toInt32

end Encoder

section Loop

variable {ε σ : Type} (b : Build ε σ)

/-- `encodeFrame` of the worker's encoder. -/
def encodeFrame (e : OpusAudioEncoder ε) (dataIn : List UInt8) (dataInLen dataOutLenMax : UInt32) :
    WorkerM ε σ (Encoded ε) :=
  if e.cfg.channels = 0 then throw .zeroChannels
  else
    match e.enc with
    | none => throw .failedHandle
    | some enc => modifyGet fun w =>
      let call : EncodeCall ε := {
        enc, pcm := dataIn, frame_size := e.frames dataInLen
        max_data_bytes := dataOutLenMax.toInt32 }
      let r := b.opus.encode call.enc call.pcm call.frame_size call.max_data_bytes
      (r, { w with
        opusEncoder := some { e with enc := some r.next }
        encodeCalls := w.encodeCalls ++ [call] })

/-! ## The branches of the loop -/

/-- A program of the Ogg module, run by the worker. -/
def onOgg {α : Type} (x : OggM σ α) : WorkerM ε σ α := fun w =>
  match x.run w.ogg with
  | .ok a g => .ok a { w with ogg := g }
  | .error e g => .error e { w with ogg := g }

/-- The `memcpy` of `oggzBuffer` to an output buffer and the `clear` after it: the bytes copied. -/
def takeOggzBuffer : WorkerM ε σ (List UInt8) :=
  modifyGet fun w => (w.ogg.sink, { w with ogg := { w.ogg with sink := [] } })

/-- The settings that the Init branch makes of a command. The frame size is fixed to 20 ms. -/
def ApuInitEncCmd.settings (initCmd : ApuInitEncCmd) : OpusEncoderSettings :=
  { channels := initCmd.channel_num.toUInt32.toInt32
    sample_rate := initCmd.input_sampling_rate.toInt32
    complexity := initCmd.init_opus_enc_param.complexity.toInt32
    frame_sizes_ms := OPUS_FRAMESIZE_20_MS }

/-- The Init branch of `__main`. -/
def initBranch (com_param : Wien2ApuCmd) : WorkerM ε σ Handled := do
  let w ← get
  if w.initialized then
    return { com_param := com_param.setExecResult .ApuExecOK }
  else
    let initCmd := com_param.init_enc_cmd
    let com_param :=
      if initCmd.codec_type ≠ .AudCodecOPUS then com_param.setExecResult .ApuExecError
      else com_param
    let cfg := initCmd.settings
    modify fun w => { w with opusEncoder := some (OpusAudioEncoder.new b.opus cfg) }
    if b.useOgg then
      onOgg (oggBegin b.oggz)
      onOgg (oggWriteHeaderPage b.oggz b.fuel cfg.channels cfg.sample_rate)
    modify fun w => { w with initialized := true }
    -- This assignment stands behind both branches and replaces the result for a wrong codec.
    return { com_param := com_param.setExecResult .ApuExecOK }

/-- What the Exec branch does with a frame of the expected size. The sizes that it computes go into
`execCmd`, the local copy of the command. -/
def execFrame (com_param : Wien2ApuCmd) (mem : UInt32 → UInt8) (e : OpusAudioEncoder ε) :
    WorkerM ε σ Handled := do
  let execCmd := com_param.exec_enc_cmd
  let pcm := readBytes mem execCmd.input_buffer.p_buffer execCmd.input_buffer.size
  let r ← encodeFrame b e pcm execCmd.input_buffer.size execCmd.output_buffer.size
  let execCmd := execCmd.setOutputSize r.len.toUInt32
  let encoded : Write := ⟨execCmd.output_buffer.p_buffer, r.data⟩
  if b.useOgg then
    modify fun w => { w with
      posInSamples :=
        w.posInSamples + execCmd.input_buffer.size / 2 / e.cfg.channels.toUInt32 }
    let w ← get
    onOgg (oggWriteAudioDataPage b.oggz b.fuel r.data execCmd.output_buffer.size.toInt32.toInt
      w.posInSamples.toInt32)
    let pages ← takeOggzBuffer
    let execCmd := execCmd.setOutputSize (UInt32.ofNat pages.length)
    return {
      com_param := com_param.setExecResult .ApuExecOK
      encoded := some encoded
      copied := some ⟨execCmd.output_buffer.p_buffer, pages⟩
      local_size := some execCmd.output_buffer.size }
  else
    return {
      com_param := com_param.setExecResult .ApuExecOK
      encoded := some encoded
      local_size := some execCmd.output_buffer.size }

/-- The Exec branch of `__main`. -/
def execBranch (com_param : Wien2ApuCmd) (mem : UInt32 → UInt8) : WorkerM ε σ Handled := do
  let w ← get
  match w.opusEncoder with
  -- `getExpectedPackageSize` is called without a look at the pointer.
  | none => throw .nullEncoder
  | some e =>
    if com_param.exec_enc_cmd.input_buffer.size = e.getExpectedPackageSize then
      execFrame b com_param mem e
    else
      let execCmd := com_param.exec_enc_cmd.setOutputSize 0
      return {
        com_param := com_param.setExecResult .ApuWarning
        local_size := some execCmd.output_buffer.size }

/-- The Flush branch of `__main`. -/
def flushBranch (com_param : Wien2ApuCmd) : WorkerM ε σ Handled := do
  let flushCmd := com_param.flush_enc_cmd
  if b.useOgg then
    onOgg (oggWriteFooterPage b.oggz b.fuel)
    -- `ogg_end` comes here and is empty.
    let pages ← takeOggzBuffer
    let flushCmd := flushCmd.setOutputSize (UInt32.ofNat pages.length)
    return {
      com_param := com_param.setExecResult .ApuExecOK
      copied := some ⟨flushCmd.output_buffer.p_buffer, pages⟩
      local_size := some flushCmd.output_buffer.size }
  else
    return {
      com_param := com_param.setExecResult .ApuExecOK
      local_size := some flushCmd.output_buffer.size }

/-- What the loop does with a command, by the mode and the event of its header. -/
def dispatch (com_param : Wien2ApuCmd) (mem : UInt32 → UInt8) : WorkerM ε σ Handled :=
  if com_param.header.process_mode = EncMode ∧ com_param.header.event_type = InitEvent then
    initBranch b com_param
  else if com_param.header.process_mode = EncMode ∧ com_param.header.event_type = ExecEvent then
    execBranch b com_param mem
  else if com_param.header.process_mode = EncMode ∧ com_param.header.event_type = FlushEvent then
    flushBranch b com_param
  else
    pure { com_param }

/-- One turn of the execution loop. -/
def handle (m : Message) : WorkerM ε σ Reply := do
  if m.type = COMMAND_DATATYPE_ADDRESS then
    let handled ← dispatch b m.com_param m.mem
    return replyToSpu m.msgdata (some handled)
  else
    -- The error is only logged, and the reply is sent all the same.
    return replyToSpu m.msgdata none

end Loop

end SpresenseOpus.Worker
