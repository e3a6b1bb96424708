import Mathlib.Data.Int.Notation
import Mathlib.Data.List.Basic

/-!
# libopus and the encoder settings

libopus is outside the repository. `Libopus` is what the programs call of it, as a parameter: an
encoder is a value of an arbitrary type, `encode` takes it to its next value, and the only facts
assumed are the documented ones on the arguments of `opus_encoder_create` and on the length that
`opus_encode` returns.

The settings and `getFrameSizeSamples` and `applyConfiguration` are the parts of
`encoderPoc_opus.h` that its copies share.
-/

namespace SpresenseOpus

/-- Where a program stops without having finished: it would read through a null pointer, divide by
zero, hand a failed handle to `opus_encode` or go past the end of a buffer, or a loop has used up
the iterations it was granted. -/
inductive Halt where
  /-- A method of `OpusAudioEncoder` is called on a null pointer. -/
  | nullEncoder
  /-- `encodeFrame` divides by `cfg.channels`, which is zero. -/
  | zeroChannels
  /-- `opus_encode` is called with the handle of a failed `opus_encoder_create`. -/
  | failedHandle
  /-- A buffer is read or written past its end. -/
  | pastEnd
  /-- A loop did not end within the iterations it was granted. -/
  | outOfFuel
  deriving DecidableEq, Repr

/-! ## libopus -/

/-- `OPUS_OK`. -/
def OPUS_OK : Int32 := 0
/-- `OPUS_BAD_ARG`. -/
def OPUS_BAD_ARG : Int32 := -1
/-- `OPUS_APPLICATION_VOIP`. -/
def OPUS_APPLICATION_VOIP : Int32 := 2048
/-- `OPUS_FRAMESIZE_2_5_MS`. -/
def OPUS_FRAMESIZE_2_5_MS : Int32 := 5001
/-- `OPUS_FRAMESIZE_5_MS`. -/
def OPUS_FRAMESIZE_5_MS : Int32 := 5002
/-- `OPUS_FRAMESIZE_10_MS`. -/
def OPUS_FRAMESIZE_10_MS : Int32 := 5003
/-- `OPUS_FRAMESIZE_20_MS`. -/
def OPUS_FRAMESIZE_20_MS : Int32 := 5004
/-- `OPUS_FRAMESIZE_40_MS`. -/
def OPUS_FRAMESIZE_40_MS : Int32 := 5005
/-- `OPUS_FRAMESIZE_60_MS`. -/
def OPUS_FRAMESIZE_60_MS : Int32 := 5006
/-- `OPUS_FRAMESIZE_80_MS`. -/
def OPUS_FRAMESIZE_80_MS : Int32 := 5007
/-- `OPUS_FRAMESIZE_100_MS`. -/
def OPUS_FRAMESIZE_100_MS : Int32 := 5008
/-- `OPUS_FRAMESIZE_120_MS`. -/
def OPUS_FRAMESIZE_120_MS : Int32 := 5009

/-- The requests that `applyConfiguration` makes of `opus_encoder_ctl`. -/
inductive CtlRequest where
  | setBitrate (x : Int32)
  | setForceChannels (x : Int32)
  | setVbr (x : Int32)
  | setVbrConstraint (x : Int32)
  | setComplexity (x : Int32)
  | setMaxBandwidth (x : Int32)
  | setSignal (x : Int32)
  | setInbandFec (x : Int32)
  | setPacketLossPerc (x : Int32)
  | setLsbDepth (x : Int32)
  | setPredictionDisabled (x : Int32)
  | setDtx (x : Int32)
  deriving DecidableEq, Repr

/-- The outcome of one `opus_encode`. -/
structure Encoded (ε : Type) where
  /-- The value returned: the length of the packet, or a negative error code. -/
  len : Int32
  /-- The bytes left at the start of the output buffer. -/
  data : List UInt8
  /-- The encoder after the call. -/
  next : ε
  /-- A call that succeeds leaves as many bytes as it returns. -/
  length_eq : 0 ≤ len.toInt → (data.length : ℤ) = len.toInt

/-- The part of libopus that the programs call. -/
structure Libopus (ε : Type) where
  /-- `opus_encoder_create`, with `none` for the null handle of a failure. -/
  create : (Fs channels application : Int32) → Option ε
  /-- An encoder is only handed out for the sampling rates and channel counts that libopus
  documents. -/
  create_args : ∀ Fs channels application e, create Fs channels application = some e →
    Fs ∈ [8000, 12000, 16000, 24000, 48000] ∧ channels ∈ [1, 2]
  /-- `opus_encoder_ctl` with a request to set something: its result and the encoder after it. -/
  ctl : ε → CtlRequest → Int32 × ε
  /-- `opus_encode` on the samples at `pcm`, of which it reads `frame_size` for each channel. -/
  encode : ε → (pcm : List UInt8) → (frame_size max_data_bytes : Int32) → Encoded ε
  /-- `opus_encoder_ctl` with `OPUS_GET_FINAL_RANGE`. -/
  finalRange : ε → UInt32

/-! ## The settings -/

/-- `OpusEncoderSettings`, with its initial values. -/
structure OpusEncoderSettings where
  channels : Int32 := 2
  application : Int32 := OPUS_APPLICATION_VOIP
  sample_rate : Int32 := 48000
  bits_per_sample : Int32 := 16
  complexity : Int32 := 10
  frame_sizes_ms : Int32 := OPUS_FRAMESIZE_10_MS
  bitrate : Int32 := -1
  force_channel : Int32 := -1
  use_vbr : Int32 := -1
  vbr_constraint : Int32 := -1
  max_bandwidth : Int32 := -1
  singal : Int32 := -1
  inband_fec : Int32 := -1
  packet_loss_perc : Int32 := -1
  lsb_depth : Int32 := -1
  prediction_disabled : Int32 := -1
  use_dtx : Int32 := -1
  deriving DecidableEq, Repr

/-- The frame size in samples, for the frame duration of the settings. -/
def OpusEncoderSettings.getFrameSizeSamples (cfg : OpusEncoderSettings) (sampling_rate : Int32) :
    Int32 :=
  if cfg.frame_sizes_ms = OPUS_FRAMESIZE_2_5_MS then sampling_rate / 400
  else if cfg.frame_sizes_ms = OPUS_FRAMESIZE_5_MS then sampling_rate / 200
  else if cfg.frame_sizes_ms = OPUS_FRAMESIZE_10_MS then sampling_rate / 100
  else if cfg.frame_sizes_ms = OPUS_FRAMESIZE_20_MS then sampling_rate / 50
  else if cfg.frame_sizes_ms = OPUS_FRAMESIZE_40_MS then sampling_rate / 25
  else if cfg.frame_sizes_ms = OPUS_FRAMESIZE_60_MS then 3 * sampling_rate / 50
  else if cfg.frame_sizes_ms = OPUS_FRAMESIZE_80_MS then 4 * sampling_rate / 50
  else if cfg.frame_sizes_ms = OPUS_FRAMESIZE_100_MS then 5 * sampling_rate / 50
  else if cfg.frame_sizes_ms = OPUS_FRAMESIZE_120_MS then 6 * sampling_rate / 50
  else sampling_rate / 100

section Configuration

variable {ε : Type} (opus : Libopus ε)

/-- One setting of `applyConfiguration`: a negative value means that it is not set, and a request
that libopus refuses clears `ok`. -/
def applySetting (state : Bool × ε) (setting : Int32 × (Int32 → CtlRequest)) : Bool × ε :=
  if 0 ≤ setting.1 then
    let r := opus.ctl state.2 (setting.2 setting.1)
    (state.1 && r.1 == OPUS_OK, r.2)
  else state

/-- The settings that `applyConfiguration` goes through, in its order. -/
def OpusEncoderSettings.requests (cfg : OpusEncoderSettings) :
    List (Int32 × (Int32 → CtlRequest)) :=
  [(cfg.bitrate, .setBitrate), (cfg.force_channel, .setForceChannels), (cfg.use_vbr, .setVbr),
    (cfg.vbr_constraint, .setVbrConstraint), (cfg.complexity, .setComplexity),
    (cfg.max_bandwidth, .setMaxBandwidth), (cfg.singal, .setSignal),
    (cfg.inband_fec, .setInbandFec), (cfg.packet_loss_perc, .setPacketLossPerc),
    (cfg.lsb_depth, .setLsbDepth), (cfg.prediction_disabled, .setPredictionDisabled),
    (cfg.use_dtx, .setDtx)]

/-- `applyConfiguration`: whether every setting was accepted, and the encoder after it. -/
def applyConfiguration (cfg : OpusEncoderSettings) (enc : ε) : Bool × ε :=
  cfg.requests.foldl (applySetting opus) (true, enc)

/-- The handle that the constructor of `OpusAudioEncoder` stores. A failed creation is only
logged, and the result of `applyConfiguration` is dropped. -/
def createEncoder (cfg : OpusEncoderSettings) : Option ε :=
  (opus.create cfg.sample_rate cfg.channels cfg.application).map fun enc =>
    (applyConfiguration opus cfg enc).2

/-- A handle that was created has one or two channels. -/
theorem createEncoder_channels {cfg : OpusEncoderSettings} {enc : ε}
    (h : createEncoder opus cfg = some enc) : cfg.channels = 1 ∨ cfg.channels = 2 := by
  obtain ⟨e, he, -⟩ := Option.map_eq_some_iff.mp h
  have hargs := (opus.create_args _ _ _ _ he).2
  simpa using hargs

end Configuration

end SpresenseOpus
