import SpresenseOpus.Codec.Sample
import SpresenseOpus.Library.Blocks
import SpresenseOpus.Library.Words

/-!
# The encoder of the host programs

`OpusAudioEncoder` of `02_encode_on_host_opus_opus_demo` and `02_encode_on_host_opus_ogg`, which
keeps its output buffer from call to call and returns a copy of all of it together with the length
of the packet. On the host `size_t` has 64 bits.

The programs encode the blocks of a file one after another. `encoderAt` is the handle before the
`i`-th of them, and `EncoderAt` says that an encoder is in that state (`EncoderAt.encodeFrame`).
-/

namespace SpresenseOpus.Host

open Blocks Words

/-- `OPUS_MAX_BUFFER_SIZE`. -/
def OPUS_MAX_BUFFER_SIZE : Int32 := 5760

/-- `OpusEncoderSettings` of the host programs. -/
structure OpusEncoderSettings extends SpresenseOpus.OpusEncoderSettings where
  max_buffer_size : Int32 := OPUS_MAX_BUFFER_SIZE

/-- `OpusAudioEncoder` of the host programs. -/
structure OpusAudioEncoder (ε : Type) where
  enc : Option ε
  cfg : OpusEncoderSettings
  encodedDataPacket : List UInt8

/-- An `int` as a `size_t`. -/
def toSize (x : Int32) : UInt64 := x.toInt64.toUInt64

section Encoder

variable {ε : Type} (opus : Libopus ε)

/-- The constructor of `OpusAudioEncoder`. -/
def OpusAudioEncoder.new (cfg : OpusEncoderSettings) : OpusAudioEncoder ε where
  enc := createEncoder opus cfg.toOpusEncoderSettings
  cfg := cfg
  encodedDataPacket := List.replicate cfg.max_buffer_size.toInt.toNat 0

/-- `getExpectedPackageSize`, which leaves the number of channels out. -/
def OpusAudioEncoder.getExpectedPackageSize (e : OpusAudioEncoder ε) : UInt64 :=
  toSize (e.cfg.getFrameSizeSamples e.cfg.sample_rate) * 2

/-- `getFinalRange`. -/
def OpusAudioEncoder.getFinalRange (e : OpusAudioEncoder ε) : Except Halt UInt32 :=
  match e.enc with
  | none => .error .failedHandle
  | some enc => .ok (opus.finalRange enc)

/-- What `encodeFrame` returns: a copy of the buffer, the length stored through `dataLenOut`, and
the encoder after the call. -/
structure EncodedFrame (ε : Type) where
  encodedBytes : List UInt8
  dataLenOut : UInt64
  next : OpusAudioEncoder ε

/-- `encodeFrame`. The packet goes to the start of the buffer, over what was there before. -/
def OpusAudioEncoder.encodeFrame (e : OpusAudioEncoder ε) (data : List UInt8) (dataLen : UInt64) :
    Except Halt (EncodedFrame ε) :=
  if e.cfg.channels = 0 then .error .zeroChannels
  else
    match e.enc with
    | none => .error .failedHandle
    | some enc =>
      let frames := (dataLen / toSize e.cfg.channels / 2).toInt64.toInt32
      let r := opus.encode enc data frames e.cfg.max_buffer_size
      -- libopus writes to the start of the buffer, which is `max_buffer_size` bytes long.
      if e.encodedDataPacket.length < r.data.length then .error .pastEnd
      else
        let encodedDataPacket := r.data ++ e.encodedDataPacket.drop r.data.length
        .ok {
          encodedBytes := encodedDataPacket
          dataLenOut := toSize r.len
          next := { e with enc := some r.next, encodedDataPacket } }

variable {opus} in
/-- When `encodeFrame` returns, it has made one call, which has left its packet in the buffer. -/
theorem OpusAudioEncoder.encodeFrame_ok {e : OpusAudioEncoder ε} {data : List UInt8}
    {dataLen : UInt64} {f : EncodedFrame ε} (hf : e.encodeFrame opus data dataLen = .ok f) :
    ∃ enc, e.enc = some enc ∧
      let frames := (dataLen / toSize e.cfg.channels / 2).toInt64.toInt32
      let r := opus.encode enc data frames e.cfg.max_buffer_size
      f.encodedBytes = r.data ++ e.encodedDataPacket.drop r.data.length ∧
        f.dataLenOut = toSize r.len ∧
        f.next = { e with enc := some r.next, encodedDataPacket := f.encodedBytes } := by
  unfold OpusAudioEncoder.encodeFrame at hf
  split_ifs at hf
  cases henc : e.enc with
  | none => simp [henc] at hf
  | some enc =>
    simp only [henc] at hf
    split_ifs at hf
    obtain rfl := Except.ok.inj hf
    exact ⟨enc, rfl, rfl, rfl, rfl⟩

variable {opus} in
/-- When `opus_encode` returns a length within the buffer, `encodeFrame` returns the packet at the
start of the buffer and its length. -/
theorem OpusAudioEncoder.encodeFrame_of_succeeds {e : OpusAudioEncoder ε} {enc : ε}
    (hch : e.cfg.channels ≠ 0) (henc : e.enc = some enc)
    (hbuffer : e.encodedDataPacket.length = e.cfg.max_buffer_size.toInt.toNat)
    {data : List UInt8} {dataLen : UInt64} {frames : Int32}
    (hframes : (dataLen / toSize e.cfg.channels / 2).toInt64.toInt32 = frames) {r : Encoded ε}
    (hr : opus.encode enc data frames e.cfg.max_buffer_size = r) (hlen : 0 ≤ r.len.toInt)
    (hmax : r.len.toInt ≤ e.cfg.max_buffer_size.toInt) :
    ∃ f, e.encodeFrame opus data dataLen = .ok f ∧ f.dataLenOut = toSize r.len ∧
      f.encodedBytes.take r.data.length = r.data ∧
      f.encodedBytes.length = e.cfg.max_buffer_size.toInt.toNat ∧
      f.next = { e with enc := some r.next, encodedDataPacket := f.encodedBytes } := by
  -- The packet fits into the buffer, since it has as many bytes as the value returned.
  have hlength := r.length_eq hlen
  have hfits : ¬ e.encodedDataPacket.length < r.data.length := by
    rw [hbuffer]
    omega
  set buffer := r.data ++ e.encodedDataPacket.drop r.data.length with hbuf
  refine ⟨⟨buffer, toSize r.len, { e with enc := some r.next, encodedDataPacket := buffer }⟩, ?_,
    rfl, List.take_left, ?_, rfl⟩
  · unfold OpusAudioEncoder.encodeFrame
    simp only [if_neg hch, henc, hframes, hr, if_neg hfits, hbuf]
  · show buffer.length = _
    rw [hbuf, List.length_append, List.length_drop, hbuffer]
    rw [hbuffer] at hfits
    omega

/-! ## The blocks of a file -/

/-- The settings of the host programs: mono, 48 kHz, frames of 10 ms. -/
def monoSettings : OpusEncoderSettings :=
  { channels := 1, sample_rate := 48000, bits_per_sample := 16 }

/-- The call of `opus_encode` for a block of a mono file: 480 samples in 960 bytes. -/
def encodeBlock (enc : ε) (i : ℕ) (file : List UInt8) : Encoded ε :=
  opus.encode enc (block 960 i file) 480 OPUS_MAX_BUFFER_SIZE

/-- The handle before the `i`-th block of a file, from `enc` on. -/
def encoderAt (enc : ε) (file : List UInt8) : ℕ → ε
  | 0 => enc
  | i + 1 => (encodeBlock opus (encoderAt enc file i) i file).next

/-- The outcome of `opus_encode` for the `i`-th block of a file. -/
def outcomeAt (enc : ε) (file : List UInt8) (i : ℕ) : Encoded ε :=
  encodeBlock opus (encoderAt opus enc file i) i file

/-- A call of `opus_encode` succeeds: it returns a length within the buffer. -/
def Succeeds (r : Encoded ε) : Prop :=
  0 ≤ r.len.toInt ∧ r.len.toInt ≤ OPUS_MAX_BUFFER_SIZE.toInt

/-- An encoder of a host program before the `i`-th block. -/
structure EncoderAt (enc : ε) (file : List UInt8) (i : ℕ) (e : OpusAudioEncoder ε) : Prop where
  enc : e.enc = some (encoderAt opus enc file i)
  cfg : e.cfg = monoSettings
  buffer : e.encodedDataPacket.length = OPUS_MAX_BUFFER_SIZE.toInt.toNat

/-- A number that is not negative keeps its value as a `size_t`. -/
theorem toNat_toSize {x : Int32} (h : 0 ≤ x.toInt) : (toSize x).toNat = x.toInt.toNat := by
  have hx : 0 ≤ x.toInt64.toInt := by rwa [Int32.toInt_toInt64]
  unfold toSize
  rw [toNat_toUInt64_of_nonneg hx, Int32.toInt_toInt64]

variable {opus}

/-- A new encoder whose handle could be created is before the first block. -/
theorem encoderAt_new {enc : ε}
    (h : createEncoder opus monoSettings.toOpusEncoderSettings = some enc) (file : List UInt8) :
    EncoderAt opus enc file 0 (OpusAudioEncoder.new opus monoSettings) :=
  ⟨h, rfl, by simp [OpusAudioEncoder.new, monoSettings]⟩

/-- The programs read 960 bytes for a frame. -/
theorem getExpectedPackageSize_mono {e : OpusAudioEncoder ε} (h : e.cfg = monoSettings) :
    e.getExpectedPackageSize = 960 := by
  unfold OpusAudioEncoder.getExpectedPackageSize
  rw [h]
  decide

/-- The number of channels is not zero, so that it can be divided by. -/
theorem EncoderAt.channels_ne_zero {enc : ε} {file : List UInt8} {i : ℕ} {e : OpusAudioEncoder ε}
    (h : EncoderAt opus enc file i e) : e.cfg.channels ≠ 0 := by
  rw [h.cfg]
  decide

/-- They pass 480 samples for the 960 bytes. -/
theorem EncoderAt.frames {enc : ε} {file : List UInt8} {i : ℕ} {e : OpusAudioEncoder ε}
    (h : EncoderAt opus enc file i e) :
    ((960 : UInt64) / toSize e.cfg.channels / 2).toInt64.toInt32 = 480 := by
  rw [h.cfg]
  decide

/-- The call that the encoder makes for the `i`-th block. -/
theorem EncoderAt.encode_eq {enc : ε} {file : List UInt8} {i : ℕ} {e : OpusAudioEncoder ε}
    (h : EncoderAt opus enc file i e) :
    opus.encode (encoderAt opus enc file i) (block 960 i file) 480 e.cfg.max_buffer_size =
      outcomeAt opus enc file i := by
  rw [h.cfg]
  rfl

/-- `encodeFrame` on the `i`-th block returns the packet at the start of the buffer and its length,
and leaves the encoder before the next block. -/
theorem EncoderAt.encodeFrame {enc : ε} {file : List UInt8} {i : ℕ} {e : OpusAudioEncoder ε}
    (h : EncoderAt opus enc file i e) (hok : Succeeds (outcomeAt opus enc file i)) :
    ∃ f, e.encodeFrame opus (block 960 i file) 960 = .ok f ∧
      f.dataLenOut.toNat = (outcomeAt opus enc file i).data.length ∧
      f.encodedBytes.take f.dataLenOut.toNat = (outcomeAt opus enc file i).data ∧
      f.encodedBytes.length = OPUS_MAX_BUFFER_SIZE.toInt.toNat ∧
      EncoderAt opus enc file (i + 1) f.next := by
  obtain ⟨hlen, hmax⟩ := hok
  have hsize : e.cfg.max_buffer_size = OPUS_MAX_BUFFER_SIZE := by
    rw [h.cfg]
    rfl
  obtain ⟨f, hf, hout, hdata, hlength, hnext⟩ :=
    OpusAudioEncoder.encodeFrame_of_succeeds h.channels_ne_zero h.enc
      (by rw [hsize]; exact h.buffer) h.frames h.encode_eq hlen (by rw [hsize]; exact hmax)
  set r := outcomeAt opus enc file i
  have hnat : f.dataLenOut.toNat = r.data.length := by
    have hbytes := r.length_eq hlen
    rw [hout, toNat_toSize hlen]
    omega
  rw [hsize] at hlength
  refine ⟨f, hf, hnat, by rw [hnat]; exact hdata, hlength, ?_⟩
  rw [hnext]
  exact ⟨rfl, h.cfg, hlength⟩

end Encoder

/-- The encoder of `silentOpus` stays as it is. -/
theorem encoderAt_silentOpus (file : List UInt8) : ∀ i, encoderAt silentOpus 48000 file i = 48000
  | 0 => rfl
  | i + 1 => by
    unfold encoderAt
    rw [encoderAt_silentOpus file i]
    rfl

/-- The encoder of `silentOpus` succeeds on every block. -/
theorem succeeds_silentOpus (file : List UInt8) (i : ℕ) :
    Succeeds (outcomeAt silentOpus 48000 file i) := by
  have hlen : (outcomeAt silentOpus 48000 file i).len = 3 := by
    unfold outcomeAt
    rw [encoderAt_silentOpus]
    rfl
  unfold Succeeds
  rw [hlen]
  decide

/-- `countingOpus` on a block: it writes its count, and goes on counting. -/
theorem encode_countingOpus (count : ℕ) (pcm : List UInt8) :
    countingOpus.encode (48000, count) pcm 480 OPUS_MAX_BUFFER_SIZE =
      ⟨3, [0xf8, 0xff, UInt8.ofNat count], (48000, count + 1), fun _ => rfl⟩ := by
  have hlegal : ¬ ((480 : Int32) ∉ legalFrameSizes 48000 ∨ OPUS_MAX_BUFFER_SIZE ≤ 0) := by decide
  have hroom : ¬ OPUS_MAX_BUFFER_SIZE < 3 := by decide
  simp only [countingOpus, if_neg hlegal, if_neg hroom]

/-- The encoder of `countingOpus` has counted the blocks before. -/
theorem encoderAt_countingOpus (file : List UInt8) :
    ∀ i, encoderAt countingOpus (48000, 0) file i = (48000, i)
  | 0 => rfl
  | i + 1 => by
    unfold encoderAt encodeBlock
    rw [encoderAt_countingOpus file i, encode_countingOpus]

/-- The encoder of `countingOpus` succeeds on every block. -/
theorem succeeds_countingOpus (file : List UInt8) (i : ℕ) :
    Succeeds (outcomeAt countingOpus (48000, 0) file i) := by
  have hlen : (outcomeAt countingOpus (48000, 0) file i).len = 3 := by
    unfold outcomeAt encodeBlock
    rw [encoderAt_countingOpus, encode_countingOpus]
  unfold Succeeds
  rw [hlen]
  decide

end SpresenseOpus.Host
