import SpresenseOpus.Codec.FrameSize
import SpresenseOpus.Worker.Peer
import SpresenseOpus.Worker.Turn

/-!
# The three computations of the frame length

The worker computes the length of a frame three times: from the settings in
`getExpectedPackageSize`, back from the number of bytes in `encodeFrame`, dividing by the channels
first, and once more for `posInSamples`, dividing by the sample size first. The numbers are
unsigned, apart from the result of `getFrameSizeSamples` and the frame count. As long as the size of
a frame in bytes fits into 32 bits, the three agree and no byte of the input is left over
(`frame_lengths_agree`).
-/

namespace SpresenseOpus.Worker

open Machine Words

/-- The size of a frame in bytes is computed without leaving the range of its types. -/
structure SizeFits (cfg : OpusEncoderSettings) : Prop extends RateFits cfg where
  size_lt : (cfg.getFrameSizeSamples cfg.sample_rate).toInt * 2 * cfg.channels.toInt < 2^32

section FrameLength

variable {ε σ : Type}

/-- The frame size and the channel count keep their values as unsigned numbers, and the product
that makes up the size of a frame is exact. -/
theorem SizeFits.toNat_mul {cfg : OpusEncoderSettings} (h : SizeFits cfg) :
    let F := cfg.getFrameSizeSamples cfg.sample_rate
    0 < cfg.channels.toUInt32.toNat ∧
      F.toUInt32.toNat * (2 : UInt32).toNat * cfg.channels.toUInt32.toNat < 2^32 ∧
      ((F.toUInt32.toNat * (2 : UInt32).toNat * cfg.channels.toUInt32.toNat : ℕ) : ℤ) =
        F.toInt * 2 * cfg.channels.toInt := by
  intro F
  have hch := h.channels
  have hF : 0 ≤ F.toInt := h.frameSize_nonneg
  have hFnat : (F.toUInt32.toNat : ℤ) = F.toInt := by
    rw [toNat_toUInt32_of_nonneg hF, Int.toNat_of_nonneg hF]
  have hcnat : (cfg.channels.toUInt32.toNat : ℤ) = cfg.channels.toInt := by
    rw [toNat_toUInt32_of_nonneg (by omega), Int.toNat_of_nonneg (by omega)]
  have hexact : ((F.toUInt32.toNat * (2 : UInt32).toNat * cfg.channels.toUInt32.toNat : ℕ) : ℤ) =
      F.toInt * 2 * cfg.channels.toInt := by
    rw [Nat.cast_mul, Nat.cast_mul, hFnat, hcnat]
    rfl
  refine ⟨by omega, ?_, hexact⟩
  have hsize : F.toInt * 2 * cfg.channels.toInt < 2^32 := h.size_lt
  rw [← hexact] at hsize
  exact_mod_cast hsize

/-- A gate that lets a size pass lets the exact size of a frame pass. -/
theorem SizeFits.getExpectedPackageSize {e : OpusAudioEncoder ε} (h : SizeFits e.cfg) :
    (e.getExpectedPackageSize.toNat : ℤ) =
      (e.cfg.getFrameSizeSamples e.cfg.sample_rate).toInt * 2 * e.cfg.channels.toInt := by
  obtain ⟨hc, hlt, hexact⟩ := h.toNat_mul
  unfold OpusAudioEncoder.getExpectedPackageSize
  rw [toNat_mul_mul_of_lt hlt hc, hexact]

/-- Both orders of the divisions give the frame size back. -/
theorem SizeFits.div_div {e : OpusAudioEncoder ε} (h : SizeFits e.cfg) :
    e.frames e.getExpectedPackageSize = e.cfg.getFrameSizeSamples e.cfg.sample_rate ∧
      e.getExpectedPackageSize / 2 / e.cfg.channels.toUInt32 =
        (e.cfg.getFrameSizeSamples e.cfg.sample_rate).toUInt32 := by
  obtain ⟨hc, hlt, -⟩ := h.toNat_mul
  obtain ⟨hframes, hpos⟩ := mul_mul_div_div hlt (by decide) hc
  unfold OpusAudioEncoder.frames OpusAudioEncoder.getExpectedPackageSize
  exact ⟨by rw [hframes, Int32.toInt32_toUInt32], hpos⟩

/-- An Exec of the expected size calls `opus_encode` once, whether or not its page gets written, and
with Ogg it advances the position. -/
theorem handle_frame (b : Build ε σ) {w : Globals ε σ} {m : Message} {e : OpusAudioEncoder ε}
    {enc : ε} (hk : m.kind = .exec) (he : w.opusEncoder = some e)
    (hsize : m.execCmd.input_buffer.size = e.getExpectedPackageSize) (hch : e.cfg.channels ≠ 0)
    (henc : e.enc = some enc) :
    (stateAfter ((handle b m).run w)).encodeCalls = w.encodeCalls ++ [m.call e enc] ∧
      (b.useOgg = true → (stateAfter ((handle b m).run w)).posInSamples = w.posAfter m e) := by
  cases ho : b.useOgg with
  | false =>
    rw [Turn.run_eq (.execPlain hk he hsize hch henc ho)]
    exact ⟨rfl, fun h => by simp at h⟩
  | true =>
    cases ha : b.audioPage m e enc w with
    | ok u g =>
      rw [Turn.run_eq (.execOgg hk he hsize hch henc ho ha)]
      exact ⟨rfl, fun _ => rfl⟩
    | error x g =>
      rw [Turn.run_eq (.execHung hk he hsize hch henc ho ha)]
      exact ⟨rfl, fun _ => rfl⟩

/-- For every number of channels, sampling rate and frame duration for which the size of a frame
fits, an input that passes the gate of the Exec branch is passed to `opus_encode` with exactly the
frame size of the settings, these frames cover the whole input, and `posInSamples` is advanced by
the same number. -/
theorem frame_lengths_agree (b : Build ε σ) {w : Globals ε σ} {m : Message}
    {e : OpusAudioEncoder ε} (hfits : SizeFits e.cfg) (hk : m.kind = .exec)
    (he : w.opusEncoder = some e)
    (hgate : m.execCmd.input_buffer.size = e.getExpectedPackageSize) :
    let F := e.cfg.getFrameSizeSamples e.cfg.sample_rate
    let size := m.execCmd.input_buffer.size
    0 ≤ F.toInt ∧ e.frames size = F ∧ (size.toNat : ℤ) = F.toInt * 2 * e.cfg.channels.toInt ∧
      ∀ enc, e.enc = some enc →
        (∃ call : EncodeCall ε,
          (stateAfter ((handle b m).run w)).encodeCalls = w.encodeCalls ++ [call] ∧
          call.enc = enc ∧ call.frame_size = F ∧
          call.pcm = readBytes m.mem m.execCmd.input_buffer.p_buffer size ∧
          call.frame_size.toInt * 2 * e.cfg.channels.toInt = call.pcm.length) ∧
        (b.useOgg = true →
          (stateAfter ((handle b m).run w)).posInSamples = w.posInSamples + F.toUInt32) := by
  intro F size
  -- The gate makes the size the expected one, of which all divisions are known.
  obtain ⟨hframes, hpos⟩ := hfits.div_div
  have hsize : (size.toNat : ℤ) = F.toInt * 2 * e.cfg.channels.toInt := by
    rw [show size = e.getExpectedPackageSize from hgate]
    exact hfits.getExpectedPackageSize
  have hsame : e.frames size = F := by
    rw [show size = e.getExpectedPackageSize from hgate]
    exact hframes
  refine ⟨hfits.frameSize_nonneg, hsame, hsize, ?_⟩
  intro enc henc
  obtain ⟨hcalls, hadvance⟩ := handle_frame b hk he hgate hfits.channels_ne_zero henc
  refine ⟨⟨m.call e enc, hcalls, rfl, hsame, rfl, ?_⟩, fun ho => ?_⟩
  · have hlength : (m.call e enc).pcm.length = size.toNat := by
      simp [Message.call, readBytes, size]
    rw [hlength, hsize]
    show (e.frames size).toInt * 2 * e.cfg.channels.toInt = _
    rw [hsame]
  · rw [hadvance ho]
    unfold Globals.posAfter
    rw [hgate, hpos]

end FrameLength

/-- The encoder that an Init for two channels at 48 kHz creates. -/
def stereoEncoder : OpusAudioEncoder Int32 :=
  oggBuild.created (σ := List UInt8) (initMessage 2 48000 5)

/-- A worker with that encoder and an open stream. -/
def stereoState : Globals Int32 (List UInt8) :=
  { initialized := true, opusEncoder := some stereoEncoder, ogg := oggBuild.begun {} }

/-- An Exec with a frame of 20 ms for that encoder. -/
def stereoExec : Message := execMessage ⟨3840, 0x2000⟩ ⟨256, 0x3000⟩ fun _ => 0

/-- The frame size of that encoder fits. -/
theorem sizeFits_stereo : SizeFits stereoEncoder.cfg :=
  ⟨⟨by decide, by decide, by decide⟩, by decide⟩

/-- The agreement for that frame: its 3840 bytes are 960 frames in all three computations. -/
theorem frame_lengths_agree_stereo :
    let w := stateAfter ((handle oggBuild stereoExec).run stereoState)
    (∃ call : EncodeCall Int32,
      w.encodeCalls = [call] ∧ call.frame_size = 960 ∧ call.pcm.length = 3840) ∧
      w.posInSamples = 960 := by
  have hF : stereoEncoder.cfg.getFrameSizeSamples stereoEncoder.cfg.sample_rate = 960 := by decide
  have hch : stereoEncoder.cfg.channels = 2 := by decide
  have henc : stereoEncoder.enc = some 48000 := by decide
  obtain ⟨-, -, -, hrun⟩ := frame_lengths_agree oggBuild (w := stereoState) (m := stereoExec)
    sizeFits_stereo (kind_execMessage _ _ _) rfl (by decide)
  obtain ⟨⟨call, hcalls, -, hframes, -, hlength⟩, hpos⟩ := hrun 48000 henc
  rw [hF] at hframes hpos
  refine ⟨⟨call, hcalls, hframes, ?_⟩, (hpos rfl).trans (by decide)⟩
  rw [hframes, hch] at hlength
  have hprod : (960 : Int32).toInt * 2 * (2 : Int32).toInt = 3840 := by decide
  omega

end SpresenseOpus.Worker
