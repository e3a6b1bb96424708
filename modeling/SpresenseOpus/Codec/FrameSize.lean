import Mathlib.Data.Rat.Floor
import SpresenseOpus.Codec.Libopus
import SpresenseOpus.Library.Words

/-!
# The frame size

What `getFrameSizeSamples` is for: `frameDuration` is the frame duration of the settings in seconds,
and the frame size is the number of whole samples that it has at the sampling rate, for every
setting, also one that the function does not know (`toInt_getFrameSizeSamples`). The length
computations of all programs rest on it.
-/

namespace SpresenseOpus

open Words

/-- The frame duration of the settings in seconds, which is 10 ms if they do not know it. -/
def OpusEncoderSettings.frameDuration (cfg : OpusEncoderSettings) : ℚ :=
  if cfg.frame_sizes_ms = OPUS_FRAMESIZE_2_5_MS then 1 / 400
  else if cfg.frame_sizes_ms = OPUS_FRAMESIZE_5_MS then 1 / 200
  else if cfg.frame_sizes_ms = OPUS_FRAMESIZE_10_MS then 1 / 100
  else if cfg.frame_sizes_ms = OPUS_FRAMESIZE_20_MS then 1 / 50
  else if cfg.frame_sizes_ms = OPUS_FRAMESIZE_40_MS then 1 / 25
  else if cfg.frame_sizes_ms = OPUS_FRAMESIZE_60_MS then 3 / 50
  else if cfg.frame_sizes_ms = OPUS_FRAMESIZE_80_MS then 4 / 50
  else if cfg.frame_sizes_ms = OPUS_FRAMESIZE_100_MS then 5 / 50
  else if cfg.frame_sizes_ms = OPUS_FRAMESIZE_120_MS then 6 / 50
  else 1 / 100

/-- A duration and a size at the sampling rate `r` come from the same fraction: `k / d` seconds, and
`k` times the rate divided by `d`, where `k` is at most 6. -/
def SameFraction (r : Int32) (duration : ℚ) (size : Int32) : Prop :=
  ∃ k d : ℕ, k ≤ 6 ∧ 0 < d ∧ d ≤ 400 ∧ duration = k / d ∧ size = Int32.ofNat k * r / Int32.ofNat d

/-- A choice between two fractions, made by the same condition. -/
theorem SameFraction.ite {r size size' : Int32} {duration duration' : ℚ} {p : Prop} [Decidable p]
    (h : SameFraction r duration size) (h' : SameFraction r duration' size') :
    SameFraction r (if p then duration else duration') (if p then size else size') := by
  split_ifs
  · exact h
  · exact h'

/-- A size that is only divided comes from a fraction of a second. -/
theorem sameFraction_one (r : Int32) {d : ℕ} (hpos : 0 < d) (hd : d ≤ 400) :
    SameFraction r (1 / d) (r / Int32.ofNat d) := by
  have hone : Int32.ofNat 1 * r = r := Int32.one_mul r
  exact ⟨1, d, by decide, hpos, hd, by rw [Nat.cast_one], by rw [hone]⟩

/-- `getFrameSizeSamples` has the fractions of the frame durations. -/
theorem OpusEncoderSettings.sameFraction (cfg : OpusEncoderSettings) (r : Int32) :
    SameFraction r cfg.frameDuration (cfg.getFrameSizeSamples r) := by
  have hdefault : SameFraction r (1 / 100) (r / 100) := sameFraction_one r (by decide) (by decide)
  unfold frameDuration getFrameSizeSamples
  apply SameFraction.ite (sameFraction_one r (d := 400) (by decide) (by decide))
  apply SameFraction.ite (sameFraction_one r (d := 200) (by decide) (by decide))
  apply SameFraction.ite hdefault
  apply SameFraction.ite (sameFraction_one r (d := 50) (by decide) (by decide))
  apply SameFraction.ite (sameFraction_one r (d := 25) (by decide) (by decide))
  apply SameFraction.ite ⟨3, 50, by decide, by decide, by decide, rfl, rfl⟩
  apply SameFraction.ite ⟨4, 50, by decide, by decide, by decide, rfl, rfl⟩
  apply SameFraction.ite ⟨5, 50, by decide, by decide, by decide, rfl, rfl⟩
  apply SameFraction.ite ⟨6, 50, by decide, by decide, by decide, rfl, rfl⟩
  exact hdefault

/-- The settings have a channel, and a sampling rate for which the frame size is computed without
leaving the range of an `int`. -/
structure RateFits (cfg : OpusEncoderSettings) : Prop where
  channels : 1 ≤ cfg.channels.toInt
  rate_nonneg : 0 ≤ cfg.sample_rate.toInt
  rate_lt : 6 * cfg.sample_rate.toInt < 2^31

/-- The frame size of a sampling rate whose sixfold fits into an `int` is the number of whole
samples in a frame duration. -/
theorem OpusEncoderSettings.toInt_getFrameSizeSamples (cfg : OpusEncoderSettings) {r : Int32}
    (hr : 0 ≤ r.toInt) (hrate : 6 * r.toInt < 2^31) :
    (cfg.getFrameSizeSamples r).toInt = ⌊cfg.frameDuration * r.toInt⌋ := by
  obtain ⟨k, d, hk, hd, hd400, hduration, hsize⟩ := cfg.sameFraction r
  have hkint : (Int32.ofNat k).toInt = k := Int32.toInt_ofNat_of_lt (by omega)
  have hdint : (Int32.ofNat d).toInt = d := Int32.toInt_ofNat_of_lt (by omega)
  have hpos : 0 ≤ (Int32.ofNat k).toInt * r.toInt := by
    rw [hkint]
    exact Int.mul_nonneg (by omega) hr
  have hlt : (Int32.ofNat k).toInt * r.toInt < 2^31 := by
    rw [hkint]
    exact (Int.mul_le_mul_of_nonneg_right (by omega) hr).trans_lt hrate
  have hne : Int32.ofNat d ≠ -1 := by
    intro h
    rw [h] at hdint
    have hneg : (-1 : Int32).toInt = -1 := by decide
    omega
  calc (cfg.getFrameSizeSamples r).toInt
      = (Int32.ofNat k * r).toInt.tdiv (Int32.ofNat d).toInt := by
        rw [hsize, Int32.toInt_div_of_ne_right _ _ hne]
    _ = (k * r.toInt) / d := by
        rw [toInt_mul_of_lt hpos hlt, hdint, Int.tdiv_eq_ediv_of_nonneg hpos, hkint]
    _ = ⌊((k * r.toInt : ℤ) : ℚ) / d⌋ := (Rat.floor_intCast_div_natCast _ _).symm
    _ = ⌊cfg.frameDuration * r.toInt⌋ := by
        rw [hduration]
        push_cast
        rw [div_mul_eq_mul_div]

/-- No frame duration is negative. -/
theorem OpusEncoderSettings.frameDuration_nonneg (cfg : OpusEncoderSettings) :
    0 ≤ cfg.frameDuration := by
  obtain ⟨k, d, -, -, -, hduration, -⟩ := cfg.sameFraction 0
  rw [hduration]
  positivity

/-- The frame size is not negative. -/
theorem RateFits.frameSize_nonneg {cfg : OpusEncoderSettings} (h : RateFits cfg) :
    0 ≤ (cfg.getFrameSizeSamples cfg.sample_rate).toInt := by
  rw [cfg.toInt_getFrameSizeSamples h.rate_nonneg h.rate_lt, Int.floor_nonneg]
  exact mul_nonneg cfg.frameDuration_nonneg (by exact_mod_cast h.rate_nonneg)

/-- The frame size is zero when a frame lasts less than a sample. -/
theorem RateFits.frameSize_eq_zero_iff {cfg : OpusEncoderSettings} (h : RateFits cfg) :
    (cfg.getFrameSizeSamples cfg.sample_rate).toInt = 0 ↔
      cfg.frameDuration * cfg.sample_rate.toInt < 1 := by
  have hpos : 0 ≤ cfg.frameDuration * cfg.sample_rate.toInt :=
    mul_nonneg cfg.frameDuration_nonneg (by exact_mod_cast h.rate_nonneg)
  rw [cfg.toInt_getFrameSizeSamples h.rate_nonneg h.rate_lt, Int.floor_eq_zero_iff, Set.mem_Ico]
  exact ⟨fun hlt => hlt.2, fun hlt => ⟨hpos, hlt⟩⟩

/-- Settings with a channel do not divide by zero. -/
theorem RateFits.channels_ne_zero {cfg : OpusEncoderSettings} (h : RateFits cfg) :
    cfg.channels ≠ 0 := by
  intro hzero
  have hch := h.channels
  rw [hzero] at hch
  exact absurd hch (by decide)

/-- Divided by the number of channels, the frame size is itself when there is one channel or a frame
lasts less than a sample. -/
theorem RateFits.eq_frameSize_iff {cfg : OpusEncoderSettings} (h : RateFits cfg) {x : Int32}
    (hx : x.toInt = (cfg.getFrameSizeSamples cfg.sample_rate).toInt / cfg.channels.toInt) :
    x = cfg.getFrameSizeSamples cfg.sample_rate ↔
      cfg.channels = 1 ∨ cfg.frameDuration * cfg.sample_rate.toInt < 1 := by
  have hch := h.channels
  have hF := h.frameSize_nonneg
  have hone : cfg.channels = 1 ↔ cfg.channels.toInt = 1 := by
    rw [← Int32.toInt_inj]
    rfl
  rw [← h.frameSize_eq_zero_iff, ← Int32.toInt_inj, hx, hone]
  constructor
  · intro hself
    by_contra hnot
    obtain ⟨hne, hpos⟩ := not_or.mp hnot
    exact absurd hself (Int.ediv_lt_self_of_pos_of_ne_one (by omega) hne).ne
  · rintro (hc | hzero)
    · rw [hc, Int.ediv_one]
    · rw [hzero, Int.zero_ediv]

/-- Then the size of a frame without the number of channels is its size with it. -/
theorem RateFits.size_of_eq {cfg : OpusEncoderSettings} (h : RateFits cfg) {x : Int32}
    (hx : x.toInt = (cfg.getFrameSizeSamples cfg.sample_rate).toInt / cfg.channels.toInt)
    (hsame : x = cfg.getFrameSizeSamples cfg.sample_rate) {n : ℕ}
    (hn : n = (cfg.getFrameSizeSamples cfg.sample_rate).toInt.toNat * 2) :
    n = (cfg.getFrameSizeSamples cfg.sample_rate).toInt.toNat * cfg.channels.toInt.toNat * 2 := by
  rcases (h.eq_frameSize_iff hx).mp hsame with hone | hshort
  · rw [hn, hone]
    exact (congrArg (· * 2) (Nat.mul_one _)).symm
  · rw [hn, h.frameSize_eq_zero_iff.mpr hshort, Int.toNat_zero, Nat.zero_mul, Nat.zero_mul]

end SpresenseOpus
