import SpresenseOpus.Host.FrameLength
import SpresenseOpus.MainCore.Recorder

/-!
# The frame length of the main core

The encoder of the main core is a copy of the host's, with the same two length computations in 32
bits, and passes the configured frame size divided by the number of channels. `calls_passes` has
the calls of a run: the full reads, one after another, with that frame size.

`asConfigured_iff` puts the programs together. Their calls are the frames that the settings ask for
exactly when there is one channel or a frame lasts less than a sample. With two channels, a packet
has half of the configured duration (`exists_not_asConfigured`).
-/

namespace SpresenseOpus.MainCore

open Blocks Machine Reads Words
open Host (OpusAudioEncoder freshEncoder)

section Encoder

/-- The frame size that `encodeFrame` passes for a buffer of the size that it expects. -/
def passedFrames (cfg : OpusEncoderSettings) : Int32 :=
  ((cfg.getFrameSizeSamples cfg.sample_rate).toUInt32 * 2 / cfg.channels.toUInt32 / 2).toInt32

/-- The size that the program reads for a frame, without the number of channels. -/
theorem toNat_mul_two {cfg : OpusEncoderSettings} (h : RateFits cfg) :
    ((cfg.getFrameSizeSamples cfg.sample_rate).toUInt32 * 2).toNat =
      (cfg.getFrameSizeSamples cfg.sample_rate).toInt.toNat * 2 := by
  have hlt := (cfg.getFrameSizeSamples cfg.sample_rate).toInt_lt
  rw [UInt32.toNat_mul, toNat_toUInt32_of_nonneg h.frameSize_nonneg]
  refine Nat.mod_eq_of_lt ?_
  change (cfg.getFrameSizeSamples cfg.sample_rate).toInt.toNat * 2 < 2^32
  omega

/-- The frame size passed is the configured one, divided by the number of channels. -/
theorem toInt_passedFrames {cfg : OpusEncoderSettings} (h : RateFits cfg) :
    (passedFrames cfg).toInt =
      (cfg.getFrameSizeSamples cfg.sample_rate).toInt / cfg.channels.toInt := by
  have hch := h.channels
  have hF := h.frameSize_nonneg
  set F := cfg.getFrameSizeSamples cfg.sample_rate
  have hlt := F.toInt_lt
  have hdiv : (F.toUInt32 * 2 / cfg.channels.toUInt32 / 2).toNat =
      F.toInt.toNat / cfg.channels.toInt.toNat := by
    calc (F.toUInt32 * 2 / cfg.channels.toUInt32 / 2).toNat
        = (F.toUInt32 * 2).toNat / cfg.channels.toUInt32.toNat / 2 := by
          rw [UInt32.toNat_div, UInt32.toNat_div]
          rfl
      _ = F.toInt.toNat * 2 / (cfg.channels.toInt.toNat * 2) := by
          rw [toNat_mul_two h, toNat_toUInt32_of_nonneg (by omega), Nat.div_div_eq_div_mul]
      _ = F.toInt.toNat / cfg.channels.toInt.toNat := Nat.mul_div_mul_right _ _ (by decide)
  have hle : F.toInt.toNat / cfg.channels.toInt.toNat ≤ F.toInt.toNat := Nat.div_le_self _ _
  calc (passedFrames cfg).toInt
      = ((F.toUInt32 * 2 / cfg.channels.toUInt32 / 2).toNat : ℤ) :=
        toInt_toInt32_of_lt (by rw [hdiv]; omega)
    _ = (F.toInt.toNat / cfg.channels.toInt.toNat : ℕ) := by rw [hdiv]
    _ = F.toInt / cfg.channels.toInt := by
        rw [Int.natCast_div, Int.toNat_of_nonneg hF, Int.toNat_of_nonneg (by omega)]

variable {ε : Type} {opus : Libopus ε}

/-- The expected size depends on the settings only. -/
theorem getExpectedPackageSize_congr {e e' : OpusAudioEncoder ε} (h : e'.cfg = e.cfg) :
    getExpectedPackageSize e' = getExpectedPackageSize e := by
  unfold getExpectedPackageSize
  rw [h]

/-- `encodeFrame` makes one call, with the frame size that it computes from the length. -/
theorem encodeFrame_logged {e : OpusAudioEncoder (ε × List Call)} {data : List UInt8}
    {dataLen : UInt32} {f : EncodedFrame (ε × List Call)}
    (hf : encodeFrame opus.logged e data dataLen = .ok f) :
    f.next.cfg = e.cfg ∧ loggedCalls f.next.enc =
      loggedCalls e.enc ++ [⟨data, (dataLen / e.cfg.channels.toUInt32 / 2).toInt32⟩] := by
  obtain ⟨enc, henc, hnext⟩ := encodeFrame_ok hf
  rw [hnext, henc]
  exact ⟨rfl, rfl⟩

end Encoder

section Passes

variable {ε σ : Type} (opus : Libopus ε) (z : Liboggz σ) (recording : ℕ → UInt8)

/-- A pass takes its read off the recording and leaves the settings. A full read becomes a call,
unless `encodeFrame` stops before. -/
theorem pass_logged {w : Recorder (ε × List Call) σ}
    (hbuffer : w.audioBuffer.length = (getExpectedPackageSize w.opusEncoder).toNat) {n : ℕ}
    (hn : n ≤ (getExpectedPackageSize w.opusEncoder).toNat) (fuel : ℕ) :
    let run := (Recorder.pass opus.logged z recording fuel n).run w
    let w' := stateAfter run
    w'.opusEncoder.cfg = w.opusEncoder.cfg ∧ w'.audioBuffer.length = w.audioBuffer.length ∧
      w'.taken = w.taken + n ∧
      (loggedCalls w'.opusEncoder.enc = loggedCalls w.opusEncoder.enc ++
          (kept (getExpectedPackageSize w.opusEncoder).toNat recording w.taken [n]).map
            (⟨·, passedFrames w.opusEncoder.cfg.toOpusEncoderSettings⟩) ∨
        loggedCalls w'.opusEncoder.enc = loggedCalls w.opusEncoder.enc ∧
          ∃ x data, encodeFrame opus.logged w.opusEncoder data (UInt32.ofNat n) = .error x ∧
            run = .error x w') := by
  intro run w'
  set N := (getExpectedPackageSize w.opusEncoder).toNat with hN
  rcases hn.lt_or_eq with hlt | rfl
  · -- A short read is dropped.
    have hrun : run = .ok () (w.getAudio recording n) :=
      Recorder.pass_short (getExpectedPackageSize w.opusEncoder).toNat_lt hbuffer hlt fuel
    have hw' : w' = w.getAudio recording n := congrArg stateAfter hrun
    rw [hw', length_getAudio hbuffer hn, hbuffer, kept_singleton, if_neg hlt.ne, List.map_nil,
      List.append_nil]
    exact ⟨rfl, rfl, rfl, .inl rfl⟩
  · have hrun := Recorder.pass_full opus.logged z recording hbuffer fuel
    have hlength : (w.getAudio recording N).audioBuffer.length = w.audioBuffer.length := by
      rw [length_getAudio hbuffer le_rfl, hbuffer]
    cases hf : encodeFrame opus.logged w.opusEncoder (segment recording w.taken N)
        (UInt32.ofNat N) with
    | error x =>
      simp only [hf] at hrun
      have hw' : w' = { w.getAudio recording N with
          passed := w.passed ++ [segment recording w.taken N] } := congrArg stateAfter hrun
      rw [hw']
      exact ⟨rfl, hlength, rfl, .inr ⟨rfl, x, _, hf, hrun⟩⟩
    | ok f =>
      -- The page is written to another part of the state, whether it gets written or not.
      obtain ⟨hcfg, hcalls⟩ := encodeFrame_logged hf
      simp only [hf, Recorder.onOgg_run] at hrun
      have hw' := congrArg stateAfter hrun
      rw [stateAfter_onPart] at hw'
      have hframes : (UInt32.ofNat N / w.opusEncoder.cfg.channels.toUInt32 / 2).toInt32 =
          passedFrames w.opusEncoder.cfg.toOpusEncoderSettings := by
        rw [hN, UInt32.ofNat_toNat]
        rfl
      have hwrun : w' = stateAfter run := rfl
      rw [hwrun, hw', kept_singleton, if_pos rfl, List.map_singleton, ← hframes]
      exact ⟨hcfg, hlength, rfl, .inl hcalls⟩

/-- The calls of a run are made for the full reads, one after another. -/
theorem calls_passes (fuel : ℕ) : ∀ (ns : List ℕ) (w : Recorder (ε × List Call) σ),
    w.audioBuffer.length = (getExpectedPackageSize w.opusEncoder).toNat →
    (∀ n ∈ ns, n ≤ (getExpectedPackageSize w.opusEncoder).toNat) →
    ∃ full, full <+: kept (getExpectedPackageSize w.opusEncoder).toNat recording w.taken ns ∧
      loggedCalls (stateAfter
          ((Recorder.passes opus.logged z recording fuel ns).run w)).opusEncoder.enc =
        loggedCalls w.opusEncoder.enc ++
          full.map (⟨·, passedFrames w.opusEncoder.cfg.toOpusEncoderSettings⟩)
  | [], w, _, _ => ⟨[], List.nil_prefix, by rw [List.map_nil, List.append_nil]; rfl⟩
  | n :: ns, w, hbuffer, hns => by
    obtain ⟨hcfg, hlength, htaken, hcalls⟩ :=
      pass_logged opus z recording hbuffer (hns n List.mem_cons_self) fuel
    have hsplit := kept_append (getExpectedPackageSize w.opusEncoder).toNat recording ns [n] w.taken
    rw [List.singleton_append, List.sum_singleton] at hsplit
    rw [hsplit]
    unfold Recorder.passes
    rw [EStateM.run_bind]
    cases hrun : (Recorder.pass opus.logged z recording fuel n).run w with
    | ok u w' =>
      rw [hrun] at hcfg hlength htaken hcalls
      change w'.opusEncoder.cfg = _ at hcfg
      change w'.audioBuffer.length = _ at hlength
      change w'.taken = _ at htaken
      have hsize := getExpectedPackageSize_congr hcfg
      -- A pass that returns has not stopped in `encodeFrame`.
      have hadd := hcalls.resolve_right fun h => by simp at h
      obtain ⟨full, hfull, hrest⟩ := calls_passes fuel ns w' (by rw [hlength, hbuffer, hsize])
        (by rw [hsize]; exact fun m hm => hns m (List.mem_cons_of_mem _ hm))
      rw [hsize, htaken] at hfull
      refine ⟨_, (List.prefix_append_right_inj _).mpr hfull, ?_⟩
      change loggedCalls w'.opusEncoder.enc = _ at hadd
      show loggedCalls (stateAfter ((Recorder.passes opus.logged z recording fuel ns).run
        w')).opusEncoder.enc = _
      rw [hrest, hadd, hcfg, List.map_append, List.append_assoc]
    | error x w' =>
      -- A pass that stops ends the run, with its own call made or not.
      rw [hrun] at hcalls
      rcases hcalls with hadd | ⟨hsame, -⟩
      · exact ⟨_, List.prefix_append _ _, hadd⟩
      · exact ⟨[], List.nil_prefix, hsame.trans (by rw [List.map_nil, List.append_nil])⟩

end Passes

/-! ## When the calls are the frames that the settings ask for -/

/-- Whatever the libraries do, the calls that `handleAudio` makes are the frames that the settings
ask for of the bytes that its full reads have brought. -/
def Recorder.AsConfigured (cfg : Host.OpusEncoderSettings) : Prop :=
  ∀ (ε σ : Type) (opus : Libopus ε) (z : Liboggz σ) (recording : ℕ → UInt8) (fuel : ℕ)
    (sizes : List ℕ) (w : Recorder (ε × List Call) σ), w.opusEncoder.cfg = cfg →
    loggedCalls w.opusEncoder.enc = [] →
    (∀ n ∈ sizes, n ≤ (getExpectedPackageSize w.opusEncoder).toNat) →
    EachCovers cfg.toOpusEncoderSettings
      (kept (getExpectedPackageSize w.opusEncoder).toNat recording w.taken sizes).flatten
      (loggedCalls (stateAfter
        ((Recorder.handleAudio opus.logged z recording fuel sizes).run w)).opusEncoder.enc)

section AsConfigured

variable {cfg : Host.OpusEncoderSettings}

/-- When the frame size passed is the configured one, the calls for full reads are the frames that
the settings ask for. -/
theorem eachCovers_full (hfits : RateFits cfg.toOpusEncoderSettings)
    (hframes : passedFrames cfg.toOpusEncoderSettings = cfg.getFrameSizeSamples cfg.sample_rate)
    {n : ℕ} (hn : n = (cfg.getFrameSizeSamples cfg.sample_rate).toInt.toNat * 2)
    {reads full : List (List UInt8)} (hreads : ∀ r ∈ reads, r.length = n)
    (hfull : full <+: reads) :
    EachCovers cfg.toOpusEncoderSettings reads.flatten
      (full.map (⟨·, passedFrames cfg.toOpusEncoderSettings⟩)) := by
  refine eachCovers_of_blocks hfits (toInt_passedFrames hfits) hframes hn fun i call hcall => ?_
  rw [List.getElem?_map] at hcall
  obtain ⟨r, hr, rfl⟩ := Option.map_eq_some_iff.mp hcall
  obtain ⟨rest, rfl⟩ := hfull
  have hget : (full ++ rest)[i]? = some r := by
    obtain ⟨hlt, -⟩ := List.getElem?_eq_some_iff.mp hr
    rw [List.getElem?_append_left hlt]
    exact hr
  rw [block_flatten hreads hget]

/-- A run with one read leaves what its pass leaves. -/
theorem stateAfter_handleAudio_one {ε σ : Type} (opus : Libopus ε) (z : Liboggz σ)
    (recording : ℕ → UInt8) (fuel n : ℕ) (w : Recorder ε σ) :
    stateAfter ((Recorder.handleAudio opus z recording fuel [n]).run w) =
      stateAfter ((Recorder.pass opus z recording fuel n).run w.resizeBuffer) := by
  rw [Recorder.handleAudio_run]
  unfold Recorder.passes
  rw [EStateM.run_bind]
  cases (Recorder.pass opus z recording fuel n).run w.resizeBuffer <;> rfl

/-- A run with one full read makes a call for it. -/
theorem exists_first_call (hch : cfg.channels ≠ 0) :
    let w : Recorder (Int32 × List Call) (List UInt8) := { opusEncoder := freshEncoder cfg }
    let n := (getExpectedPackageSize (freshEncoder cfg)).toNat
    let run := (Recorder.handleAudio silentOpus.logged bareOggz (fun _ => 0) 1 [n]).run w
    ∃ call, (loggedCalls (stateAfter run).opusEncoder.enc)[0]? = some call ∧
      call.frame_size = passedFrames cfg.toOpusEncoderSettings := by
  intro w n run
  have hrun := stateAfter_handleAudio_one silentOpus.logged bareOggz (fun _ => 0) 1 n w
  have hbuffer : w.resizeBuffer.audioBuffer.length =
      (getExpectedPackageSize w.resizeBuffer.opusEncoder).toNat := length_resizeBuffer w
  obtain ⟨-, -, -, hcalls | ⟨-, x, data, hstop, -⟩⟩ := pass_logged silentOpus bareOggz
    (fun _ => 0) hbuffer le_rfl 1
  · rw [hrun]
    have hkept : kept n (fun _ => (0 : UInt8)) w.resizeBuffer.taken [n] =
        [segment (fun _ => 0) w.resizeBuffer.taken n] := by
      rw [kept_singleton, if_pos rfl]
    change loggedCalls (stateAfter ((Recorder.pass silentOpus.logged bareOggz (fun _ => 0) 1
      n).run w.resizeBuffer)).opusEncoder.enc = _ ++ List.map _ (kept n _ _ [n]) at hcalls
    rw [hcalls, hkept]
    exact ⟨_, rfl, rfl⟩
  · -- The packets of `silentOpus` fit, so that `encodeFrame` does not stop.
    have hok : ∃ f, encodeFrame silentOpus.logged w.resizeBuffer.opusEncoder data
        (UInt32.ofNat n) = .ok f := by
      unfold encodeFrame
      rw [if_neg (show ¬ w.resizeBuffer.opusEncoder.cfg.channels = 0 from hch)]
      exact ⟨_, if_neg (Host.length_silentOpus_le _ _ _ _)⟩
    obtain ⟨f, hf⟩ := hok
    exact absurd (hf.symm.trans hstop) (by simp)

/-- The calls of the main core are the frames that the settings ask for if and only if there is one
channel or a frame lasts less than a sample. -/
theorem recorder_asConfigured (hfits : RateFits cfg.toOpusEncoderSettings) :
    Recorder.AsConfigured cfg ↔
      cfg.channels = 1 ∨ cfg.frameDuration * cfg.sample_rate.toInt < 1 := by
  rw [← hfits.eq_frameSize_iff (toInt_passedFrames hfits)]
  constructor
  · intro h
    obtain ⟨call, hget, hframes⟩ := exists_first_call hfits.channels_ne_zero
    have hcovers := h Int32 _ silentOpus bareOggz (fun _ => 0) 1
      [(getExpectedPackageSize (freshEncoder cfg)).toNat] { opusEncoder := freshEncoder cfg }
      rfl rfl (fun n hn => (List.mem_singleton.mp hn).le) 0 call hget
    exact hframes.symm.trans hcovers.frame_size
  · rintro h ε σ opus z recording fuel sizes w rfl hempty hsizes
    have hbuffer : w.resizeBuffer.audioBuffer.length =
        (getExpectedPackageSize w.resizeBuffer.opusEncoder).toNat := length_resizeBuffer w
    obtain ⟨full, hfull, hcalls⟩ := calls_passes opus z recording fuel sizes w.resizeBuffer hbuffer
      hsizes
    have hempty' : loggedCalls w.resizeBuffer.opusEncoder.enc = [] := hempty
    rw [Recorder.handleAudio_run, hcalls, hempty', List.nil_append]
    exact eachCovers_full hfits h (toNat_mul_two hfits) (fun r hr => length_of_mem_kept _ _ hr)
      hfull

/-- For every number of channels, every sampling rate and every frame duration, the host programs
and the main core encode the frames that the settings ask for if and only if there is one channel or
a frame lasts less than a sample. -/
theorem asConfigured_iff (hfits : RateFits cfg.toOpusEncoderSettings) :
    let mono := cfg.channels = 1 ∨ cfg.frameDuration * cfg.sample_rate.toInt < 1
    (Host.OpusDemo.AsConfigured cfg ↔ mono) ∧ (Host.OggFile.AsConfigured cfg ↔ mono) ∧
      (Recorder.AsConfigured cfg ↔ mono) :=
  ⟨Host.demo_asConfigured hfits, Host.ogg_asConfigured hfits, recorder_asConfigured hfits⟩

end AsConfigured

/-- For the settings of the programs, all calls are the frames asked for. -/
theorem asConfigured_iff_mono :
    Host.OpusDemo.AsConfigured Host.monoSettings ∧ Host.OggFile.AsConfigured Host.monoSettings ∧
      Recorder.AsConfigured Host.monoSettings := by
  have hfits : RateFits Host.monoSettings.toOpusEncoderSettings :=
    ⟨by decide, by decide, by decide⟩
  obtain ⟨hdemo, hogg, hrecorder⟩ := asConfigured_iff hfits
  exact ⟨hdemo.mpr (.inl rfl), hogg.mpr (.inl rfl), hrecorder.mpr (.inl rfl)⟩

/-- Two channels at 48 kHz, with frames of 10 ms. -/
def stereoSettings : Host.OpusEncoderSettings := { channels := 2, sample_rate := 48000 }

/-- The encoder of a program with these settings. -/
def stereoEncoder : OpusAudioEncoder (Int32 × List Call) :=
  OpusAudioEncoder.new silentOpus.logged stereoSettings

/-- The calls of the Ogg program for a file of 960 bytes. -/
def stereoFileCalls : List Call :=
  let w : Host.OggFile (Int32 × List Call) (List UInt8) := { opusEncoder := stereoEncoder }
  loggedCalls (stateAfter ((Host.OggFile.handleAudio silentOpus.logged bareOggz 2
    (List.replicate 960 0)).run w)).opusEncoder.enc

/-- The calls of the main core for a full read. -/
def stereoReadCalls : List Call :=
  let w : Recorder (Int32 × List Call) (List UInt8) := { opusEncoder := stereoEncoder }
  loggedCalls (stateAfter ((Recorder.handleAudio silentOpus.logged bareOggz (fun _ => 0) 2
    [960]).run w)).opusEncoder.enc

/-- With two channels the encoder is created, the configured frame size is 480, and both programs
read 960 bytes for a frame and pass them as 240 samples for each channel. -/
theorem exists_not_asConfigured :
    stereoEncoder.enc = some (48000, []) ∧
      stereoSettings.getFrameSizeSamples stereoSettings.sample_rate = 480 ∧
      stereoEncoder.getExpectedPackageSize = 960 ∧ getExpectedPackageSize stereoEncoder = 960 ∧
      stereoFileCalls.map Call.frame_size = [240] ∧ stereoReadCalls.map Call.frame_size = [240] ∧
      ¬ Host.OggFile.AsConfigured stereoSettings ∧ ¬ Recorder.AsConfigured stereoSettings := by
  have henc : stereoEncoder.enc = some (48000, []) := by decide
  have hF : stereoSettings.getFrameSizeSamples stereoSettings.sample_rate = 480 := by decide
  have hread : (getExpectedPackageSize stereoEncoder).toNat = 960 := by decide
  have hcalls : loggedCalls stereoEncoder.enc = [] := by rw [henc]; rfl
  have hfile : stereoFileCalls.map Call.frame_size = [240] := by decide +kernel
  have hreads : stereoReadCalls.map Call.frame_size = [240] := by decide +kernel
  -- A call of a run that is as configured has 480 samples for each channel.
  have hnot : ∀ {input : List UInt8} {calls : List Call}, calls.map Call.frame_size = [240] →
      ¬ EachCovers stereoSettings.toOpusEncoderSettings input calls := by
    intro input calls hmap hcovers
    obtain ⟨call, rfl, hframes⟩ := List.map_eq_singleton_iff.mp hmap
    have hsame := (hcovers 0 call rfl).frame_size
    rw [hframes, hF] at hsame
    exact absurd hsame (by decide)
  refine ⟨henc, hF, by decide, by decide, hfile, hreads, fun h => ?_, fun h => ?_⟩
  · exact hnot hfile (h Int32 _ silentOpus bareOggz 2 (List.replicate 960 0) _ rfl hcalls)
  · refine hnot hreads (h Int32 _ silentOpus bareOggz (fun _ => 0) 2 [960] _ rfl hcalls ?_)
    intro n hn
    rw [hread]
    exact (List.mem_singleton.mp hn).le

end SpresenseOpus.MainCore
