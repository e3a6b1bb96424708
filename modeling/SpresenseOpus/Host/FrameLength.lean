import SpresenseOpus.Codec.Calls
import SpresenseOpus.Host.OggFile
import SpresenseOpus.Host.OpusDemo

/-!
# The frame length of the host programs

`getExpectedPackageSize` of the host programs leaves the number of channels out, and `encodeFrame`
divides by it. So a buffer of the expected size is passed to `opus_encode` as the configured frame
size divided by the number of channels (`toInt_passedFrames`), and the calls that a program makes
are the frames that the settings ask for when there is one channel or nothing to encode.

Both programs are loops of the same kind, whose bodies add the call of their buffer
(`EncodesBuffer`). `EncodesBuffer.calls` has the calls of a run: the blocks of the file, one after
another, with that frame size.
-/

namespace SpresenseOpus.Host

open Blocks Machine Words

section Encoder

/-- The frame size that `encodeFrame` passes for a buffer of the size that it expects. -/
def passedFrames (cfg : SpresenseOpus.OpusEncoderSettings) : Int32 :=
  (toSize (cfg.getFrameSizeSamples cfg.sample_rate) * 2 / toSize cfg.channels / 2).toInt64.toInt32

/-- The size that the programs read for a frame, without the number of channels. -/
theorem toNat_mul_two {cfg : SpresenseOpus.OpusEncoderSettings} (h : RateFits cfg) :
    (toSize (cfg.getFrameSizeSamples cfg.sample_rate) * 2).toNat =
      (cfg.getFrameSizeSamples cfg.sample_rate).toInt.toNat * 2 := by
  have hlt := (cfg.getFrameSizeSamples cfg.sample_rate).toInt_lt
  rw [UInt64.toNat_mul, toNat_toSize h.frameSize_nonneg]
  refine Nat.mod_eq_of_lt ?_
  change (cfg.getFrameSizeSamples cfg.sample_rate).toInt.toNat * 2 < 2^64
  omega

/-- The frame size passed is the configured one, divided by the number of channels. -/
theorem toInt_passedFrames {cfg : SpresenseOpus.OpusEncoderSettings} (h : RateFits cfg) :
    (passedFrames cfg).toInt =
      (cfg.getFrameSizeSamples cfg.sample_rate).toInt / cfg.channels.toInt := by
  have hch := h.channels
  have hF := h.frameSize_nonneg
  set F := cfg.getFrameSizeSamples cfg.sample_rate
  have hlt := F.toInt_lt
  have hdiv : (toSize F * 2 / toSize cfg.channels / 2).toNat =
      F.toInt.toNat / cfg.channels.toInt.toNat := by
    calc (toSize F * 2 / toSize cfg.channels / 2).toNat
        = (toSize F * 2).toNat / (toSize cfg.channels).toNat / 2 := by
          rw [UInt64.toNat_div, UInt64.toNat_div]
          rfl
      _ = F.toInt.toNat * 2 / (cfg.channels.toInt.toNat * 2) := by
          rw [toNat_mul_two h, toNat_toSize (by omega), Nat.div_div_eq_div_mul]
      _ = F.toInt.toNat / cfg.channels.toInt.toNat := Nat.mul_div_mul_right _ _ (by decide)
  have hle : F.toInt.toNat / cfg.channels.toInt.toNat ≤ F.toInt.toNat := Nat.div_le_self _ _
  have hvalue : (toSize F * 2 / toSize cfg.channels / 2).toInt64.toInt =
      (F.toInt.toNat / cfg.channels.toInt.toNat : ℕ) := by
    rw [toInt_toInt64_of_lt (by omega), hdiv]
  calc (passedFrames cfg).toInt
      = (toSize F * 2 / toSize cfg.channels / 2).toInt64.toInt.bmod (2^32) := Int64.toInt_toInt32 _
    _ = (F.toInt.toNat / cfg.channels.toInt.toNat : ℕ) := by
        rw [hvalue, Int.bmod_eq_of_le (by omega) (by omega)]
    _ = F.toInt / cfg.channels.toInt := by
        rw [Int.natCast_div, Int.toNat_of_nonneg hF, Int.toNat_of_nonneg (by omega)]

variable {ε : Type} {opus : Libopus ε}

/-- `encodeFrame` makes one call, with the frame size that it computes from the length. -/
theorem encodeFrame_logged {e : OpusAudioEncoder (ε × List Call)} {data : List UInt8}
    {dataLen : UInt64} {f : EncodedFrame (ε × List Call)}
    (hf : e.encodeFrame opus.logged data dataLen = .ok f) :
    f.next.cfg = e.cfg ∧ loggedCalls f.next.enc =
      loggedCalls e.enc ++ [⟨data, (dataLen / toSize e.cfg.channels / 2).toInt64.toInt32⟩] := by
  obtain ⟨enc, henc, -, -, hnext⟩ := OpusAudioEncoder.encodeFrame_ok hf
  rw [hnext, henc]
  exact ⟨rfl, rfl⟩

end Encoder

section Loop

variable {ε S : Type} (opus : Libopus ε)

/-- The body of a loop encodes its buffer: it stops when `encodeFrame` does, and otherwise leaves
the encoder that `encodeFrame` leaves, whatever it does with the packet. -/
structure EncodesBuffer (encoder : S → OpusAudioEncoder ε)
    (body : List UInt8 → EStateM Halt S Unit) : Prop where
  stops : ∀ data w x,
    (encoder w).encodeFrame opus data (UInt64.ofNat data.length) = .error x →
      (body data).run w = .error x w
  encodes : ∀ data w f,
    (encoder w).encodeFrame opus data (UInt64.ofNat data.length) = .ok f →
      encoder (stateAfter ((body data).run w)) = f.next

variable {opus}

/-- The calls of a run are made for the blocks of the file, one after another. -/
theorem EncodesBuffer.calls {encoder : S → OpusAudioEncoder (ε × List Call)}
    {body : List UInt8 → EStateM Halt S Unit} (hbody : EncodesBuffer opus.logged encoder body)
    (fuel : ℕ) (file : List UInt8) {w : S} (hempty : loggedCalls (encoder w).enc = []) :
    let n := (encoder w).getExpectedPackageSize.toNat
    ∃ k, loggedCalls (encoder (stateAfter
        ((forEachBlock .outOfFuel n body fuel file).run w))).enc =
      (List.range k).map fun i =>
        ⟨block n i file, passedFrames (encoder w).cfg.toOpusEncoderSettings⟩ := by
  intro n
  set cfg := (encoder w).cfg with hcfg
  let I : ℕ → S → Prop := fun i s => (encoder s).cfg = cfg ∧ loggedCalls (encoder s).enc =
    (List.range i).map fun j => ⟨block n j file, passedFrames cfg.toOpusEncoderSettings⟩
  -- A turn that gets past `encodeFrame` counts its block, whether it returns or not.
  have hturn : ∀ i s f, (block n i file).length = n → I i s →
      (encoder s).encodeFrame opus.logged (block n i file)
        (UInt64.ofNat (block n i file).length) = .ok f →
      I (i + 1) (stateAfter ((body (block n i file)).run s)) := by
    rintro i s f hfull ⟨hs, hcalls⟩ hf
    obtain ⟨hnext, hadd⟩ := encodeFrame_logged hf
    have hencoder := hbody.encodes _ s f hf
    have hframes : (UInt64.ofNat n / toSize cfg.channels / 2).toInt64.toInt32 =
        passedFrames cfg.toOpusEncoderSettings := by
      rw [UInt64.ofNat_toNat]
      rfl
    refine ⟨by rw [hencoder, hnext, hs], ?_⟩
    rw [hencoder, hadd, hcalls, hs, hfull, hframes, List.range_succ, List.map_append,
      List.map_singleton]
  suffices hloop : ∃ k, I k (stateAfter
      ((forEachBlock .outOfFuel n body fuel (file.drop (n * 0))).run w)) by
    rw [Nat.mul_zero, List.drop_zero] at hloop
    obtain ⟨k, -, hk⟩ := hloop
    exact ⟨k, hk⟩
  apply forEachBlock_stateAfter .outOfFuel body n file (I := I) (J := fun s => ∃ k, I k s)
    (fun i s h => ⟨i, h⟩) ?_ ?_ fuel 0 w ⟨rfl, hempty⟩
  · intro i s s' hfull h hrun
    cases hf : (encoder s).encodeFrame opus.logged (block n i file)
        (UInt64.ofNat (block n i file).length) with
    | error x => exact absurd (hrun.symm.trans (hbody.stops _ s x hf)) (by simp)
    | ok f =>
      have hnext := hturn i s f hfull h hf
      rw [hrun] at hnext
      exact hnext
  · intro i s x s' hfull h hrun
    cases hf : (encoder s).encodeFrame opus.logged (block n i file)
        (UInt64.ofNat (block n i file).length) with
    | error y =>
      obtain rfl := (EStateM.Result.error.inj (hrun.symm.trans (hbody.stops _ s y hf))).2
      exact ⟨i, h⟩
    | ok f =>
      have hnext := hturn i s f hfull h hf
      rw [hrun] at hnext
      exact ⟨i + 1, hnext⟩

end Loop

section Programs

variable {ε σ : Type} (opus : Libopus ε) (z : Liboggz σ)

/-- The loop of the opus_demo program encodes its buffers. -/
theorem encodesBuffer_demo :
    EncodesBuffer opus OpusDemo.opusEncoder (OpusDemo.encodeBuffer opus) := by
  constructor
  · intro data w x hf
    unfold OpusDemo.encodeBuffer
    simp only [EStateM.run, hf]
  · intro data w f hf
    unfold OpusDemo.encodeBuffer
    simp only [EStateM.run, hf]
    cases hrange : f.next.getFinalRange opus with
    | error x => rfl
    | ok range =>
      simp only
      cases writeOpusDemoFormat w.testAudioOutOpus f.encodedBytes f.dataLenOut range <;> rfl

/-- The loop of the Ogg program encodes its buffers. -/
theorem encodesBuffer_ogg (fuel : ℕ) :
    EncodesBuffer opus OggFile.opusEncoder (OggFile.encodeBuffer opus z fuel) := by
  constructor
  · intro data w x hf
    unfold OggFile.encodeBuffer
    simp only [EStateM.run, hf]
  · intro data w f hf
    have hpage := OggFile.onOgg_run (writeOggFormat z fuel f.encodedBytes f.dataLenOut
      (advance w.granulepos (UInt64.ofNat data.length))) { w with
        opusEncoder := f.next, granulepos := advance w.granulepos (UInt64.ofNat data.length) }
    unfold OggFile.encodeBuffer
    simp only [EStateM.run, hf] at hpage ⊢
    rw [hpage, stateAfter_onPart]

end Programs

/-! ## When the calls are the frames that the settings ask for -/

section AsConfigured

/-- Whatever the library does, the calls that `handleAudio` of the opus_demo program makes for a
file are the frames that the settings ask for. -/
def OpusDemo.AsConfigured (cfg : OpusEncoderSettings) : Prop :=
  ∀ (ε : Type) (opus : Libopus ε) (fuel : ℕ) (testAudioIn : List UInt8)
    (w : OpusDemo (ε × List Call)), w.opusEncoder.cfg = cfg →
    loggedCalls w.opusEncoder.enc = [] →
    EachCovers cfg.toOpusEncoderSettings testAudioIn (loggedCalls (stateAfter
      ((OpusDemo.handleAudio opus.logged fuel testAudioIn).run w)).opusEncoder.enc)

/-- Whatever the libraries do, the calls that `handleAudio` of the Ogg program makes for a file are
the frames that the settings ask for. -/
def OggFile.AsConfigured (cfg : OpusEncoderSettings) : Prop :=
  ∀ (ε σ : Type) (opus : Libopus ε) (z : Liboggz σ) (fuel : ℕ) (testAudioIn : List UInt8)
    (w : OggFile (ε × List Call) σ), w.opusEncoder.cfg = cfg →
    loggedCalls w.opusEncoder.enc = [] →
    EachCovers cfg.toOpusEncoderSettings testAudioIn (loggedCalls (stateAfter
      ((OggFile.handleAudio opus.logged z fuel testAudioIn).run w)).opusEncoder.enc)

variable {cfg : OpusEncoderSettings}

/-- When the frame size passed is the configured one, the calls for the blocks of a file are the
frames that the settings ask for. -/
theorem eachCovers_blocks (hfits : RateFits cfg.toOpusEncoderSettings)
    (hframes : passedFrames cfg.toOpusEncoderSettings = cfg.getFrameSizeSamples cfg.sample_rate)
    (file : List UInt8) (n k : ℕ)
    (hn : n = (cfg.getFrameSizeSamples cfg.sample_rate).toInt.toNat * 2) :
    EachCovers cfg.toOpusEncoderSettings file ((List.range k).map fun i =>
      ⟨block n i file, passedFrames cfg.toOpusEncoderSettings⟩) := by
  refine eachCovers_of_blocks hfits (toInt_passedFrames hfits) hframes hn fun i call hcall => ?_
  rw [List.getElem?_map] at hcall
  obtain ⟨j, hj, rfl⟩ := Option.map_eq_some_iff.mp hcall
  obtain ⟨hlt, rfl⟩ := List.getElem?_eq_some_iff.mp hj
  rw [List.getElem_range]

/-- An encoder with these settings whose handle has not been called yet. -/
def freshEncoder (cfg : OpusEncoderSettings) : OpusAudioEncoder (Int32 × List Call) where
  enc := some (cfg.sample_rate, [])
  cfg := cfg
  encodedDataPacket := [0, 0, 0]

/-- A packet of `silentOpus` fits into the buffer of that encoder. -/
theorem length_silentOpus_le (enc : Int32) (pcm : List UInt8) (frame_size m : Int32) :
    ¬ [0, 0, 0].length < (silentOpus.encode enc pcm frame_size m).data.length := by
  simp only [silentOpus]
  split_ifs <;> simp

/-- That encoder makes a call for its first block. -/
theorem exists_first_call {S : Type} {encoder : S → OpusAudioEncoder (Int32 × List Call)}
    {body : List UInt8 → EStateM Halt S Unit} (hbody : EncodesBuffer silentOpus.logged encoder body)
    {w : S} (hw : encoder w = freshEncoder cfg) (hch : cfg.channels ≠ 0) :
    let n := (freshEncoder cfg).getExpectedPackageSize.toNat
    ∃ call, (loggedCalls (encoder (stateAfter ((forEachBlock .outOfFuel n body 1
        (List.replicate n 0)).run w))).enc)[0]? = some call ∧
      call.frame_size = passedFrames cfg.toOpusEncoderSettings := by
  intro n
  have hlen : (List.replicate n (0 : UInt8)).length = n := List.length_replicate
  have hf : ∃ f, (freshEncoder cfg).encodeFrame silentOpus.logged (List.replicate n 0)
      (UInt64.ofNat n) = .ok f := by
    unfold OpusAudioEncoder.encodeFrame
    rw [if_neg (show ¬ (freshEncoder cfg).cfg.channels = 0 from hch)]
    exact ⟨_, if_neg (length_silentOpus_le _ _ _ _)⟩
  obtain ⟨f, hf⟩ := hf
  obtain ⟨-, hcalls⟩ := encodeFrame_logged hf
  have hnext := hbody.encodes (List.replicate n 0) w f (by rw [hw, hlen]; exact hf)
  rw [stateAfter_forEachBlock_one _ _ hlen, hnext, hcalls]
  refine ⟨_, rfl, ?_⟩
  show (UInt64.ofNat n / toSize cfg.channels / 2).toInt64.toInt32 = _
  rw [UInt64.ofNat_toNat]
  rfl

/-- The calls of the opus_demo program are the frames that the settings ask for if and only if there
is one channel or a frame lasts less than a sample. -/
theorem demo_asConfigured (hfits : RateFits cfg.toOpusEncoderSettings) :
    OpusDemo.AsConfigured cfg ↔
      cfg.channels = 1 ∨ cfg.frameDuration * cfg.sample_rate.toInt < 1 := by
  rw [← hfits.eq_frameSize_iff (toInt_passedFrames hfits)]
  constructor
  · intro h
    let w : OpusDemo (Int32 × List Call) := ⟨freshEncoder cfg, []⟩
    obtain ⟨call, hget, hframes⟩ := exists_first_call (encodesBuffer_demo silentOpus.logged)
      (w := w) rfl hfits.channels_ne_zero
    have hcovers := h Int32 silentOpus 1
      (List.replicate (freshEncoder cfg).getExpectedPackageSize.toNat 0) w rfl rfl 0 call
    rw [OpusDemo.handleAudio_run] at hcovers
    exact hframes.symm.trans (hcovers hget).frame_size
  · rintro h ε opus fuel file w rfl hempty
    obtain ⟨k, hk⟩ := (encodesBuffer_demo opus.logged).calls fuel file hempty
    rw [OpusDemo.handleAudio_run, hk]
    exact eachCovers_blocks hfits h file _ k (toNat_mul_two hfits)

/-- So are the calls of the Ogg program. -/
theorem ogg_asConfigured (hfits : RateFits cfg.toOpusEncoderSettings) :
    OggFile.AsConfigured cfg ↔
      cfg.channels = 1 ∨ cfg.frameDuration * cfg.sample_rate.toInt < 1 := by
  rw [← hfits.eq_frameSize_iff (toInt_passedFrames hfits)]
  constructor
  · intro h
    let w : OggFile (Int32 × List Call) (List UInt8) := { opusEncoder := freshEncoder cfg }
    obtain ⟨call, hget, hframes⟩ := exists_first_call
      (encodesBuffer_ogg silentOpus.logged bareOggz 1) (w := w) rfl hfits.channels_ne_zero
    have hcovers := h Int32 _ silentOpus bareOggz 1
      (List.replicate (freshEncoder cfg).getExpectedPackageSize.toNat 0) w rfl rfl 0 call
    rw [OggFile.handleAudio_run] at hcovers
    exact hframes.symm.trans (hcovers hget).frame_size
  · rintro h ε σ opus z fuel file w rfl hempty
    obtain ⟨k, hk⟩ := (encodesBuffer_ogg opus.logged z fuel).calls fuel file hempty
    rw [OggFile.handleAudio_run, hk]
    exact eachCovers_blocks hfits h file _ k (toNat_mul_two hfits)

end AsConfigured

end SpresenseOpus.Host
