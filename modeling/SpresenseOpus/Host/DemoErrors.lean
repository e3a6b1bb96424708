import SpresenseOpus.Host.OpusDemo

/-!
# Encoder errors in the opus_demo program

`encodeFrame` prints a negative result of `opus_encode` and stores it through a pointer to a
`size_t`. There it is a number near `2^64`, which `writeOpusDemoFormat` takes for the length of the
packet, so that `fwrite` goes past the end of the buffer (`encodeBuffer_of_negative`). The model
halts there; a run that goes on has written the header of a record that is not there. The program
leaves out the frames that fail, as it should, if and only if none does
(`skipsFailedFrames_iff`).
-/

namespace SpresenseOpus.Host

open Blocks Filter Words

/-- A negative number is a large one as a `size_t`. -/
theorem two_pow_le_toSize {x : Int32} (h : x.toInt < 0) : 2^63 ≤ (toSize x).toNat := by
  have hneg : x.toInt64.toBitVec.toInt < 0 := by
    show x.toInt64.toInt < 0
    rwa [Int32.toInt_toInt64]
  have hle : 2^64 ≤ 2 * x.toInt64.toBitVec.toNat := BitVec.toInt_neg_iff.mp hneg
  show 2^63 ≤ x.toInt64.toBitVec.toNat
  omega

section Errors

variable {ε : Type} (opus : Libopus ε)

/-- The records of the frames of a file whose encoding has not failed. -/
def survivors (enc : ε) (file : List UInt8) : List DemoRecord :=
  ((List.range (file.length / 960)).filter fun i => 0 ≤ (outcomeAt opus enc file i).len.toInt).map
    (recordAt opus enc file)

/-- The program leaves out the frames that fail: it comes to its end, the output file has the bytes
of the records of the other frames and no others, and the reader of the format finds these
records. -/
def SkipsFailedFrames (enc : ε) (file : List UInt8) : Prop :=
  ∃ w, (∀ᶠ fuel in atTop, OpusDemo.main opus fuel file = .ok () w) ∧
    w.testAudioOutOpus = (survivors opus enc file).flatMap demoCodec.write ∧
    demoCodec.parse w.testAudioOutOpus = some (survivors opus enc file)

variable {opus}

/-- `encodeFrame` on the `i`-th block, whatever `opus_encode` makes of it. -/
theorem EncoderAt.encodeFrame_eq {enc : ε} {file : List UInt8} {i : ℕ} {e : OpusAudioEncoder ε}
    (h : EncoderAt opus enc file i e) :
    let r := outcomeAt opus enc file i
    let encodedDataPacket := r.data ++ e.encodedDataPacket.drop r.data.length
    e.encodeFrame opus (block 960 i file) 960 =
      if e.encodedDataPacket.length < r.data.length then .error .pastEnd
      else .ok {
        encodedBytes := encodedDataPacket
        dataLenOut := toSize r.len
        next := { e with enc := some r.next, encodedDataPacket } } := by
  unfold OpusAudioEncoder.encodeFrame
  simp only [if_neg h.channels_ne_zero, h.enc, h.frames, h.encode_eq]

/-- A length that is more than the vector holds takes `fwrite` past its end. -/
theorem writeOpusDemoFormat_pastEnd {encodedBytes : List UInt8} {encodedBytesLen : UInt64}
    (h : encodedBytes.length < encodedBytesLen.toNat) (out : List UInt8) (range : UInt32) :
    writeOpusDemoFormat out encodedBytes encodedBytesLen range = .error .pastEnd := by
  have hlast : ∀ out', fwrite encodedBytes encodedBytesLen.toNat out' = .error .pastEnd := by
    intro out'
    unfold fwrite
    rw [if_pos h]
  unfold writeOpusDemoFormat
  rw [fwrite_intToChar]
  simp only [Bind.bind, Except.bind]
  rw [fwrite_intToChar]
  simp only
  rw [hlast]

/-- A frame whose encoding fails is not gone through: `fwrite` goes past the end of the buffer. -/
theorem encodeBuffer_of_negative {enc : ε} {file : List UInt8} {i : ℕ} {w : OpusDemo ε}
    (h : EncoderAt opus enc file i w.opusEncoder) (hi : i < file.length / 960)
    (hneg : (outcomeAt opus enc file i).len.toInt < 0) :
    ∃ w', (OpusDemo.encodeBuffer opus (block 960 i file)).run w = .error .pastEnd w' := by
  have hblock : UInt64.ofNat (block 960 i file).length = 960 := by rw [length_block hi]; rfl
  have hmax : OPUS_MAX_BUFFER_SIZE.toInt.toNat = 5760 := by decide
  have hlarge := two_pow_le_toSize hneg
  have hframe := h.encodeFrame_eq
  unfold OpusDemo.encodeBuffer
  simp only [EStateM.run, hblock, hframe]
  set r := outcomeAt opus enc file i
  by_cases hover : w.opusEncoder.encodedDataPacket.length < r.data.length
  · exact ⟨w, by rw [if_pos hover]⟩
  · have hlength : (r.data ++ w.opusEncoder.encodedDataPacket.drop r.data.length).length <
        (toSize r.len).toNat := by
      rw [List.length_append, List.length_drop, h.buffer, hmax]
      rw [h.buffer, hmax] at hover
      omega
    rw [if_neg hover]
    simp only [OpusAudioEncoder.getFinalRange, writeOpusDemoFormat_pastEnd hlength]
    exact ⟨_, rfl⟩

/-- If the encoding of a frame fails, the program does not come to its end. -/
theorem main_ne_ok {enc : ε}
    (hcreate : createEncoder opus monoSettings.toOpusEncoderSettings = some enc)
    {file : List UInt8} {i : ℕ} (hi : i < file.length / 960)
    (hbefore : ∀ j < i, Succeeds (outcomeAt opus enc file j))
    (hneg : (outcomeAt opus enc file i).len.toInt < 0) (fuel : ℕ) (w : OpusDemo ε) :
    OpusDemo.main opus fuel file ≠ .ok () w := by
  intro hrun
  have hstart : DemoAt opus enc file 0
      { opusEncoder := OpusAudioEncoder.new opus monoSettings, testAudioOutOpus := [] } :=
    ⟨encoderAt_new hcreate file, rfl⟩
  -- The loop is before a frame that is not behind the one that fails, and cannot pass that one.
  have hturn : ∀ j s s', j < file.length / 960 → DemoAt opus enc file j s ∧ j ≤ i →
      (OpusDemo.encodeBuffer opus (block 960 j file)).run s = .ok () s' →
      DemoAt opus enc file (j + 1) s' ∧ j + 1 ≤ i := by
    rintro j s s' hj ⟨hat, hle⟩ hok
    rcases hle.lt_or_eq with hlt | rfl
    · obtain ⟨s₁, hnext, hrun₁⟩ := demoAt_step hat hj (hbefore j hlt)
      obtain rfl := (EStateM.Result.ok.inj (hrun₁.symm.trans hok)).2
      exact ⟨hnext, hlt⟩
    · obtain ⟨s₁, hstop⟩ := encodeBuffer_of_negative hat.encoder hi hneg
      exact absurd (hok.symm.trans hstop) (by simp)
  rw [OpusDemo.main_eq] at hrun
  obtain ⟨-, hle⟩ := forEachBlock_ok (I := fun j s => DemoAt opus enc file j s ∧ j ≤ i)
    (by decide) hturn fuel 0 (Nat.zero_le _) ⟨hstart, Nat.zero_le _⟩ hrun
  omega

/-- If not every frame succeeds, there is a first one that fails. -/
theorem exists_first_failure {enc : ε} {file : List UInt8} {n : ℕ}
    (h : ¬ ∀ i, i < n → 0 ≤ (outcomeAt opus enc file i).len.toInt) :
    ∃ i, (i < n ∧ (outcomeAt opus enc file i).len.toInt < 0) ∧
      ∀ j < i, 0 ≤ (outcomeAt opus enc file j).len.toInt := by
  push Not at h
  refine ⟨Nat.find h, Nat.find_spec h, fun j hj => ?_⟩
  have hlt := hj.trans (Nat.find_spec h).1
  exact not_lt.mp fun hneg => Nat.find_min h hj ⟨hlt, hneg⟩

/-- For every input file, every position in it and every sequence of results of `opus_encode` that
keep to the buffer, the program leaves out the frames that fail if and only if none fails. -/
theorem skipsFailedFrames_iff (opus : Libopus ε) {enc : ε}
    (hcreate : createEncoder opus monoSettings.toOpusEncoderSettings = some enc)
    (file : List UInt8) (hmax : ∀ i, i < file.length / 960 →
      (outcomeAt opus enc file i).len.toInt ≤ OPUS_MAX_BUFFER_SIZE.toInt) :
    SkipsFailedFrames opus enc file ↔
      ∀ i, i < file.length / 960 → 0 ≤ (outcomeAt opus enc file i).len.toInt := by
  constructor
  · rintro ⟨w, hrun, -⟩
    by_contra hfails
    -- The first frame that fails is reached.
    obtain ⟨i, ⟨hi, hneg⟩, hfirst⟩ := exists_first_failure hfails
    have hbefore : ∀ j < i, Succeeds (outcomeAt opus enc file j) := fun j hj =>
      ⟨hfirst j hj, hmax j (hj.trans hi)⟩
    obtain ⟨fuel, hok⟩ := hrun.exists
    exact main_ne_ok hcreate hi hbefore hneg fuel w hok
  · intro hall
    have hok : ∀ i, i < file.length / 960 → Succeeds (outcomeAt opus enc file i) := fun i hi =>
      ⟨hall i hi, hmax i hi⟩
    obtain ⟨w, hw, hrun⟩ := demoAt_main hcreate hok
    have hsurvivors : survivors opus enc file =
        (List.range (file.length / 960)).map (recordAt opus enc file) := by
      unfold survivors
      rw [List.filter_eq_self.mpr]
      intro i hi
      exact decide_eq_true (hall i (List.mem_range.mp hi))
    refine ⟨w, hrun, by rw [hw.written, hsurvivors], ?_⟩
    rw [hw.written, hsurvivors]
    exact parse_records fun i hi => hok i (List.mem_range.mp hi)

end Errors

/-- The condition for the file of two blocks and five bytes more. -/
theorem skipsFailedFrames_iff_shortFile :
    SkipsFailedFrames silentOpus 48000 shortFile ↔ ∀ i, i < shortFile.length / 960 →
      0 ≤ (outcomeAt silentOpus 48000 shortFile i).len.toInt :=
  skipsFailedFrames_iff silentOpus (by decide) shortFile
    fun i _ => (succeeds_silentOpus shortFile i).2

/-- `OPUS_INTERNAL_ERROR`. -/
def OPUS_INTERNAL_ERROR : Int32 := -3

/-- The packet of silence is as long as its call returns. -/
theorem length_silence : 0 ≤ Int32.toInt 3 →
    (([0xf8, 0xff, 0xfe] : List UInt8).length : ℤ) = Int32.toInt 3 := by
  decide

/-- A libopus whose encoder counts its calls and fails in the first one. -/
def failingOpus : Libopus ℕ where
  create Fs channels _ :=
    if Fs ∈ [8000, 12000, 16000, 24000, 48000] ∧ channels ∈ [1, 2] then some 0 else none
  create_args Fs channels _ e h := by
    by_contra hargs
    rw [if_neg hargs] at h
    exact absurd h (by simp)
  ctl enc _ := (OPUS_OK, enc)
  encode enc _ _ _ :=
    if enc = 0 then ⟨OPUS_INTERNAL_ERROR, [], 1, by decide⟩
    else ⟨3, [0xf8, 0xff, 0xfe], enc + 1, length_silence⟩
  finalRange _ := 0

/-- A file of two blocks. -/
def twoBlocks : List UInt8 := List.replicate 1920 0

/-- When only the first of two frames fails, the program should write the record of the second one.
It goes past the end of the buffer at the first one instead. -/
theorem exists_not_skipsFailedFrames :
    createEncoder failingOpus monoSettings.toOpusEncoderSettings = some 0 ∧
      (outcomeAt failingOpus 0 twoBlocks 0).len = OPUS_INTERNAL_ERROR ∧
      survivors failingOpus 0 twoBlocks = [⟨[0xf8, 0xff, 0xfe], 0⟩] ∧
      (∃ w, OpusDemo.main failingOpus 3 twoBlocks = .error .pastEnd w) ∧
      ¬ SkipsFailedFrames failingOpus 0 twoBlocks := by
  have hcreate : createEncoder failingOpus monoSettings.toOpusEncoderSettings = some 0 := by
    decide
  have hblocks : twoBlocks.length / 960 = 2 := by
    unfold twoBlocks
    rw [List.length_replicate]
  have hfirst : (outcomeAt failingOpus 0 twoBlocks 0).len = OPUS_INTERNAL_ERROR := rfl
  have hneg : (outcomeAt failingOpus 0 twoBlocks 0).len.toInt < 0 := by
    rw [hfirst]
    decide
  refine ⟨hcreate, hfirst, ?_, ?_, ?_⟩
  · unfold survivors
    rw [hblocks]
    decide
  · -- The loop stops in its first turn.
    have hat := encoderAt_new hcreate twoBlocks
    obtain ⟨w, hstop⟩ := encodeBuffer_of_negative
      (w := ⟨OpusAudioEncoder.new failingOpus monoSettings, []⟩) hat (by rw [hblocks]; decide) hneg
    have hfull : (twoBlocks.take 960).length = 960 := by
      unfold twoBlocks
      rw [List.length_take, List.length_replicate]
      rfl
    unfold block at hstop
    rw [Nat.mul_zero, List.drop_zero] at hstop
    refine ⟨w, ?_⟩
    rw [OpusDemo.main_eq]
    unfold forEachBlock
    rw [if_pos hfull, EStateM.run_bind, hstop]
  · rintro ⟨w, hrun, -⟩
    obtain ⟨fuel, hok⟩ := hrun.exists
    exact main_ne_ok hcreate (by rw [hblocks]; decide) (by simp) hneg fuel w hok

end SpresenseOpus.Host
