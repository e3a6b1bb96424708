import SpresenseOpus.Host.Encoder
import SpresenseOpus.Library.Records

/-!
# The opus_demo file format

`02_encode_on_host_opus_opus_demo.cpp`: a raw file is encoded block by block, and each packet is
written behind its length and the final range of the encoder. `demoCodec` is the format with its
reader. What the program writes is read back as one record for each whole block
(`main_round_trip`).
-/

namespace SpresenseOpus.Host

open Blocks Filter Records Words

/-- `int_to_char`. -/
def intToChar (i : UInt32) : List UInt8 :=
  [(i >>> 24).toUInt8, ((i >>> 16) &&& 0xFF).toUInt8, ((i >>> 8) &&& 0xFF).toUInt8,
    (i &&& 0xFF).toUInt8]

/-- `fwrite` of the first `n` bytes of a vector to the end of a file. A count past the end of the
vector is undefined in C, where a run may well go on; here it is a halt. -/
def fwrite (data : List UInt8) (n : ℕ) (out : List UInt8) : Except Halt (List UInt8) :=
  if data.length < n then .error .pastEnd else .ok (out ++ data.take n)

/-- `writeOpusDemoFormat`. -/
def writeOpusDemoFormat (opusOut encodedBytes : List UInt8) (encodedBytesLen : UInt64)
    (encFinalRange : UInt32) : Except Halt (List UInt8) := do
  let opusOut ← fwrite (intToChar encodedBytesLen.toUInt32) 4 opusOut
  let opusOut ← fwrite (intToChar encFinalRange) 4 opusOut
  fwrite encodedBytes encodedBytesLen.toNat opusOut

/-- The state of the opus_demo program: its encoder and the file that it writes. -/
structure OpusDemo (ε : Type) where
  opusEncoder : OpusAudioEncoder ε
  testAudioOutOpus : List UInt8

section Program

variable {ε : Type} (opus : Libopus ε)

/-- The body of the loop of `handleAudio`: a full buffer is encoded and written. -/
def OpusDemo.encodeBuffer (audioBuffer : List UInt8) : EStateM Halt (OpusDemo ε) Unit := fun w =>
  match w.opusEncoder.encodeFrame opus audioBuffer (UInt64.ofNat audioBuffer.length) with
  | .error x => .error x w
  | .ok f =>
    match f.next.getFinalRange opus with
    | .error x => .error x { w with opusEncoder := f.next }
    | .ok range =>
      match writeOpusDemoFormat w.testAudioOutOpus f.encodedBytes f.dataLenOut range with
      | .error x => .error x { w with opusEncoder := f.next }
      | .ok out => .ok () { opusEncoder := f.next, testAudioOutOpus := out }

/-- `handleAudio`, on the bytes of the input file. -/
def OpusDemo.handleAudio (fuel : ℕ) (testAudioIn : List UInt8) :
    EStateM Halt (OpusDemo ε) Unit := do
  let w ← get
  forEachBlock .outOfFuel w.opusEncoder.getExpectedPackageSize.toNat
    (OpusDemo.encodeBuffer opus) fuel testAudioIn

/-- `main`, from the input file to the output file. -/
def OpusDemo.main (fuel : ℕ) (testAudioIn : List UInt8) :
    EStateM.Result Halt (OpusDemo ε) Unit :=
  (OpusDemo.handleAudio opus fuel testAudioIn).run {
    opusEncoder := OpusAudioEncoder.new opus monoSettings
    testAudioOutOpus := [] }

/-- `handleAudio` is its loop, with blocks of the expected size. -/
theorem OpusDemo.handleAudio_run (fuel : ℕ) (testAudioIn : List UInt8) (w : OpusDemo ε) :
    (OpusDemo.handleAudio opus fuel testAudioIn).run w =
      (forEachBlock .outOfFuel w.opusEncoder.getExpectedPackageSize.toNat
        (OpusDemo.encodeBuffer opus) fuel testAudioIn).run w := by
  unfold OpusDemo.handleAudio
  rw [EStateM.run_bind, EStateM.run_get]

/-- The program is that loop, with blocks of 960 bytes. -/
theorem OpusDemo.main_eq (fuel : ℕ) (testAudioIn : List UInt8) :
    OpusDemo.main opus fuel testAudioIn =
      (forEachBlock .outOfFuel 960 (OpusDemo.encodeBuffer opus) fuel testAudioIn).run
        ⟨OpusAudioEncoder.new opus monoSettings, []⟩ := by
  unfold OpusDemo.main
  rw [OpusDemo.handleAudio_run, getExpectedPackageSize_mono rfl]
  rfl

end Program

/-! ## The format -/

/-- A record of the format. -/
structure DemoRecord where
  packet : List UInt8
  finalRange : UInt32
  deriving DecidableEq, Repr

/-- The format: the length and the final range of the encoder, both with the high byte first, and
the packet. -/
def demoCodec : RecordCodec DemoRecord UInt8 where
  Valid r := r.packet.length < 256^4
  write r := toBytesBE 4 r.packet.length ++ toBytesBE 4 r.finalRange.toNat ++ r.packet
  read bs := do
    let (length, bs) ← readN 4 bs
    let (range, bs) ← readN 4 bs
    let (packet, bs) ← readN (ofBytesBE length) bs
    return (⟨packet, UInt32.ofNat (ofBytesBE range)⟩, bs)
  read_write r rest hvalid := by
    have hrange : r.finalRange.toNat < 256^4 := r.finalRange.toNat_lt
    rw [List.append_assoc, List.append_assoc, readN_append _ (length_toBytesBE 4 _)]
    simp only [Option.bind_eq_bind, Option.bind_some]
    rw [readN_append _ (length_toBytesBE 4 _)]
    simp only [Option.bind_some]
    rw [ofBytesBE_toBytesBE_of_lt hvalid, readN_append _ rfl]
    simp only [Option.bind_some]
    rw [ofBytesBE_toBytesBE_of_lt hrange, UInt32.ofNat_toNat]
    rfl
  write_ne_nil r h := by
    have hlen := congrArg List.length h
    simp at hlen

/-- The mask of a byte is what the conversion to a byte keeps anyway. -/
theorem toUInt8_and_mask (x : UInt32) : (x &&& 0xFF).toUInt8 = x.toUInt8 := by
  have hmask : (0xFF : UInt32).toNat = 2^8 - 1 := rfl
  apply UInt8.toNat_inj.mp
  rw [UInt32.toNat_toUInt8, UInt32.toNat_toUInt8, UInt32.toNat_and, hmask,
    Nat.and_two_pow_sub_one_eq_mod, Nat.mod_mod]

/-- A byte of a number is a digit of it. -/
theorem toUInt8_shiftRight (i k : UInt32) (hk : k.toNat < 32) :
    (i >>> k).toUInt8 = UInt8.ofNat (i.toNat / 2^k.toNat) := by
  apply UInt8.toNat_inj.mp
  rw [UInt32.toNat_toUInt8, UInt32.toNat_shiftRight, UInt8.toNat_ofNat', Nat.mod_eq_of_lt hk,
    Nat.shiftRight_eq_div_pow]

/-- `int_to_char` writes a number with the high byte first. -/
theorem intToChar_eq (i : UInt32) : intToChar i = toBytesBE 4 i.toNat := by
  have hbytes : toBytesBE 4 i.toNat = [UInt8.ofNat (i.toNat / 256 / 256 / 256),
      UInt8.ofNat (i.toNat / 256 / 256), UInt8.ofNat (i.toNat / 256), UInt8.ofNat i.toNat] := rfl
  have h24 : i.toNat / 2^24 = i.toNat / 256 / 256 / 256 := by omega
  have h16 : i.toNat / 2^16 = i.toNat / 256 / 256 := by omega
  have h8 : i.toNat / 2^8 = i.toNat / 256 := by omega
  unfold intToChar
  rw [toUInt8_and_mask, toUInt8_and_mask, toUInt8_and_mask, toUInt8_shiftRight i 24 (by decide),
    toUInt8_shiftRight i 16 (by decide), toUInt8_shiftRight i 8 (by decide), hbytes, ← h24, ← h16,
    ← h8, UInt8.ofNat_uInt32ToNat]
  rfl

section RoundTrip

variable {ε : Type} (opus : Libopus ε)

/-- The record for the `i`-th block of a file. -/
def recordAt (enc : ε) (file : List UInt8) (i : ℕ) : DemoRecord where
  packet := (outcomeAt opus enc file i).data
  finalRange := opus.finalRange (encoderAt opus enc file (i + 1))

/-- The state of the program after `i` blocks: its encoder is before the next block, and the file
holds the records of the blocks before. -/
structure DemoAt (enc : ε) (file : List UInt8) (i : ℕ) (w : OpusDemo ε) : Prop where
  encoder : EncoderAt opus enc file i w.opusEncoder
  written : w.testAudioOutOpus = ((List.range i).map (recordAt opus enc file)).flatMap
    demoCodec.write

variable {opus}

/-- A number is written as its four bytes. -/
theorem fwrite_intToChar (i : UInt32) (out : List UInt8) :
    fwrite (intToChar i) 4 out = .ok (out ++ toBytesBE 4 i.toNat) := by
  rw [intToChar_eq]
  rfl

/-- A packet at the start of the buffer is written as a record. -/
theorem writeOpusDemoFormat_ok {f : EncodedFrame ε} {r : DemoRecord}
    (hlen : f.dataLenOut.toNat = r.packet.length)
    (hdata : f.encodedBytes.take f.dataLenOut.toNat = r.packet)
    (hsize : f.encodedBytes.length = OPUS_MAX_BUFFER_SIZE.toInt.toNat) (out : List UInt8) :
    writeOpusDemoFormat out f.encodedBytes f.dataLenOut r.finalRange =
      .ok (out ++ demoCodec.write r) := by
  -- The packet fits into the buffer, so that its length fits into the field.
  have hmax : OPUS_MAX_BUFFER_SIZE.toInt.toNat = 5760 := by decide
  have hle : r.packet.length ≤ f.encodedBytes.length := by
    rw [← hdata, List.length_take]
    omega
  have hfield : f.dataLenOut.toUInt32.toNat = r.packet.length := by
    rw [UInt64.toNat_toUInt32, hlen]
    omega
  have hlast : ∀ out', fwrite f.encodedBytes f.dataLenOut.toNat out' = .ok (out' ++ r.packet) := by
    intro out'
    unfold fwrite
    rw [if_neg (by omega), hdata]
  unfold writeOpusDemoFormat
  rw [fwrite_intToChar, hfield]
  simp only [Bind.bind, Except.bind]
  rw [fwrite_intToChar]
  simp only
  rw [hlast, List.append_assoc, List.append_assoc]
  rfl

/-- The body of the loop writes the record of its block. -/
theorem demoAt_step {enc : ε} {file : List UInt8} {i : ℕ} {w : OpusDemo ε}
    (h : DemoAt opus enc file i w) (hi : i < file.length / 960)
    (hok : Succeeds (outcomeAt opus enc file i)) :
    ∃ w', DemoAt opus enc file (i + 1) w' ∧
      (OpusDemo.encodeBuffer opus (block 960 i file)).run w = .ok () w' := by
  obtain ⟨f, hf, hlen, hdata, hsize, hnext⟩ := h.encoder.encodeFrame hok
  have hblock : UInt64.ofNat (block 960 i file).length = 960 := by rw [length_block hi]; rfl
  -- The final range is that of the encoder after the packet.
  have hrange : f.next.getFinalRange opus = .ok (recordAt opus enc file i).finalRange := by
    unfold OpusAudioEncoder.getFinalRange
    rw [hnext.enc]
    rfl
  have hwrite : writeOpusDemoFormat w.testAudioOutOpus f.encodedBytes f.dataLenOut
      (recordAt opus enc file i).finalRange =
        .ok (w.testAudioOutOpus ++ demoCodec.write (recordAt opus enc file i)) :=
    writeOpusDemoFormat_ok hlen hdata hsize _
  refine ⟨⟨f.next, w.testAudioOutOpus ++ demoCodec.write (recordAt opus enc file i)⟩,
    ⟨hnext, ?_⟩, ?_⟩
  · rw [h.written, List.range_succ, List.map_append, List.flatMap_append, List.map_singleton,
      List.flatMap_singleton]
  · unfold OpusDemo.encodeBuffer
    simp only [EStateM.run, hblock, hf, hrange, hwrite]

/-- When every frame succeeds, the program comes to its end, given enough iterations, and has
written the records of all whole blocks. -/
theorem demoAt_main {enc : ε}
    (hcreate : createEncoder opus monoSettings.toOpusEncoderSettings = some enc)
    {file : List UInt8}
    (hok : ∀ i, i < file.length / 960 → Succeeds (outcomeAt opus enc file i)) :
    ∃ w, DemoAt opus enc file (file.length / 960) w ∧
      ∀ᶠ fuel in atTop, OpusDemo.main opus fuel file = .ok () w := by
  have hstart : DemoAt opus enc file 0
      { opusEncoder := OpusAudioEncoder.new opus monoSettings, testAudioOutOpus := [] } :=
    ⟨encoderAt_new hcreate file, rfl⟩
  have hbody : ∀ i w, i < file.length / 960 → DemoAt opus enc file i w →
      ∃ w', DemoAt opus enc file (i + 1) w' ∧ ∀ᶠ _ : ℕ in atTop,
        (OpusDemo.encodeBuffer opus (block 960 i file)).run w = .ok () w' := by
    intro i w hi h
    obtain ⟨w', hw', hstep⟩ := demoAt_step h hi (hok i hi)
    exact ⟨w', hw', Eventually.of_forall fun _ => hstep⟩
  obtain ⟨w, hw, hrun⟩ := forEachBlock_eventually .outOfFuel
    (fun _ => OpusDemo.encodeBuffer opus) (by decide) hbody hstart
  refine ⟨w, hw, hrun.mono fun fuel hfuel => ?_⟩
  rw [OpusDemo.main_eq]
  exact hfuel

/-- The records of frames that succeed are read back, since every packet is short enough for the
length field of its record. -/
theorem parse_records {enc : ε} {file : List UInt8} {is : List ℕ}
    (hok : ∀ i ∈ is, Succeeds (outcomeAt opus enc file i)) :
    demoCodec.parse ((is.map (recordAt opus enc file)).flatMap demoCodec.write) =
      some (is.map (recordAt opus enc file)) := by
  refine demoCodec.parse_flatMap fun r hr => ?_
  obtain ⟨i, hi, rfl⟩ := List.mem_map.mp hr
  obtain ⟨hlen, hmax⟩ := hok i hi
  have hlength := (outcomeAt opus enc file i).length_eq hlen
  have hbuffer : OPUS_MAX_BUFFER_SIZE.toInt = 5760 := by decide
  show (outcomeAt opus enc file i).data.length < 256^4
  omega

/-- For every input file the program comes to its end, given enough iterations, and the file that
it has written is read back, with nothing left over, as one record for each whole block of 960
bytes: the packet and the final range that the encoder has produced for it. -/
theorem main_round_trip (opus : Libopus ε) {enc : ε}
    (hcreate : createEncoder opus monoSettings.toOpusEncoderSettings = some enc)
    (file : List UInt8)
    (hok : ∀ i, i < file.length / 960 → Succeeds (outcomeAt opus enc file i)) :
    ∃ w, (∀ᶠ fuel in atTop, OpusDemo.main opus fuel file = .ok () w) ∧
      demoCodec.parse w.testAudioOutOpus =
        some ((List.range (file.length / 960)).map (recordAt opus enc file)) := by
  obtain ⟨w, hw, hrun⟩ := demoAt_main hcreate hok
  refine ⟨w, hrun, ?_⟩
  rw [hw.written]
  exact parse_records fun i hi => hok i (List.mem_range.mp hi)

end RoundTrip

/-- A file of two blocks and five bytes more. -/
def shortFile : List UInt8 := List.replicate 1925 0

/-- It has two blocks. -/
theorem blocks_shortFile : shortFile.length / 960 = 2 := by
  unfold shortFile
  rw [List.length_replicate]

/-- That file becomes two records, which are read back: the packets that one encoder has made of
the blocks in turn, each with the final range behind it. -/
theorem main_round_trip_shortFile :
    ∃ w, (∀ᶠ fuel in atTop, OpusDemo.main countingOpus fuel shortFile = .ok () w) ∧
      demoCodec.parse w.testAudioOutOpus =
        some [⟨[0xf8, 0xff, 0], 1⟩, ⟨[0xf8, 0xff, 1], 2⟩] := by
  obtain ⟨w, hw, hparse⟩ := main_round_trip countingOpus (by decide) shortFile
    fun i _ => succeeds_countingOpus shortFile i
  rw [blocks_shortFile] at hparse
  exact ⟨w, hw, hparse⟩

end SpresenseOpus.Host
