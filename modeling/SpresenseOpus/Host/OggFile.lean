import SpresenseOpus.Codec.OggStream
import SpresenseOpus.Host.Encoder

/-!
# The Ogg program of the host

`02_encode_on_host_opus_ogg.cpp`: `main` writes the header pages, encodes a raw file block by block
with one page for each packet, and ends the stream. When liboggz hands out a handle and its output
drains, and every `opus_encode` succeeds, the packets fed are exactly a head, the comment header,
the packets of the whole blocks, and the end (`main_fed`).
-/

namespace SpresenseOpus.Host

open Blocks Filter Machine Words

/-- `recording_cannel_number`. -/
def recordingChannelNumber : UInt8 := 1
/-- `recoding_sampling_rate`. -/
def recordingSamplingRate : UInt32 := 48000

/-- The state of the Ogg program: the globals of its Ogg module, the encoder, and the sample
position. The encoder is a local of `main` that is constructed after the header pages; since the
constructor touches nothing else, it is there from the start. -/
structure OggFile (ε σ : Type) where
  ogg : Ogg σ := {}
  opusEncoder : OpusAudioEncoder ε
  granulepos : Int32 := 0

section Program

variable {ε σ : Type} (opus : Libopus ε) (z : Liboggz σ)

/-- The state in which `main` starts. -/
def OggFile.start : OggFile ε σ := { opusEncoder := OpusAudioEncoder.new opus monoSettings }

/-- A program of the Ogg module, run by the Ogg program. -/
def OggFile.onOgg {α : Type} (x : OggM σ α) : EStateM Halt (OggFile ε σ) α := fun w =>
  match x.run w.ogg with
  | .ok a g => .ok a { w with ogg := g }
  | .error e g => .error e { w with ogg := g }

/-- `writeOggFormat`. The length becomes a `long`. -/
def writeOggFormat (fuel : ℕ) (encodedBytes : List UInt8) (encodedBytesLen : UInt64)
    (pos : Int32) : OggM σ Unit :=
  oggWriteAudioDataPage z fuel encodedBytes encodedBytesLen.toInt64.toInt pos

/-- `granulepos` after a buffer of `size` bytes. The sum is a `size_t`. -/
def advance (granulepos : Int32) (size : UInt64) : Int32 :=
  (toSize granulepos + size / 2 / recordingChannelNumber.toUInt64).toInt64.toInt32

/-- The body of the loop of `handleAudio`: a full buffer is encoded and written as a page. -/
def OggFile.encodeBuffer (fuel : ℕ) (audioBuffer : List UInt8) :
    EStateM Halt (OggFile ε σ) Unit := fun w =>
  let size := UInt64.ofNat audioBuffer.length
  match w.opusEncoder.encodeFrame opus audioBuffer size with
  | .error x => .error x w
  | .ok f =>
    (OggFile.onOgg (writeOggFormat z fuel f.encodedBytes f.dataLenOut
      (advance w.granulepos size))).run
        { w with opusEncoder := f.next, granulepos := advance w.granulepos size }

/-- `handleAudio`, on the bytes of the input file. -/
def OggFile.handleAudio (fuel : ℕ) (testAudioIn : List UInt8) :
    EStateM Halt (OggFile ε σ) Unit := do
  let w ← get
  forEachBlock .outOfFuel w.opusEncoder.getExpectedPackageSize.toNat
    (OggFile.encodeBuffer opus z fuel) fuel testAudioIn

/-- `main`, up to `ogg_end`, which only closes the output file. -/
def OggFile.main (fuel : ℕ) (testAudioIn : List UInt8) : EStateM Halt (OggFile ε σ) Unit := do
  OggFile.onOgg (oggBegin z)
  OggFile.onOgg (oggWriteHeaderPage z fuel recordingChannelNumber.toUInt32.toInt32
    recordingSamplingRate.toInt32)
  OggFile.handleAudio opus z fuel testAudioIn
  OggFile.onOgg (oggWriteFooterPage z fuel)

/-- `handleAudio` is its loop, with blocks of the expected size. -/
theorem OggFile.handleAudio_run (fuel : ℕ) (testAudioIn : List UInt8) (w : OggFile ε σ) :
    (OggFile.handleAudio opus z fuel testAudioIn).run w =
      (forEachBlock .outOfFuel w.opusEncoder.getExpectedPackageSize.toNat
        (OggFile.encodeBuffer opus z fuel) fuel testAudioIn).run w := by
  unfold OggFile.handleAudio
  rw [EStateM.run_bind, EStateM.run_get]

end Program

/-! ## The packets -/

section Packets

variable {ε σ : Type} (opus : Libopus ε)

/-- `granulepos` after `i` blocks. -/
def posAt : ℕ → Int32
  | 0 => 0
  | i + 1 => advance (posAt i) 960

/-- The packet for the `i`-th block of a file. -/
def packetAt (enc : ε) (file : List UInt8) (i : ℕ) : OggPacket where
  packet := (outcomeAt opus enc file i).data
  bytes := (outcomeAt opus enc file i).data.length
  b_o_s := false
  e_o_s := false
  granulepos := (posAt (i + 1)).toInt
  packetno := i + 2

/-- The packets before the `i`-th block. -/
def packetsBefore (enc : ε) (file : List UInt8) (i : ℕ) : List OggPacket :=
  headPacket 1 48000 0 :: tagsPacket 1 :: (List.range i).map (packetAt opus enc file)

/-- The state of the program after `i` blocks. -/
structure OggAt (enc : ε) (file : List UInt8) (i : ℕ) (w : OggFile ε σ) : Prop where
  encoder : EncoderAt opus enc file i w.opusEncoder
  granulepos : w.granulepos = posAt i
  handle : w.ogg.oggz.isSome
  packetno : w.ogg.packetno = i + 2
  fed : w.ogg.fed = packetsBefore opus enc file i

variable {opus} {z : Liboggz σ}

/-- A program of the Ogg module leaves the rest of the state. -/
@[simp] theorem OggFile.onOgg_run {α : Type} (x : OggM σ α) (w : OggFile ε σ) :
    (OggFile.onOgg x).run w = onPart (fun g => { w with ogg := g }) (x.run w.ogg) := by
  simp only [OggFile.onOgg, EStateM.run]
  cases x w.ogg <;> rfl

/-- The body of the loop feeds the packet of its block. -/
theorem oggAt_step (hdrain : ∀ o, Drains z o) {enc : ε} {file : List UInt8} {i : ℕ}
    {w : OggFile ε σ} (h : OggAt opus enc file i w) (hi : i < file.length / 960)
    (hok : Succeeds (outcomeAt opus enc file i)) :
    ∃ w', OggAt opus enc file (i + 1) w' ∧ ∀ᶠ fuel in atTop,
      (OggFile.encodeBuffer opus z fuel (block 960 i file)).run w = .ok () w' := by
  obtain ⟨f, hf, hlen, hdata, hsize, hnext⟩ := h.encoder.encodeFrame hok
  have hblock : UInt64.ofNat (block 960 i file).length = 960 := by rw [length_block hi]; rfl
  have hmax : OPUS_MAX_BUFFER_SIZE.toInt.toNat = 5760 := by decide
  -- The length is small, so that it is the same number as a `long`.
  have hle : f.dataLenOut.toNat < 2^63 := by
    have htake := congrArg List.length hdata
    rw [List.length_take] at htake
    omega
  have hbytes : f.dataLenOut.toInt64.toInt = (outcomeAt opus enc file i).data.length := by
    rw [toInt_toInt64_of_lt hle, hlen]
  have hpacket : audioPacket f.encodedBytes f.dataLenOut.toInt64.toInt (advance w.granulepos 960)
      w.ogg.packetno = packetAt opus enc file i := by
    unfold audioPacket packetAt
    rw [hbytes, Int.toNat_natCast, ← hlen, hdata, h.granulepos, h.packetno, hlen]
    rfl
  obtain ⟨g, hg, hev⟩ := feedAndDrain_eventually hdrain
    (audioPacket f.encodedBytes f.dataLenOut.toInt64.toInt (advance w.granulepos 960)) 0 h.handle
  rw [hpacket] at hg
  refine ⟨⟨g, f.next, advance w.granulepos 960⟩, ⟨hnext, ?_, ?_, ?_, ?_⟩, ?_⟩
  · rw [h.granulepos]
    rfl
  · rw [hg.handle]
    exact h.handle
  · rw [hg.packetno, h.packetno, List.length_singleton]
    push_cast
    ring
  · rw [hg.fed, h.fed]
    simp [packetsBefore, List.range_succ]
  · filter_upwards [hev] with fuel hrun
    have hstep : (OggFile.encodeBuffer opus z fuel (block 960 i file)).run w =
        (OggFile.onOgg (writeOggFormat z fuel f.encodedBytes f.dataLenOut
          (advance w.granulepos 960))).run
            { w with opusEncoder := f.next, granulepos := advance w.granulepos 960 } := by
      unfold OggFile.encodeBuffer
      simp only [EStateM.run, hblock, hf]
    rw [hstep, OggFile.onOgg_run]
    unfold writeOggFormat oggWriteAudioDataPage
    rw [hrun, onPart_of_ok]

/-- The program comes to its end, given enough iterations, and has fed the packets of the whole
blocks between the two headers and the packet that ends the stream. -/
theorem main_fed (hdrain : ∀ o, Drains z o) {o : σ} (hnew : z.new = some o) {enc : ε}
    (hcreate : createEncoder opus monoSettings.toOpusEncoderSettings = some enc)
    (file : List UInt8)
    (hok : ∀ i, i < file.length / 960 → Succeeds (outcomeAt opus enc file i)) :
    ∃ w, (∀ᶠ fuel in atTop, (OggFile.main opus z fuel file).run (OggFile.start opus) = .ok () w) ∧
      w.ogg.fed = packetsBefore opus enc file (file.length / 960) ++
        [footerPacket (file.length / 960 + 2 : ℕ)] := by
  -- The stream is begun with the two header pages.
  obtain ⟨g₀, g₁, hbegin, hsome, hev₁⟩ := begin_eventually hdrain hnew
    recordingChannelNumber.toUInt32.toInt32 recordingSamplingRate.toInt32
  obtain ⟨enough, hheader⟩ := hev₁.exists
  obtain ⟨hfed, hpacketno⟩ := fed_of_begin z hbegin hheader
  -- The loop feeds one packet for each whole block.
  have hstart : OggAt opus enc file 0 ⟨g₁, OpusAudioEncoder.new opus monoSettings, 0⟩ :=
    ⟨encoderAt_new hcreate file, rfl, hsome, hpacketno, hfed⟩
  obtain ⟨w, hw, hev₂⟩ := forEachBlock_eventually .outOfFuel (OggFile.encodeBuffer opus z)
    (by decide) (fun i w hi h => oggAt_step hdrain h hi (hok i hi)) hstart
  -- The last page ends the stream.
  obtain ⟨g₃, hg₃, hev₃⟩ :=
    feedAndDrain_eventually hdrain footerPacket OGGZ_FLUSH_AFTER hw.handle
  refine ⟨{ w with ogg := g₃ }, ?_, ?_⟩
  · filter_upwards [hev₁, hev₂, hev₃] with fuel h₁ h₂ h₃
    have hbegun : (OggFile.onOgg (oggBegin z)).run (OggFile.start opus) =
        .ok () ⟨g₀, OpusAudioEncoder.new opus monoSettings, 0⟩ := by
      rw [OggFile.onOgg_run, OggFile.start, hbegin, onPart_of_ok]
    have hloop : (OggFile.handleAudio opus z fuel file).run
        ⟨g₁, OpusAudioEncoder.new opus monoSettings, 0⟩ = .ok () w := by
      rw [OggFile.handleAudio_run, getExpectedPackageSize_mono rfl]
      exact h₂
    unfold OggFile.main
    rw [EStateM.run_bind, hbegun]
    simp only
    rw [EStateM.run_bind, OggFile.onOgg_run, h₁, onPart_of_ok]
    simp only
    rw [EStateM.run_bind, hloop]
    simp only
    rw [OggFile.onOgg_run]
    unfold oggWriteFooterPage
    rw [h₃, onPart_of_ok]
  · rw [hg₃.fed, hw.fed, hw.packetno]
    rfl

variable (opus)

/-- The packets of an Ogg Opus file for a raw file, one by one: how they are numbered and flagged,
and what a reader makes of each. -/
structure IsOpusFile (enc : ε) (file : List UInt8) (ps : List OggPacket) : Prop where
  length : ps.length = file.length / 960 + 3
  flags : ∀ (j : ℕ) (p : OggPacket), ps[j]? = some p → p.packetno = j ∧
    (p.b_o_s = true ↔ j = 0) ∧ (p.e_o_s = true ↔ j = file.length / 960 + 2)
  head : ∃ p, ps[0]? = some p ∧ p.packet.length = 19 ∧ p.bytes = 19 ∧
    parseOpusHead p.packet = some {
      version := 1
      channelCount := recordingChannelNumber.toNat
      preSkip := 0
      inputSampleRate := recordingSamplingRate.toNat
      outputGain := 0
      mappingFamily := 0
      mappingTable := [] }
  tags : ∃ p, ps[1]? = some p ∧ p.bytes = p.packet.length ∧
    parseOpusTags p.packet = some { vendor := ascii ['A', 'B', 'C'], comments := [] }
  audio : ∀ i, i < file.length / 960 → ∃ p, ps[2 + i]? = some p ∧
    p.packet = (outcomeAt opus enc file i).data ∧
    p.bytes = (outcomeAt opus enc file i).data.length
  last : ∃ p, ps[file.length / 960 + 2]? = some p ∧ p.packet = [] ∧ p.bytes = 0

/-- The packets behind the two headers are those of the blocks and the one that ends the stream. -/
theorem getElem?_packetsBefore (enc : ε) (file : List UInt8) (n i : ℕ) (p : OggPacket) :
    (packetsBefore opus enc file n ++ [p])[i + 2]? =
      if i < n then some (packetAt opus enc file i) else if i = n then some p else none := by
  unfold packetsBefore
  rw [List.cons_append, List.cons_append, List.getElem?_cons_succ, List.getElem?_cons_succ,
    List.getElem?_append, List.length_map, List.length_range]
  split
  · rename_i hi
    simp [hi]
  · rename_i hi
    rcases Nat.lt_or_eq_of_le (Nat.le_of_not_lt hi) with hlt | rfl
    · rw [if_neg hlt.ne', List.getElem?_eq_none]
      rw [List.length_singleton]
      omega
    · simp

variable {opus}

/-- The identification header is read as the settings of the program. -/
theorem parseOpusHead_headPacket :
    parseOpusHead (headPacket 1 48000 0).packet = some {
      version := 1
      channelCount := recordingChannelNumber.toNat
      preSkip := 0
      inputSampleRate := recordingSamplingRate.toNat
      outputGain := 0
      mappingFamily := 0
      mappingTable := [] } :=
  parseOpusHead_bytes { sampleRate := 48000, channelCount := 1 } rfl rfl

/-- Headers, packets of blocks and the last packet make up an Ogg Opus file. -/
theorem isOpusFile_packets (enc : ε) (file : List UInt8) :
    IsOpusFile opus enc file (packetsBefore opus enc file (file.length / 960) ++
      [footerPacket (file.length / 960 + 2 : ℕ)]) := by
  have hget := getElem?_packetsBefore opus enc file (file.length / 960)
  refine ⟨?_, ?_, ?_, ?_, ?_, ?_⟩
  · simp [packetsBefore]
  · -- The two headers, then the packets of the blocks, then the one that ends the stream.
    intro j p hp
    match j with
    | 0 =>
      obtain rfl : headPacket 1 48000 0 = p := Option.some.inj hp
      exact ⟨rfl, by simp [headPacket], by simp [headPacket]⟩
    | 1 =>
      obtain rfl : tagsPacket 1 = p := Option.some.inj hp
      exact ⟨rfl, by simp [tagsPacket], by simp [tagsPacket]⟩
    | i + 2 =>
      rw [hget] at hp
      split at hp
      · rename_i hi
        obtain rfl := Option.some.inj hp
        have hne : i ≠ file.length / 960 := hi.ne
        exact ⟨by simp [packetAt], by simp [packetAt], by simp [packetAt, hne]⟩
      · split at hp
        · rename_i hi
          obtain rfl := Option.some.inj hp
          exact ⟨by simp [footerPacket, hi], by simp [footerPacket], by simp [footerPacket, hi]⟩
        · exact absurd hp (by simp)
  · exact ⟨_, rfl, OpusOggHeader.length_bytes _ rfl, rfl, parseOpusHead_headPacket⟩
  · exact ⟨_, rfl, rfl, parseOpusTags_commentHeader⟩
  · intro i hi
    refine ⟨packetAt opus enc file i, ?_, rfl, rfl⟩
    rw [Nat.add_comm 2 i, hget, if_pos hi]
  · refine ⟨footerPacket (file.length / 960 + 2 : ℕ), ?_, rfl, rfl⟩
    rw [hget, if_neg (lt_irrefl _), if_pos rfl]

/-- For every input file the program comes to its end, given enough iterations, and has fed the
packets of an Ogg Opus file for it: with `n` whole blocks of 960 bytes, the identification header,
the comment header, the `n` packets that `opus_encode` has returned, and an empty packet. liboggz
hands out a handle and its output drains without an error, and every `opus_encode` succeeds. -/
theorem main_isOpusFile (hdrain : ∀ o, Drains z o) {o : σ} (hnew : z.new = some o) {enc : ε}
    (hcreate : createEncoder opus monoSettings.toOpusEncoderSettings = some enc)
    (file : List UInt8)
    (hok : ∀ i, i < file.length / 960 → Succeeds (outcomeAt opus enc file i)) :
    ∃ w, (∀ᶠ fuel in atTop, (OggFile.main opus z fuel file).run (OggFile.start opus) = .ok () w) ∧
      IsOpusFile opus enc file w.ogg.fed := by
  obtain ⟨w, hrun, hfed⟩ := main_fed hdrain hnew hcreate file hok
  refine ⟨w, hrun, ?_⟩
  rw [hfed]
  exact isOpusFile_packets enc file

end Packets

/-- A file of two blocks and seven bytes more. -/
def oddFile : List UInt8 := List.replicate 1927 0

/-- It has two blocks. -/
theorem blocks_oddFile : oddFile.length / 960 = 2 := by
  unfold oddFile
  rw [List.length_replicate]

/-- The packets for that file, which one encoder has made of its blocks in turn. -/
theorem main_isOpusFile_oddFile :
    ∃ w, (∀ᶠ fuel in atTop, (OggFile.main countingOpus bareOggz fuel oddFile).run
        (OggFile.start countingOpus) = .ok () w) ∧
      IsOpusFile countingOpus (48000, 0) oddFile w.ogg.fed :=
  main_isOpusFile drains_bareOggz rfl (by decide) oddFile
    fun i _ => succeeds_countingOpus oddFile i

end SpresenseOpus.Host
