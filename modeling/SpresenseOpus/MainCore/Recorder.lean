import SpresenseOpus.Host.Encoder
import SpresenseOpus.Library.Machine
import SpresenseOpus.Library.Reads

/-!
# Live recording on the main core

`03_encode_on_spresense_main.ino`: `handleAudio` asks the recorder for a buffer of audio, encodes it
when it is full, and asks again. The recorder hands out what its FIFO has, and a read that comes
back short is taken for one that has not happened: its bytes are gone from the FIFO, and the next
read overwrites them in the buffer. So the frames encoded are the recording when every full read is
in its place, and for all recordings alike only when no bytes are lost in front of a full read
(`recordsAll_iff_inPlace`).

The program is a copy of the host's with a `size_t` of 32 bits. It is modelled as it is configured,
for the microphone.
-/

namespace SpresenseOpus.MainCore

open Filter Machine Reads
open Host (OpusAudioEncoder OPUS_MAX_BUFFER_SIZE)

/-- `recording_cannel_number`. -/
def recordingCannelNumber : UInt8 := 1
/-- `recording_sampling_rate`. -/
def recordingSamplingRate : UInt32 := 48000

/-- The settings of `_main`. -/
def recorderSettings : Host.OpusEncoderSettings :=
  { channels := 1, sample_rate := 48000, bits_per_sample := 16, complexity := 0 }

section Encoder

variable {ε : Type} (opus : Libopus ε)

/-- `getExpectedPackageSize`. -/
def getExpectedPackageSize (e : OpusAudioEncoder ε) : UInt32 :=
  (e.cfg.getFrameSizeSamples e.cfg.sample_rate).toUInt32 * 2

/-- What `encodeFrame` returns. -/
structure EncodedFrame (ε : Type) where
  encodedBytes : List UInt8
  dataLenOut : UInt32
  next : OpusAudioEncoder ε

/-- `encodeFrame`. -/
def encodeFrame (e : OpusAudioEncoder ε) (data : List UInt8) (dataLen : UInt32) :
    Except Halt (EncodedFrame ε) :=
  if e.cfg.channels = 0 then .error .zeroChannels
  else
    match e.enc with
    | none => .error .failedHandle
    | some enc =>
      let frames := (dataLen / e.cfg.channels.toUInt32 / 2).toInt32
      let r := opus.encode enc data frames e.cfg.max_buffer_size
      if e.encodedDataPacket.length < r.data.length then .error .pastEnd
      else
        let encodedDataPacket := r.data ++ e.encodedDataPacket.drop r.data.length
        .ok {
          encodedBytes := encodedDataPacket
          dataLenOut := r.len.toUInt32
          next := { e with enc := some r.next, encodedDataPacket } }

end Encoder

/-- The state of the program, and two histories. -/
structure Recorder (ε σ : Type) where
  ogg : Ogg σ := {}
  opusEncoder : OpusAudioEncoder ε
  audioBuffer : List UInt8 := []
  posInSamples : Int32 := 0
  /-- History: the number of bytes that the FIFO has handed out. -/
  taken : ℕ := 0
  /-- History: the buffers passed to `encodeFrame`. -/
  passed : List (List UInt8) := []

section Program

variable {ε σ : Type} (opus : Libopus ε) (z : Liboggz σ)

/-- The state in which `_main` starts. -/
def Recorder.start : Recorder ε σ := { opusEncoder := OpusAudioEncoder.new opus recorderSettings }

/-- A program of the Ogg module, run by the recorder program. -/
def Recorder.onOgg {α : Type} (x : OggM σ α) : EStateM Halt (Recorder ε σ) α := fun w =>
  match x.run w.ogg with
  | .ok a g => .ok a { w with ogg := g }
  | .error e g => .error e { w with ogg := g }

/-- `writeOggFormat`. -/
def writeOggFormat (fuel : ℕ) (encodedBytes : List UInt8) (encodedBytesLen : UInt32)
    (pos : Int32) : OggM σ Unit :=
  oggWriteAudioDataPage z fuel encodedBytes encodedBytesLen.toInt32.toInt pos

/-- `posInSamples` after a buffer of `size` bytes. -/
def advance (posInSamples : Int32) (size : UInt32) : Int32 :=
  (posInSamples.toUInt32 + size / 2 / recordingCannelNumber.toUInt32).toInt32

variable (recording : ℕ → UInt8)

/-- `getAudio`, when it puts the next `readBytes` bytes of the recording at the start of the
buffer. -/
def Recorder.getAudio (readBytes : ℕ) (w : Recorder ε σ) : Recorder ε σ :=
  { w with
    audioBuffer := segment recording w.taken readBytes ++ w.audioBuffer.drop readBytes
    taken := w.taken + readBytes }

/-- One pass of the loop of `handleAudio`, with a read of `readBytes` bytes. -/
def Recorder.pass (fuel readBytes : ℕ) : EStateM Halt (Recorder ε σ) Unit := fun w =>
  let w := w.getAudio recording readBytes
  let size := UInt32.ofNat w.audioBuffer.length
  if UInt32.ofNat readBytes = size then
    let w := { w with passed := w.passed ++ [w.audioBuffer] }
    match encodeFrame opus w.opusEncoder w.audioBuffer (UInt32.ofNat readBytes) with
    | .error x => .error x w
    | .ok f =>
      (Recorder.onOgg (writeOggFormat z fuel f.encodedBytes f.dataLenOut
        (advance w.posInSamples size))).run
          { w with opusEncoder := f.next, posInSamples := advance w.posInSamples size }
  else
    -- "Not yet ready."
    .ok () w

/-- The passes of the loop for reads of the given sizes. -/
def Recorder.passes (fuel : ℕ) : List ℕ → EStateM Halt (Recorder ε σ) Unit
  | [] => pure ()
  | n :: ns => do
    Recorder.pass opus z recording fuel n
    Recorder.passes fuel ns

/-- `audioBuffer.resize`, to the size that the encoder expects. -/
def Recorder.resizeBuffer (w : Recorder ε σ) : Recorder ε σ :=
  let size := (getExpectedPackageSize w.opusEncoder).toNat
  { w with audioBuffer := (w.audioBuffer ++ List.replicate size 0).take size }

/-- `handleAudio`, as far as the reads go. -/
def Recorder.handleAudio (fuel : ℕ) (sizes : List ℕ) : EStateM Halt (Recorder ε σ) Unit := do
  modify Recorder.resizeBuffer
  Recorder.passes opus z recording fuel sizes

/-- `_main`, which does not come out of `handleAudio`. -/
def Recorder.main (fuel : ℕ) (sizes : List ℕ) : EStateM Halt (Recorder ε σ) Unit := do
  Recorder.onOgg (oggBegin z)
  Recorder.onOgg (oggWriteHeaderPage z fuel recordingCannelNumber.toUInt32.toInt32
    recordingSamplingRate.toInt32)
  Recorder.handleAudio opus z recording fuel sizes

/-- `handleAudio` is its passes, with the buffer resized. -/
theorem Recorder.handleAudio_run (fuel : ℕ) (sizes : List ℕ) (w : Recorder ε σ) :
    (Recorder.handleAudio opus z recording fuel sizes).run w =
      (Recorder.passes opus z recording fuel sizes).run w.resizeBuffer := by
  unfold Recorder.handleAudio
  rw [EStateM.run_bind, EStateM.run_modify]

/-! ## What the passes do -/

/-- `posInSamples` after `n` full reads. -/
def posAt (n : ℕ) : Int32 := Int32.ofNat (480 * n)

/-- A full read advances the position by its 480 samples. -/
theorem advance_posAt (n : ℕ) : advance (posAt n) 960 = posAt (n + 1) := by
  unfold posAt
  rw [Nat.mul_add, Int32.ofNat_add]
  rfl

/-- The state after reads of the given sizes, each at most a buffer. -/
structure RecorderAt (sizes : List ℕ) (w : Recorder ε σ) : Prop where
  cfg : w.opusEncoder.cfg = recorderSettings
  buffer : w.audioBuffer.length = 960
  taken : w.taken = sizes.sum
  passed : w.passed = kept 960 recording 0 sizes
  posInSamples : w.posInSamples = posAt (sizes.count 960)
  fed : ∃ as, w.ogg.fed = headPacket 1 48000 0 :: tagsPacket 1 :: as ∧
    as.map OggPacket.granulepos =
      (List.range (sizes.count 960)).map fun k => (posAt (k + 1)).toInt

variable {opus} {z} {recording}

/-- A program of the Ogg module leaves the rest of the state. -/
@[simp] theorem Recorder.onOgg_run {α : Type} (x : OggM σ α) (w : Recorder ε σ) :
    (Recorder.onOgg x).run w = onPart (fun g => { w with ogg := g }) (x.run w.ogg) := by
  simp only [Recorder.onOgg, EStateM.run]
  cases x w.ogg <;> rfl

/-- A program of the Ogg module that returns has only changed the Ogg module. -/
theorem Recorder.onOgg_ok {α : Type} {x : OggM σ α} {a : α} {w w' : Recorder ε σ}
    (h : (Recorder.onOgg x).run w = .ok a w') :
    ∃ g, x.run w.ogg = .ok a g ∧ w' = { w with ogg := g } := by
  rw [Recorder.onOgg_run] at h
  exact onPart_ok _ h

section GetAudio

variable (recording) (w : Recorder ε σ) (n : ℕ)

/-- `getAudio` leaves the encoder. -/
@[simp] theorem getAudio_opusEncoder :
    (w.getAudio recording n).opusEncoder = w.opusEncoder := rfl

/-- `getAudio` leaves the position. -/
@[simp] theorem getAudio_posInSamples :
    (w.getAudio recording n).posInSamples = w.posInSamples := rfl

/-- `getAudio` passes nothing to the encoder. -/
@[simp] theorem getAudio_passed : (w.getAudio recording n).passed = w.passed := rfl

/-- `getAudio` takes the bytes of its read out of the FIFO. -/
@[simp] theorem getAudio_taken : (w.getAudio recording n).taken = w.taken + n := rfl

/-- `getAudio` leaves the Ogg module. -/
@[simp] theorem getAudio_ogg : (w.getAudio recording n).ogg = w.ogg := rfl

end GetAudio

/-- A read leaves the size of the buffer. -/
theorem length_getAudio {w : Recorder ε σ} {N : ℕ} (hbuffer : w.audioBuffer.length = N) {n : ℕ}
    (hn : n ≤ N) : (w.getAudio recording n).audioBuffer.length = N := by
  unfold Recorder.getAudio
  simp only [List.length_append, length_segment, List.length_drop, hbuffer]
  omega

variable (recording) in
/-- A full read is all that the buffer holds. -/
theorem getAudio_full {w : Recorder ε σ} {N : ℕ} (hbuffer : w.audioBuffer.length = N) :
    (w.getAudio recording N).audioBuffer = segment recording w.taken N := by
  unfold Recorder.getAudio
  simp only [List.drop_of_length_le hbuffer.le, List.append_nil]

/-- A pass whose read comes back short only takes its bytes. -/
theorem Recorder.pass_short {w : Recorder ε σ} {N : ℕ} (hN : N < 2^32)
    (hbuffer : w.audioBuffer.length = N) {n : ℕ} (hn : n < N) (fuel : ℕ) :
    (Recorder.pass opus z recording fuel n).run w = .ok () (w.getAudio recording n) := by
  have hne : UInt32.ofNat n ≠ UInt32.ofNat N := by
    intro h
    have hnat := congrArg UInt32.toNat h
    rw [UInt32.toNat_ofNat', UInt32.toNat_ofNat'] at hnat
    omega
  unfold Recorder.pass
  simp only [EStateM.run, length_getAudio hbuffer hn.le, if_neg hne]

variable (opus) (z) (recording) in
/-- A pass whose read is full passes it to the encoder, and stops or writes the page. -/
theorem Recorder.pass_full {w : Recorder ε σ} {N : ℕ} (hbuffer : w.audioBuffer.length = N)
    (fuel : ℕ) :
    (Recorder.pass opus z recording fuel N).run w =
      let w' := { w.getAudio recording N with
        passed := w.passed ++ [segment recording w.taken N] }
      match encodeFrame opus w.opusEncoder (segment recording w.taken N) (UInt32.ofNat N) with
      | .error x => .error x w'
      | .ok f =>
        (Recorder.onOgg (writeOggFormat z fuel f.encodedBytes f.dataLenOut
          (advance w.posInSamples (UInt32.ofNat N)))).run
            { w' with
              opusEncoder := f.next
              posInSamples := advance w.posInSamples (UInt32.ofNat N) } := by
  unfold Recorder.pass
  simp only [EStateM.run, getAudio_full recording hbuffer, length_segment, if_true,
    getAudio_opusEncoder, getAudio_posInSamples, getAudio_passed]

/-- When `encodeFrame` returns, the encoder has made one call and keeps its settings. -/
theorem encodeFrame_ok {e : OpusAudioEncoder ε} {data : List UInt8} {dataLen : UInt32}
    {f : EncodedFrame ε} (hf : encodeFrame opus e data dataLen = .ok f) :
    ∃ enc, e.enc = some enc ∧
      let frames := (dataLen / e.cfg.channels.toUInt32 / 2).toInt32
      f.next = { e with
        enc := some (opus.encode enc data frames e.cfg.max_buffer_size).next
        encodedDataPacket := f.encodedBytes } := by
  unfold encodeFrame at hf
  split_ifs at hf
  cases henc : e.enc with
  | none => simp [henc] at hf
  | some enc =>
    simp only [henc] at hf
    split_ifs at hf
    obtain rfl := Except.ok.inj hf
    exact ⟨enc, rfl, rfl⟩

/-- `encodeFrame` leaves the settings. -/
theorem encodeFrame_cfg {e : OpusAudioEncoder ε} {data : List UInt8} {dataLen : UInt32}
    {f : EncodedFrame ε} (hf : encodeFrame opus e data dataLen = .ok f) : f.next.cfg = e.cfg := by
  obtain ⟨enc, -, hnext⟩ := encodeFrame_ok hf
  rw [hnext]

/-- A full read that is gone through has fed a packet with the next position. -/
theorem Recorder.pass_full_inv {w w' : Recorder ε σ} (hbuffer : w.audioBuffer.length = 960)
    {fuel : ℕ} (hrun : (Recorder.pass opus z recording fuel 960).run w = .ok () w') :
    w'.opusEncoder.cfg = w.opusEncoder.cfg ∧ w'.audioBuffer = segment recording w.taken 960 ∧
      w'.taken = w.taken + 960 ∧ w'.passed = w.passed ++ [segment recording w.taken 960] ∧
      w'.posInSamples = advance w.posInSamples 960 ∧
      ∃ p, w'.ogg.fed = w.ogg.fed ++ [p] ∧ p.granulepos = (advance w.posInSamples 960).toInt := by
  have hfull := getAudio_full recording hbuffer
  have hsize : UInt32.ofNat 960 = 960 := rfl
  rw [Recorder.pass_full opus z recording hbuffer, hsize] at hrun
  cases hf : encodeFrame opus w.opusEncoder (segment recording w.taken 960) 960 with
  | error x =>
    rw [hf] at hrun
    exact absurd hrun (by simp)
  | ok f =>
    rw [hf] at hrun
    obtain ⟨g, hpage, rfl⟩ := Recorder.onOgg_ok hrun
    have hwrote := feedAndDrain_ok z hpage
    exact ⟨encodeFrame_cfg hf, hfull, getAudio_taken recording w 960, rfl, rfl, _, hwrote.fed,
      audioPacket_granulepos _ _ _ _⟩

/-- A pass that is gone through adds its read to what is known of the state. -/
theorem recorderAt_pass {sizes : List ℕ} {w w' : Recorder ε σ}
    (h : RecorderAt recording sizes w) {n : ℕ} (hn : n ≤ 960) {fuel : ℕ}
    (hrun : (Recorder.pass opus z recording fuel n).run w = .ok () w') :
    RecorderAt recording (sizes ++ [n]) w' := by
  have hkept : kept 960 recording 0 (sizes ++ [n]) = kept 960 recording 0 sizes ++
      if n = 960 then [segment recording w.taken 960] else [] := by
    rw [kept_append, Nat.zero_add, kept_singleton, h.taken]
  have hcount : (sizes ++ [n]).count 960 = sizes.count 960 + if n = 960 then 1 else 0 := by
    simp [List.count_append, List.count_singleton]
  have hsum : w.taken + n = (sizes ++ [n]).sum := by
    rw [h.taken, List.sum_append, List.sum_singleton]
  rcases hn.lt_or_eq with hlt | rfl
  · -- A short read is gone, and nothing else happens.
    rw [Recorder.pass_short (by decide) h.buffer hlt] at hrun
    obtain rfl := (EStateM.Result.ok.inj hrun).2
    rw [if_neg hlt.ne] at hkept hcount
    refine ⟨h.cfg, length_getAudio h.buffer hn, hsum, ?_, ?_, ?_⟩
    · rw [hkept, List.append_nil]
      exact h.passed
    · rw [hcount]
      exact h.posInSamples
    · rw [hcount]
      exact h.fed
  · -- A full read is kept, and its packet has the next position.
    obtain ⟨hcfg, hbuffer, htaken, hpassed, hpos, p, hfed, hgranule⟩ :=
      Recorder.pass_full_inv h.buffer hrun
    rw [if_pos rfl] at hkept hcount
    have hadvance : advance w.posInSamples 960 = posAt (sizes.count 960 + 1) := by
      rw [h.posInSamples, advance_posAt]
    refine ⟨hcfg.trans h.cfg, ?_, htaken.trans hsum, ?_, ?_, ?_⟩
    · rw [hbuffer, length_segment]
    · rw [hkept, hpassed, h.passed]
    · rw [hcount, hpos, hadvance]
    · obtain ⟨as, has, hgranules⟩ := h.fed
      refine ⟨as ++ [p], by rw [hfed, has]; rfl, ?_⟩
      rw [hcount, List.range_succ, List.map_append, List.map_append, hgranules, List.map_singleton,
        List.map_singleton, hgranule, hadvance]

/-- Passes that are gone through add their reads. -/
theorem recorderAt_passes {fuel : ℕ} : ∀ (ns sizes : List ℕ) {w w' : Recorder ε σ},
    RecorderAt recording sizes w → (∀ n ∈ ns, n ≤ 960) →
    (Recorder.passes opus z recording fuel ns).run w = .ok () w' →
    RecorderAt recording (sizes ++ ns) w'
  | [], sizes, w, w', h, _, hrun => by
    obtain rfl := (EStateM.Result.ok.inj hrun).2
    rw [List.append_nil]
    exact h
  | n :: ns, sizes, w, w', h, hns, hrun => by
    obtain ⟨_, w₁, hpass, hrest⟩ := bind_ok hrun
    have h₁ := recorderAt_pass h (hns n List.mem_cons_self) hpass
    have hall := recorderAt_passes ns _ h₁ (fun m hm => hns m (List.mem_cons_of_mem _ hm)) hrest
    rw [List.append_assoc] at hall
    exact hall

/-- The buffer gets the size that the encoder expects. -/
theorem length_resizeBuffer (w : Recorder ε σ) :
    w.resizeBuffer.audioBuffer.length = (getExpectedPackageSize w.opusEncoder).toNat := by
  unfold Recorder.resizeBuffer
  simp only [List.length_take, List.length_append, List.length_replicate]
  omega

/-- That of the program has 960 bytes. -/
theorem length_resizeBuffer_recorder {w : Recorder ε σ}
    (h : w.opusEncoder.cfg = recorderSettings) : w.resizeBuffer.audioBuffer.length = 960 := by
  rw [length_resizeBuffer]
  unfold getExpectedPackageSize
  rw [h]
  decide

/-- What is known of the state after the reads of a run that goes through them. -/
theorem recorderAt_main {fuel : ℕ} {sizes : List ℕ} (hsizes : ∀ n ∈ sizes, n ≤ 960)
    {w : Recorder ε σ}
    (hrun : (Recorder.main opus z recording fuel sizes).run (Recorder.start opus) = .ok () w) :
    RecorderAt recording sizes w := by
  obtain ⟨_, w₁, hbegin, hrun₁⟩ := bind_ok hrun
  obtain ⟨_, w₂, hheader, hrun₂⟩ := bind_ok hrun₁
  obtain ⟨_, w₃, hresize, hpasses⟩ := bind_ok hrun₂
  obtain ⟨g₁, hg₁, rfl⟩ := Recorder.onOgg_ok hbegin
  obtain ⟨g₂, hg₂, rfl⟩ := Recorder.onOgg_ok hheader
  obtain ⟨hfed, -⟩ := fed_of_begin z hg₁ hg₂
  rw [EStateM.run_modify] at hresize
  obtain rfl := (EStateM.Result.ok.inj hresize).2
  refine recorderAt_passes sizes [] ?_ hsizes hpasses
  exact ⟨rfl, length_resizeBuffer_recorder rfl, rfl, rfl, rfl, [], hfed, rfl⟩

/-! ## The reads of a run -/

/-- A state in which no pass stops: there is an encoder, and a handle of liboggz. -/
structure Live (w : Recorder ε σ) : Prop where
  cfg : w.opusEncoder.cfg = recorderSettings
  enc : w.opusEncoder.enc.isSome
  packet : w.opusEncoder.encodedDataPacket.length = OPUS_MAX_BUFFER_SIZE.toInt.toNat
  buffer : w.audioBuffer.length = 960
  oggz : w.ogg.oggz.isSome

variable (opus) in
/-- `opus_encode` keeps to the size of the output buffer. -/
def FitsBuffer : Prop := ∀ enc pcm frame_size,
  (opus.encode enc pcm frame_size OPUS_MAX_BUFFER_SIZE).data.length ≤
    OPUS_MAX_BUFFER_SIZE.toInt.toNat

/-- In a live state `encodeFrame` returns. -/
theorem Live.encodeFrame {w : Recorder ε σ} (h : Live w) (hfits : FitsBuffer opus)
    (data : List UInt8) (dataLen : UInt32) :
    ∃ f, encodeFrame opus w.opusEncoder data dataLen = .ok f ∧ f.next.cfg = recorderSettings ∧
      f.next.enc.isSome ∧
      f.next.encodedDataPacket.length = OPUS_MAX_BUFFER_SIZE.toInt.toNat := by
  obtain ⟨enc, henc⟩ := Option.isSome_iff_exists.mp h.enc
  have hch : w.opusEncoder.cfg.channels ≠ 0 := by
    rw [h.cfg]
    decide
  have hmax : w.opusEncoder.cfg.max_buffer_size = OPUS_MAX_BUFFER_SIZE := by
    rw [h.cfg]
    rfl
  have hle := hfits enc data (dataLen / w.opusEncoder.cfg.channels.toUInt32 / 2).toInt32
  rw [← h.packet] at hle
  unfold MainCore.encodeFrame
  simp only [if_neg hch, henc, hmax, if_neg (Nat.not_lt.mpr hle)]
  refine ⟨_, rfl, h.cfg, rfl, ?_⟩
  rw [List.length_append, List.length_drop, ← h.packet]
  omega

variable (recording) in
/-- In a live state every pass is gone through, given enough iterations for its page. -/
theorem Live.pass (hdrain : ∀ o, Drains z o) (hfits : FitsBuffer opus) {w : Recorder ε σ}
    (h : Live w) {n : ℕ} (hn : n ≤ 960) :
    ∃ w', Live w' ∧ ∀ᶠ fuel in atTop,
      (Recorder.pass opus z recording fuel n).run w = .ok () w' := by
  rcases hn.lt_or_eq with hlt | rfl
  · exact ⟨w.getAudio recording n, ⟨h.cfg, h.enc, h.packet, length_getAudio h.buffer hn, h.oggz⟩,
      .of_forall fun fuel => Recorder.pass_short (by decide) h.buffer hlt fuel⟩
  · obtain ⟨f, hf, hcfg, henc, hpacket⟩ := h.encodeFrame hfits (segment recording w.taken 960) 960
    obtain ⟨g, hg, hev⟩ := feedAndDrain_eventually hdrain
      (audioPacket f.encodedBytes f.dataLenOut.toInt32.toInt (advance w.posInSamples 960)) 0 h.oggz
    refine ⟨{ w.getAudio recording 960 with
        passed := w.passed ++ [segment recording w.taken 960], opusEncoder := f.next
        posInSamples := advance w.posInSamples 960, ogg := g },
      ⟨hcfg, henc, hpacket, length_getAudio h.buffer hn, hg.handle.trans h.oggz⟩, ?_⟩
    filter_upwards [hev] with fuel hpage
    have hsize : UInt32.ofNat 960 = 960 := rfl
    rw [Recorder.pass_full opus z recording h.buffer, hsize, hf]
    simp only [Recorder.onOgg_run, writeOggFormat, oggWriteAudioDataPage, getAudio_ogg, hpage,
      onPart_of_ok]

variable (recording) in
/-- In a live state all passes are gone through. -/
theorem Live.passes (hdrain : ∀ o, Drains z o) (hfits : FitsBuffer opus) :
    ∀ {ns : List ℕ} {w : Recorder ε σ}, Live w → (∀ n ∈ ns, n ≤ 960) →
      ∃ w', ∀ᶠ fuel in atTop, (Recorder.passes opus z recording fuel ns).run w = .ok () w'
  | [], w, _, _ => ⟨w, .of_forall fun _ => rfl⟩
  | n :: ns, w, h, hns => by
    obtain ⟨w₁, h₁, hpass⟩ := h.pass recording hdrain hfits (hns n List.mem_cons_self)
    obtain ⟨w', hrest⟩ := Live.passes hdrain hfits h₁ fun m hm => hns m (List.mem_cons_of_mem _ hm)
    refine ⟨w', ?_⟩
    filter_upwards [hpass, hrest] with fuel hrun hrun'
    rw [Recorder.passes, EStateM.run_bind, hrun]
    exact hrun'

variable (recording) in
/-- The program goes through all reads, given enough iterations. -/
theorem main_eventually (hdrain : ∀ o, Drains z o) {o : σ} (hnew : z.new = some o)
    (hfits : FitsBuffer opus) {enc : ε}
    (hcreate : createEncoder opus recorderSettings.toOpusEncoderSettings = some enc)
    {sizes : List ℕ} (hsizes : ∀ n ∈ sizes, n ≤ 960) :
    ∃ w, ∀ᶠ fuel in atTop,
      (Recorder.main opus z recording fuel sizes).run (Recorder.start opus) = .ok () w := by
  obtain ⟨g₁, g₂, hbegin, hsome, hheader⟩ := begin_eventually hdrain hnew
    recordingCannelNumber.toUInt32.toInt32 recordingSamplingRate.toInt32
  have henc : (OpusAudioEncoder.new opus recorderSettings).enc.isSome := by
    show (createEncoder opus recorderSettings.toOpusEncoderSettings).isSome
    rw [hcreate]
    rfl
  have hpacket : (OpusAudioEncoder.new opus recorderSettings).encodedDataPacket.length =
      OPUS_MAX_BUFFER_SIZE.toInt.toNat := List.length_replicate
  let w₂ : Recorder ε σ := { opusEncoder := OpusAudioEncoder.new opus recorderSettings, ogg := g₂ }
  have hlive : Live w₂.resizeBuffer := ⟨rfl, henc, hpacket, length_resizeBuffer_recorder rfl, hsome⟩
  obtain ⟨w, hpasses⟩ := hlive.passes recording hdrain hfits hsizes
  refine ⟨w, ?_⟩
  filter_upwards [hheader, hpasses] with fuel h₁ h₂
  have hbegun : (Recorder.onOgg (oggBegin z)).run (Recorder.start opus) =
      .ok () { opusEncoder := OpusAudioEncoder.new opus recorderSettings, ogg := g₁ } := by
    rw [Recorder.onOgg_run, Recorder.start, hbegin, onPart_of_ok]
  rw [Recorder.main, EStateM.run_bind, hbegun]
  simp only
  rw [EStateM.run_bind, Recorder.onOgg_run, h₁, onPart_of_ok]
  exact h₂

/-- The buffers passed to `encodeFrame` are the recording, up to less than a frame of the bytes
that the FIFO has handed out. -/
structure KeepsRecording (recording : ℕ → UInt8) (w : Recorder ε σ) : Prop where
  keeps : w.passed.flatten <+: segment recording 0 w.taken
  reaches : w.taken < w.passed.flatten.length + 960

/-- The program goes through the reads, given enough iterations, and keeps the recording. -/
def RecordsAll (opus : Libopus ε) (z : Liboggz σ) (recording : ℕ → UInt8) (sizes : List ℕ) :
    Prop :=
  ∃ w, (∀ᶠ fuel in atTop,
      (Recorder.main opus z recording fuel sizes).run (Recorder.start opus) = .ok () w) ∧
    KeepsRecording recording w

/-- The buffers passed to `encodeFrame` are the reads that are kept of the recording. -/
theorem keepsRecording_iff {sizes : List ℕ} {w : Recorder ε σ} (h : RecorderAt recording sizes w) :
    KeepsRecording recording w ↔ KeepsStream 960 recording sizes := by
  constructor
  · rintro ⟨hkeeps, hreaches⟩
    rw [h.passed, h.taken] at hkeeps hreaches
    exact ⟨hkeeps, hreaches⟩
  · rintro ⟨hkeeps, hreaches⟩
    rw [← h.passed, ← h.taken] at hkeeps hreaches
    exact ⟨hkeeps, hreaches⟩

/-- For every recording and every sequence of sizes of the reads, the program goes through them,
given enough iterations, and keeps the recording if and only if every full read is in its place and
less than a frame is lost altogether. It does so for all recordings alike if and only if no bytes
are lost in front of a full read, and less than a frame altogether. liboggz hands out a handle and
its output drains, the encoder is created, and `opus_encode` keeps to its buffer. -/
theorem recordsAll_iff_inPlace (hdrain : ∀ o, Drains z o) {o : σ} (hnew : z.new = some o)
    (hfits : FitsBuffer opus) {enc : ε}
    (hcreate : createEncoder opus recorderSettings.toOpusEncoderSettings = some enc)
    {sizes : List ℕ} (hsizes : ∀ n ∈ sizes, n ≤ 960) :
    (∀ recording : ℕ → UInt8, RecordsAll opus z recording sizes ↔ InPlace 960 recording sizes) ∧
      ((∀ recording : ℕ → UInt8, RecordsAll opus z recording sizes) ↔ Unsplit 960 sizes) := by
  have hbytes : Nontrivial UInt8 := ⟨0, 1, by decide⟩
  have hiff : ∀ recording : ℕ → UInt8,
      RecordsAll opus z recording sizes ↔ InPlace 960 recording sizes := by
    intro recording
    rw [← keepsStream_iff_inPlace]
    constructor
    · rintro ⟨w, hev, hkeeps⟩
      obtain ⟨fuel, hrun⟩ := hev.exists
      exact (keepsRecording_iff (recorderAt_main hsizes hrun)).mp hkeeps
    · intro h
      obtain ⟨w, hev⟩ := main_eventually recording hdrain hnew hfits hcreate hsizes
      obtain ⟨fuel, hrun⟩ := hev.exists
      exact ⟨w, hev, (keepsRecording_iff (recorderAt_main hsizes hrun)).mpr h⟩
  refine ⟨hiff, ?_⟩
  rw [← inPlace_iff_unsplit (α := UInt8) 960 (by decide) sizes]
  exact forall_congr' hiff

end Program

/-- `silentOpus` keeps to the buffer. -/
theorem fitsBuffer_silentOpus : FitsBuffer silentOpus := by
  intro enc pcm frame_size
  have hmax : OPUS_MAX_BUFFER_SIZE.toInt.toNat = 5760 := by decide
  rw [hmax]
  simp only [silentOpus]
  split_ifs <;> simp

/-- The condition for two full reads with an empty one between them, and a short one at the end. -/
theorem recordsAll_iff_inPlace_full :
    (∀ recording, RecordsAll silentOpus bareOggz recording [960, 0, 960, 500] ↔
        InPlace 960 recording [960, 0, 960, 500]) ∧
      ((∀ recording, RecordsAll silentOpus bareOggz recording [960, 0, 960, 500]) ↔
        Unsplit 960 [960, 0, 960, 500]) :=
  recordsAll_iff_inPlace drains_bareOggz rfl fitsBuffer_silentOpus
    (by decide : createEncoder silentOpus recorderSettings.toOpusEncoderSettings = some 48000)
    (by simp)

/-- A read of one byte in front of a full one: the byte is missing from the frame. -/
theorem exists_not_keepsRecording :
    ∃ (recording : ℕ → UInt8) (w : Recorder Int32 (List UInt8)), (∀ᶠ fuel in atTop,
        (Recorder.main silentOpus bareOggz recording fuel [1, 960]).run
          (Recorder.start silentOpus) = .ok () w) ∧ ¬ KeepsRecording recording w := by
  let recording : ℕ → UInt8 := fun i => if i = 0 then 1 else 0
  have hsizes : ∀ n ∈ [1, 960], n ≤ 960 := by simp
  have hcreate : createEncoder silentOpus recorderSettings.toOpusEncoderSettings = some 48000 := by
    decide
  obtain ⟨w, hev⟩ := main_eventually recording drains_bareOggz rfl fitsBuffer_silentOpus hcreate
    hsizes
  refine ⟨recording, w, hev, fun h => ?_⟩
  obtain ⟨fuel, hrun⟩ := hev.exists
  have hat := recorderAt_main hsizes hrun
  -- The frame begins with the second byte of the recording.
  have hplace := ((keepsStream_iff_inPlace 960 recording [1, 960]).mp
    ((keepsRecording_iff hat).mp h)).inFront [1] [] rfl
  have hfirst := congrArg (fun l => l[0]?) hplace
  simp only [getElem?_segment _ _ (by decide : 0 < 960)] at hfirst
  exact absurd hfirst (by decide)

end SpresenseOpus.MainCore
