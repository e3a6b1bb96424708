import SpresenseOpus.Host.OggFile
import SpresenseOpus.Library.Lockstep
import SpresenseOpus.Worker.Peer
import SpresenseOpus.Worker.Sessions

/-!
# The host program and the worker feed the same packets

The Ogg program of the host and the DSP worker have each a copy of the encoder class and of the Ogg
module. One reads its frames from a file, keeps the packet in a buffer and adds a `size_t` of 64
bits to an `int`; the other takes its frames from messages, encodes into the output buffer of the
peer and counts in a `uint32_t`. Both are fixed to one frame duration, and not to the same one.

With the same settings for mono they are in lockstep: after the same frames their Ogg modules are in
the same state but for the bytes that the callback has put into the file or the vector (`InStep`,
`inStep_frame`). So they feed the same packets, and one comes to its end if and only if the other
does (`fed_eq_of_frames`).
-/

namespace SpresenseOpus.Worker

open Machine
open Host (toSize)

/-! ## The same settings -/

/-- What is configured alike for both programs. -/
structure MonoConfig where
  sample_rate : UInt32
  complexity : UInt32
  frame_sizes_ms : Int32
  /-- `max_buffer_size` of the host program, and the capacity of the worker's output buffers. -/
  max_buffer_size : Int32

/-- The settings, as far as both copies have them. -/
def MonoConfig.settings (c : MonoConfig) : OpusEncoderSettings :=
  { channels := 1
    sample_rate := c.sample_rate.toInt32
    complexity := c.complexity.toInt32
    frame_sizes_ms := c.frame_sizes_ms }

/-- The settings of the host program. -/
def MonoConfig.hostSettings (c : MonoConfig) : Host.OpusEncoderSettings :=
  { toOpusEncoderSettings := c.settings, max_buffer_size := c.max_buffer_size }

/-- The frame size in samples. -/
def MonoConfig.samples (c : MonoConfig) : Int32 :=
  c.settings.getFrameSizeSamples c.sample_rate.toInt32

/-- The number of samples in a frame. -/
def MonoConfig.count (c : MonoConfig) : ℕ := c.samples.toInt.toNat

/-- The frame sizes that `getFrameSizeSamples` returns for a sampling rate. -/
def frameSizes (rate : Int32) : List Int32 :=
  [rate / 400, rate / 200, rate / 100, rate / 50, rate / 25, 3 * rate / 50, 4 * rate / 50,
    5 * rate / 50, 6 * rate / 50]

/-- Any value of `frame_sizes_ms` leads to one of these frame sizes. -/
theorem getFrameSizeSamples_mem (cfg : OpusEncoderSettings) (rate : Int32) :
    cfg.getFrameSizeSamples rate ∈ frameSizes rate := by
  unfold OpusEncoderSettings.getFrameSizeSamples frameSizes
  split_ifs <;> simp only [List.mem_cons, true_or, or_true]

/-- When the encoder is created, a frame has at least one sample, and not many. -/
theorem MonoConfig.count_bounds {ε : Type} {opus : Libopus ε} {c : MonoConfig} {enc : ε}
    (hcreate : createEncoder opus c.settings = some enc) :
    0 < c.count ∧ c.count < 2^30 ∧ c.samples = Int32.ofNat c.count := by
  obtain ⟨e, he, -⟩ := Option.map_eq_some_iff.mp hcreate
  have hrate : c.sample_rate.toInt32 ∈ ([8000, 12000, 16000, 24000, 48000] : List Int32) :=
    (opus.create_args _ _ _ _ he).1
  -- The rates and the frame sizes of each are few.
  have hall : ([8000, 12000, 16000, 24000, 48000] : List Int32).all fun rate =>
      (frameSizes rate).all fun x => decide (0 < x.toInt.toNat ∧ x.toInt.toNat ≤ 5760 ∧
        x = Int32.ofNat x.toInt.toNat) := by
    decide +kernel
  have hsizes := List.all_eq_true.mp hall _ hrate
  have hsize := List.all_eq_true.mp hsizes _ (getFrameSizeSamples_mem c.settings _)
  obtain ⟨hpos, hle, hsamples⟩ := of_decide_eq_true hsize
  exact ⟨hpos, hle.trans_lt (by decide), hsamples⟩

section Arithmetic

variable {n : ℕ}

/-- The host program expects two bytes for each sample. -/
theorem toNat_hostBytes (hn : n < 2^30) : (toSize (Int32.ofNat n) * 2).toNat = 2 * n := by
  have hint : (Int32.ofNat n).toInt = n := Int32.toInt_ofNat_of_lt (by omega)
  have hsize : (toSize (Int32.ofNat n)).toNat = n := by
    rw [Host.toNat_toSize (by omega), hint, Int.toNat_natCast]
  rw [UInt64.toNat_mul, hsize]
  simp only [UInt64.toNat_ofNat]
  omega

/-- The host program encodes a sample for two bytes. -/
theorem hostFrames_eq (hn : n < 2^30) :
    (UInt64.ofNat (2 * n) / toSize 1 / 2).toInt64.toInt32 = Int32.ofNat n := by
  have hone : (toSize 1).toNat = 1 := by decide
  have hdiv : UInt64.ofNat (2 * n) / toSize 1 / 2 = UInt64.ofNat n := by
    apply UInt64.toNat.inj
    have htwo : (2 : UInt64).toNat = 2 := by decide
    rw [UInt64.toNat_div, UInt64.toNat_div, UInt64.toNat_ofNat', UInt64.toNat_ofNat', hone, htwo]
    omega
  rw [hdiv]
  simp

/-- The host program advances by a sample for two bytes. -/
theorem hostAdvance_eq (hn : n < 2^30) (granulepos : Int32) :
    Host.advance granulepos (UInt64.ofNat (2 * n)) = granulepos + Int32.ofNat n := by
  have hone : Host.recordingChannelNumber.toUInt64.toNat = 1 := by decide
  have hdiv : UInt64.ofNat (2 * n) / 2 / Host.recordingChannelNumber.toUInt64 = UInt64.ofNat n := by
    apply UInt64.toNat.inj
    have htwo : (2 : UInt64).toNat = 2 := by decide
    rw [UInt64.toNat_div, UInt64.toNat_div, UInt64.toNat_ofNat', UInt64.toNat_ofNat', hone, htwo]
    omega
  unfold Host.advance toSize
  rw [hdiv]
  simp

/-- The worker expects two bytes for each sample. -/
theorem bytes_eq (n : ℕ) :
    (Int32.ofNat n).toUInt32 * 2 * (1 : Int32).toUInt32 = UInt32.ofNat (2 * n) := by
  have hone : (1 : Int32).toUInt32 = 1 := by decide
  rw [hone, UInt32.mul_one, Nat.mul_comm, UInt32.ofNat_mul]
  simp

/-- The worker encodes and advances by a sample for two bytes. -/
theorem frames_eq (hn : n < 2^30) :
    UInt32.ofNat (2 * n) / (1 : Int32).toUInt32 / 2 = UInt32.ofNat n ∧
      UInt32.ofNat (2 * n) / 2 / (1 : Int32).toUInt32 = UInt32.ofNat n := by
  have hone : (1 : Int32).toUInt32.toNat = 1 := by decide
  have htwo : (2 : UInt32).toNat = 2 := by decide
  constructor
  · apply UInt32.toNat.inj
    rw [UInt32.toNat_div, UInt32.toNat_div, UInt32.toNat_ofNat', UInt32.toNat_ofNat', hone, htwo]
    omega
  · apply UInt32.toNat.inj
    rw [UInt32.toNat_div, UInt32.toNat_div, UInt32.toNat_ofNat', UInt32.toNat_ofNat', hone, htwo]
    omega

end Arithmetic

/-! ## The two programs with these settings -/

section Programs

variable {ε σ : Type}

/-- `main` of the host program with another sampling rate; the settings are those of the encoder
that it starts with. -/
def hostMain (opus : Libopus ε) (z : Liboggz σ) (recoding_sampling_rate : UInt32) (fuel : ℕ)
    (testAudioIn : List UInt8) : EStateM Halt (Host.OggFile ε σ) Unit := do
  Host.OggFile.onOgg (oggBegin z)
  Host.OggFile.onOgg (oggWriteHeaderPage z fuel Host.recordingChannelNumber.toUInt32.toInt32
    recoding_sampling_rate.toInt32)
  Host.OggFile.handleAudio opus z fuel testAudioIn
  Host.OggFile.onOgg (oggWriteFooterPage z fuel)

/-- The state in which the host program starts. -/
def MonoConfig.hostStart (c : MonoConfig) (opus : Libopus ε) : Host.OggFile ε σ :=
  { opusEncoder := Host.OpusAudioEncoder.new opus c.hostSettings }

/-- The program as it is has the sampling rate of 48 kHz. -/
theorem hostMain_eq (opus : Libopus ε) (z : Liboggz σ) :
    hostMain opus z Host.recordingSamplingRate = Host.OggFile.main opus z := rfl

variable (b : Build ε σ)

/-- What the Init branch does for the settings that it has made, when the worker is not
initialized. -/
def openWith (cfg : OpusEncoderSettings) : WorkerM ε σ Unit := do
  modify fun w => { w with opusEncoder := some (OpusAudioEncoder.new b.opus cfg) }
  if b.useOgg then
    onOgg (oggBegin b.oggz)
    onOgg (oggWriteHeaderPage b.oggz b.fuel cfg.channels cfg.sample_rate)
  modify fun w => { w with initialized := true }

/-- The settings that an Init branch with another frame size makes of a command. -/
def ApuInitEncCmd.settingsFor (initCmd : ApuInitEncCmd) (frame_sizes_ms : Int32) :
    OpusEncoderSettings :=
  { initCmd.settings with frame_sizes_ms }

/-- One turn of the execution loop of a worker whose Init branch sets another frame size. -/
def handleFor (frame_sizes_ms : Int32) (m : Message) : WorkerM ε σ Reply := do
  let w ← get
  if m.kind = .init ∧ w.initialized = false then
    openWith b (m.com_param.init_enc_cmd.settingsFor frame_sizes_ms)
    return m.reply { com_param := m.answer .ApuExecOK }
  else handle b m

/-- With Ogg, opening the worker writes the header pages of a new stream. -/
theorem openWith_run (ho : b.useOgg = true) (cfg : OpusEncoderSettings) (w : Globals ε σ) :
    (openWith b cfg).run w =
      match (oggWriteHeaderPage b.oggz b.fuel cfg.channels cfg.sample_rate).run (b.begun w.ogg) with
      | .ok _ g => .ok () { w with
          opusEncoder := some (OpusAudioEncoder.new b.opus cfg), ogg := g, initialized := true }
      | .error e g => .error e { w with
          opusEncoder := some (OpusAudioEncoder.new b.opus cfg), ogg := g } := by
  simp only [openWith, EStateM.run_bind, EStateM.run_modify, ho, if_true, onOgg_run, oggBegin_run]
  cases (oggWriteHeaderPage b.oggz b.fuel cfg.channels cfg.sample_rate).run (b.begun w.ogg) <;> rfl

/-- The first Init opens the worker. -/
theorem handleFor_run_init {frame_sizes_ms : Int32} {m : Message} (hk : m.kind = .init)
    {w : Globals ε σ} (hi : w.initialized = false) :
    (handleFor b frame_sizes_ms m).run w =
      match (openWith b (m.com_param.init_enc_cmd.settingsFor frame_sizes_ms)).run w with
      | .ok _ w' => .ok (m.reply { com_param := m.answer .ApuExecOK }) w'
      | .error e w' => .error e w' := by
  simp only [handleFor, EStateM.run_bind, EStateM.run_get, if_pos (And.intro hk hi)]
  cases (openWith b (m.com_param.init_enc_cmd.settingsFor frame_sizes_ms)).run w <;> rfl

/-- Any other message is handled as ever. -/
theorem handleFor_run_of_not {frame_sizes_ms : Int32} {m : Message} {w : Globals ε σ}
    (h : ¬ (m.kind = .init ∧ w.initialized = false)) :
    (handleFor b frame_sizes_ms m).run w = (handle b m).run w := by
  simp only [handleFor, EStateM.run_bind, EStateM.run_get, if_neg h]

/-- The worker as it is has frames of 20 ms. -/
theorem handleFor_eq (m : Message) : handleFor b OPUS_FRAMESIZE_20_MS m = handle b m := by
  funext w
  show (handleFor b OPUS_FRAMESIZE_20_MS m).run w = (handle b m).run w
  by_cases hinit : m.kind = .init ∧ w.initialized = false
  · obtain ⟨hk, hi⟩ := hinit
    have hcfg : m.com_param.init_enc_cmd.settingsFor OPUS_FRAMESIZE_20_MS =
        m.com_param.init_enc_cmd.settings := rfl
    rw [handleFor_run_init b hk hi, hcfg]
    cases ho : b.useOgg with
    | false =>
      rw [(Turn.initPlain hk hi ho).run_eq]
      simp only [openWith, EStateM.run_bind, EStateM.run_modify, ho, Bool.false_eq_true, if_false]
      rfl
    | true =>
      rw [openWith_run b ho]
      cases hh : b.headers m w.ogg with
      | ok u g =>
        rw [(Turn.initOgg hk hi ho hh).run_eq]
        unfold Build.headers at hh
        rw [hh]
        rfl
      | error e g =>
        rw [(Turn.initHung hk hi ho hh).run_eq]
        unfold Build.headers at hh
        rw [hh]
        rfl
  · exact handleFor_run_of_not b hinit

end Programs

/-! ## The Ogg module does not look at its sink -/

section Sink

variable {σ : Type}

/-- Two states of the Ogg module agree but for what is in the sink. -/
def SameButSink (g g' : Ogg σ) : Prop := ∃ sink, g' = { g with sink }

/-- Putting something else into the sink changes nothing here. -/
theorem SameButSink.setSink {g g' : Ogg σ} (h : SameButSink g g') (sink : List UInt8) :
    SameButSink g { g' with sink } := by
  obtain ⟨_, rfl⟩ := h
  exact ⟨sink, rfl⟩

variable (z : Liboggz σ)

/-- `oggz_write` returns the same from both states. -/
theorem oggzWrite_lockstep {g g' : Ogg σ} (h : SameButSink g g') :
    Lockstep (fun m n g g' => m = n ∧ SameButSink g g') SameButSink ((oggzWrite z).run g)
      ((oggzWrite z).run g') := by
  obtain ⟨sink, rfl⟩ := h
  cases ho : g.oggz with
  | none =>
    rw [oggzWrite_none z ho, oggzWrite_none z rfl]
    exact .ok ⟨rfl, sink, by rw [ho]⟩
  | some o =>
    rw [oggzWrite_run_some z ho, oggzWrite_run_some z rfl]
    exact .ok ⟨rfl, _, rfl⟩

/-- The drain loop comes to the same end from both states. -/
theorem drain_lockstep : ∀ (fuel : ℕ) {g g' : Ogg σ}, SameButSink g g' →
    Lockstep (fun _ _ => SameButSink) SameButSink ((drain z fuel).run g) ((drain z fuel).run g')
  | 0, _, _, h => .error h
  | fuel + 1, g, g', h => by
    rw [drain]
    refine (oggzWrite_lockstep z h).bind ?_
    rintro m n s t ⟨rfl, hst⟩
    by_cases hm : m = 0
    · rw [if_pos hm]
      exact .ok hst
    · rw [if_neg hm]
      exact drain_lockstep fuel hst

/-- A page writer comes to the same end from both states. -/
theorem feedAndDrain_lockstep (fuel : ℕ) (op : ℤ → OggPacket) (flush : ℤ) {g g' : Ogg σ}
    (h : SameButSink g g') :
    Lockstep (fun _ _ => SameButSink) SameButSink ((feedAndDrain z fuel op flush).run g)
      ((feedAndDrain z fuel op flush).run g') := by
  obtain ⟨sink, rfl⟩ := h
  have hno : Lockstep (fun m n g g' => m = n ∧ SameButSink g g') SameButSink
      ((nextPacketno (σ := σ)).run g) ((nextPacketno (σ := σ)).run { g with sink }) :=
    .ok ⟨rfl, sink, rfl⟩
  unfold feedAndDrain
  refine hno.bind ?_
  rintro packetno _ s t ⟨rfl, sink', rfl⟩
  have hfeed : Lockstep (fun _ _ => SameButSink) SameButSink
      ((oggzWriteFeed z (op packetno) flush).run s)
      ((oggzWriteFeed z (op packetno) flush).run { s with sink := sink' }) := by
    unfold oggzWriteFeed
    rw [EStateM.run_modifyGet, EStateM.run_modifyGet]
    cases ho : s.oggz with
    | none => exact .ok ⟨sink', rfl⟩
    | some o => exact .ok ⟨sink', rfl⟩
  exact hfeed.bind fun _ _ _ _ hst => drain_lockstep z fuel hst

end Sink

/-! ## A frame in both programs -/

section Frames

variable {ε σ : Type}

/-- Every call of `opus_encode` on a list of frames succeeds, from an encoder on: it returns a
length within the buffer. -/
def AllSucceed (opus : Libopus ε) (frame_size max_data_bytes : Int32) : ε → List (List UInt8) → Prop
  | _, [] => True
  | enc, f :: fs =>
    let r := opus.encode enc f frame_size max_data_bytes
    (0 ≤ r.len.toInt ∧ r.len.toInt ≤ max_data_bytes.toInt) ∧
      AllSucceed opus frame_size max_data_bytes r.next fs

/-- An Exec hands over a frame, with an output buffer of the same size as the host's. -/
structure Carries (c : MonoConfig) (f : List UInt8) (m : Message) : Prop where
  kind : m.kind = .exec
  pcm : readBytes m.mem m.execCmd.input_buffer.p_buffer m.execCmd.input_buffer.size = f
  capacity : m.execCmd.output_buffer.size = c.max_buffer_size.toUInt32

/-- The states of the two programs between two frames, with the frames that are still to come. -/
structure InStep (c : MonoConfig) (opus : Libopus ε) (fs : List (List UInt8))
    (h : Host.OggFile ε σ) (w : Globals ε σ) : Prop where
  ogg : SameButSink h.ogg w.ogg
  encoder : ∃ enc, h.opusEncoder.enc = some enc ∧ w.opusEncoder = some ⟨some enc, c.settings⟩ ∧
    AllSucceed opus c.samples c.max_buffer_size enc fs
  cfg : h.opusEncoder.cfg = c.hostSettings
  buffer : h.opusEncoder.encodedDataPacket.length = c.max_buffer_size.toInt.toNat
  position : w.posInSamples.toInt32 = h.granulepos

variable (b : Build ε σ)

/-- The host program encodes a frame and writes its page. -/
theorem encodeBuffer_run {c : MonoConfig} {f : List UInt8} {h : Host.OggFile ε σ} {enc : ε}
    (hcount : c.count < 2^30) (hsamples : c.samples = Int32.ofNat c.count)
    (hf : f.length = 2 * c.count) (hcfg : h.opusEncoder.cfg = c.hostSettings)
    (hbuffer : h.opusEncoder.encodedDataPacket.length = c.max_buffer_size.toInt.toNat)
    (henc : h.opusEncoder.enc = some enc) {r : Encoded ε}
    (hr : b.opus.encode enc f c.samples c.max_buffer_size = r) (hlen : 0 ≤ r.len.toInt)
    (hmax : r.len.toInt ≤ c.max_buffer_size.toInt) :
    ∃ e, e.enc = some r.next ∧ e.cfg = c.hostSettings ∧
      e.encodedDataPacket.length = c.max_buffer_size.toInt.toNat ∧
      (Host.OggFile.encodeBuffer b.opus b.oggz b.fuel f).run h =
        (Host.OggFile.onOgg (oggWriteAudioDataPage b.oggz b.fuel r.data r.len.toInt
          (h.granulepos + c.samples))).run
            { h with opusEncoder := e, granulepos := h.granulepos + c.samples } := by
  have hone : h.opusEncoder.cfg.channels = 1 := by
    rw [hcfg]
    rfl
  have hch : h.opusEncoder.cfg.channels ≠ 0 := by
    rw [hone]
    decide
  have hsize : h.opusEncoder.cfg.max_buffer_size = c.max_buffer_size := by
    rw [hcfg]
    rfl
  have hframes : (UInt64.ofNat f.length / toSize h.opusEncoder.cfg.channels / 2).toInt64.toInt32 =
      c.samples := by
    rw [hone, hf, hostFrames_eq hcount, hsamples]
  obtain ⟨out, hout, hbytes, hdata, hlength, hnext⟩ :=
    Host.OpusAudioEncoder.encodeFrame_of_succeeds hch henc (by rw [hsize]; exact hbuffer) hframes
      (by rw [hsize]; exact hr) hlen (by rw [hsize]; exact hmax)
  have hadvance : Host.advance h.granulepos (UInt64.ofNat f.length) = h.granulepos + c.samples := by
    rw [hf, hostAdvance_eq hcount, hsamples]
  -- The length goes through a `size_t` and a `long` of 64 bits, and comes out as it was.
  have hlong : out.dataLenOut.toInt64.toInt = r.len.toInt := by
    rw [hbytes]
    unfold toSize
    simp
  have hnat : r.len.toInt.toNat = r.data.length := by
    have hdatalen := r.length_eq hlen
    omega
  refine ⟨out.next, by rw [hnext], by rw [hnext]; exact hcfg, ?_, ?_⟩
  · rw [hnext, ← hsize]
    exact hlength
  · unfold Host.OggFile.encodeBuffer
    simp only [EStateM.run, hout, hadvance, Host.writeOggFormat, hlong, oggWriteAudioDataPage,
      audioPacket_of_take hnat hdata]

/-- An Exec that carries a frame has its size and asks for the same call of `opus_encode`. -/
theorem Carries.call {c : MonoConfig} {f : List UInt8} {m : Message} (hm : Carries c f m)
    (hcount : c.count < 2^30) (hsamples : c.samples = Int32.ofNat c.count)
    (hf : f.length = 2 * c.count) (enc : ε) :
    m.execCmd.input_buffer.size = UInt32.ofNat (2 * c.count) ∧
      m.call ⟨some enc, c.settings⟩ enc = ⟨enc, f, c.samples, c.max_buffer_size⟩ := by
  have hsize : m.execCmd.input_buffer.size = UInt32.ofNat (2 * c.count) := by
    have hlen := congrArg List.length hm.pcm
    unfold readBytes at hlen
    rw [List.length_map, List.length_range] at hlen
    rw [← hf, ← hlen, UInt32.ofNat_toNat]
  have hframes : (OpusAudioEncoder.mk (some enc) c.settings).frames m.execCmd.input_buffer.size =
      c.samples := by
    have hchannels : c.settings.channels = 1 := rfl
    unfold OpusAudioEncoder.frames
    rw [hsize, hchannels, (frames_eq hcount).1, hsamples]
    simp
  refine ⟨hsize, ?_⟩
  unfold Message.call
  rw [hm.pcm, hframes, hm.capacity, Int32.toInt32_toUInt32]

/-- The worker expects the two bytes of each sample of a frame. -/
theorem expectedSize_settings {c : MonoConfig} (hsamples : c.samples = Int32.ofNat c.count)
    (enc : ε) : (OpusAudioEncoder.mk (some enc) c.settings).getExpectedPackageSize =
      UInt32.ofNat (2 * c.count) := by
  have hsetting : c.settings.getFrameSizeSamples c.settings.sample_rate = Int32.ofNat c.count :=
    hsamples
  have hchannels : c.settings.channels = 1 := rfl
  unfold OpusAudioEncoder.getExpectedPackageSize
  rw [hsetting, hchannels, bytes_eq]

/-- The worker counts the samples of a frame, as the host program does. -/
theorem posAfter_frame {c : MonoConfig} (hcount : c.count < 2^30)
    (hsamples : c.samples = Int32.ofNat c.count) {m : Message} {w : Globals ε σ}
    {granulepos : Int32} (hpos : w.posInSamples.toInt32 = granulepos)
    (hsize : m.execCmd.input_buffer.size = UInt32.ofNat (2 * c.count)) (enc : ε) :
    (w.posAfter m ⟨some enc, c.settings⟩).toInt32 = granulepos + c.samples := by
  have hchannels : c.settings.channels = 1 := rfl
  unfold Globals.posAfter
  rw [hsize, hchannels, (frames_eq hcount).2, UInt32.toInt32_add, hpos, hsamples]
  simp

/-- The two programs are in lockstep on a frame: they make the same call of `opus_encode`, count the
same samples, and write the same page. -/
theorem inStep_frame (ho : b.useOgg = true) {c : MonoConfig} (hcount : c.count < 2^30)
    (hsamples : c.samples = Int32.ofNat c.count) {f : List UInt8} {fs : List (List UInt8)}
    {m : Message} {h : Host.OggFile ε σ} {w : Globals ε σ} (hf : f.length = 2 * c.count)
    (hm : Carries c f m) (hstep : InStep c b.opus (f :: fs) h w) :
    Lockstep (fun _ _ => InStep c b.opus fs) (fun h w => SameButSink h.ogg w.ogg)
      ((Host.OggFile.encodeBuffer b.opus b.oggz b.fuel f).run h)
      ((handleFor b c.frame_sizes_ms m).run w) := by
  obtain ⟨enc, henc, hw, ⟨hlen, hmax⟩, hrest⟩ := hstep.encoder
  set r := b.opus.encode enc f c.samples c.max_buffer_size with hr
  -- The host program takes the frame from its file.
  obtain ⟨e, he, hcfg, hbuffer, hhost⟩ := encodeBuffer_run b hcount hsamples hf hstep.cfg
    hstep.buffer henc hr.symm hlen hmax
  -- The worker takes it from a message, whose size is the one that its encoder expects.
  obtain ⟨hsize, hcall⟩ := hm.call hcount hsamples hf enc
  have hexpected := hsize.trans (expectedSize_settings hsamples enc).symm
  have hch : (OpusAudioEncoder.mk (some enc) c.settings).cfg.channels ≠ 0 := by
    show (1 : Int32) ≠ 0
    decide
  have hresult : b.result (m.call ⟨some enc, c.settings⟩ enc) = r := by
    rw [hcall]
    rfl
  have hpos := posAfter_frame hcount hsamples hstep.position hsize enc
  -- So both write the same packet, from states that agree but for the sink.
  have hpage : Lockstep (fun _ _ => SameButSink) SameButSink
      ((oggWriteAudioDataPage b.oggz b.fuel r.data r.len.toInt
        (h.granulepos + c.samples)).run h.ogg) (b.audioPage m ⟨some enc, c.settings⟩ enc w) := by
    unfold Build.audioPage
    rw [hresult, hpos]
    exact feedAndDrain_lockstep b.oggz b.fuel _ 0 hstep.ogg
  have hnot : ¬ (m.kind = .init ∧ w.initialized = false) := by
    rintro ⟨hinit, -⟩
    simp [hm.kind] at hinit
  rw [hhost, Host.OggFile.onOgg_run, handleFor_run_of_not b hnot]
  generalize hx : (oggWriteAudioDataPage b.oggz b.fuel r.data r.len.toInt
    (h.granulepos + c.samples)).run h.ogg = x at hpage ⊢
  generalize hy : b.audioPage m ⟨some enc, c.settings⟩ enc w = y at hpage
  cases hpage with
  | ok hsame =>
    rw [(Turn.execOgg hm.kind hw hexpected hch rfl ho hy).run_eq]
    refine .ok ⟨hsame.setSink [], ⟨r.next, he, ?_, hrest⟩, hcfg, hbuffer, hpos⟩
    simp only [Build.encoded, hresult]
  | error hsame =>
    rw [(Turn.execHung hm.kind hw hexpected hch rfl ho hy).run_eq]
    exact .error hsame

end Frames

/-! ## The whole programs -/

section Streams

variable {ε σ : Type} (b : Build ε σ)

/-- The two programs begin in lockstep: they have created the same encoder and write the same
headers. -/
theorem lockstep_begin (ho : b.useOgg = true) {c : MonoConfig} {enc : ε}
    (hcreate : createEncoder b.opus c.settings = some enc) {i : Message} (hk : i.kind = .init)
    (hcfg : i.com_param.init_enc_cmd.settingsFor c.frame_sizes_ms = c.settings)
    {fs : List (List UInt8)} (hok : AllSucceed b.opus c.samples c.max_buffer_size enc fs) :
    Lockstep (fun _ _ => InStep c b.opus fs) (fun h w => SameButSink h.ogg w.ogg)
      ((Host.OggFile.onOgg (oggWriteHeaderPage b.oggz b.fuel
        Host.recordingChannelNumber.toUInt32.toInt32 c.sample_rate.toInt32)).run
          { ogg := b.begun {}, opusEncoder := Host.OpusAudioEncoder.new b.opus c.hostSettings })
      ((handleFor b c.frame_sizes_ms i).run boot) := by
  have hheader : (oggWriteHeaderPage b.oggz b.fuel c.settings.channels c.settings.sample_rate).run
      (b.begun (boot : Globals ε σ).ogg) =
      (oggWriteHeaderPage b.oggz b.fuel Host.recordingChannelNumber.toUInt32.toInt32
        c.sample_rate.toInt32).run (b.begun {}) := rfl
  have henc : OpusAudioEncoder.new b.opus c.settings = ⟨some enc, c.settings⟩ := by
    unfold OpusAudioEncoder.new
    rw [hcreate]
  rw [handleFor_run_init b hk rfl, hcfg, openWith_run b ho, hheader, henc,
    Host.OggFile.onOgg_run]
  cases (oggWriteHeaderPage b.oggz b.fuel Host.recordingChannelNumber.toUInt32.toInt32
    c.sample_rate.toInt32).run (b.begun {}) with
  | ok u g =>
    refine .ok ⟨⟨g.sink, rfl⟩, ⟨enc, hcreate, rfl, hok⟩, rfl, ?_, rfl⟩
    exact List.length_replicate
  | error e g => exact .error ⟨g.sink, rfl⟩

/-- The two programs are in lockstep on the frames: the loop of the host program reads one after the
other, and the worker takes an Exec for each. -/
theorem lockstep_frames (ho : b.useOgg = true) {c : MonoConfig} {enc : ε}
    (hcreate : createEncoder b.opus c.settings = some enc) {frames : List (List UInt8)}
    (hframes : ∀ f ∈ frames, f.length = 2 * c.count) {execs : List Message}
    (hexecs : List.Forall₂ (Carries c) frames execs) (hfuel : frames.length < b.fuel)
    {h : Host.OggFile ε σ} {w : Globals ε σ} (hstart : InStep c b.opus frames h w) :
    Lockstep (fun _ _ => InStep c b.opus []) (fun h w => SameButSink h.ogg w.ogg)
      ((Host.OggFile.handleAudio b.opus b.oggz b.fuel frames.flatten).run h)
      ((takeAll (handleFor b c.frame_sizes_ms) execs).run w) := by
  obtain ⟨hpos, hcount, hsamples⟩ := MonoConfig.count_bounds hcreate
  have hsize : h.opusEncoder.getExpectedPackageSize.toNat = 2 * c.count := by
    have hbytes : h.opusEncoder.getExpectedPackageSize = toSize c.samples * 2 := by
      unfold Host.OpusAudioEncoder.getExpectedPackageSize
      rw [hstart.cfg]
      rfl
    rw [hbytes, hsamples, toNat_hostBytes hcount]
  rw [Host.OggFile.handleAudio_run, hsize]
  apply lockstep_forEachBlock (R := InStep c b.opus) (by omega) _ hexecs hframes hfuel hstart
  intro f fs m s t hf hm hst
  exact inStep_frame b ho hcount hsamples hf hm hst

/-- The two programs end in lockstep: a Flush ends the stream as the footer page does. -/
theorem lockstep_flush (ho : b.useOgg = true) (frame_sizes_ms : Int32) {m : Message}
    (hk : m.kind = .flush) {h : Host.OggFile ε σ} {w : Globals ε σ}
    (hsame : SameButSink h.ogg w.ogg) :
    Lockstep (fun _ _ h w => SameButSink h.ogg w.ogg) (fun h w => SameButSink h.ogg w.ogg)
      ((Host.OggFile.onOgg (oggWriteFooterPage b.oggz b.fuel)).run h)
      ((takeAll (handleFor b frame_sizes_ms) [m]).run w) := by
  have hpage := feedAndDrain_lockstep b.oggz b.fuel footerPacket OGGZ_FLUSH_AFTER hsame
  have hnot : ¬ (m.kind = .init ∧ w.initialized = false) := by
    rintro ⟨hinit, -⟩
    simp [hk] at hinit
  rw [takeAll, takeAll, EStateM.run_bind, handleFor_run_of_not b hnot, Host.OggFile.onOgg_run]
  unfold oggWriteFooterPage
  generalize hx : (feedAndDrain b.oggz b.fuel footerPacket OGGZ_FLUSH_AFTER).run h.ogg = x at hpage
  generalize hy : (feedAndDrain b.oggz b.fuel footerPacket OGGZ_FLUSH_AFTER).run w.ogg = y at hpage
  cases hpage with
  | ok hsame =>
    rw [(Turn.flushOgg hk ho hy).run_eq]
    exact .ok (hsame.setSink [])
  | error hsame =>
    rw [(Turn.flushHung hk ho hy).run_eq]
    exact .error hsame

/-- The two programs are in lockstep from beginning to end. -/
theorem lockstep_session (ho : b.useOgg = true) {c : MonoConfig} {enc : ε}
    (hcreate : createEncoder b.opus c.settings = some enc) (A : Session)
    (hcfg : A.init.com_param.init_enc_cmd.settingsFor c.frame_sizes_ms = c.settings)
    {frames : List (List UInt8)} (hframes : ∀ f ∈ frames, f.length = 2 * c.count)
    (hexecs : List.Forall₂ (Carries c) frames A.execs)
    (hok : AllSucceed b.opus c.samples c.max_buffer_size enc frames)
    (hfuel : frames.length < b.fuel) :
    Lockstep (fun _ _ h w => SameButSink h.ogg w.ogg) (fun h w => SameButSink h.ogg w.ogg)
      ((hostMain b.opus b.oggz c.sample_rate b.fuel frames.flatten).run (c.hostStart b.opus))
      ((takeAll (handleFor b c.frame_sizes_ms) A.messages).run boot) := by
  have hbegin : (Host.OggFile.onOgg (oggBegin b.oggz)).run (c.hostStart b.opus) =
      .ok () { ogg := b.begun {}
               opusEncoder := Host.OpusAudioEncoder.new b.opus c.hostSettings } := rfl
  unfold hostMain Session.messages Session.body
  rw [EStateM.run_bind, hbegin, takeAll]
  refine (lockstep_begin b ho hcreate A.init_kind hcfg hok).bind fun _ _ h w hstart => ?_
  rw [takeAll_append]
  refine (lockstep_frames b ho hcreate hframes hexecs hfuel hstart).bind fun _ _ h' w' hend => ?_
  exact lockstep_flush b ho c.frame_sizes_ms A.flush_kind hend.ogg

/-- The host program on a file of whole frames and the worker on a session with an Exec for each of
them, with the same settings for mono and calls of `opus_encode` that all succeed: the packets
passed to `oggz_write_feed` are the same, and one program comes to its end if and only if the other
one does. The host program is granted a read for each frame and one more. -/
theorem fed_eq_of_frames (ho : b.useOgg = true) {c : MonoConfig} {enc : ε}
    (hcreate : createEncoder b.opus c.settings = some enc) (A : Session)
    (hcfg : A.init.com_param.init_enc_cmd.settingsFor c.frame_sizes_ms = c.settings)
    {frames : List (List UInt8)} (hframes : ∀ f ∈ frames, f.length = 2 * c.count)
    (hexecs : List.Forall₂ (Carries c) frames A.execs)
    (hok : AllSucceed b.opus c.samples c.max_buffer_size enc frames)
    (hfuel : frames.length < b.fuel) :
    let host := (hostMain b.opus b.oggz c.sample_rate b.fuel frames.flatten).run
      (c.hostStart b.opus)
    let worker := run (handleFor b c.frame_sizes_ms) A.messages boot
    (stateAfter host).ogg.fed = worker.state.ogg.fed ∧
      ((∃ h, host = .ok () h) ↔ worker.halt = none) := by
  intro host worker
  have hlock := lockstep_session b ho hcreate A hcfg hframes hexecs hok hfuel
  constructor
  · have hsame : SameButSink (stateAfter host).ogg
        (stateAfter ((takeAll (handleFor b c.frame_sizes_ms) A.messages).run boot)).ogg :=
      hlock.stateAfter (P := fun h w => SameButSink h.ogg w.ogg) (fun _ _ _ _ h => h) fun _ _ h => h
    rw [stateAfter_takeAll] at hsame
    obtain ⟨_, heq⟩ := hsame
    exact (congrArg Ogg.fed heq).symm
  · rw [← takeAll_ok_iff, ← hlock.ok_iff]
    exact ⟨fun ⟨h, hh⟩ => ⟨(), h, hh⟩, fun ⟨_, h, hh⟩ => ⟨h, hh⟩⟩

end Streams

/-- The settings of the host program as it is. -/
def shippedConfig : MonoConfig := ⟨48000, 10, OPUS_FRAMESIZE_10_MS, Host.OPUS_MAX_BUFFER_SIZE⟩

/-- With these settings the host program starts as it does. -/
theorem hostStart_shippedConfig {ε σ : Type} (opus : Libopus ε) :
    (shippedConfig.hostStart opus : Host.OggFile ε σ) = Host.OggFile.start opus := rfl

/-- A silent frame of 10 ms. -/
def silentFrame : List UInt8 := List.replicate 960 0

/-- An Exec with that frame. -/
def tenMsExec : Message := execMessage ⟨960, 0x2000⟩ ⟨5760, 0x3000⟩ fun _ => 0

/-- A session with two frames of 10 ms. -/
def tenMsSession : Session where
  init := initMessage 1 48000 10
  execs := [tenMsExec, tenMsExec]
  flush := flushMessage ⟨5760, 0x3000⟩
  init_kind := kind_initMessage _ _ _
  execs_kind m hm := by
    obtain rfl : m = tenMsExec := by simpa using hm
    exact kind_execMessage _ _ _
  flush_kind := kind_flushMessage _

/-- The Exec carries the frame. -/
theorem carries_tenMsExec : Carries shippedConfig silentFrame tenMsExec := by
  have hsize : tenMsExec.execCmd.input_buffer.size.toNat = 960 := by decide
  refine ⟨kind_execMessage _ _ _, ?_, by decide⟩
  unfold readBytes silentFrame
  rw [hsize]
  show (List.range 960).map (fun _ => (0 : UInt8)) = _
  rw [List.map_const', List.length_range]

/-- The worker with Ogg and an encoder that counts its packets. -/
def countingBuild : Build (Int32 × ℕ) (List UInt8) where
  useOgg := true
  opus := countingOpus
  oggz := bareOggz
  fuel := 3

/-- The packets for these frames, which the encoders of the two programs number alike. -/
theorem fed_eq_of_frames_tenMs :
    let host := (hostMain countingBuild.opus countingBuild.oggz shippedConfig.sample_rate
      countingBuild.fuel [silentFrame, silentFrame].flatten).run
        (shippedConfig.hostStart countingBuild.opus)
    let worker := run (handleFor countingBuild shippedConfig.frame_sizes_ms) tenMsSession.messages
      boot
    (stateAfter host).ogg.fed = worker.state.ogg.fed ∧
      ((∃ h, host = .ok () h) ↔ worker.halt = none) := by
  have hlen : silentFrame.length = 2 * shippedConfig.count := by
    have hcount : 2 * shippedConfig.count = 960 := by decide
    rw [hcount, silentFrame, List.length_replicate]
  have hframes : ∀ f ∈ [silentFrame, silentFrame], f.length = 2 * shippedConfig.count := by
    intro f hf
    obtain rfl : f = silentFrame := by simpa using hf
    exact hlen
  have hcreate : createEncoder countingBuild.opus shippedConfig.settings = some (48000, 0) := by
    decide
  have hok : AllSucceed countingBuild.opus shippedConfig.samples shippedConfig.max_buffer_size
      (48000, 0) [silentFrame, silentFrame] := ⟨by decide, by decide, trivial⟩
  exact fed_eq_of_frames countingBuild rfl hcreate tenMsSession (by decide) hframes
    (.cons carries_tenMsExec (.cons carries_tenMsExec .nil)) hok (by decide)

end SpresenseOpus.Worker
