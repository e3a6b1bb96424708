import SpresenseOpus.Worker.Capacity

/-!
# The positions of the audio packets

`posInSamples` advances by the input size of each accepted Exec, divided by the sample width and
the number of channels: the worker counts the samples of its input, at the rate of that input. So
the granule position of the `k`-th audio packet is `k` frames of 20 ms at the sampling rate of the
first Init (`audio_granulepos`), which is the number of samples at 48 kHz for an input at 48 kHz and
for no other.
-/

namespace SpresenseOpus.Worker

open Machine Words

section Positions

variable {ε σ : Type} (b : Build ε σ)

/-- The number of samples in a frame of 20 ms, for the settings of an Init. -/
def Build.frameSamples (i : Message) : UInt32 :=
  b.packageSize i / 2 / i.com_param.init_enc_cmd.settings.channels.toUInt32

/-- The number of frames among messages of which `i` is the first Init. -/
def Build.frames (i : Message) (ms : List Message) : ℕ :=
  ms.countP fun m => m.IsFrame (b.packageSize i)

/-- The granule position of the frame behind `k` others, with the wrapping of the counter. -/
def Build.position (i : Message) (k : ℕ) : ℤ :=
  (UInt32.ofNat (k + 1) * b.frameSamples i).toInt32.toInt

/-- What is fed has the headers of a stream and the positions of `n` frames behind them. -/
structure FedFrames (i : Message) (n : ℕ) (ps : List OggPacket) : Prop where
  headers : 2 ≤ ps.length
  audio : (audioPackets ps).map OggPacket.granulepos = (List.range n).map (b.position i)

/-- What the messages so far say about the positions: before an Init the counter is at zero, and
after it the counter has advanced by a frame for each frame received, and so have the positions of
the audio packets. -/
structure Positions (ms : List Message) (w : Globals ε σ) : Prop where
  before : firstInit ms = none → w.posInSamples = 0
  counter : ∀ i, firstInit ms = some i →
    w.posInSamples = UInt32.ofNat (b.frames i ms) * b.frameSamples i
  fed : ∀ i, firstInit ms = some i → FedFrames b i (b.frames i ms) w.ogg.fed

variable {b}

/-- What an answered message does to the counter: a frame advances it, and nothing else does. -/
theorem Turn.posInSamples (ho : b.useOgg = true) {w w' : Globals ε σ} {m : Message} {r : Reply}
    (ht : Turn b w m (.ok r w')) :
    (∃ e, w.opusEncoder = some e ∧ m.IsFrame e.getExpectedPackageSize ∧
        w'.posInSamples = w.posAfter m e) ∨
      ((∀ e, w.opusEncoder = some e → ¬ m.IsFrame e.getExpectedPackageSize) ∧
        w'.posInSamples = w.posInSamples) := by
  cases ht with
  | value hk => exact .inr ⟨fun e _ h => by simp [h.1] at hk, rfl⟩
  | other hk => exact .inr ⟨fun e _ h => by simp [h.1] at hk, rfl⟩
  | initAgain hk => exact .inr ⟨fun e _ h => by simp [h.1] at hk, rfl⟩
  | initPlain hk => exact .inr ⟨fun e _ h => by simp [h.1] at hk, rfl⟩
  | initOgg hk => exact .inr ⟨fun e _ h => by simp [h.1] at hk, rfl⟩
  | execRejected hk he hsize =>
    refine .inr ⟨fun e he' h => hsize ?_, rfl⟩
    obtain rfl := Option.some.inj (he.symm.trans he')
    exact h.2
  | execPlain _ _ _ _ _ hplain => simp [ho] at hplain
  | execOgg hk he hsize => exact .inl ⟨_, he, ⟨hk, hsize⟩, rfl⟩
  | flushPlain _ hplain => simp [ho] at hplain
  | flushOgg hk => exact .inr ⟨fun e _ h => by simp [h.1] at hk, rfl⟩

/-- A message that is not a frame does not add one. -/
theorem frames_append_of_not {i m : Message} (h : ¬ m.IsFrame (b.packageSize i))
    (ms : List Message) : b.frames i (ms ++ [m]) = b.frames i ms := by
  unfold Build.frames
  rw [List.countP_append, List.countP_singleton, if_neg (by simpa using h), Nat.add_zero]

/-- A frame adds one. -/
theorem frames_append_of_isFrame {i m : Message} (h : m.IsFrame (b.packageSize i))
    (ms : List Message) : b.frames i (ms ++ [m]) = b.frames i ms + 1 := by
  unfold Build.frames
  rw [List.countP_append, List.countP_singleton, if_pos (by simpa using h)]

/-- The counter after one more frame. -/
theorem posAfter_eq {i m : Message} {w : Globals ε σ} {e : OpusAudioEncoder ε} {n : ℕ}
    (hpos : w.posInSamples = UInt32.ofNat n * b.frameSamples i)
    (hcfg : e.cfg = i.com_param.init_enc_cmd.settings) (hm : m.IsFrame e.getExpectedPackageSize) :
    w.posAfter m e = UInt32.ofNat (n + 1) * b.frameSamples i := by
  have hstep : m.execCmd.input_buffer.size / 2 / e.cfg.channels.toUInt32 = b.frameSamples i := by
    unfold Build.frameSamples
    rw [hm.2, getExpectedPackageSize_eq (b := b) hcfg, hcfg]
  unfold Globals.posAfter
  rw [hstep, hpos, UInt32.ofNat_add, UInt32.add_mul, UInt32.ofNat_one, UInt32.one_mul]

/-- The packet that a message feeds after `n` frames ends the stream, or has the next position. -/
theorem FedFrames.feeds {i m : Message} {w : Globals ε σ} {p : OggPacket} {n : ℕ}
    (h : FedFrames b i n w.ogg.fed) (hf : Feeds b w m p)
    (hpos : w.posInSamples = UInt32.ofNat n * b.frameSamples i)
    (hcfg : ∀ e, w.opusEncoder = some e → e.cfg = i.com_param.init_enc_cmd.settings) :
    (m.kind = .flush ∧ FedFrames b i n (w.ogg.fed ++ [p])) ∨
      (m.IsFrame (b.packageSize i) ∧ FedFrames b i (n + 1) (w.ogg.fed ++ [p])) := by
  have hlen : 2 ≤ (w.ogg.fed ++ [p]).length := by
    have hheaders := h.headers
    rw [List.length_append]
    omega
  have haudio := audioPackets_append h.headers p
  rcases hf with ⟨hk, rfl⟩ | ⟨hk, e, enc, he, -, hsize, rfl⟩
  · refine .inl ⟨hk, hlen, ?_⟩
    rw [haudio, List.map_append, h.audio]
    exact List.append_nil _
  · have hgranule : (w.posAfter m e).toInt32.toInt = b.position i n := by
      rw [posAfter_eq hpos (hcfg e he) ⟨hk, hsize⟩]
      rfl
    refine .inr ⟨⟨hk, hsize.trans (getExpectedPackageSize_eq (hcfg e he))⟩, hlen, ?_⟩
    rw [haudio, List.map_append, h.audio, List.range_succ, List.map_append, List.map_singleton,
      ← hgranule]
    rfl

/-- A quiet message is not a frame. -/
theorem Quiet.not_isFrame {i m : Message} {w : Globals ε σ} (hq : Quiet w m)
    (hcfg : ∀ e, w.opusEncoder = some e → e.cfg = i.com_param.init_enc_cmd.settings) :
    ¬ m.IsFrame (b.packageSize i) := by
  intro hm
  obtain ⟨e, he, hne⟩ := hq.exec hm.1
  exact hne (hm.2.trans (getExpectedPackageSize_eq (hcfg e he)).symm)

/-- A message that is not a frame leaves the counter. -/
theorem posInSamples_of_not_isFrame (ho : b.useOgg = true) {i m : Message} {w w' : Globals ε σ}
    {r : Reply} (hrun : (handle b m).run w = .ok r w') (hm : ¬ m.IsFrame (b.packageSize i))
    (hcfg : ∀ e, w.opusEncoder = some e → e.cfg = i.com_param.init_enc_cmd.settings) :
    w'.posInSamples = w.posInSamples := by
  rcases (Turn.of_run hrun).posInSamples ho with ⟨e, he, hframe, -⟩ | ⟨-, hpos⟩
  · exact absurd ⟨hframe.1, hframe.2.trans (getExpectedPackageSize_eq (hcfg e he))⟩ hm
  · exact hpos

/-- Before an Init the counter stays at zero: a frame would have no encoder. -/
theorem posInSamples_of_none (ho : b.useOgg = true) {ms : List Message} {w w' : Globals ε σ}
    {m : Message} {r : Reply} (hl : Linked b ms w) (h : Positions b ms w)
    (hnone : firstInit ms = none) (hrun : (handle b m).run w = .ok r w') :
    w'.posInSamples = 0 := by
  rcases (Turn.of_run hrun).posInSamples ho with ⟨e, he, -⟩ | ⟨-, hpos⟩
  · rw [hl.none hnone] at he
    exact absurd he (by simp)
  · rw [hpos, h.before hnone]

/-- A quiet message changes neither the counter nor the stream. -/
theorem positions_quiet (ho : b.useOgg = true) {ms : List Message} {w w' : Globals ε σ}
    {m : Message} {r : Reply} (hl : Linked b ms w) (h : Positions b ms w) (hq : Quiet w m)
    (hrun : (handle b m).run w = .ok r w') (hg : w'.ogg = w.ogg) : Positions b (ms ++ [m]) w' := by
  have hfirst := hq.firstInit_append hl
  have hnot : ∀ i, firstInit ms = some i → ¬ m.IsFrame (b.packageSize i) :=
    fun i hi => hq.not_isFrame fun e he => (hl.encoder hi he).1
  refine ⟨fun hn => ?_, fun i hi => ?_, fun i hi => ?_⟩
  · rw [hfirst] at hn
    exact posInSamples_of_none ho hl h hn hrun
  · rw [hfirst] at hi
    have hpos := posInSamples_of_not_isFrame ho hrun (hnot i hi) fun e he => (hl.encoder hi he).1
    rw [hpos, frames_append_of_not (hnot i hi)]
    exact h.counter i hi
  · rw [hfirst] at hi
    rw [hg, frames_append_of_not (hnot i hi)]
    exact h.fed i hi

/-- The first Init feeds the headers, and no message before it is an Exec. -/
theorem positions_init (ho : b.useOgg = true) {ms : List Message} {w w' : Globals ε σ}
    {m : Message} {r : Reply} (hl : Linked b ms w) (hb : Backlog b ms w) (h : Positions b ms w)
    (hnone : firstInit ms = none) (hk : m.kind = .init) (hrun : (handle b m).run w = .ok r w')
    (hw : Wrote (b.begun w.ogg) (headerPackets m w.ogg.packetno) w'.ogg) :
    Positions b (ms ++ [m]) w' := by
  obtain ⟨hogg, hkinds⟩ := hb.before hnone
  have hfirst := firstInit_append_of_none hnone hk
  have hfed : w'.ogg.fed = headerPackets m w.ogg.packetno := by
    rw [hw.fed, begun_fed, hogg]
    rfl
  have hframes : b.frames m (ms ++ [m]) = 0 := by
    refine List.countP_eq_zero.mpr fun f hf => ?_
    rw [decide_eq_true_eq]
    rintro ⟨hexec, -⟩
    rcases List.mem_append.mp hf with hf | hf
    · exact (hkinds f hf).2 hexec
    · rw [List.mem_singleton.mp hf, hk] at hexec
      exact absurd hexec (by simp)
  refine ⟨fun hn => by simp [hfirst] at hn, fun i hi => ?_, fun i hi => ?_⟩
  · obtain rfl : m = i := Option.some.inj (hfirst.symm.trans hi)
    rw [posInSamples_of_none ho hl h hnone hrun, hframes]
    exact (UInt32.zero_mul).symm
  · obtain rfl : m = i := Option.some.inj (hfirst.symm.trans hi)
    rw [hfed, hframes]
    exact ⟨le_rfl, rfl⟩

/-- A page after an Init is the page of a frame, which adds a position, or ends the stream. -/
theorem positions_page (ho : b.useOgg = true) {ms : List Message} {w w' : Globals ε σ}
    {i m : Message} {p : OggPacket} {r : Reply} (hi : firstInit ms = some i) (hl : Linked b ms w)
    (h : Positions b ms w) (hf : Feeds b w m p) (hrun : (handle b m).run w = .ok r w')
    (hfed : w'.ogg.fed = w.ogg.fed ++ [p]) : Positions b (ms ++ [m]) w' := by
  have hfirst := firstInit_append_of_some hi [m]
  have hcfg : ∀ e, w.opusEncoder = some e → e.cfg = i.com_param.init_enc_cmd.settings :=
    fun e he => (hl.encoder hi he).1
  refine ⟨fun hn => by simp [hfirst] at hn, fun i' hi' => ?_, fun i' hi' => ?_⟩
  · obtain rfl : i = i' := Option.some.inj (hfirst.symm.trans hi')
    by_cases hm : m.IsFrame (b.packageSize i)
    · rcases (Turn.of_run hrun).posInSamples ho with ⟨e, he, hframe, hpos⟩ | ⟨hnot, -⟩
      · rw [hpos, frames_append_of_isFrame hm, posAfter_eq (h.counter i hi) (hcfg e he) hframe]
      · rcases hf with ⟨hk, -⟩ | ⟨hk, e, enc, he, -, hsize, -⟩
        · simp [hm.1] at hk
        · exact absurd ⟨hk, hsize⟩ (hnot e he)
    · rw [posInSamples_of_not_isFrame ho hrun hm hcfg, frames_append_of_not hm]
      exact h.counter i hi
  · obtain rfl : i = i' := Option.some.inj (hfirst.symm.trans hi')
    rw [hfed]
    rcases (h.fed i hi).feeds hf (h.counter i hi) hcfg with ⟨hk, hall⟩ | ⟨hm, hall⟩
    · rw [frames_append_of_not fun hm => by simp [hm.1] at hk]
      exact hall
    · rw [frames_append_of_isFrame hm]
      exact hall

/-- An answered message keeps what is known of the positions. -/
theorem positions_step (ho : b.useOgg = true) {ms : List Message} {w w' : Globals ε σ}
    {m : Message} {r : Reply} (hl : Linked b ms w) (hb : Backlog b ms w) (h : Positions b ms w)
    (hrun : (handle b m).run w = .ok r w') : Positions b (ms ++ [m]) w' := by
  rcases (Turn.of_run hrun).stream_ok ho with
    ⟨hq, -, -, hg⟩ | ⟨hk, hi, -, hw⟩ | ⟨p, g, hf, -, -, hw, hg⟩
  · exact positions_quiet ho hl h hq hrun hg
  · exact positions_init ho hl hb h (hl.firstInit_none hi) hk hrun hw
  · obtain ⟨i, hi⟩ := hf.exists_firstInit ho hl (fun hn => by rw [(hb.before hn).1]) hrun
    refine positions_page ho hi hl h hf hrun ?_
    rw [hg]
    exact hw.fed

variable (b)

/-- What is known of the messages of a run that does not stop. -/
theorem positions_run (ho : b.useOgg = true) {ms : List Message}
    (hh : (run (handle b) ms boot).halt = none) :
    Linked b ms (run (handle b) ms boot).state ∧ Backlog b ms (run (handle b) ms boot).state ∧
      Positions b ms (run (handle b) ms boot).state := by
  have hboot : Linked b [] (boot : Globals ε σ) ∧ Backlog b [] (boot : Globals ε σ) ∧
      Positions b [] (boot : Globals ε σ) := by
    have hbacklog : Backlog b [] (boot : Globals ε σ) := backlog_run b ho rfl
    refine ⟨linked_run b [] rfl, hbacklog, fun _ => rfl, ?_, ?_⟩ <;>
      exact fun i hi => by simp [firstInit] at hi
  exact run_history_invariant
    (P := fun ns _ w => Linked b ns w ∧ Backlog b ns w ∧ Positions b ns w)
    (fun _ _ _ _ _ _ h hrun => ⟨linked_step h.1 hrun, backlog_step ho h.1 h.2.1 hrun,
      positions_step ho h.1 h.2.1 h.2.2 hrun⟩) ms [] [] boot hboot hh

/-- The positions of the audio packets of a run, whether it stops or not. -/
theorem exists_positions (ho : b.useOgg = true) {ms : List Message} {i : Message}
    (hi : firstInit ms = some i) :
    ∃ n, (audioPackets (run (handle b) ms boot).state.ogg.fed).map OggPacket.granulepos =
      (List.range n).map (b.position i) := by
  cases hh : (run (handle b) ms boot).halt with
  | none => exact ⟨_, ((positions_run b ho hh).2.2.fed i hi).audio⟩
  | some x =>
    -- The run stops at a message `m`, which may have fed one more packet.
    obtain ⟨pre, m, post, rfl, hpre, hstop⟩ := exists_of_halt ms boot hh
    obtain ⟨hl, hb, h⟩ := positions_run b ho hpre
    have herr := (Turn.of_run hstop).stream_error
    cases hi' : firstInit pre with
    | none =>
      have hempty : (run (handle b) pre boot).state.ogg.fed = [] := by rw [(hb.before hi').1]
      have hle : (run (handle b) (pre ++ m :: post) boot).state.ogg.fed.length ≤ 2 := by
        rcases herr with ⟨-, -, hg⟩ | ⟨-, -, ps, hps, hw⟩ | ⟨p, -, hw⟩
        · rw [hg, hempty]
          exact Nat.zero_le 2
        · rw [hw.fed, begun_fed, hempty, List.nil_append]
          exact hps.length_le
        · rw [hw.fed, hempty]
          simp
      exact ⟨0, by rw [audioPackets_of_length_le hle]; rfl⟩
    | some i' =>
      obtain rfl : i' = i := Option.some.inj ((firstInit_append_of_some hi' _).symm.trans hi)
      rcases herr with ⟨-, -, hg⟩ | ⟨-, hfalse, -⟩ | ⟨p, hf, hw⟩
      · rw [hg]
        exact ⟨_, (h.fed i' hi').audio⟩
      · rw [hl.initialized, hi'] at hfalse
        exact absurd hfalse (by simp)
      · rw [hw.fed]
        rcases (h.fed i' hi').feeds hf (h.counter i' hi') fun e he => (hl.encoder hi' he).1 with
          ⟨-, hall⟩ | ⟨-, hall⟩
        · exact ⟨_, hall.audio⟩
        · exact ⟨_, hall.audio⟩

/-- A frame of 20 ms at a sampling rate that libopus supports has a fiftieth of it in samples. -/
theorem frameSamples_of_creates {i : Message} (hi : b.Creates i) :
    (b.frameSamples i).toNat = i.com_param.init_enc_cmd.input_sampling_rate.toNat / 50 ∧
      i.com_param.init_enc_cmd.input_sampling_rate.toNat ∈ [8000, 12000, 16000, 24000, 48000] := by
  obtain ⟨enc, henc⟩ := Option.isSome_iff_exists.mp hi
  obtain ⟨e, he, -⟩ := Option.map_eq_some_iff.mp henc
  obtain ⟨hrate, hch⟩ := b.opus.create_args _ _ _ _ he
  have hsamples : b.frameSamples i =
      (i.com_param.init_enc_cmd.settings.sample_rate / 50).toUInt32 * 2 *
        i.com_param.init_enc_cmd.settings.channels.toUInt32 / 2 /
          i.com_param.init_enc_cmd.settings.channels.toUInt32 := rfl
  have hinput : i.com_param.init_enc_cmd.input_sampling_rate =
      i.com_param.init_enc_cmd.settings.sample_rate.toUInt32 := rfl
  have hall : ([8000, 12000, 16000, 24000, 48000] : List Int32).all fun rate =>
      ([1, 2] : List Int32).all fun channels => decide
        (((rate / 50).toUInt32 * 2 * channels.toUInt32 / 2 / channels.toUInt32).toNat =
          rate.toUInt32.toNat / 50 ∧
        rate.toUInt32.toNat ∈ [8000, 12000, 16000, 24000, 48000]) := by
    decide
  rw [hsamples, hinput]
  exact of_decide_eq_true (List.all_eq_true.mp (List.all_eq_true.mp hall _ hrate) _ hch)

/-- The position of a frame as long as the counter does not wrap. -/
theorem position_eq {i : Message} {k : ℕ} (hk : (k + 1) * (b.frameSamples i).toNat < 2^31) :
    b.position i k = ((k + 1) * (b.frameSamples i).toNat : ℕ) := by
  have hnat : (UInt32.ofNat (k + 1) * b.frameSamples i).toNat =
      (k + 1) * (b.frameSamples i).toNat := by
    rw [UInt32.toNat_mul, UInt32.toNat_ofNat', Nat.mod_mul_mod]
    exact Nat.mod_eq_of_lt (by omega)
  unfold Build.position
  rw [toInt_toInt32_of_lt (by omega), hnat]

/-- In a run of the worker built with Ogg whose first Init creates the encoder for a sampling rate
`r`, there is one audio packet for each frame received, and as long as the duration in samples at
48 kHz is below `2^31`, the granule position of the `k`-th audio packet is `k` times a fiftieth of
`r`, the number of samples of the input up to its end. It is `960 * k` for 48 kHz only. -/
theorem audio_granulepos (ho : b.useOgg = true) {ms : List Message} {i : Message}
    (hi : firstInit ms = some i) (hcreates : b.Creates i) :
    let fed := (run (handle b) ms boot).state.ogg.fed
    let r := i.com_param.init_enc_cmd.input_sampling_rate.toNat
    ((run (handle b) ms boot).halt = none → (audioPackets fed).length = b.frames i ms) ∧
      ∀ (k : ℕ) (p : OggPacket), (audioPackets fed)[k]? = some p → (k + 1) * 960 < 2^31 →
        p.granulepos = ((k + 1) * (r / 50) : ℕ) ∧
          (p.granulepos = (960 * (k + 1) : ℕ) ↔ r = 48000) := by
  intro fed r
  obtain ⟨hsamples, hrate⟩ := frameSamples_of_creates b hcreates
  constructor
  · intro hh
    have haudio := (((positions_run b ho hh).2.2.fed i hi).audio)
    have hlen := congrArg List.length haudio
    rwa [List.length_map, List.length_map, List.length_range] at hlen
  · intro k p hp hk
    obtain ⟨n, hn⟩ := exists_positions b ho hi
    have hgranule : p.granulepos = b.position i k := by
      have hget : (audioPackets fed)[k]?.map OggPacket.granulepos =
          ((List.range n).map (b.position i))[k]? := by
        rw [← List.getElem?_map]
        exact congrArg (fun l => l[k]?) hn
      rw [hp, Option.map_some, List.getElem?_map] at hget
      obtain ⟨j, hj, hpos⟩ := Option.map_eq_some_iff.mp hget.symm
      obtain ⟨hlt, rfl⟩ := List.getElem?_eq_some_iff.mp hj
      rw [← hpos, List.getElem_range]
    have hrates : ∀ x ∈ [8000, 12000, 16000, 24000, 48000], x ≤ 48000 ∧ 50 * (x / 50) = x := by
      decide
    obtain ⟨hle, hfifty⟩ := hrates r hrate
    have hbound : (k + 1) * (b.frameSamples i).toNat < 2^31 := by
      rw [hsamples]
      calc (k + 1) * (r / 50) ≤ (k + 1) * 960 := Nat.mul_le_mul_left _ (by omega)
        _ < 2^31 := hk
    have hposition : p.granulepos = ((k + 1) * (r / 50) : ℕ) := by
      rw [hgranule, position_eq b hbound, hsamples]
    refine ⟨hposition, ?_⟩
    rw [hposition, Int.natCast_inj, Nat.mul_comm 960, Nat.mul_right_inj (Nat.succ_ne_zero k)]
    -- A fiftieth of the rate is 960 samples for one rate only.
    constructor
    · intro h
      omega
    · intro h
      omega

end Positions

/-- The frame of the mono encoder for 48 kHz ends at position 960. -/
theorem audio_granulepos_mono :
    ∃ p, (audioPackets (run (handle oggBuild) [monoInit, monoExec] boot).state.ogg.fed)[0]? =
      some p ∧ p.granulepos = 960 := by
  have hfirst : firstInit [monoInit, monoExec] = some monoInit := by simp [firstInit]
  have hsome : (audioPackets (run (handle oggBuild) [monoInit, monoExec]
      boot).state.ogg.fed)[0]?.isSome := by decide +kernel
  obtain ⟨p, hp⟩ := Option.isSome_iff_exists.mp hsome
  have hgranule := ((audio_granulepos oggBuild rfl hfirst
    (creates_monoInit [monoExec] _ hfirst)).2 0 p hp (by decide)).1
  exact ⟨p, hp, hgranule⟩

/-- The first frame of an input at 16 kHz ends at position 320. -/
theorem exists_granulepos_ne :
    ∃ i m p, oggBuild.Creates i ∧ m.IsFrame (oggBuild.packageSize i) ∧
      (audioPackets (run (handle oggBuild) [i, m] boot).state.ogg.fed)[0]? = some p ∧
      p.granulepos ≠ 960 * (0 + 1) := by
  have hsome : (audioPackets (run (handle oggBuild) [initMessage 1 16000 5,
      execMessage ⟨640, 0x2000⟩ ⟨256, 0x3000⟩ fun _ => 0] boot).state.ogg.fed)[0]?.map
        OggPacket.granulepos = some 320 := by decide +kernel
  obtain ⟨p, hp, hgranule⟩ := Option.map_eq_some_iff.mp hsome
  refine ⟨_, _, p, ?_, ⟨kind_execMessage _ _ _, ?_⟩, hp, ?_⟩
  · unfold Build.Creates
    decide
  · decide
  · rw [hgranule]
    decide

end SpresenseOpus.Worker
