import SpresenseOpus.Codec.OggStream
import SpresenseOpus.Codec.Sample

/-!
# What the sub core does with a capture

`begin` and `exec` of `EncoderSub.ino`. The size of a capture comes from its message, the number of
samples to encode is computed from that size, and the position advances by a constant: a count of
samples that is divided by the bytes of a sample. A size that is not the expected one, or an error
of `opus_encode`, is logged and the capture goes on as any other.

So each capture feeds one packet and advances the position by 480 (`subAt_run`), and the positions
account for the samples that are encoded only while no capture is handed over
(`accounts_iff_no_capture`).
-/

namespace SpresenseOpus.Subcore

open Machine

/-- `OPUS_ENC_FRAMESIZE_SAMPLES`. -/
def OPUS_ENC_FRAMESIZE_SAMPLES : UInt32 := 960
/-- `OPUS_OUT_MAX_SIZE`. -/
def OPUS_OUT_MAX_SIZE : UInt32 := 256
/-- `recoding_cannel_number`. -/
def recodingCannelNumber : UInt8 := 1
/-- `recoding_sampling_rate`. -/
def recodingSamplingRate : UInt32 := 48000

/-- The state of the program: the globals of its Ogg module, the handle of its encoder, the sample
position, and what has gone out through `Serial`. -/
structure EncoderSub (ε σ : Type) where
  ogg : Ogg σ := {}
  /-- `enc` of `opusEncoder`, with `none` for a failed creation. -/
  enc : Option ε := none
  posInSamples : UInt32 := 0
  serial : List UInt8 := []

/-- A capture as it is handed to `exec`: the bytes at `buff`, and `sample`. -/
structure Handed where
  buf : List UInt8
  sample : Int32
  deriving DecidableEq, Repr

/-- The size that `__main` passes to `exec`. -/
def Handed.size (c : Handed) : Int32 := (c.sample.toUInt32 * 2).toInt32

section Program

variable {ε σ : Type} (opus : Libopus ε) (z : Liboggz σ)

/-- A program of the Ogg module, run by the sub core. -/
def EncoderSub.onOgg {α : Type} (x : OggM σ α) : EStateM Halt (EncoderSub ε σ) α := fun w =>
  match x.run w.ogg with
  | .ok a g => .ok a { w with ogg := g }
  | .error e g => .error e { w with ogg := g }

/-- `begin`. The constructor of `OpusAudioEncoder` only creates the encoder. -/
def EncoderSub.begin (fuel : ℕ) : EStateM Halt (EncoderSub ε σ) Unit := do
  EncoderSub.onOgg (oggBegin z)
  EncoderSub.onOgg (oggWriteHeaderPage z fuel recodingCannelNumber.toUInt32.toInt32
    recodingSamplingRate.toInt32)
  modify fun w => { w with
    enc := opus.create recodingSamplingRate.toInt32 recodingCannelNumber.toUInt32.toInt32
      OPUS_APPLICATION_VOIP }

/-- The call of `opus_encode` that `encodeFrame` makes. -/
def encodeCall (enc : ε) (dataIn : List UInt8) (dataInLen dataOutLenMax : UInt32) : Encoded ε :=
  let frames := (dataInLen / 1 / 2).toInt32
  opus.encode enc dataIn frames dataOutLenMax.toInt32

/-- `encodeFrame`. -/
def EncoderSub.encodeFrame (dataIn : List UInt8) (dataInLen dataOutLenMax : UInt32) :
    EStateM Halt (EncoderSub ε σ) (Encoded ε) := do
  let w ← get
  match w.enc with
  | none => throw .failedHandle
  | some enc =>
    let r := encodeCall opus enc dataIn dataInLen dataOutLenMax
    modify fun w => { w with enc := some r.next }
    -- A negative length is logged and returned like any other.
    return r

/-- What `posInSamples` advances by. `sizeof(int16_t)` divides a number of samples here. -/
def posStep : UInt32 := OPUS_ENC_FRAMESIZE_SAMPLES / 2 / recodingCannelNumber.toUInt32

/-- `exec`. A size that does not match is logged, and nothing else comes of it. -/
def EncoderSub.exec (fuel : ℕ) (c : Handed) : EStateM Halt (EncoderSub ε σ) Unit := do
  let r ← EncoderSub.encodeFrame opus c.buf c.size.toUInt32 OPUS_OUT_MAX_SIZE
  modify fun w => { w with posInSamples := w.posInSamples + posStep }
  let w ← get
  EncoderSub.onOgg (oggWriteAudioDataPage z fuel r.data r.len.toInt w.posInSamples.toInt32)
  -- `Serial.write` of `oggzBuffer`, and its `clear`.
  modify fun w => { w with serial := w.serial ++ w.ogg.sink, ogg := { w.ogg with sink := [] } }

/-! ## What `exec` does -/

variable {z}

/-- A program of the Ogg module leaves the rest of the state. -/
@[simp] theorem EncoderSub.onOgg_run {α : Type} (x : OggM σ α) (w : EncoderSub ε σ) :
    (EncoderSub.onOgg x).run w = onPart (fun g => { w with ogg := g }) (x.run w.ogg) := by
  simp only [EncoderSub.onOgg, EStateM.run]
  cases x w.ogg <;> rfl

/-- A program of the Ogg module that returns has only changed the Ogg module. -/
theorem EncoderSub.onOgg_ok {α : Type} {x : OggM σ α} {a : α} {w w' : EncoderSub ε σ}
    (h : (EncoderSub.onOgg x).run w = .ok a w') :
    ∃ g, x.run w.ogg = .ok a g ∧ w' = { w with ogg := g } := by
  rw [EncoderSub.onOgg_run] at h
  exact onPart_ok _ h

variable {opus}

variable (opus z) in
/-- Without an encoder `exec` gets no further than `opus_encode`. -/
theorem exec_failedHandle (fuel : ℕ) (c : Handed) {w : EncoderSub ε σ} (hw : w.enc = none) :
    (EncoderSub.exec opus z fuel c).run w = .error .failedHandle w := by
  simp only [EncoderSub.exec, EncoderSub.encodeFrame, EStateM.run_bind, EStateM.run_get, hw]
  rfl

variable (opus z) in
/-- The page that `exec` writes for a capture, with an encoder. -/
def EncoderSub.page (fuel : ℕ) (c : Handed) (enc : ε) (w : EncoderSub ε σ) :
    EStateM.Result Halt (Ogg σ) Unit :=
  let r := encodeCall opus enc c.buf c.size.toUInt32 OPUS_OUT_MAX_SIZE
  (oggWriteAudioDataPage z fuel r.data r.len.toInt (w.posInSamples + posStep).toInt32).run w.ogg

/-- With an encoder `exec` encodes whatever it is given, counts it, and sends its page if the output
drains. -/
theorem exec_ok {fuel : ℕ} {c : Handed} {w : EncoderSub ε σ} {enc : ε} (hw : w.enc = some enc)
    {g : Ogg σ} (hpage : w.page opus z fuel c enc = .ok () g) :
    (EncoderSub.exec opus z fuel c).run w = .ok () {
      ogg := { g with sink := [] }
      enc := some (encodeCall opus enc c.buf c.size.toUInt32 OPUS_OUT_MAX_SIZE).next
      posInSamples := w.posInSamples + posStep
      serial := w.serial ++ g.sink } := by
  unfold EncoderSub.page at hpage
  simp only [EncoderSub.exec, EncoderSub.encodeFrame, EStateM.run_bind, EStateM.run_get, hw,
    EStateM.run_modify, EStateM.run_pure, EncoderSub.onOgg_run, hpage,
    onPart_of_ok]

/-- It has counted the capture as well when the output does not drain. -/
theorem exec_error {fuel : ℕ} {c : Handed} {w : EncoderSub ε σ} {enc : ε} (hw : w.enc = some enc)
    {g : Ogg σ} {x : Halt} (hpage : w.page opus z fuel c enc = .error x g) :
    (EncoderSub.exec opus z fuel c).run w = .error x { w with
      ogg := g
      enc := some (encodeCall opus enc c.buf c.size.toUInt32 OPUS_OUT_MAX_SIZE).next
      posInSamples := w.posInSamples + posStep } := by
  unfold EncoderSub.page at hpage
  simp only [EncoderSub.exec, EncoderSub.encodeFrame, EStateM.run_bind, EStateM.run_get, hw,
    EStateM.run_modify, EStateM.run_pure, EncoderSub.onOgg_run, hpage,
    onPart_of_error]

/-- `posInSamples` after `n` captures. -/
def posAt (n : ℕ) : UInt32 := UInt32.ofNat n * posStep

/-- The state after `n` captures: they have all fed a packet, and the positions have advanced by
the same step for each of them. -/
structure SubAt (n : ℕ) (w : EncoderSub ε σ) : Prop where
  enc : w.enc.isSome
  posInSamples : w.posInSamples = posAt n
  headers : 2 ≤ w.ogg.fed.length
  audio : (audioPackets w.ogg.fed).map OggPacket.granulepos =
    (List.range n).map fun k => (posAt (k + 1)).toInt32.toInt

variable (opus z) in
/-- `exec` counts every capture, whether it returns or not. -/
theorem subAt_exec {n : ℕ} {w : EncoderSub ε σ} (h : SubAt n w) (fuel : ℕ) (c : Handed) :
    SubAt (n + 1) (stateAfter ((EncoderSub.exec opus z fuel c).run w)) := by
  obtain ⟨enc, henc⟩ := Option.isSome_iff_exists.mp h.enc
  set r := encodeCall opus enc c.buf c.size.toUInt32 OPUS_OUT_MAX_SIZE with hr
  have hpos : w.posInSamples + posStep = posAt (n + 1) := by
    unfold posAt
    rw [h.posInSamples, posAt, UInt32.ofNat_add, UInt32.add_mul, UInt32.ofNat_one, UInt32.one_mul]
  -- The page writer feeds the packet before it drains the output.
  have hfed : (stateAfter (w.page opus z fuel c enc)).fed = w.ogg.fed ++
      [audioPacket r.data r.len.toInt (posAt (n + 1)).toInt32 w.ogg.packetno] := by
    unfold EncoderSub.page
    rw [hpos]
    exact (feedAndDrain_wrote z fuel _ 0 w.ogg).fed
  have hlen : 2 ≤ (stateAfter (w.page opus z fuel c enc)).fed.length := by
    have hheaders := h.headers
    rw [hfed, List.length_append]
    omega
  have haudio : (audioPackets (stateAfter (w.page opus z fuel c enc)).fed).map
      OggPacket.granulepos = (List.range (n + 1)).map fun k => (posAt (k + 1)).toInt32.toInt := by
    rw [hfed, audioPackets_append h.headers, List.map_append, h.audio, List.range_succ,
      List.map_append]
    rfl
  cases hpage : w.page opus z fuel c enc with
  | ok u g =>
    rw [hpage] at hlen haudio
    rw [exec_ok henc hpage]
    exact ⟨rfl, hpos, hlen, haudio⟩
  | error x g =>
    rw [hpage] at hlen haudio
    rw [exec_error henc hpage]
    exact ⟨rfl, hpos, hlen, haudio⟩

variable (opus z) in
/-- After a run the captures that were handed over are counted. -/
theorem subAt_run (fuel : ℕ) : ∀ (captures : List Handed) {n : ℕ} {w : EncoderSub ε σ}, SubAt n w →
    SubAt (n + (visits (EncoderSub.exec opus z fuel) captures w).length)
      (run (EncoderSub.exec opus z fuel) captures w).state
  | [], _, _, h => h
  | c :: cs, n, w, h => by
    have hnext := subAt_exec opus z h fuel c
    cases hexec : (EncoderSub.exec opus z fuel c).run w with
    | ok u w' =>
      rw [hexec] at hnext
      have hrest := subAt_run fuel cs hnext
      have hcount : n + 1 + (visits (EncoderSub.exec opus z fuel) cs w').length =
          n + ((visits (EncoderSub.exec opus z fuel) cs w').length + 1) := by omega
      rw [run_cons_ok hexec, visits_cons_ok hexec, List.length_cons, ← hcount]
      exact hrest
    | error e w' =>
      rw [hexec] at hnext
      rw [run_cons_error hexec, visits_cons_error hexec]
      exact hnext

variable (opus) in
/-- What `begin` leaves, when it returns. -/
theorem begin_ok {fuel : ℕ} {w : EncoderSub ε σ}
    (h : (EncoderSub.begin opus z fuel).run {} = .ok () w) :
    w.enc = opus.create 48000 1 OPUS_APPLICATION_VOIP ∧ w.posInSamples = 0 ∧
      w.ogg.fed = [headPacket 1 48000 0, tagsPacket 1] := by
  unfold EncoderSub.begin at h
  obtain ⟨_, w₁, hbegin, h₁⟩ := bind_ok h
  obtain ⟨_, w₂, hheader, h₂⟩ := bind_ok h₁
  obtain ⟨g₁, hbegin', rfl⟩ := EncoderSub.onOgg_ok hbegin
  obtain ⟨g₂, hheader', rfl⟩ := EncoderSub.onOgg_ok hheader
  rw [EStateM.run_modify] at h₂
  obtain rfl := (EStateM.Result.ok.inj h₂).2
  exact ⟨rfl, rfl, (fed_of_begin z hbegin' hheader').1⟩

/-! ## What the positions account for -/

variable (opus) in
/-- A capture handed over in a state is encoded: it has the expected size, and `opus_encode`
succeeds on it. -/
def EncoderSub.encodes (w : EncoderSub ε σ) (c : Handed) : Bool :=
  decide (c.size.toUInt32 = OPUS_ENC_FRAMESIZE_SAMPLES * 2) && w.enc.any fun enc =>
    decide (0 ≤ (encodeCall opus enc c.buf c.size.toUInt32 OPUS_OUT_MAX_SIZE).len.toInt)

/-- The sums of samples up to and including each capture of a list. -/
def totals (cs : List Handed) : List ℤ :=
  (List.range cs.length).map fun k => ((cs.take (k + 1)).map fun c => c.sample.toInt).sum

variable (opus z) in
/-- The captures of a run that are encoded. -/
def encodedOf (fuel : ℕ) (captures : List Handed) (w : EncoderSub ε σ) : List Handed :=
  ((visits (EncoderSub.exec opus z fuel) captures w).filter
    fun v => v.1.encodes opus v.2).map Prod.snd

variable (opus z) in
/-- The positions of a run account for the samples that it encodes: each audio packet has the sum of
the samples of the captures encoded up to its own, and a capture that is not encoded feeds no packet
and leaves the position. -/
structure Accounts (fuel : ℕ) (captures : List Handed) (w : EncoderSub ε σ) : Prop where
  positions : (audioPackets (run (EncoderSub.exec opus z fuel) captures w).state.ogg.fed).map
    OggPacket.granulepos = totals (encodedOf opus z fuel captures w)
  ignored : ∀ v ∈ visits (EncoderSub.exec opus z fuel) captures w, v.1.encodes opus v.2 = false →
    (stateAfter ((EncoderSub.exec opus z fuel v.2).run v.1)).ogg.fed = v.1.ogg.fed ∧
    (stateAfter ((EncoderSub.exec opus z fuel v.2).run v.1)).posInSamples = v.1.posInSamples

/-- After `begin` no capture is counted. -/
theorem subAt_begin {fuel : ℕ} {w : EncoderSub ε σ}
    (h : (EncoderSub.begin opus z fuel).run {} = .ok () w)
    (hcreate : (opus.create 48000 1 OPUS_APPLICATION_VOIP).isSome) : SubAt 0 w := by
  obtain ⟨henc, hpos, hfed⟩ := begin_ok opus h
  refine ⟨by rw [henc]; exact hcreate, by rw [hpos]; rfl, by rw [hfed]; exact le_rfl, ?_⟩
  rw [hfed, audioPackets_of_length_le (by simp)]
  rfl

/-- Without an encoder the first capture stops the program, and nothing is fed for it. -/
theorem accounts_of_failedHandle (fuel : ℕ) (captures : List Handed) {w : EncoderSub ε σ}
    (henc : w.enc = none) (hfed : w.ogg.fed.length ≤ 2) : Accounts opus z fuel captures w := by
  have hnot : ∀ c, w.encodes opus c = false := by
    intro c
    unfold EncoderSub.encodes
    rw [henc, Option.any_none, Bool.and_false]
  cases captures with
  | nil =>
    constructor
    · rw [run_nil, audioPackets_of_length_le hfed]
      rfl
    · intro v hv
      exact absurd hv (by simp)
  | cons c cs =>
    have hstop := exec_failedHandle opus z fuel c henc
    have hvisits : visits (EncoderSub.exec opus z fuel) (c :: cs) w = [(w, c)] :=
      visits_cons_error hstop
    constructor
    · unfold encodedOf
      rw [run_cons_error hstop, hvisits, audioPackets_of_length_le hfed]
      simp [hnot, totals]
    · intro v hv _
      rw [hvisits, List.mem_singleton] at hv
      rw [hv, hstop]
      exact ⟨rfl, rfl⟩

/-- With an encoder the positions are wrong from the first capture on: if it is encoded, its packet
has half of its samples, and if not, it advances the position all the same. -/
theorem not_accounts_cons {fuel : ℕ} {c : Handed} {cs : List Handed} {w : EncoderSub ε σ}
    (h : SubAt 0 w) : ¬ Accounts opus z fuel (c :: cs) w := by
  intro hacc
  obtain ⟨rest, hvisits⟩ : ∃ rest,
      visits (EncoderSub.exec opus z fuel) (c :: cs) w = (w, c) :: rest := ⟨_, rfl⟩
  cases hc : w.encodes opus c with
  | true =>
    -- The first position is one step, and should be the samples of the capture.
    have hfirst : encodedOf opus z fuel (c :: cs) w =
        c :: (rest.filter fun v => v.1.encodes opus v.2).map Prod.snd := by
      unfold encodedOf
      rw [hvisits, List.filter_cons_of_pos (by exact hc), List.map_cons]
    have hpositions := hacc.positions
    rw [(subAt_run opus z fuel (c :: cs) h).audio, hvisits, hfirst] at hpositions
    have hhead : (posAt 1).toInt32.toInt = c.sample.toInt := by
      have hheads := congrArg List.head? hpositions
      simpa [totals, List.range_succ_eq_map] using hheads
    have hsample : c.sample = 480 := Int32.toInt_inj.mp (hhead.symm.trans (by decide))
    unfold EncoderSub.encodes at hc
    rw [Bool.and_eq_true, decide_eq_true_eq] at hc
    have hsize : c.size.toUInt32 = 960 := by
      unfold Handed.size
      rw [hsample]
      decide
    rw [hsize] at hc
    exact absurd hc.1 (by decide)
  | false =>
    have hmem : (w, c) ∈ visits (EncoderSub.exec opus z fuel) (c :: cs) w := by
      rw [hvisits]
      exact List.mem_cons_self
    have hkept := (hacc.ignored (w, c) hmem hc).2
    rw [(subAt_exec opus z h fuel c).posInSamples, h.posInSamples] at hkept
    exact absurd hkept (by decide)

/-- In every run after `begin`, whatever is captured and whatever `opus_encode` returns: the
positions account for the samples encoded if and only if no capture is handed over, or there is no
encoder to hand it to. -/
theorem accounts_iff_no_capture {fuel : ℕ} {w : EncoderSub ε σ}
    (hbegin : (EncoderSub.begin opus z fuel).run {} = .ok () w) (captures : List Handed) :
    Accounts opus z fuel captures w ↔
      captures = [] ∨ opus.create 48000 1 OPUS_APPLICATION_VOIP = none := by
  obtain ⟨henc, -, hfed⟩ := begin_ok opus hbegin
  cases hcreate : opus.create 48000 1 OPUS_APPLICATION_VOIP with
  | none =>
    rw [hcreate] at henc
    exact iff_of_true (accounts_of_failedHandle fuel captures henc (by rw [hfed]; exact le_rfl))
      (.inr rfl)
  | some enc =>
    have hstart := subAt_begin hbegin (by rw [hcreate]; rfl)
    constructor
    · intro hacc
      cases captures with
      | nil => exact .inl rfl
      | cons c cs => exact absurd hacc (not_accounts_cons hstart)
    · rintro (rfl | hnone)
      · refine ⟨?_, fun v hv => absurd hv (by simp)⟩
        rw [run_nil, hstart.audio]
        rfl
      · exact absurd hnone (by simp)

end Program

/-- A capture of 960 silent samples. -/
def silentCapture : Handed := ⟨List.replicate 1920 0, 960⟩

/-- `begin` returns. -/
theorem begin_silentOpus : ∃ fuel w,
    (EncoderSub.begin silentOpus bareOggz fuel).run {} = .ok () w ∧ w.enc = some 48000 := by
  obtain ⟨g₁, g₂, hbegin, -, hev⟩ := begin_eventually drains_bareOggz rfl
    recodingCannelNumber.toUInt32.toInt32 recodingSamplingRate.toInt32
  obtain ⟨fuel, hheader⟩ := hev.exists
  refine ⟨fuel, { ogg := g₂, enc := some 48000 }, ?_, rfl⟩
  simp only [EncoderSub.begin, EStateM.run_bind, EncoderSub.onOgg_run, hbegin, onPart_of_ok,
    hheader]
  rfl

/-- The condition for one capture. -/
theorem accounts_iff_no_capture_silent : ∃ fuel w,
    (EncoderSub.begin silentOpus bareOggz fuel).run {} = .ok () w ∧
      (Accounts silentOpus bareOggz fuel [silentCapture] w ↔
        [silentCapture] = [] ∨ silentOpus.create 48000 1 OPUS_APPLICATION_VOIP = none) := by
  obtain ⟨fuel, w, hbegin, -⟩ := begin_silentOpus
  exact ⟨fuel, w, hbegin, accounts_iff_no_capture hbegin [silentCapture]⟩

/-- A capture of 960 samples is encoded, and its packet has the position 480. -/
theorem exists_not_accounts : ∃ fuel w,
    (EncoderSub.begin silentOpus bareOggz fuel).run {} = .ok () w ∧
      totals (encodedOf silentOpus bareOggz fuel [silentCapture] w) = [960] ∧
      (audioPackets (run (EncoderSub.exec silentOpus bareOggz fuel)
        [silentCapture] w).state.ogg.fed).map OggPacket.granulepos = [480] ∧
      ¬ Accounts silentOpus bareOggz fuel [silentCapture] w := by
  obtain ⟨fuel, w, hbegin, henc⟩ := begin_silentOpus
  -- The capture is visited and encoded with all of its samples.
  have hvisits : visits (EncoderSub.exec silentOpus bareOggz fuel) [silentCapture] w =
      [(w, silentCapture)] := by
    cases hexec : (EncoderSub.exec silentOpus bareOggz fuel silentCapture).run w with
    | ok u w' => rw [visits_cons_ok hexec, visits_nil]
    | error e w' => exact visits_cons_error hexec
  have hencodes : w.encodes silentOpus silentCapture = true := by
    unfold EncoderSub.encodes
    rw [henc, Option.any_some]
    decide
  have htotals : totals (encodedOf silentOpus bareOggz fuel [silentCapture] w) = [960] := by
    unfold encodedOf
    rw [hvisits, List.filter_cons_of_pos (by exact hencodes), List.filter_nil, List.map_singleton]
    show totals [silentCapture] = [960]
    decide
  -- Every capture advances the position by the same step, whatever its samples are.
  have hstart := subAt_begin hbegin (by decide)
  have haudio := (subAt_run silentOpus bareOggz fuel [silentCapture] hstart).audio
  rw [hvisits, List.length_singleton] at haudio
  have hpositions : (audioPackets (run (EncoderSub.exec silentOpus bareOggz fuel)
      [silentCapture] w).state.ogg.fed).map OggPacket.granulepos = [480] := haudio.trans (by decide)
  refine ⟨fuel, w, hbegin, htotals, hpositions, fun hacc => ?_⟩
  have heq := hacc.positions
  rw [hpositions, htotals] at heq
  exact absurd heq (by decide)

end SpresenseOpus.Subcore
