import SpresenseOpus.Worker.Grammar
import SpresenseOpus.Worker.Length

/-!
# What becomes of an encoder error

`encodeFrame` logs a negative result of `opus_encode` and returns it. The Exec branch takes it for
a length: it goes into the position, into an Ogg packet, and the reply is `ApuExecOK`. What
`oggz_write_feed` returns is not looked at either. So an Exec that reaches `opus_encode` is handled
as it should be exactly when there is nothing to report (`honestExec_iff_succeeds`).
-/

namespace SpresenseOpus.Worker

open Machine

section Failure

variable {ε σ : Type} (b : Build ε σ)

/-- An Exec that reaches `opus_encode` with the encoder `e` and its handle `enc`. -/
structure ReachesEncode (w : Globals ε σ) (m : Message) (e : OpusAudioEncoder ε) (enc : ε) :
    Prop where
  kind : m.kind = .exec
  ready : EncoderReady w
  encoder : w.opusEncoder = some e
  enc_eq : e.enc = some enc
  size : m.execCmd.input_buffer.size = e.getExpectedPackageSize

/-- `oggz_write_feed` takes the packet of an Exec's frame. -/
def Build.FeedAccepted (w : Globals ε σ) (m : Message) (e : OpusAudioEncoder ε) (enc : ε) : Prop :=
  let r := b.result (m.call e enc)
  ∃ o, w.ogg.oggz = some o ∧
    (b.oggz.writeFeed o (audioPacket r.data r.len.toInt (w.posAfter m e).toInt32 w.ogg.packetno)
      w.ogg.serialno 0).1 = 0

/-- The drain loop behind the packet of an Exec's frame does not come to its end. -/
def Build.PageHangs (w : Globals ε σ) (m : Message) (e : OpusAudioEncoder ε) (enc : ε) : Prop :=
  ∃ x g, b.audioPage m e enc w = .error x g

/-- What is asked of an Exec that reaches `opus_encode`: `ApuExecOK` says that the frame was
encoded and, with Ogg, that its packet was accepted, and an error of `opus_encode` is reported and
leaves no trace in the stream and its position. -/
structure HonestExec (w : Globals ε σ) (m : Message) (e : OpusAudioEncoder ε) (enc : ε) : Prop where
  ok : ∀ r w', (handle b m).run w = .ok r w' → r.exec_result = some .ApuExecOK →
    0 ≤ (b.result (m.call e enc)).len.toInt ∧ (b.useOgg = true → b.FeedAccepted w m e enc)
  reported : (b.result (m.call e enc)).len.toInt < 0 →
    ∀ r w', (handle b m).run w = .ok r w' → r.exec_result ≠ some .ApuExecOK ∧
      ∀ h, r.handled = some h → h.local_size = some 0
  unchanged : (b.result (m.call e enc)).len.toInt < 0 →
    (stateAfter ((handle b m).run w)).ogg.fed = w.ogg.fed ∧
    (stateAfter ((handle b m).run w)).ogg.packetno = w.ogg.packetno ∧
    (stateAfter ((handle b m).run w)).posInSamples = w.posInSamples

variable {b}

/-- Without Ogg an Exec that reaches `opus_encode` is answered with `ApuExecOK`. -/
theorem ReachesEncode.answered_plain (ho : b.useOgg = false) {w : Globals ε σ} {m : Message}
    {e : OpusAudioEncoder ε} {enc : ε} (h : ReachesEncode w m e enc) :
    ∃ r w', (handle b m).run w = .ok r w' ∧ r.exec_result = some .ApuExecOK :=
  ⟨_, _, Turn.run_eq (.execPlain h.kind h.encoder h.size (h.ready.channels_ne_zero h.encoder)
    h.enc_eq ho), rfl⟩

/-- With Ogg it is answered with `ApuExecOK` if its page gets written. -/
theorem ReachesEncode.answered_ogg (ho : b.useOgg = true) {w : Globals ε σ} {m : Message}
    {e : OpusAudioEncoder ε} {enc : ε} (h : ReachesEncode w m e enc) {g : Ogg σ}
    (ha : b.audioPage m e enc w = .ok () g) :
    ∃ r w', (handle b m).run w = .ok r w' ∧ r.exec_result = some .ApuExecOK :=
  ⟨_, _, Turn.run_eq (.execOgg h.kind h.encoder h.size (h.ready.channels_ne_zero h.encoder)
    h.enc_eq ho ha), rfl⟩

/-- With Ogg it is not answered if its page does not get written. -/
theorem ReachesEncode.not_answered (ho : b.useOgg = true) {w w' : Globals ε σ} {m : Message}
    {e : OpusAudioEncoder ε} {enc : ε} (h : ReachesEncode w m e enc)
    (hangs : b.PageHangs w m e enc) (r : Reply) : (handle b m).run w ≠ .ok r w' := by
  obtain ⟨x, g, ha⟩ := hangs
  rw [Turn.run_eq (.execHung h.kind h.encoder h.size (h.ready.channels_ne_zero h.encoder)
    h.enc_eq ho ha)]
  simp

variable (b)

/-- In every state and for every Exec that reaches `opus_encode`, the Exec is handled as it should
be if and only if `opus_encode` succeeds and, with Ogg, `oggz_write_feed` takes the packet or the
page hangs, so that there is no reply. -/
theorem honestExec_iff_succeeds {w : Globals ε σ} {m : Message} {e : OpusAudioEncoder ε} {enc : ε}
    (hm : ReachesEncode w m e enc) :
    HonestExec b w m e enc ↔ 0 ≤ (b.result (m.call e enc)).len.toInt ∧
      (b.useOgg = true → b.FeedAccepted w m e enc ∨ b.PageHangs w m e enc) := by
  constructor
  · intro h
    refine ⟨?_, fun ho => ?_⟩
    · -- A negative result is answered with `ApuExecOK`, or its packet is fed.
      by_contra hneg
      rw [not_le] at hneg
      cases ho : b.useOgg with
      | false =>
        obtain ⟨r, w', hrun, hresult⟩ := hm.answered_plain (b := b) ho
        exact (h.reported hneg r w' hrun).1 hresult
      | true =>
        obtain ⟨p, hp⟩ := fed_of_exec ho hm.kind hm.ready fun e' he' => by
          obtain rfl := Option.some.inj (hm.encoder.symm.trans he')
          exact hm.size
        rw [(h.unchanged hneg).1] at hp
        simp at hp
    · cases ha : b.audioPage m e enc w with
      | ok u g =>
        obtain ⟨r, w', hrun, hresult⟩ := hm.answered_ogg ho ha
        exact .inl ((h.ok r w' hrun hresult).2 ho)
      | error x g => exact .inr ⟨x, g, ha⟩
  · rintro ⟨hlen, hogg⟩
    refine ⟨fun r w' hrun _ => ⟨hlen, fun ho => ?_⟩, fun hneg => ?_, fun hneg => ?_⟩
    · exact (hogg ho).resolve_right fun hangs => hm.not_answered ho hangs r hrun
    · exact absurd hneg (not_lt.mpr hlen)
    · exact absurd hneg (not_lt.mpr hlen)

end Failure

/-- The mono encoder expects frames of 1920 bytes and has a handle. -/
theorem reachesEncode_mono {m : Message} (hk : m.kind = .exec)
    (hsize : m.execCmd.input_buffer.size = 1920) :
    ReachesEncode monoState m (plainBuild.created monoInit) 48000 := by
  have henc : (plainBuild.created (σ := List UInt8) monoInit).enc = some 48000 := by decide
  have hexpected : (plainBuild.created (σ := List UInt8) monoInit).getExpectedPackageSize = 1920 :=
    by decide
  exact ⟨hk, ⟨_, 48000, rfl, henc, by decide⟩, rfl, henc, hsize.trans hexpected.symm⟩

/-- The condition at an Exec after the Init of a mono encoder. -/
theorem honestExec_iff_succeeds_mono :
    HonestExec plainBuild monoState monoExec (plainBuild.created monoInit) 48000 ↔
      0 ≤ (plainBuild.result (monoExec.call (plainBuild.created monoInit) 48000)).len.toInt ∧
        (plainBuild.useOgg = true →
          plainBuild.FeedAccepted monoState monoExec (plainBuild.created monoInit) 48000 ∨
            plainBuild.PageHangs monoState monoExec (plainBuild.created monoInit) 48000) :=
  honestExec_iff_succeeds plainBuild (reachesEncode_mono kind_monoExec rfl)

/-- An Exec with room for two bytes, one less than a packet takes. -/
def tightExec : Message := execMessage ⟨1920, 0x2000⟩ ⟨2, 0x3000⟩ fun _ => 0

/-- Its `OPUS_BUFFER_TOO_SMALL` is answered with `ApuExecOK`, and is kept as an output size of
nearly four gigabytes. -/
theorem exists_not_honestExec :
    ∃ m e enc r w', ReachesEncode monoState m e enc ∧
      (plainBuild.result (m.call e enc)).len = OPUS_BUFFER_TOO_SMALL ∧
      (handle plainBuild m).run monoState = .ok r w' ∧ r.exec_result = some .ApuExecOK ∧
      r.handled.bind Handled.local_size = some 0xfffffffe ∧
      ¬ HonestExec plainBuild monoState m e enc := by
  have hreach : ReachesEncode monoState tightExec (plainBuild.created monoInit) 48000 :=
    reachesEncode_mono (kind_execMessage _ _ _) rfl
  have hlen : (plainBuild.result (tightExec.call (plainBuild.created (σ := List UInt8) monoInit)
      48000)).len = OPUS_BUFFER_TOO_SMALL := by decide
  obtain ⟨r, w', hrun, hok⟩ := hreach.answered_plain (b := plainBuild) rfl
  have hturn := Turn.run_eq (.execPlain (b := plainBuild) hreach.kind hreach.encoder hreach.size
    (hreach.ready.channels_ne_zero hreach.encoder) hreach.enc_eq rfl)
  obtain ⟨rfl, rfl⟩ := EStateM.Result.ok.inj (hrun.symm.trans hturn)
  refine ⟨tightExec, _, _, _, _, hreach, hlen, hrun, hok, ?_, fun h => ?_⟩
  · simp only [Message.reply, replyToSpu, Option.bind_some, hlen]
    decide
  · have hneg : (plainBuild.result (tightExec.call (plainBuild.created (σ := List UInt8) monoInit)
        48000)).len.toInt < 0 := by
      rw [hlen]
      decide
    exact (h.reported hneg _ _ hrun).1 hok

end SpresenseOpus.Worker
