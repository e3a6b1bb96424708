import SpresenseOpus.Worker.Readiness

/-!
# What a turn does to the Ogg stream

With Ogg a message is quiet, begins the stream with the two header packets, or writes one page: an
audio packet for a frame that is accepted, or the packet that ends the stream for a Flush. A page
that is written takes everything that `oggzBuffer` holds to the output buffer, and nothing else
does (`Turn.stream_ok`). A message that does not return stops after some of these packets
(`Turn.stream_error`).
-/

namespace SpresenseOpus.Worker

open Machine

/-- An accepted Exec or a Flush: the messages that hand out bytes. -/
def Delivers (m : Message) (r : Reply) : Prop :=
  m.kind = .flush ∨ m.kind = .exec ∧ r.exec_result = some .ApuExecOK

/-- An Exec with a frame of `size` bytes. -/
def Message.IsFrame (size : UInt32) (m : Message) : Prop :=
  m.kind = .exec ∧ m.execCmd.input_buffer.size = size

instance (size : UInt32) (m : Message) : Decidable (m.IsFrame size) :=
  inferInstanceAs (Decidable (_ ∧ _))

section Stream

variable {ε σ : Type} (b : Build ε σ)

/-- The packet that a message feeds when it writes a page. -/
def Feeds (w : Globals ε σ) (m : Message) (p : OggPacket) : Prop :=
  (m.kind = .flush ∧ p = footerPacket w.ogg.packetno) ∨
    (m.kind = .exec ∧ ∃ e enc, w.opusEncoder = some e ∧ e.enc = some enc ∧
      m.execCmd.input_buffer.size = e.getExpectedPackageSize ∧
      p = audioPacket (b.result (m.call e enc)).data (b.result (m.call e enc)).len.toInt
        (w.posAfter m e).toInt32 w.ogg.packetno)

/-- The two header packets that an Init feeds. -/
def headerPackets (m : Message) (n : ℤ) : List OggPacket :=
  [headPacket m.com_param.init_enc_cmd.settings.channels
      m.com_param.init_enc_cmd.settings.sample_rate n,
    tagsPacket (n + 1)]

/-- A message that is answered without touching the stream: not a command of the encoder, an Init
after the first one, or an Exec of another size. -/
def Quiet (w : Globals ε σ) (m : Message) : Prop :=
  m.kind = .value ∨ m.kind = .other ∨ (m.kind = .init ∧ w.initialized = true) ∨
    (m.kind = .exec ∧
      ∃ e, w.opusEncoder = some e ∧ m.execCmd.input_buffer.size ≠ e.getExpectedPackageSize)

/-- A quiet message is not a Flush. -/
theorem Quiet.kind_ne_flush {w : Globals ε σ} {m : Message} (hq : Quiet w m) :
    m.kind ≠ .flush := by
  rcases hq with hk | hk | ⟨hk, -⟩ | ⟨hk, -⟩ <;> simp [hk]

/-- A quiet Init is not the first one. -/
theorem Quiet.initialized {w : Globals ε σ} {m : Message} (hq : Quiet w m)
    (hm : m.kind = .init) : w.initialized = true := by
  rcases hq with hk | hk | ⟨-, hi⟩ | ⟨hk, -⟩
  · simp [hk] at hm
  · simp [hk] at hm
  · exact hi
  · simp [hk] at hm

/-- A quiet Exec has another size than the encoder expects. -/
theorem Quiet.exec {w : Globals ε σ} {m : Message} (hq : Quiet w m) (hm : m.kind = .exec) :
    ∃ e, w.opusEncoder = some e ∧ m.execCmd.input_buffer.size ≠ e.getExpectedPackageSize := by
  rcases hq with hk | hk | ⟨hk, -⟩ | ⟨-, he⟩
  · simp [hk] at hm
  · simp [hk] at hm
  · simp [hk] at hm
  · exact he

variable {b}

/-- A quiet message is not the first Init. -/
theorem Quiet.firstInit_append {ms : List Message} {w : Globals ε σ} {m : Message}
    (hq : Quiet w m) (hl : Linked b ms w) : firstInit (ms ++ [m]) = firstInit ms := by
  apply firstInit_append_of_isSome
  intro hinit
  rw [← hl.initialized]
  exact hq.initialized hinit

/-- `ogg_begin` feeds nothing. -/
@[simp] theorem begun_fed (g : Ogg σ) : (b.begun g).fed = g.fed := by
  unfold Build.begun
  split <;> rfl

/-- `ogg_begin` calls no callback. -/
@[simp] theorem begun_chunks (g : Ogg σ) : (b.begun g).chunks = g.chunks := by
  unfold Build.begun
  split <;> rfl

/-- `ogg_begin` leaves what was written. -/
@[simp] theorem begun_sink (g : Ogg σ) : (b.begun g).sink = g.sink := by
  unfold Build.begun
  split <;> rfl

/-- `ogg_begin` leaves the packet number. -/
@[simp] theorem begun_packetno (g : Ogg σ) : (b.begun g).packetno = g.packetno := by
  unfold Build.begun
  split <;> rfl

/-- What an Init feeds when its header pages are written. -/
theorem headers_wrote_ok {m : Message} {g g' : Ogg σ} (h : b.headers m g = .ok () g') :
    Wrote (b.begun g) (headerPackets m g.packetno) g' := by
  have hwrote := oggWriteHeaderPage_ok b.oggz h
  rw [begun_packetno] at hwrote
  exact hwrote

/-- What an Init has fed when its header pages do not get written: some of them. -/
theorem headers_wrote_error {m : Message} {g g' : Ogg σ} {e : Halt}
    (h : b.headers m g = .error e g') :
    ∃ ps, ps <+: headerPackets m g.packetno ∧ Wrote (b.begun g) ps g' := by
  unfold Build.headers at h
  obtain ⟨ps, hps, hcases⟩ := oggWriteHeaderPage_wrote b.oggz b.fuel
    m.com_param.init_enc_cmd.settings.channels m.com_param.init_enc_cmd.settings.sample_rate
    (b.begun g)
  rw [h, stateAfter, begun_packetno] at *
  refine ⟨ps, ?_, hps⟩
  rcases hcases with rfl | ⟨rfl, -⟩
  · exact List.prefix_rfl
  · exact ⟨_, rfl⟩

/-- The page of a frame feeds one audio packet, whether it gets written or not. -/
theorem audioPage_wrote (w : Globals ε σ) (m : Message) (e : OpusAudioEncoder ε) (enc : ε) :
    Wrote w.ogg [audioPacket (b.result (m.call e enc)).data (b.result (m.call e enc)).len.toInt
      (w.posAfter m e).toInt32 w.ogg.packetno] (stateAfter (b.audioPage m e enc w)) :=
  feedAndDrain_wrote b.oggz b.fuel _ _ w.ogg

/-- The last page feeds the packet that ends the stream, whether it gets written or not. -/
theorem footerPage_wrote (g : Ogg σ) :
    Wrote g [footerPacket g.packetno] (stateAfter (b.footerPage g)) :=
  feedAndDrain_wrote b.oggz b.fuel _ _ g

/-- What an answered message does to the stream. -/
theorem Turn.stream_ok (ho : b.useOgg = true) {w w' : Globals ε σ} {m : Message} {r : Reply}
    (ht : Turn b w m (.ok r w')) :
    (Quiet w m ∧ ¬ Delivers m r ∧ r.copied = none ∧ w'.ogg = w.ogg) ∨
      (m.kind = .init ∧ w.initialized = false ∧ r.copied = none ∧
        Wrote (b.begun w.ogg) (headerPackets m w.ogg.packetno) w'.ogg) ∨
      (∃ p g, Feeds b w m p ∧ Delivers m r ∧ r.copied = some g.sink ∧ Wrote w.ogg [p] g ∧
        w'.ogg = { g with sink := [] }) := by
  cases ht with
  | value hk => exact .inl ⟨.inl hk, by simp [Delivers, hk], rfl, rfl⟩
  | other hk => exact .inl ⟨.inr (.inl hk), by simp [Delivers, hk], rfl, rfl⟩
  | initAgain hk hi =>
    exact .inl ⟨.inr (.inr (.inl ⟨hk, hi⟩)), by simp [Delivers, hk], rfl, rfl⟩
  | initPlain _ _ hplain => simp [ho] at hplain
  | initOgg hk hi _ hh => exact .inr (.inl ⟨hk, hi, rfl, headers_wrote_ok hh⟩)
  | execRejected hk he hsize =>
    -- The result is `ApuWarning`, so that nothing is delivered.
    refine .inl ⟨.inr (.inr (.inr ⟨hk, _, he, hsize⟩)), ?_, rfl, rfl⟩
    simp [Delivers, hk, Reply.exec_result, Message.reply, replyToSpu, Handled.exec_result,
      Message.answer]
  | execPlain _ _ _ _ _ hplain => simp [ho] at hplain
  | @execOgg e enc g hk he hsize hch henc _ ha =>
    have hwrote := audioPage_wrote (b := b) w m e enc
    rw [ha, stateAfter] at hwrote
    exact .inr (.inr ⟨_, g, .inr ⟨hk, e, enc, he, henc, hsize, rfl⟩, .inr ⟨hk, rfl⟩, rfl, hwrote,
      rfl⟩)
  | flushPlain _ hplain => simp [ho] at hplain
  | @flushOgg g hk _ hf =>
    have hwrote := footerPage_wrote (b := b) w.ogg
    rw [hf, stateAfter] at hwrote
    exact .inr (.inr ⟨_, g, .inl ⟨hk, rfl⟩, .inl hk, rfl, hwrote, rfl⟩)

/-- What a message that stops the worker has done to the stream. -/
theorem Turn.stream_error {w w' : Globals ε σ} {m : Message} {x : Halt}
    (ht : Turn b w m (.error x w')) :
    (m.kind = .exec ∧ ¬ EncoderReady w ∧ w'.ogg = w.ogg) ∨
      (m.kind = .init ∧ w.initialized = false ∧
        ∃ ps, ps <+: headerPackets m w.ogg.packetno ∧ Wrote (b.begun w.ogg) ps w'.ogg) ∨
      (∃ p, Feeds b w m p ∧ Wrote w.ogg [p] w'.ogg) := by
  cases ht with
  | initHung hk hi _ hh => exact .inr (.inl ⟨hk, hi, headers_wrote_error hh⟩)
  | execNull hk he => exact .inl ⟨hk, fun h => h.opusEncoder_ne_none he, rfl⟩
  | execZeroChannels hk he _ hch => exact .inl ⟨hk, fun h => h.channels_ne_zero he hch, rfl⟩
  | execFailedHandle hk he _ _ henc => exact .inl ⟨hk, fun h => h.enc_ne_none he henc, rfl⟩
  | @execHung e enc g x hk he hsize hch henc _ ha =>
    have hwrote := audioPage_wrote (b := b) w m e enc
    rw [ha, stateAfter] at hwrote
    exact .inr (.inr ⟨_, .inr ⟨hk, e, enc, he, henc, hsize, rfl⟩, hwrote⟩)
  | @flushHung g x hk _ hf =>
    have hwrote := footerPage_wrote (b := b) w.ogg
    rw [hf, stateAfter] at hwrote
    exact .inr (.inr ⟨_, .inl ⟨hk, rfl⟩, hwrote⟩)

end Stream

end SpresenseOpus.Worker
