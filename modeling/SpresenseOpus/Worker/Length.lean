import SpresenseOpus.Worker.Peer

/-!
# What the peer learns about the output length

The peer gets back the address of its command structure and nothing else, so that
`output_buffer.size` of that structure is the only place where the length of the output could
stand. The worker computes the length in every branch, but into its unpacked copy of the command
(`local_size_eq`). The structure keeps the size that the peer has put there as a capacity
(`Turn.answered`), so that the peer learns the length exactly when that capacity happens to be the
length (`tellsLength_iff_capacity`).
-/

namespace SpresenseOpus.Worker

open Machine Words

/-- `output_buffer.size` of the member of a command structure that the kind of `m` says. -/
def Message.outputSize (m : Message) (com_param : Wien2ApuCmd) : UInt32 :=
  match m.kind with
  | .flush => com_param.flush_enc_cmd.output_buffer.size
  | _ => com_param.exec_enc_cmd.output_buffer.size

section Length

variable {ε σ : Type} (b : Build ε σ)

/-- The bytes that liboggz makes of the packet of an Exec's frame. -/
def Build.audioBytes (w : Globals ε σ) (m : Message) (e : OpusAudioEncoder ε) (enc : ε) :
    List UInt8 :=
  let r := b.result (m.call e enc)
  b.oggz.pageBytes b.fuel w.ogg
    (audioPacket r.data r.len.toInt (w.posAfter m e).toInt32 w.ogg.packetno) 0

/-- The bytes that liboggz makes of the packet that ends the stream. -/
def Build.footerBytes (w : Globals ε σ) : List UInt8 :=
  b.oggz.pageBytes b.fuel w.ogg (footerPacket w.ogg.packetno) OGGZ_FLUSH_AFTER

/-- The number of bytes that an Exec or a Flush leads to in a state. A frame of another size and a
Flush without Ogg lead to none. A frame that is accepted leads to as many as `opus_encode` returns.
With Ogg it is the backlog of `oggzBuffer` and the bytes that liboggz makes of the packet. -/
def Build.outputBytes (w : Globals ε σ) (m : Message) : ℕ :=
  match m.kind, w.opusEncoder with
  | .exec, some e =>
    if m.execCmd.input_buffer.size = e.getExpectedPackageSize then
      match e.enc with
      | none => 0
      | some enc =>
        if b.useOgg then w.ogg.sink.length + (b.audioBytes w m e enc).length
        else (b.result (m.call e enc)).len.toInt.toNat
    else 0
  | .flush, _ => if b.useOgg then w.ogg.sink.length + (b.footerBytes w).length else 0
  | _, _ => 0

/-- An Exec or a Flush in a state in which an encoder has been created, that is answered, and such
that `opus_encode` succeeds on the frame of an Exec that is accepted. -/
structure Covered (w : Globals ε σ) (m : Message) : Prop where
  kind : m.kind = .exec ∨ m.kind = .flush
  created : ∃ e enc, w.opusEncoder = some e ∧ e.enc = some enc
  encodes : ∀ e enc, w.opusEncoder = some e → e.enc = some enc → m.kind = .exec →
    m.execCmd.input_buffer.size = e.getExpectedPackageSize →
    0 ≤ (b.result (m.call e enc)).len.toInt
  answered : ∃ r w', (handle b m).run w = .ok r w'

/-- Once the reply to a message is sent, the structure at the address replied carries the number
of valid bytes in the output buffer. -/
def TellsLength (w : Globals ε σ) (m : Message) : Prop :=
  ∀ r w', (handle b m).run w = .ok r w' → ∀ h, r.handled = some h →
    (m.outputSize h.com_param).toNat = h.validBytes

/-- The capacity that the peer has put into the structure of a message is, by chance, the number
of bytes that the message leads to. -/
def CapacityMatches (w : Globals ε σ) (m : Message) : Prop :=
  (m.outputSize m.com_param).toNat = b.outputBytes w m

variable {b}

/-- A packet of a successful `opus_encode` has as many bytes as the value returned. -/
theorem length_data_of_len_nonneg {r : Encoded ε} (h : 0 ≤ r.len.toInt) :
    r.data.length = r.len.toInt.toNat := by
  have hlen := r.length_eq h
  omega

/-- The sink after the page of a frame. -/
theorem audioPage_sink {w : Globals ε σ} {m : Message} {e : OpusAudioEncoder ε} {enc : ε}
    {g : Ogg σ} (h : b.audioPage m e enc w = .ok () g) :
    g.sink = w.ogg.sink ++ b.audioBytes w m e enc := by
  have hsink := feedAndDrain_sink b.oggz b.fuel (audioPacket (b.result (m.call e enc)).data
    (b.result (m.call e enc)).len.toInt (w.posAfter m e).toInt32) 0 w.ogg
  rw [Build.audioPage, oggWriteAudioDataPage] at h
  rw [h] at hsink
  exact hsink

/-- The sink after the page that ends the stream. -/
theorem footerPage_sink {w : Globals ε σ} {g : Ogg σ} (h : b.footerPage w.ogg = .ok () g) :
    g.sink = w.ogg.sink ++ b.footerBytes w := by
  have hsink := feedAndDrain_sink b.oggz b.fuel footerPacket OGGZ_FLUSH_AFTER w.ogg
  rw [Build.footerPage, oggWriteFooterPage] at h
  rw [h] at hsink
  exact hsink

/-- What a covered message that is answered does: the output size of the structure stays as it
was received, and the valid bytes are those that the message leads to. -/
theorem Turn.answered {w w' : Globals ε σ} {m : Message} {r : Reply}
    (ht : Turn b w m (.ok r w')) (hc : Covered b w m) :
    ∃ h, r = m.reply h ∧ m.outputSize h.com_param = m.outputSize m.com_param ∧
      h.validBytes = b.outputBytes w m := by
  have hkind := hc.kind
  cases ht with
  | value hk => simp [hk] at hkind
  | other hk => simp [hk] at hkind
  | initAgain hk => simp [hk] at hkind
  | initPlain hk => simp [hk] at hkind
  | initOgg hk => simp [hk] at hkind
  | execRejected hk he hsize =>
    refine ⟨_, rfl, by simp [Message.outputSize, Message.answer, hk], ?_⟩
    simp [Handled.validBytes, Build.outputBytes, hk, he, hsize]
  | @execPlain e enc hk he hsize hch henc ho =>
    refine ⟨_, rfl, by simp [Message.outputSize, Message.answer, hk], ?_⟩
    have hlen := length_data_of_len_nonneg (hc.encodes e enc he henc hk hsize)
    simp [Handled.validBytes, Build.outputBytes, hk, he, hsize, henc, ho, hlen]
  | execOgg hk he hsize hch henc ho ha =>
    refine ⟨_, rfl, by simp [Message.outputSize, Message.answer, hk], ?_⟩
    simp [Handled.validBytes, Build.outputBytes, hk, he, hsize, henc, ho, audioPage_sink ha]
  | flushPlain hk ho =>
    refine ⟨_, rfl, by simp [Message.outputSize, Message.answer, hk], ?_⟩
    simp [Handled.validBytes, Build.outputBytes, hk, ho]
  | flushOgg hk ho hf =>
    refine ⟨_, rfl, by simp [Message.outputSize, Message.answer, hk], ?_⟩
    simp [Handled.validBytes, Build.outputBytes, hk, ho, footerPage_sink hf]

/-- The length is computed, but only into the worker's own copy of the command: that copy's output
size is the number of valid bytes, except for a Flush without Ogg, which leaves it as it is. -/
theorem local_size_eq {w w' : Globals ε σ} {m : Message} {h : Handled}
    (hrun : (handle b m).run w = .ok (m.reply h) w') (hc : Covered b w m)
    (ho : m.kind = .exec ∨ b.useOgg = true) :
    h.local_size = some (UInt32.ofNat h.validBytes) := by
  have ht := Turn.of_run hrun
  have hkind := hc.kind
  -- The turn says the whole reply, and the local size is a field of it.
  generalize hr : m.reply h = r at ht
  cases ht with
  | value hk => simp [hk] at hkind
  | other hk => simp [hk] at hkind
  | initAgain hk => simp [hk] at hkind
  | initPlain hk => simp [hk] at hkind
  | initOgg hk => simp [hk] at hkind
  | execRejected hk he hsize =>
    obtain rfl : h = _ := Option.some.inj (congrArg Reply.handled hr)
    rfl
  | @execPlain e enc hk he hsize hch henc ho =>
    obtain rfl : h = _ := Option.some.inj (congrArg Reply.handled hr)
    have hnonneg := hc.encodes e enc he henc hk hsize
    simp [Handled.validBytes, length_data_of_len_nonneg hnonneg,
      ← toNat_toUInt32_of_nonneg hnonneg]
  | execOgg hk he hsize hch henc ho ha =>
    obtain rfl : h = _ := Option.some.inj (congrArg Reply.handled hr)
    rfl
  | flushPlain hk hplain => simp [hk, hplain] at ho
  | flushOgg hk ho hf =>
    obtain rfl : h = _ := Option.some.inj (congrArg Reply.handled hr)
    rfl

/-- In every state that a run of the worker reaches, an Exec or a Flush that is answered with an
encoder in place tells the peer its output length if and only if the capacity that the peer has
passed with it is already that length. -/
theorem tellsLength_iff_capacity (b : Build ε σ) (ms : List Message) :
    ∀ v ∈ visits (handle b) ms boot, Covered b v.1 v.2 →
      (TellsLength b v.1 v.2 ↔ CapacityMatches b v.1 v.2) := by
  rintro ⟨w, m⟩ - hc
  obtain ⟨r, w', hrun⟩ := hc.answered
  obtain ⟨h, rfl, hsize, hvalid⟩ := (Turn.of_run hrun).answered hc
  -- The size that the peer reads is the capacity, and the bytes are those that are due.
  constructor
  · intro htell
    rw [CapacityMatches, ← hsize, ← hvalid]
    exact htell _ w' hrun h rfl
  · intro hmatch r' w'' hrun' h' hh'
    obtain ⟨rfl, rfl⟩ := EStateM.Result.ok.inj (hrun.symm.trans hrun')
    obtain rfl : h = h' := Option.some.inj hh'
    rw [hsize, hvalid]
    exact hmatch

end Length

/-- The globals after the Init of a mono encoder. -/
def monoState : Globals Int32 (List UInt8) :=
  { opusEncoder := some (plainBuild.created monoInit), initialized := true }

/-- The Exec after that Init: the encoder returns three bytes. -/
theorem monoExec_run : (handle plainBuild monoExec).run monoState =
    .ok (monoExec.reply {
        com_param := monoExec.answer .ApuExecOK
        encoded := some ⟨0x3000, [0xf8, 0xff, 0xfe]⟩
        local_size := some 3 })
      (plainBuild.encoded monoExec (plainBuild.created monoInit) 48000 monoState) := by
  have he : monoState.opusEncoder = some (plainBuild.created monoInit) := rfl
  have henc : (plainBuild.created (σ := List UInt8) monoInit).enc = some 48000 := by decide
  exact Turn.run_eq (.execPlain kind_monoExec he (by decide) (by decide) henc rfl)

/-- The Exec is taken after the Init, with an encoder in place. -/
theorem monoExec_covered :
    (monoState, monoExec) ∈ visits (handle plainBuild) [monoInit, monoExec] boot ∧
      Covered plainBuild monoState monoExec := by
  have hinit : (handle plainBuild monoInit).run boot = .ok _ monoState :=
    Turn.run_eq (.initPlain kind_monoInit rfl rfl)
  have henc : (plainBuild.created (σ := List UInt8) monoInit).enc = some 48000 := by decide
  refine ⟨?_, .inl kind_monoExec, ⟨_, 48000, rfl, henc⟩, ?_, _, _, monoExec_run⟩
  · rw [visits_cons_ok hinit]
    exact List.mem_cons_of_mem _ List.mem_cons_self
  · intro e enc he henc' _ _
    obtain rfl := Option.some.inj he
    obtain rfl := Option.some.inj (henc.symm.trans henc')
    decide

/-- The condition at that Exec. -/
theorem tellsLength_iff_capacity_mono :
    TellsLength plainBuild monoState monoExec ↔ CapacityMatches plainBuild monoState monoExec :=
  tellsLength_iff_capacity plainBuild [monoInit, monoExec] (monoState, monoExec)
    monoExec_covered.1 monoExec_covered.2

/-- The packet for that frame has three bytes, and the structure still says 256. -/
theorem exists_not_tellsLength :
    ∃ v ∈ visits (handle plainBuild) [monoInit, monoExec] boot,
      Covered plainBuild v.1 v.2 ∧ ¬ TellsLength plainBuild v.1 v.2 :=
  ⟨(monoState, monoExec), monoExec_covered.1, monoExec_covered.2, fun htell =>
    absurd (htell _ _ monoExec_run _ rfl) (by decide)⟩

end SpresenseOpus.Worker
