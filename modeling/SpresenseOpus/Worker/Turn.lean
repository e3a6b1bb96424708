import SpresenseOpus.Worker.Loop

/-!
# What a turn of the loop can do

`Turn` says once what `handle` does with a message, by the kind of the message and the state that
it finds: the reply and the state that it leaves, or where it halts. `handle_turn` is the only
place where the branches of the loop are unfolded; every property of the worker is derived from it
by cases.
-/

namespace SpresenseOpus.Worker

/-- The kinds of messages that the loop tells apart. -/
inductive Kind where
  /-- A message that is not of address type. -/
  | value
  /-- An Init command. -/
  | init
  /-- An Exec command. -/
  | exec
  /-- A Flush command. -/
  | flush
  /-- An address message with another mode or event. -/
  | other
  deriving DecidableEq, Repr

/-- The kind of a message. -/
def Message.kind (m : Message) : Kind :=
  if m.type ≠ COMMAND_DATATYPE_ADDRESS then .value
  else if m.com_param.header.process_mode ≠ EncMode then .other
  else if m.com_param.header.event_type = InitEvent then .init
  else if m.com_param.header.event_type = ExecEvent then .exec
  else if m.com_param.header.event_type = FlushEvent then .flush
  else .other

/-- The reply to a command that was handled. -/
def Message.reply (m : Message) (h : Handled) : Reply := replyToSpu m.msgdata (some h)

/-- The command structure that goes back with a result. -/
def Message.answer (m : Message) (x : ExecResult) : Wien2ApuCmd := m.com_param.setExecResult x

/-- The Exec command of a message. -/
abbrev Message.execCmd (m : Message) : ApuExecEncCmd := m.com_param.exec_enc_cmd

section Turn

variable {ε σ : Type} (b : Build ε σ)

/-- The encoder that an Init creates. -/
def Build.created (m : Message) : OpusAudioEncoder ε :=
  OpusAudioEncoder.new b.opus m.com_param.init_enc_cmd.settings

/-- The state of the Ogg module after `ogg_begin`. -/
def Build.begun (g : Ogg σ) : Ogg σ :=
  match b.oggz.new with
  | none => { g with oggz := none, serialno := OGGZ_ERR_BAD_OGGZ }
  | some o => { g with oggz := some (b.oggz.serialnoNew o).2, serialno := (b.oggz.serialnoNew o).1 }

/-- The header pages that an Init writes. -/
def Build.headers (m : Message) (g : Ogg σ) : EStateM.Result Halt (Ogg σ) Unit :=
  (oggWriteHeaderPage b.oggz b.fuel m.com_param.init_enc_cmd.settings.channels
    m.com_param.init_enc_cmd.settings.sample_rate).run (b.begun g)

/-- The call of `opus_encode` for the frame of an Exec. -/
def Message.call (m : Message) (e : OpusAudioEncoder ε) (enc : ε) : EncodeCall ε where
  enc := enc
  pcm := readBytes m.mem m.execCmd.input_buffer.p_buffer m.execCmd.input_buffer.size
  frame_size := e.frames m.execCmd.input_buffer.size
  max_data_bytes := m.execCmd.output_buffer.size.toInt32

/-- The outcome of a call of `opus_encode`. -/
def Build.result (call : EncodeCall ε) : Encoded ε :=
  b.opus.encode call.enc call.pcm call.frame_size call.max_data_bytes

/-- The globals after `encodeFrame` on the frame of an Exec. -/
def Build.encoded (m : Message) (e : OpusAudioEncoder ε) (enc : ε) (w : Globals ε σ) :
    Globals ε σ :=
  { w with
    opusEncoder := some { e with enc := some (b.result (m.call e enc)).next }
    encodeCalls := w.encodeCalls ++ [m.call e enc] }

/-- `posInSamples` after the frame of an Exec. -/
def Globals.posAfter (w : Globals ε σ) (m : Message) (e : OpusAudioEncoder ε) : UInt32 :=
  w.posInSamples + m.execCmd.input_buffer.size / 2 / e.cfg.channels.toUInt32

/-- The page that an Exec writes for its frame. -/
def Build.audioPage (m : Message) (e : OpusAudioEncoder ε) (enc : ε) (w : Globals ε σ) :
    EStateM.Result Halt (Ogg σ) Unit :=
  (oggWriteAudioDataPage b.oggz b.fuel (b.result (m.call e enc)).data
    (b.result (m.call e enc)).len.toInt (w.posAfter m e).toInt32).run w.ogg

/-- The page that a Flush writes. -/
def Build.footerPage (g : Ogg σ) : EStateM.Result Halt (Ogg σ) Unit :=
  (oggWriteFooterPage b.oggz b.fuel).run g

/-- The turn of the loop that takes `m` in the state `w`: what `handle` results in. -/
inductive Turn (w : Globals ε σ) (m : Message) : EStateM.Result Halt (Globals ε σ) Reply → Prop
  | value : m.kind = .value → Turn w m (.ok (replyToSpu m.msgdata none) w)
  | other : m.kind = .other → Turn w m (.ok (m.reply { com_param := m.com_param }) w)
  | initAgain : m.kind = .init → w.initialized = true →
      Turn w m (.ok (m.reply { com_param := m.answer .ApuExecOK }) w)
  | initPlain : m.kind = .init → w.initialized = false → b.useOgg = false →
      Turn w m (.ok (m.reply { com_param := m.answer .ApuExecOK })
        { w with opusEncoder := some (b.created m), initialized := true })
  | initOgg {g : Ogg σ} : m.kind = .init → w.initialized = false → b.useOgg = true →
      b.headers m w.ogg = .ok () g →
      Turn w m (.ok (m.reply { com_param := m.answer .ApuExecOK })
        { w with opusEncoder := some (b.created m), ogg := g, initialized := true })
  | initHung {g : Ogg σ} {h : Halt} : m.kind = .init → w.initialized = false →
      b.useOgg = true → b.headers m w.ogg = .error h g →
      Turn w m (.error h { w with opusEncoder := some (b.created m), ogg := g })
  | execNull : m.kind = .exec → w.opusEncoder = none → Turn w m (.error .nullEncoder w)
  | execRejected {e : OpusAudioEncoder ε} : m.kind = .exec → w.opusEncoder = some e →
      m.execCmd.input_buffer.size ≠ e.getExpectedPackageSize →
      Turn w m (.ok (m.reply { com_param := m.answer .ApuWarning, local_size := some 0 }) w)
  | execZeroChannels {e : OpusAudioEncoder ε} : m.kind = .exec → w.opusEncoder = some e →
      m.execCmd.input_buffer.size = e.getExpectedPackageSize → e.cfg.channels = 0 →
      Turn w m (.error .zeroChannels w)
  | execFailedHandle {e : OpusAudioEncoder ε} : m.kind = .exec → w.opusEncoder = some e →
      m.execCmd.input_buffer.size = e.getExpectedPackageSize → e.cfg.channels ≠ 0 →
      e.enc = none → Turn w m (.error .failedHandle w)
  | execPlain {e : OpusAudioEncoder ε} {enc : ε} : m.kind = .exec → w.opusEncoder = some e →
      m.execCmd.input_buffer.size = e.getExpectedPackageSize → e.cfg.channels ≠ 0 →
      e.enc = some enc → b.useOgg = false →
      Turn w m (.ok (m.reply {
          com_param := m.answer .ApuExecOK
          encoded := some ⟨m.execCmd.output_buffer.p_buffer, (b.result (m.call e enc)).data⟩
          local_size := some (b.result (m.call e enc)).len.toUInt32 })
        (b.encoded m e enc w))
  | execOgg {e : OpusAudioEncoder ε} {enc : ε} {g : Ogg σ} : m.kind = .exec →
      w.opusEncoder = some e → m.execCmd.input_buffer.size = e.getExpectedPackageSize →
      e.cfg.channels ≠ 0 → e.enc = some enc → b.useOgg = true →
      b.audioPage m e enc w = .ok () g →
      Turn w m (.ok (m.reply {
          com_param := m.answer .ApuExecOK
          encoded := some ⟨m.execCmd.output_buffer.p_buffer, (b.result (m.call e enc)).data⟩
          copied := some ⟨m.execCmd.output_buffer.p_buffer, g.sink⟩
          local_size := some (UInt32.ofNat g.sink.length) })
        { b.encoded m e enc w with
          posInSamples := w.posAfter m e, ogg := { g with sink := [] } })
  | execHung {e : OpusAudioEncoder ε} {enc : ε} {g : Ogg σ} {h : Halt} : m.kind = .exec →
      w.opusEncoder = some e → m.execCmd.input_buffer.size = e.getExpectedPackageSize →
      e.cfg.channels ≠ 0 → e.enc = some enc → b.useOgg = true →
      b.audioPage m e enc w = .error h g →
      Turn w m (.error h { b.encoded m e enc w with posInSamples := w.posAfter m e, ogg := g })
  | flushPlain : m.kind = .flush → b.useOgg = false →
      Turn w m (.ok (m.reply {
        com_param := m.answer .ApuExecOK
        local_size := some m.com_param.flush_enc_cmd.output_buffer.size }) w)
  | flushOgg {g : Ogg σ} : m.kind = .flush → b.useOgg = true →
      b.footerPage w.ogg = .ok () g →
      Turn w m (.ok (m.reply {
          com_param := m.answer .ApuExecOK
          copied := some ⟨m.com_param.flush_enc_cmd.output_buffer.p_buffer, g.sink⟩
          local_size := some (UInt32.ofNat g.sink.length) })
        { w with ogg := { g with sink := [] } })
  | flushHung {g : Ogg σ} {h : Halt} : m.kind = .flush → b.useOgg = true →
      b.footerPage w.ogg = .error h g → Turn w m (.error h { w with ogg := g })

/-! ## The branches take these turns -/

/-- A program of the Ogg module leaves the rest of the globals. -/
@[simp] theorem onOgg_run {α : Type} (x : OggM σ α) (w : Globals ε σ) :
    (onOgg x).run w =
      match x.run w.ogg with
      | .ok a g => .ok a { w with ogg := g }
      | .error e g => .error e { w with ogg := g } := rfl

/-- The bytes of `oggzBuffer` are handed out, and it is empty. -/
@[simp] theorem takeOggzBuffer_run (w : Globals ε σ) :
    (takeOggzBuffer (ε := ε) (σ := σ)).run w =
      .ok w.ogg.sink { w with ogg := { w.ogg with sink := [] } } := rfl

/-- `ogg_begin` returns, whatever liboggz does. -/
@[simp] theorem oggBegin_run (g : Ogg σ) : (oggBegin b.oggz).run g = .ok () (b.begun g) := rfl

/-- The result of a command's branch as the result of the turn. -/
def Message.replied (m : Message) :
    EStateM.Result Halt (Globals ε σ) Handled → EStateM.Result Halt (Globals ε σ) Reply
  | .ok h w => .ok (m.reply h) w
  | .error e w => .error e w

/-- An Init takes one of its turns. -/
theorem initBranch_turn {w : Globals ε σ} {m : Message} (hk : m.kind = .init) :
    Turn b w m (m.replied ((initBranch b m.com_param).run w)) := by
  cases hi : w.initialized with
  | true =>
    have hrun : (initBranch b m.com_param).run w =
        .ok { com_param := m.answer .ApuExecOK } w := by
      simp [initBranch, hi, Message.answer]
    rw [hrun]
    exact .initAgain hk hi
  | false =>
    -- The result of a wrong codec is overwritten at the end of the branch.
    have hcodec : (if m.com_param.init_enc_cmd.codec_type ≠ .AudCodecOPUS then
        m.com_param.setExecResult .ApuExecError else m.com_param).setExecResult .ApuExecOK =
        m.answer .ApuExecOK := by
      split_ifs <;> rfl
    cases ho : b.useOgg with
    | false =>
      have hrun : (initBranch b m.com_param).run w =
          .ok { com_param := m.answer .ApuExecOK }
            { w with opusEncoder := some (b.created m), initialized := true } := by
        simp only [initBranch, EStateM.run_bind, EStateM.run_get, EStateM.run_modify,
          EStateM.run_pure, hi, ho, Bool.false_eq_true, if_false, hcodec, Build.created]
      rw [hrun]
      exact .initPlain hk hi ho
    | true =>
      have hrun : (initBranch b m.com_param).run w =
          match b.headers m w.ogg with
          | .ok _ g => .ok { com_param := m.answer .ApuExecOK }
            { w with opusEncoder := some (b.created m), ogg := g, initialized := true }
          | .error e g => .error e { w with opusEncoder := some (b.created m), ogg := g } := by
        simp only [initBranch, EStateM.run_bind, EStateM.run_get, EStateM.run_modify,
          EStateM.run_pure, hi, ho, Bool.false_eq_true, if_false, if_true, hcodec, onOgg_run,
          oggBegin_run, Build.created, Build.headers]
        cases (oggWriteHeaderPage b.oggz b.fuel m.com_param.init_enc_cmd.settings.channels
          m.com_param.init_enc_cmd.settings.sample_rate).run (b.begun w.ogg) <;> rfl
      rw [hrun]
      cases hh : b.headers m w.ogg with
      | ok u g => exact .initOgg hk hi ho hh
      | error e g => exact .initHung hk hi ho hh

/-- `encodeFrame` with a channel and a handle is one call of `opus_encode`. -/
theorem encodeFrame_run {w : Globals ε σ} {m : Message} {e : OpusAudioEncoder ε} {enc : ε}
    (hch : e.cfg.channels ≠ 0) (henc : e.enc = some enc) :
    (encodeFrame b e (readBytes m.mem m.execCmd.input_buffer.p_buffer m.execCmd.input_buffer.size)
      m.execCmd.input_buffer.size m.execCmd.output_buffer.size).run w =
      .ok (b.result (m.call e enc)) (b.encoded m e enc w) := by
  simp only [encodeFrame, if_neg hch, henc]
  rfl

/-- An Exec of the expected size takes one of its turns. -/
theorem execFrame_turn {w : Globals ε σ} {m : Message} {e : OpusAudioEncoder ε}
    (hk : m.kind = .exec) (he : w.opusEncoder = some e)
    (hsize : m.execCmd.input_buffer.size = e.getExpectedPackageSize) :
    Turn b w m (m.replied ((execFrame b m.com_param m.mem e).run w)) := by
  -- There are two ways in which `encodeFrame` stops the worker: no channel to divide by, and no
  -- handle.
  by_cases hch : e.cfg.channels = 0
  · have hrun : (execFrame b m.com_param m.mem e).run w = .error .zeroChannels w := by
      simp only [execFrame, EStateM.run_bind, encodeFrame, if_pos hch]
      rfl
    rw [hrun]
    exact .execZeroChannels hk he hsize hch
  cases henc : e.enc with
  | none =>
    have hrun : (execFrame b m.com_param m.mem e).run w = .error .failedHandle w := by
      simp only [execFrame, EStateM.run_bind, encodeFrame, if_neg hch, henc]
      rfl
    rw [hrun]
    exact .execFailedHandle hk he hsize hch henc
  | some enc =>
    -- Otherwise the packet is copied out, or goes to the page writer, which may hang.
    have hframe := encodeFrame_run b (w := w) (m := m) hch henc
    cases ho : b.useOgg with
    | false =>
      have hrun : (execFrame b m.com_param m.mem e).run w =
          .ok {
            com_param := m.answer .ApuExecOK
            encoded := some ⟨m.execCmd.output_buffer.p_buffer, (b.result (m.call e enc)).data⟩
            local_size := some (b.result (m.call e enc)).len.toUInt32 }
          (b.encoded m e enc w) := by
        simp only [execFrame, EStateM.run_bind, hframe, ho]
        rfl
      rw [hrun]
      exact .execPlain hk he hsize hch henc ho
    | true =>
      have hrun : (execFrame b m.com_param m.mem e).run w =
          match b.audioPage m e enc w with
          | .ok _ g => .ok {
              com_param := m.answer .ApuExecOK
              encoded := some ⟨m.execCmd.output_buffer.p_buffer, (b.result (m.call e enc)).data⟩
              copied := some ⟨m.execCmd.output_buffer.p_buffer, g.sink⟩
              local_size := some (UInt32.ofNat g.sink.length) }
            { b.encoded m e enc w with
              posInSamples := w.posAfter m e, ogg := { g with sink := [] } }
          | .error e' g =>
            .error e' { b.encoded m e enc w with posInSamples := w.posAfter m e, ogg := g } := by
        simp only [execFrame, EStateM.run_bind, hframe, ho, if_true, EStateM.run_modify,
          EStateM.run_get, EStateM.run_pure, onOgg_run, takeOggzBuffer_run,
          ApuExecEncCmd.setOutputSize, Int32.toInt32_toUInt32]
        simp only [Build.audioPage, Build.encoded, Globals.posAfter]
        cases (oggWriteAudioDataPage b.oggz b.fuel (b.result (m.call e enc)).data
          (b.result (m.call e enc)).len.toInt
          (w.posInSamples + m.execCmd.input_buffer.size / 2 / e.cfg.channels.toUInt32).toInt32).run
            w.ogg <;> rfl
      rw [hrun]
      cases ha : b.audioPage m e enc w with
      | ok u g => exact .execOgg hk he hsize hch henc ho ha
      | error e' g => exact .execHung hk he hsize hch henc ho ha

/-- An Exec takes one of its turns. -/
theorem execBranch_turn {w : Globals ε σ} {m : Message} (hk : m.kind = .exec) :
    Turn b w m (m.replied ((execBranch b m.com_param m.mem).run w)) := by
  cases he : w.opusEncoder with
  | none =>
    have hrun : (execBranch b m.com_param m.mem).run w = .error .nullEncoder w := by
      simp only [execBranch, EStateM.run_bind, EStateM.run_get, he]
      rfl
    rw [hrun]
    exact .execNull hk he
  | some e =>
    have hrun : (execBranch b m.com_param m.mem).run w =
        (if m.execCmd.input_buffer.size = e.getExpectedPackageSize then
          (execFrame b m.com_param m.mem e).run w
        else .ok { com_param := m.answer .ApuWarning, local_size := some 0 } w) := by
      simp only [execBranch, EStateM.run_bind, EStateM.run_get, he]
      split_ifs <;> rfl
    rw [hrun]
    by_cases hsize : m.execCmd.input_buffer.size = e.getExpectedPackageSize
    · rw [if_pos hsize]
      exact execFrame_turn b hk he hsize
    · rw [if_neg hsize]
      exact .execRejected hk he hsize

/-- A Flush takes one of its turns. -/
theorem flushBranch_turn {w : Globals ε σ} {m : Message} (hk : m.kind = .flush) :
    Turn b w m (m.replied ((flushBranch b m.com_param).run w)) := by
  cases ho : b.useOgg with
  | false =>
    have hrun : (flushBranch b m.com_param).run w =
        .ok {
          com_param := m.answer .ApuExecOK
          local_size := some m.com_param.flush_enc_cmd.output_buffer.size } w := by
      simp only [flushBranch, ho, Bool.false_eq_true, if_false, EStateM.run_pure, Message.answer]
    rw [hrun]
    exact .flushPlain hk ho
  | true =>
    have hrun : (flushBranch b m.com_param).run w =
        match b.footerPage w.ogg with
        | .ok _ g => .ok {
            com_param := m.answer .ApuExecOK
            copied := some ⟨m.com_param.flush_enc_cmd.output_buffer.p_buffer, g.sink⟩
            local_size := some (UInt32.ofNat g.sink.length) }
          { w with ogg := { g with sink := [] } }
        | .error e g => .error e { w with ogg := g } := by
      simp only [flushBranch, ho, if_true, EStateM.run_bind, EStateM.run_pure, onOgg_run,
        takeOggzBuffer_run, Message.answer, Build.footerPage, ApuFlushEncCmd.setOutputSize]
      cases (oggWriteFooterPage b.oggz b.fuel).run w.ogg <;> rfl
    rw [hrun]
    cases hf : b.footerPage w.ogg with
    | ok u g => exact .flushOgg hk ho hf
    | error e g => exact .flushHung hk ho hf

/-- `handle` takes one of the turns: the inversion of one turn of the loop. -/
theorem handle_turn (w : Globals ε σ) (m : Message) : Turn b w m ((handle b m).run w) := by
  by_cases htype : m.type = COMMAND_DATATYPE_ADDRESS
  · have hrun : (handle b m).run w = m.replied ((dispatch b m.com_param m.mem).run w) := by
      simp only [handle, htype, if_true, EStateM.run_bind, EStateM.run_pure]
      cases (dispatch b m.com_param m.mem).run w <;> rfl
    rw [hrun]
    by_cases hmode : m.com_param.header.process_mode = EncMode
    · by_cases hinit : m.com_param.header.event_type = InitEvent
      · have hk : m.kind = .init := by simp [Message.kind, htype, hmode, hinit]
        rw [dispatch, if_pos ⟨hmode, hinit⟩]
        exact initBranch_turn b hk
      by_cases hexec : m.com_param.header.event_type = ExecEvent
      · have hne : ExecEvent ≠ InitEvent := by decide
        have hk : m.kind = .exec := by simp [Message.kind, htype, hmode, hexec, hne]
        rw [dispatch, if_neg (by simp [hinit]), if_pos ⟨hmode, hexec⟩]
        exact execBranch_turn b hk
      by_cases hflush : m.com_param.header.event_type = FlushEvent
      · have hne : FlushEvent ≠ InitEvent ∧ FlushEvent ≠ ExecEvent := by decide
        have hk : m.kind = .flush := by simp [Message.kind, htype, hmode, hflush, hne]
        rw [dispatch, if_neg (by simp [hinit]), if_neg (by simp [hexec]), if_pos ⟨hmode, hflush⟩]
        exact flushBranch_turn b hk
      · have hk : m.kind = .other := by simp [Message.kind, htype, hmode, hinit, hexec, hflush]
        rw [dispatch, if_neg (by simp [hinit]), if_neg (by simp [hexec]), if_neg (by simp [hflush])]
        exact .other hk
    · have hk : m.kind = .other := by simp [Message.kind, htype, hmode]
      rw [dispatch, if_neg (by simp [hmode]), if_neg (by simp [hmode]), if_neg (by simp [hmode])]
      exact .other hk
  · -- A message of value type is not handled at all.
    have hk : m.kind = .value := by simp [Message.kind, htype]
    have hrun : (handle b m).run w = .ok (replyToSpu m.msgdata none) w := by
      simp only [handle, htype, if_false, EStateM.run_pure]
    rw [hrun]
    exact .value hk

variable {b}

/-- What `handle` results in is a turn. -/
theorem Turn.of_run {w : Globals ε σ} {m : Message} {x : EStateM.Result Halt (Globals ε σ) Reply}
    (hrun : (handle b m).run w = x) : Turn b w m x :=
  hrun ▸ handle_turn b w m

/-- A message takes one turn in a state. -/
theorem Turn.unique {w : Globals ε σ} {m : Message}
    {x y : EStateM.Result Halt (Globals ε σ) Reply} (hx : Turn b w m x) (hy : Turn b w m y) :
    x = y := by
  cases hx <;> cases hy <;> simp_all

/-- `handle` results in whatever a turn says. -/
theorem Turn.run_eq {w : Globals ε σ} {m : Message}
    {x : EStateM.Result Halt (Globals ε σ) Reply} (ht : Turn b w m x) : (handle b m).run w = x :=
  (handle_turn b w m).unique ht

/-- An Init that is answered is answered with `ApuExecOK`, and does nothing or opens the worker. -/
theorem Turn.of_init {w w' : Globals ε σ} {m : Message} {r : Reply} (ht : Turn b w m (.ok r w'))
    (hk : m.kind = .init) :
    r = m.reply { com_param := m.answer .ApuExecOK } ∧
      (w.initialized = true ∧ w' = w ∨
        w.initialized = false ∧ w'.initialized = true ∧ w'.opusEncoder = some (b.created m) ∧
          (b.useOgg = true → b.headers m w.ogg = .ok () w'.ogg)) := by
  cases ht with
  | initAgain _ hi => exact ⟨rfl, .inl ⟨hi, rfl⟩⟩
  | initPlain _ hi ho => exact ⟨rfl, .inr ⟨hi, rfl, rfl, fun h => by simp [ho] at h⟩⟩
  | initOgg _ hi _ hh => exact ⟨rfl, .inr ⟨hi, rfl, rfl, fun _ => hh⟩⟩
  | value hk' => simp [hk] at hk'
  | other hk' => simp [hk] at hk'
  | execRejected hk' => simp [hk] at hk'
  | execPlain hk' => simp [hk] at hk'
  | execOgg hk' => simp [hk] at hk'
  | flushPlain hk' => simp [hk] at hk'
  | flushOgg hk' => simp [hk] at hk'

end Turn

end SpresenseOpus.Worker
