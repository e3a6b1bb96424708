import SpresenseOpus.Worker.Readiness

/-!
# Sessions

A session is an Init, any number of Execs and a Flush. The worker never leaves the first one: the
flag `initialized` makes every later Init a duplicate, and nothing resets the encoder, the sample
position or the Ogg stream. What follows a completed session continues it
(`session_continues`).
-/

namespace SpresenseOpus.Worker

open Machine

/-- An Init, any number of Execs, and a Flush. -/
structure Session where
  init : Message
  execs : List Message
  flush : Message
  init_kind : init.kind = .init
  execs_kind : ∀ m ∈ execs, m.kind = .exec
  flush_kind : flush.kind = .flush

/-- The messages of a session after its Init. -/
def Session.body (A : Session) : List Message := A.execs ++ [A.flush]

/-- The messages of a session. -/
def Session.messages (A : Session) : List Message := A.init :: A.body

/-- The result of a message when the encoder expects frames of `size` bytes. -/
def Message.resultFor (size : UInt32) (m : Message) : Option ExecResult :=
  match m.kind with
  | .value => none
  | .other => some m.com_param.result.exec_result
  | .exec =>
    some (if m.execCmd.input_buffer.size = size then .ApuExecOK else .ApuWarning)
  | .init | .flush => some .ApuExecOK

section Sessions

variable {ε σ : Type} (b : Build ε σ)

/-- The frame size in bytes that the settings of an Init lead to. -/
def Build.packageSize (i : Message) : UInt32 := (b.created i).getExpectedPackageSize

/-- The encoder of a state has the settings of an Init, and no further Init is executed. -/
def OpenWith (i : Message) (w : Globals ε σ) : Prop :=
  w.initialized = true ∧
    ∃ e, w.opusEncoder = some e ∧ e.cfg = i.com_param.init_enc_cmd.settings

/-- The globals after a session that was taken from boot. -/
def after (A : Session) : Globals ε σ := (run (handle b) A.messages boot).state

variable {b}

/-- The expected frame size is a matter of the settings. -/
theorem getExpectedPackageSize_eq {i : Message} {e : OpusAudioEncoder ε}
    (h : e.cfg = i.com_param.init_enc_cmd.settings) :
    e.getExpectedPackageSize = b.packageSize i := by
  unfold Build.packageSize OpusAudioEncoder.getExpectedPackageSize
  rw [h]
  rfl

/-- With an encoder in place the results say whether the sizes match, and nothing else. -/
theorem Turn.exec_result {w w' : Globals ε σ} {m : Message} {r : Reply} {e : OpusAudioEncoder ε}
    (ht : Turn b w m (.ok r w')) (he : w.opusEncoder = some e) :
    r.exec_result = m.resultFor e.getExpectedPackageSize := by
  unfold Message.resultFor
  cases ht with
  | value hk => rw [hk]; rfl
  | other hk => rw [hk]; rfl
  | initAgain hk => rw [hk]; rfl
  | initPlain hk => rw [hk]; rfl
  | initOgg hk => rw [hk]; rfl
  | execRejected hk he₀ hsize =>
    obtain rfl := Option.some.inj (he.symm.trans he₀)
    rw [hk]
    simp only [if_neg hsize]
    rfl
  | execPlain hk he₀ hsize =>
    obtain rfl := Option.some.inj (he.symm.trans he₀)
    rw [hk]
    simp only [if_pos hsize]
    rfl
  | execOgg hk he₀ hsize =>
    obtain rfl := Option.some.inj (he.symm.trans he₀)
    rw [hk]
    simp only [if_pos hsize]
    rfl
  | flushPlain hk => rw [hk]; rfl
  | flushOgg hk => rw [hk]; rfl

/-- An answered message leaves the settings of the encoder, and its result follows from them. -/
theorem openWith_step {i m : Message} {w w' : Globals ε σ} {r : Reply} (h : OpenWith i w)
    (hrun : (handle b m).run w = .ok r w') :
    OpenWith i w' ∧ r.exec_result = m.resultFor (b.packageSize i) := by
  obtain ⟨hinit, e, he, hcfg⟩ := h
  have ht := Turn.of_run hrun
  constructor
  · rcases ht.encoder with ⟨-, hi, he'⟩ | ⟨-, hi, -, -⟩ | ⟨-, hi, e₀, enc, enc', he₀, -, he'⟩
    · exact ⟨hi.trans hinit, e, he'.trans he, hcfg⟩
    · rw [hinit] at hi
      exact absurd hi (by simp)
    · obtain rfl := Option.some.inj (he.symm.trans he₀)
      exact ⟨hi.trans hinit, _, he', hcfg⟩
  · rw [ht.exec_result he, getExpectedPackageSize_eq hcfg]

variable (b)

/-- The results of a run with an encoder in place are those for the settings of its Init. -/
theorem results_of_openWith {i : Message} {w : Globals ε σ} (h : OpenWith i w)
    (ms : List Message) :
    (run (handle b) ms w).replies.map Reply.exec_result <+:
      ms.map (Message.resultFor (b.packageSize i)) :=
  replies_of_invariant (fun _ _ _ _ hw hrun => openWith_step hw hrun) ms w h

/-- An Init that is answered at boot opens the encoder with its settings. -/
theorem openWith_of_init {i : Message} (hi : i.kind = .init) {r : Reply} {w : Globals ε σ}
    (hrun : (handle b i).run boot = .ok r w) : OpenWith i w ∧ r.exec_result = some .ApuExecOK := by
  obtain ⟨rfl, ⟨hinit, -⟩ | ⟨-, hinit, he, -⟩⟩ := (Turn.of_run hrun).of_init hi
  · exact absurd hinit (by simp [boot])
  · exact ⟨⟨hinit, _, he, rfl⟩, rfl⟩

/-- The results of a session at boot are those for the settings of its own Init. -/
theorem results_at_boot (B : Session) :
    (run (handle b) B.messages boot).replies.map Reply.exec_result <+:
      B.messages.map (Message.resultFor (b.packageSize B.init)) := by
  unfold Session.messages
  cases hrun : (handle b B.init).run boot with
  | error e w =>
    rw [run_cons_error hrun]
    exact List.nil_prefix
  | ok r w =>
    obtain ⟨hopen, hr⟩ := openWith_of_init b B.init_kind hrun
    have hinit : B.init.resultFor (b.packageSize B.init) = some .ApuExecOK := by
      simp [Message.resultFor, B.init_kind]
    rw [run_cons_ok hrun, List.map_cons, hinit, ← hr]
    exact (List.prefix_cons_inj _).mpr (results_of_openWith b hopen B.body)

/-- A completed session leaves its encoder in place. -/
theorem openWith_after {A : Session} (hA : (run (handle b) A.messages boot).halt = none) :
    OpenWith A.init (after b A) := by
  unfold after
  unfold Session.messages at hA ⊢
  cases hrun : (handle b A.init).run boot with
  | error e w =>
    rw [run_cons_error hrun] at hA
    exact absurd hA (by simp)
  | ok r w =>
    rw [run_cons_ok hrun] at hA ⊢
    exact run_history_invariant (P := fun _ _ w => OpenWith A.init w)
      (fun _ _ _ _ _ _ hw hstep => (openWith_step hw hstep).1) A.body [] [] w
      (openWith_of_init b A.init_kind hrun).1 hA

/-- Without Ogg an Init at boot leaves the encoder of its settings and sets the flag. -/
theorem initPlain_boot (ho : b.useOgg = false) {i : Message} (hi : i.kind = .init) :
    (handle b i).run boot = .ok (i.reply { com_param := i.answer .ApuExecOK })
      { opusEncoder := some (b.created i), initialized := true } :=
  Turn.run_eq (.initPlain hi rfl ho)

/-- Without Ogg a session that has no frame of the expected size leaves what its Init has. -/
theorem after_eq_of_rejected (ho : b.useOgg = false) {A : Session}
    (hsize : ∀ m ∈ A.execs, m.execCmd.input_buffer.size ≠ b.packageSize A.init) :
    after b A = { opusEncoder := some (b.created A.init), initialized := true } := by
  unfold after Session.messages
  rw [run_cons_ok (initPlain_boot b ho A.init_kind)]
  refine run_unchanged fun m hm => ?_
  rcases List.mem_append.mp hm with hm | hm
  · exact ⟨_, Turn.run_eq (.execRejected (A.execs_kind m hm) rfl (hsize m hm))⟩
  · obtain rfl := List.mem_singleton.mp hm
    exact ⟨_, Turn.run_eq (.flushPlain A.flush_kind ho)⟩

/-- A session `B` that follows a completed session `A` continues it. Its Init is answered with
`ApuExecOK` and changes nothing, and its other messages are answered as they are right after `A`
without that Init. The results are those for the settings of `A`'s Init, while at boot they are
those for the settings of `B`'s. `A` leaves no trace when there is no Ogg, both Inits have the same
settings, and `A` has had no frame of the expected size. -/
theorem session_continues (A B : Session) (hA : (run (handle b) A.messages boot).halt = none) :
    run (handle b) B.messages (after b A) = (run (handle b) B.body (after b A)).push
        (B.init.reply { com_param := B.init.answer .ApuExecOK }) ∧
      (run (handle b) B.messages (after b A)).replies.map Reply.exec_result <+:
        B.messages.map (Message.resultFor (b.packageSize A.init)) ∧
      (run (handle b) B.messages boot).replies.map Reply.exec_result <+:
        B.messages.map (Message.resultFor (b.packageSize B.init)) ∧
      (b.useOgg = false →
        A.init.com_param.init_enc_cmd.settings = B.init.com_param.init_enc_cmd.settings →
        (∀ m ∈ A.execs, m.execCmd.input_buffer.size ≠ b.packageSize A.init) →
        run (handle b) B.messages (after b A) = run (handle b) B.messages boot) := by
  have hopen := openWith_after b hA
  have hagain : (handle b B.init).run (after b A) =
      .ok (B.init.reply { com_param := B.init.answer .ApuExecOK }) (after b A) :=
    Turn.run_eq (.initAgain B.init_kind hopen.1)
  refine ⟨run_cons_ok hagain, results_of_openWith b hopen B.messages, results_at_boot b B, ?_⟩
  -- `A` has left what its Init has left, and the Init of `B` would have left the same.
  intro ho hcfg hsize
  have hcreated : b.created B.init = b.created A.init := by
    unfold Build.created
    rw [hcfg]
  unfold Session.messages
  rw [run_cons_ok hagain, run_cons_ok (initPlain_boot b ho B.init_kind), hcreated,
    after_eq_of_rejected b ho hsize]

end Sessions

/-- A session for 16 kHz without any frame. -/
def narrowSession : Session where
  init := initMessage 1 16000 5
  execs := []
  flush := monoFlush
  init_kind := kind_initMessage _ _ _
  execs_kind := by simp
  flush_kind := kind_monoFlush

/-- A session for 48 kHz with one frame of 20 ms. -/
def wideSession : Session where
  init := monoInit
  execs := [monoExec]
  flush := monoFlush
  init_kind := kind_monoInit
  execs_kind := by simp
  flush_kind := kind_monoFlush

/-- After the session for 16 kHz the frame of the session for 48 kHz is refused. -/
theorem session_continues_wide :
    (run (handle plainBuild) wideSession.messages (after plainBuild narrowSession)).replies.map
        Reply.exec_result <+: [some .ApuExecOK, some .ApuWarning, some .ApuExecOK] := by
  have hmap : wideSession.messages.map
      (Message.resultFor (plainBuild.packageSize narrowSession.init)) =
      [some .ApuExecOK, some .ApuWarning, some .ApuExecOK] := by decide
  rw [← hmap]
  exact (session_continues plainBuild narrowSession wideSession (by decide)).2.1

/-- Two sessions with valid settings, the second of which gets other results after the first than
it gets at boot. -/
theorem exists_session_influenced :
    ∃ A B : Session, plainBuild.Creates A.init ∧ plainBuild.Creates B.init ∧
      (run (handle plainBuild) A.messages boot).halt = none ∧
      (run (handle plainBuild) B.messages (after plainBuild A)).replies.map Reply.exec_result ≠
        (run (handle plainBuild) B.messages boot).replies.map Reply.exec_result := by
  refine ⟨narrowSession, wideSession, ?_, ?_, by decide, ?_⟩
  · unfold Build.Creates
    decide
  · unfold Build.Creates
    decide
  · decide +kernel

end SpresenseOpus.Worker
