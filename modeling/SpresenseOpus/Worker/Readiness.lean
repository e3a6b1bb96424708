import SpresenseOpus.Worker.Peer

/-!
# Which Execs find an encoder

Only the first Init of a run is executed, behind the flag `initialized`. `Linked` ties the flag and
the encoder to the messages received so far, and is kept by every turn (`linked_run`). It says
which Execs find an encoder that is ready: those that come after an Init, where the first Init has
been one for which `opus_encoder_create` succeeds (`encoderReady_iff_opened`). The Exec branch does
not look at the flag, and the constructor only logs a failed creation, so that nothing stops the
other Execs (`safeExecs_iff_opened`).
-/

namespace SpresenseOpus.Worker

open Machine

/-- The first Init of a list of messages, the only one that the worker executes. -/
def firstInit (ms : List Message) : Option Message := ms.find? fun m => m.kind = .init

/-- Once there is an Init, later messages do not change which one is the first. -/
theorem firstInit_append_of_some {ms : List Message} {i : Message} (h : firstInit ms = some i)
    (ns : List Message) : firstInit (ms ++ ns) = some i := by
  unfold firstInit at h ⊢
  rw [List.find?_append, h, Option.some_or]

/-- A message that is not an Init does not change which one is the first. -/
theorem firstInit_append_of_ne {m : Message} (h : m.kind ≠ .init) (ms : List Message) :
    firstInit (ms ++ [m]) = firstInit ms := by
  simp [firstInit, List.find?_append, h]

/-- Nor does a further Init. -/
theorem firstInit_append_of_isSome {m : Message} {ms : List Message}
    (h : m.kind = .init → (firstInit ms).isSome) : firstInit (ms ++ [m]) = firstInit ms := by
  by_cases hk : m.kind = .init
  · obtain ⟨i, hi⟩ := Option.isSome_iff_exists.mp (h hk)
    rw [hi, firstInit_append_of_some hi]
  · exact firstInit_append_of_ne hk ms

/-- An Init after none is the first one. -/
theorem firstInit_append_of_none {ms : List Message} {m : Message} (h : firstInit ms = none)
    (hm : m.kind = .init) : firstInit (ms ++ [m]) = some m := by
  unfold firstInit at h ⊢
  rw [List.find?_append, h, Option.none_or]
  simp [hm]

section Readiness

variable {ε σ : Type} (b : Build ε σ)

/-- `opus_encoder_create` succeeds on the settings of an Init. -/
def Build.Creates (i : Message) : Prop :=
  (createEncoder b.opus i.com_param.init_enc_cmd.settings).isSome

/-- What the messages so far say about the flag and the encoder: before any Init there is none,
and after it there is the one that the first Init has made, with its settings. -/
structure Linked (ms : List Message) (w : Globals ε σ) : Prop where
  initialized : w.initialized = (firstInit ms).isSome
  none : firstInit ms = none → w.opusEncoder = none
  some : ∀ i, firstInit ms = some i → ∃ e, w.opusEncoder = some e ∧
    e.cfg = i.com_param.init_enc_cmd.settings ∧ (e.enc.isSome ↔ b.Creates i)

variable {b}

/-- As long as the flag is not set, there has not been any Init. -/
theorem Linked.firstInit_none {ms : List Message} {w : Globals ε σ} (h : Linked b ms w)
    (hi : w.initialized = false) : firstInit ms = .none := by
  rw [← Option.isNone_iff_eq_none, ← Option.not_isSome, ← h.initialized, hi]
  rfl

/-- The encoder of a state is the one of the first Init. -/
theorem Linked.encoder {ms : List Message} {w : Globals ε σ} (h : Linked b ms w) {i : Message}
    (hi : firstInit ms = .some i) {e : OpusAudioEncoder ε} (he : w.opusEncoder = .some e) :
    e.cfg = i.com_param.init_enc_cmd.settings ∧ (e.enc.isSome ↔ b.Creates i) := by
  obtain ⟨e₀, he₀, hcfg, hcreates⟩ := h.some i hi
  obtain rfl : e = e₀ := Option.some.inj (he.symm.trans he₀)
  exact ⟨hcfg, hcreates⟩

/-- What an answered message does to the flag and the encoder: nothing, or it is the Init that
creates the encoder, or an Exec that takes the handle to its next state. -/
theorem Turn.encoder {w w' : Globals ε σ} {m : Message} {r : Reply}
    (ht : Turn b w m (.ok r w')) :
    ((m.kind = .init → w.initialized = true) ∧ w'.initialized = w.initialized ∧
        w'.opusEncoder = w.opusEncoder) ∨
      (m.kind = .init ∧ w.initialized = false ∧ w'.initialized = true ∧
        w'.opusEncoder = some (b.created m)) ∨
      (m.kind = .exec ∧ w'.initialized = w.initialized ∧ ∃ e enc enc', w.opusEncoder = some e ∧
        e.enc = some enc ∧ w'.opusEncoder = some { e with enc := some enc' }) := by
  cases ht with
  | value hk => exact .inl ⟨by simp [hk], rfl, rfl⟩
  | other hk => exact .inl ⟨by simp [hk], rfl, rfl⟩
  | initAgain hk hi => exact .inl ⟨fun _ => hi, rfl, rfl⟩
  | initPlain hk hi ho => exact .inr (.inl ⟨hk, hi, rfl, rfl⟩)
  | initOgg hk hi ho hh => exact .inr (.inl ⟨hk, hi, rfl, rfl⟩)
  | execRejected hk he hsize => exact .inl ⟨by simp [hk], rfl, rfl⟩
  | execPlain hk he hsize hch henc ho =>
    exact .inr (.inr ⟨hk, rfl, _, _, _, he, henc, rfl⟩)
  | execOgg hk he hsize hch henc ho ha =>
    exact .inr (.inr ⟨hk, rfl, _, _, _, he, henc, rfl⟩)
  | flushPlain hk ho => exact .inl ⟨by simp [hk], rfl, rfl⟩
  | flushOgg hk ho hf => exact .inl ⟨by simp [hk], rfl, rfl⟩

/-- An answered message keeps the link. -/
theorem linked_step {ms : List Message} {w w' : Globals ε σ} {m : Message} {r : Reply}
    (h : Linked b ms w) (hrun : (handle b m).run w = .ok r w') : Linked b (ms ++ [m]) w' := by
  have ht := Turn.of_run hrun
  rcases ht.encoder with ⟨hm, hi, he⟩ | ⟨hm, hi, hi', he'⟩ | ⟨hm, hi, e, enc, enc', he, henc, he'⟩
  · -- The message is not the first Init, so that the first one stays the same.
    have hfirst : firstInit (ms ++ [m]) = firstInit ms :=
      firstInit_append_of_isSome fun hk => h.initialized ▸ hm hk
    refine ⟨?_, ?_, ?_⟩
    · rw [hfirst, hi]; exact h.initialized
    · rw [hfirst, he]; exact h.none
    · rw [hfirst, he]; exact h.some
  · -- The message is the first Init.
    have hfirst := firstInit_append_of_none (h.firstInit_none hi) hm
    refine ⟨by rw [hfirst, hi']; rfl, by simp [hfirst], fun i hi => ?_⟩
    obtain rfl : m = i := Option.some.inj (hfirst.symm.trans hi)
    exact ⟨_, he', rfl, Iff.rfl⟩
  · -- The message is an Exec that has called `opus_encode`.
    have hfirst : firstInit (ms ++ [m]) = firstInit ms :=
      firstInit_append_of_ne (by simp [hm]) ms
    refine ⟨by rw [hfirst, hi]; exact h.initialized, fun hn => ?_, fun i hi => ?_⟩
    · rw [hfirst] at hn
      rw [h.none hn] at he
      exact absurd he (by simp)
    · rw [hfirst] at hi
      obtain ⟨hcfg, hcreates⟩ := h.encoder hi he
      rw [henc] at hcreates
      exact ⟨_, he', hcfg, by simpa using hcreates⟩

variable (b)

/-- The flag and the encoder are linked to the messages of every run that does not stop. -/
theorem linked_run (ms : List Message) (h : (run (handle b) ms boot).halt = none) :
    Linked b ms (run (handle b) ms boot).state := by
  have hboot : Linked b [] (boot : Globals ε σ) :=
    ⟨rfl, fun _ => rfl, fun i hi => by simp [firstInit] at hi⟩
  exact run_history_invariant (P := fun ns _ w => Linked b ns w)
    (fun ns _ m w r w' hl hrun => linked_step hl hrun) ms [] [] boot hboot h

/-- There is an encoder, its handle was created, and it has a channel. -/
def EncoderReady (w : Globals ε σ) : Prop :=
  ∃ e enc, w.opusEncoder = some e ∧ e.enc = some enc ∧ 1 ≤ e.cfg.channels

variable {b}

/-- When the encoder is ready, the pointer to it is not null. -/
theorem EncoderReady.opusEncoder_ne_none {w : Globals ε σ} (h : EncoderReady w) :
    w.opusEncoder ≠ none := by
  obtain ⟨e, enc, he, -⟩ := h
  simp [he]

/-- When the encoder is ready, its channel count can be divided by. -/
theorem EncoderReady.channels_ne_zero {w : Globals ε σ} (h : EncoderReady w)
    {e : OpusAudioEncoder ε} (he : w.opusEncoder = some e) : e.cfg.channels ≠ 0 := by
  obtain ⟨e₀, enc, he₀, -, hpos⟩ := h
  obtain rfl := Option.some.inj (he.symm.trans he₀)
  intro hzero
  rw [hzero] at hpos
  exact absurd hpos (by decide)

/-- When the encoder is ready, it has a handle. -/
theorem EncoderReady.enc_ne_none {w : Globals ε σ} (h : EncoderReady w)
    {e : OpusAudioEncoder ε} (he : w.opusEncoder = some e) : e.enc ≠ none := by
  obtain ⟨e₀, enc, he₀, henc, -⟩ := h
  obtain rfl := Option.some.inj (he.symm.trans he₀)
  simp [henc]

variable (b)

/-- There is an Init among the messages, and the first one creates an encoder. -/
def Opened (ms : List Message) : Prop := ∃ i, firstInit ms = some i ∧ b.Creates i

/-- After messages that do not stop the worker, the encoder is ready exactly when they open it. -/
theorem encoderReady_iff_opened {ms : List Message} (h : (run (handle b) ms boot).halt = none) :
    EncoderReady (run (handle b) ms boot).state ↔ Opened b ms := by
  have hlink := linked_run b ms h
  constructor
  · -- Without an Init there is no encoder at all.
    rintro ⟨e, enc, he, henc, -⟩
    cases hfirst : firstInit ms with
    | none =>
      rw [hlink.none hfirst] at he
      exact absurd he (by simp)
    | some i =>
      exact ⟨i, hfirst, (hlink.encoder hfirst he).2.mp (by simp [henc])⟩
  · -- A handle is only created for settings with a channel.
    rintro ⟨i, hfirst, hi⟩
    obtain ⟨e, he, hcfg, hcreates⟩ := hlink.some i hfirst
    obtain ⟨enc, henc⟩ := Option.isSome_iff_exists.mp (hcreates.mpr hi)
    obtain ⟨enc₀, henc₀⟩ := Option.isSome_iff_exists.mp hi
    refine ⟨e, enc, he, henc, ?_⟩
    rw [hcfg]
    rcases createEncoder_channels b.opus henc₀ with hch | hch
    · rw [hch]; decide
    · rw [hch]; decide

/-- What is asked of an Exec that is taken in a state. It evaluates `getExpectedPackageSize`, as
every Exec does, so the encoder has to be ready; then it can only be held up by a drain loop; and
where the encoder is not ready the Exec has to be answered with a result that says so. -/
structure SafeExec (w : Globals ε σ) (m : Message) : Prop where
  ready : EncoderReady w
  no_fault : ∀ e w', (handle b m).run w = .error e w' → e = .outOfFuel
  refused : ¬ EncoderReady w → ∃ h w', (handle b m).run w = .ok (m.reply h) w' ∧
    h.exec_result ≠ .ApuExecOK

/-- With an encoder that is ready, an Exec is safe. -/
theorem safeExec_of_ready {w : Globals ε σ} {m : Message} (hm : m.kind = .exec)
    (h : EncoderReady w) : SafeExec b w m := by
  refine ⟨h, fun x w' hrun => ?_, fun hn => absurd h hn⟩
  cases Turn.of_run hrun with
  | initHung hk => simp [hk] at hm
  | execNull _ he => exact absurd he h.opusEncoder_ne_none
  | execZeroChannels _ he _ hch => exact absurd hch (h.channels_ne_zero he)
  | execFailedHandle _ he _ _ henc => exact absurd henc (h.enc_ne_none he)
  | execHung _ _ _ _ _ _ ha => exact feedAndDrain_halt b.oggz ha
  | flushHung hk => simp [hk] at hm

/-- In a run of the worker from boot, over messages of any kind, order and parameters, all Execs
that it takes are safe if and only if each of them comes after an Init and the first Init creates
an encoder. -/
theorem safeExecs_iff_opened (ms : List Message) :
    (∀ v ∈ visits (handle b) ms boot, v.2.kind = .exec → SafeExec b v.1 v.2) ↔
      ∀ pre m post, ms = pre ++ m :: post → m.kind = .exec →
        (run (handle b) pre boot).halt = none → Opened b pre := by
  constructor
  · rintro hsafe pre m post rfl hm hh
    have hv : ((run (handle b) pre boot).state, m) ∈ visits (handle b) (pre ++ m :: post) boot :=
      mem_visits_iff.mpr ⟨pre, post, rfl, hh, rfl⟩
    exact (encoderReady_iff_opened b hh).mp (hsafe _ hv hm).ready
  · rintro hopened ⟨w, m⟩ hv hm
    obtain ⟨pre, post, hms, hh, rfl⟩ := mem_visits_iff.mp hv
    have hready := (encoderReady_iff_opened b hh).mpr (hopened pre m post hms hm hh)
    exact safeExec_of_ready b hm hready

end Readiness

/-- An Exec that comes first reads through the null pointer that boot leaves. -/
theorem exists_not_safeExec :
    ∃ v ∈ visits (handle plainBuild) [monoExec] boot, v.2.kind = .exec ∧
      (handle plainBuild v.2).run v.1 = .error .nullEncoder v.1 ∧
      ¬ SafeExec plainBuild v.1 v.2 := by
  refine ⟨(boot, monoExec), List.mem_cons_self, kind_monoExec,
    Turn.run_eq (.execNull kind_monoExec rfl), fun h => ?_⟩
  obtain ⟨e, enc, he, -⟩ := h.ready
  exact absurd he (by simp [boot])

end SpresenseOpus.Worker
