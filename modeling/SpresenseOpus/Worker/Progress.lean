import Mathlib.Data.List.Induction
import SpresenseOpus.Worker.Grammar

/-!
# Which messages the worker answers

The worker stops for good at an Exec without an encoder to look at, at a frame for an encoder that
could not be created, and in a drain loop that has a null handle. `Answerable` says of a message
after others that it meets none of these, by the messages alone. With a liboggz that drains, the
worker answers all messages of a run, given enough iterations, exactly when each of them is
answerable (`answersAll_iff_answerable`). So a Flush before the first Init is the end of a worker
with Ogg, and nothing to one without it, and an Init that fails to create an encoder only shows when
a frame of its size comes.
-/

namespace SpresenseOpus.Worker

open Filter Machine

section Progress

variable {ε σ : Type} (b : Build ε σ)

/-- The build with other iterations for its drain loops. -/
def Build.withFuel (fuel : ℕ) : Build ε σ := { b with fuel }

/-- `m` can be answered after the messages `ms`: the first Init gets a handle for its stream, an
Exec comes after an Init, which has created an encoder if the Exec has a frame of its size, and a
Flush of a stream comes after an Init. -/
structure Answerable (ms : List Message) (m : Message) : Prop where
  init : m.kind = .init → firstInit ms = none → b.useOgg = true → b.oggz.new ≠ none
  exec : m.kind = .exec → ∃ i, firstInit ms = some i ∧
    (m.execCmd.input_buffer.size = b.packageSize i → b.Creates i)
  flush : m.kind = .flush → b.useOgg = true → (firstInit ms).isSome

/-- Every message of a list can be answered after those in front of it. -/
def AllAnswerable (ms : List Message) : Prop :=
  ∀ pre m post, ms = pre ++ m :: post → Answerable b pre m

/-- The worker answers all messages, if its drain loops are granted enough iterations. -/
def AnswersAll (ms : List Message) : Prop :=
  ∀ᶠ fuel in atTop, (run (handle (b.withFuel fuel)) ms boot).halt = none

/-- What there is before a message: the link to the messages so far, and a handle for the stream
once it has begun. -/
structure Ready (ms : List Message) (w : Globals ε σ) : Prop where
  linked : Linked b ms w
  stream : b.useOgg = true → (firstInit ms).isSome → w.ogg.oggz.isSome

variable {b}

/-! ## A message that is answered is answerable -/

/-- Header pages with a null handle do not return. -/
theorem headers_null {m : Message} {g g' : Ogg σ} (hnew : b.oggz.new = none) :
    b.headers m g ≠ .ok () g' := by
  have hnull : (b.begun g).oggz = none := by
    unfold Build.begun
    rw [hnew]
  obtain ⟨g₁, hhead, -⟩ := feedAndDrain_null b.oggz b.fuel
    (headPacket m.com_param.init_enc_cmd.settings.channels
      m.com_param.init_enc_cmd.settings.sample_rate) 0 hnull
  unfold Build.headers oggWriteHeaderPage
  rw [EStateM.run_bind, hhead]
  simp

/-- A message that is answered is answerable. -/
theorem answerable_of_run {ms : List Message} {w w' : Globals ε σ} {m : Message} {r : Reply}
    (hl : Linked b ms w) (hnull : b.useOgg = true → firstInit ms = none → w.ogg.oggz = none)
    (hrun : (handle b m).run w = .ok r w') : Answerable b ms m := by
  refine ⟨fun hk hfirst ho hnew => ?_, fun hk => ?_, fun hk ho => ?_⟩
  · rcases ((Turn.of_run hrun).of_init hk).2 with ⟨hi, -⟩ | ⟨-, -, -, hheaders⟩
    · rw [hl.initialized, hfirst] at hi
      exact absurd hi (by simp)
    · exact headers_null hnew (hheaders ho)
  · -- An Exec is answered by its encoder, which the first Init has made.
    have hencoder : ∀ {e : OpusAudioEncoder ε}, w.opusEncoder = some e →
        (m.execCmd.input_buffer.size = e.getExpectedPackageSize → e.enc.isSome) →
        ∃ i, firstInit ms = some i ∧
          (m.execCmd.input_buffer.size = b.packageSize i → b.Creates i) := by
      intro e he henc
      cases hfirst : firstInit ms with
      | none =>
        rw [hl.none hfirst] at he
        exact absurd he (by simp)
      | some i =>
        obtain ⟨hcfg, hcreates⟩ := hl.encoder hfirst he
        rw [getExpectedPackageSize_eq hcfg] at henc
        exact ⟨i, rfl, fun hsize => hcreates.mp (henc hsize)⟩
    cases Turn.of_run hrun with
    | execRejected _ he hsize => exact hencoder he fun h => absurd h hsize
    | execPlain _ he _ _ henc => exact hencoder he fun _ => by simp [henc]
    | execOgg _ he _ _ henc => exact hencoder he fun _ => by simp [henc]
    | value hk' => simp [hk] at hk'
    | other hk' => simp [hk] at hk'
    | initAgain hk' => simp [hk] at hk'
    | initPlain hk' => simp [hk] at hk'
    | initOgg hk' => simp [hk] at hk'
    | flushPlain hk' => simp [hk] at hk'
    | flushOgg hk' => simp [hk] at hk'
  · by_contra hnone
    rw [Option.not_isSome_iff_eq_none] at hnone
    exact flush_null ho hk (hnull ho hnone) hrun

/-- The messages of a run that does not stop are answerable. -/
theorem allAnswerable_of_run {ms : List Message} (h : (run (handle b) ms boot).halt = none) :
    AllAnswerable b ms := by
  rintro pre m post rfl
  have hall : (run (handle b) (pre ++ [m] ++ post) boot).halt = none := by simpa using h
  have hone := halt_of_append hall
  have hpre := halt_of_append hone
  cases hm : (handle b m).run (run (handle b) pre boot).state with
  | ok r w' =>
    exact answerable_of_run (linked_run b pre hpre)
      (fun ho hfirst => ((fed_run b ho hpre).none hfirst).2) hm
  | error e w' =>
    rw [run_append [m] pre boot hpre, run_cons_error hm] at hone
    exact absurd hone (by simp)

/-! ## An answerable message is answered -/

/-- The messages have a first Init, or this one is it. -/
theorem Ready.of_ok {ms : List Message} {w w' : Globals ε σ} {m : Message} {r : Reply} {fuel : ℕ}
    (h : Ready b ms w) (hrun : (handle (b.withFuel fuel) m).run w = .ok r w')
    (hhandle : b.useOgg = true → (m.kind = .init ∨ (firstInit ms).isSome) →
      w'.ogg.oggz.isSome) : Ready b (ms ++ [m]) w' := by
  have hl : Linked (b.withFuel fuel) ms w := ⟨h.linked.initialized, h.linked.none, h.linked.some⟩
  have hl' := linked_step hl hrun
  refine ⟨⟨hl'.initialized, hl'.none, hl'.some⟩, fun ho hsome => hhandle ho ?_⟩
  by_cases hk : m.kind = .init
  · exact .inl hk
  · rw [firstInit_append_of_ne hk] at hsome
    exact .inr hsome

/-- A message that is answered at once. -/
theorem eventually_of_turn {ms : List Message} {w w' : Globals ε σ} {m : Message} {r : Reply}
    (h : Ready b ms w) (ht : ∀ fuel, Turn (b.withFuel fuel) w m (.ok r w'))
    (hhandle : b.useOgg = true → (m.kind = .init ∨ (firstInit ms).isSome) →
      w'.ogg.oggz.isSome) :
    ∃ r w', Ready b (ms ++ [m]) w' ∧
      ∀ᶠ fuel in atTop, (handle (b.withFuel fuel) m).run w = .ok r w' :=
  ⟨r, w', h.of_ok (ht 0).run_eq hhandle, Eventually.of_forall fun fuel => (ht fuel).run_eq⟩

/-- A message that is answered when its page writer returns. -/
theorem eventually_of_page {ms : List Message} {w : Globals ε σ} {m : Message}
    (h : Ready b ms w) {page : ℕ → EStateM.Result Halt (Ogg σ) Unit} {g : Ogg σ}
    (hpage : ∀ᶠ fuel in atTop, page fuel = .ok () g) {r : Reply} {w' : Globals ε σ}
    (ht : ∀ fuel, page fuel = .ok () g → Turn (b.withFuel fuel) w m (.ok r w'))
    (hhandle : w'.ogg.oggz.isSome) :
    ∃ r w', Ready b (ms ++ [m]) w' ∧
      ∀ᶠ fuel in atTop, (handle (b.withFuel fuel) m).run w = .ok r w' := by
  have hev : ∀ᶠ fuel in atTop, (handle (b.withFuel fuel) m).run w = .ok r w' :=
    hpage.mono fun fuel hfuel => (ht fuel hfuel).run_eq
  obtain ⟨fuel, hrun⟩ := hev.exists
  exact ⟨_, _, h.of_ok hrun fun _ _ => hhandle, hev⟩

/-- An answerable Init is answered. -/
theorem eventually_init (hdrain : b.useOgg = true → ∀ o, Drains b.oggz o) {ms : List Message}
    {w : Globals ε σ} {m : Message} (h : Ready b ms w) (hm : Answerable b ms m)
    (hk : m.kind = .init) :
    ∃ r w', Ready b (ms ++ [m]) w' ∧
      ∀ᶠ fuel in atTop, (handle (b.withFuel fuel) m).run w = .ok r w' := by
  cases hi : w.initialized with
  | true =>
    refine eventually_of_turn h (fun _ => .initAgain hk hi) fun ho _ => h.stream ho ?_
    rw [← h.linked.initialized, hi]
  | false =>
    have hfirst := h.linked.firstInit_none hi
    cases ho : b.useOgg with
    | false =>
      have ht : ∀ fuel, Turn (b.withFuel fuel) w m (.ok
          (m.reply { com_param := m.answer .ApuExecOK })
          { w with opusEncoder := some (b.created m), initialized := true }) :=
        fun fuel => .initPlain (b := b.withFuel fuel) hk hi ho
      exact eventually_of_turn h ht fun hogg => absurd hogg (by simp [ho])
    | true =>
      -- The first Init has a handle, so that its header pages are drained.
      obtain ⟨o, hnew⟩ := Option.ne_none_iff_exists'.mp (hm.init hk hfirst ho)
      have hbegun : (b.begun w.ogg).oggz.isSome := by
        unfold Build.begun
        rw [hnew]
        rfl
      obtain ⟨g, hg, hev⟩ := oggWriteHeaderPage_eventually (hdrain ho)
        m.com_param.init_enc_cmd.settings.channels m.com_param.init_enc_cmd.settings.sample_rate
        hbegun
      have ht : ∀ fuel, (b.withFuel fuel).headers m w.ogg = .ok () g →
          Turn (b.withFuel fuel) w m (.ok (m.reply { com_param := m.answer .ApuExecOK })
            { w with opusEncoder := some (b.created m), ogg := g, initialized := true }) :=
        fun fuel => .initOgg (b := b.withFuel fuel) hk hi ho
      exact eventually_of_page h hev ht (hg.handle.trans hbegun)

/-- An answerable Exec is answered. -/
theorem eventually_exec (hdrain : b.useOgg = true → ∀ o, Drains b.oggz o) {ms : List Message}
    {w : Globals ε σ} {m : Message} (h : Ready b ms w) (hm : Answerable b ms m)
    (hk : m.kind = .exec) :
    ∃ r w', Ready b (ms ++ [m]) w' ∧
      ∀ᶠ fuel in atTop, (handle (b.withFuel fuel) m).run w = .ok r w' := by
  obtain ⟨i, hfirst, hcreates⟩ := hm.exec hk
  obtain ⟨e, he, hcfg, hiff⟩ := h.linked.some i hfirst
  have hhandle : b.useOgg = true → w.ogg.oggz.isSome := fun ho => h.stream ho (by simp [hfirst])
  by_cases hsize : m.execCmd.input_buffer.size = e.getExpectedPackageSize
  · -- A frame of the expected size has an encoder with a channel.
    have hi := hcreates (hsize.trans (getExpectedPackageSize_eq hcfg))
    obtain ⟨enc, henc⟩ := Option.isSome_iff_exists.mp (hiff.mpr hi)
    obtain ⟨enc₀, henc₀⟩ := Option.isSome_iff_exists.mp hi
    have hch : e.cfg.channels ≠ 0 := by
      rw [hcfg]
      rcases createEncoder_channels b.opus henc₀ with hone | htwo
      · rw [hone]
        decide
      · rw [htwo]
        decide
    cases ho : b.useOgg with
    | false =>
      have ht : ∀ fuel, Turn (b.withFuel fuel) w m (.ok (m.reply {
            com_param := m.answer .ApuExecOK
            encoded := some ⟨m.execCmd.output_buffer.p_buffer, (b.result (m.call e enc)).data⟩
            local_size := some (b.result (m.call e enc)).len.toUInt32 })
          (b.encoded m e enc w)) :=
        fun fuel => .execPlain (b := b.withFuel fuel) hk he hsize hch henc ho
      exact eventually_of_turn h ht fun hogg => absurd hogg (by simp [ho])
    | true =>
      obtain ⟨g, hg, hev⟩ := feedAndDrain_eventually (hdrain ho)
        (audioPacket (b.result (m.call e enc)).data (b.result (m.call e enc)).len.toInt
          (w.posAfter m e).toInt32) 0 (hhandle ho)
      have ht : ∀ fuel, (b.withFuel fuel).audioPage m e enc w = .ok () g →
          Turn (b.withFuel fuel) w m (.ok (m.reply {
              com_param := m.answer .ApuExecOK
              encoded := some ⟨m.execCmd.output_buffer.p_buffer, (b.result (m.call e enc)).data⟩
              copied := some ⟨m.execCmd.output_buffer.p_buffer, g.sink⟩
              local_size := some (UInt32.ofNat g.sink.length) })
            { b.encoded m e enc w with
              posInSamples := w.posAfter m e, ogg := { g with sink := [] } }) :=
        fun fuel => .execOgg (b := b.withFuel fuel) hk he hsize hch henc ho
      exact eventually_of_page h hev ht (hg.handle.trans (hhandle ho))
  · exact eventually_of_turn h (fun _ => .execRejected hk he hsize) fun ho _ => hhandle ho

/-- An answerable message is answered, with enough iterations. -/
theorem eventually_handle (hdrain : b.useOgg = true → ∀ o, Drains b.oggz o) {ms : List Message}
    {w : Globals ε σ} {m : Message} (h : Ready b ms w) (hm : Answerable b ms m) :
    ∃ r w', Ready b (ms ++ [m]) w' ∧
      ∀ᶠ fuel in atTop, (handle (b.withFuel fuel) m).run w = .ok r w' := by
  cases hk : m.kind with
  | value =>
    exact eventually_of_turn h (fun _ => .value hk) fun ho hi =>
      h.stream ho (by simpa [hk] using hi)
  | other =>
    exact eventually_of_turn h (fun _ => .other hk) fun ho hi =>
      h.stream ho (by simpa [hk] using hi)
  | init => exact eventually_init hdrain h hm hk
  | exec => exact eventually_exec hdrain h hm hk
  | flush =>
    cases ho : b.useOgg with
    | false =>
      exact eventually_of_turn h (fun _ => .flushPlain hk ho) fun hogg => absurd hogg (by simp [ho])
    | true =>
      have hsome := h.stream ho (hm.flush hk ho)
      obtain ⟨g, hg, hev⟩ := feedAndDrain_eventually (hdrain ho) footerPacket OGGZ_FLUSH_AFTER hsome
      have ht : ∀ fuel, (b.withFuel fuel).footerPage w.ogg = .ok () g →
          Turn (b.withFuel fuel) w m (.ok (m.reply {
              com_param := m.answer .ApuExecOK
              copied := some ⟨m.com_param.flush_enc_cmd.output_buffer.p_buffer, g.sink⟩
              local_size := some (UInt32.ofNat g.sink.length) })
            { w with ogg := { g with sink := [] } }) :=
        fun fuel => .flushOgg (b := b.withFuel fuel) hk ho
      exact eventually_of_page h hev ht (hg.handle.trans hsome)

/-- Answerable messages are all answered, with enough iterations. -/
theorem eventually_run (hdrain : b.useOgg = true → ∀ o, Drains b.oggz o) {ms : List Message}
    (h : AllAnswerable b ms) :
    ∃ w, Ready b ms w ∧ ∀ᶠ fuel in atTop, (run (handle (b.withFuel fuel)) ms boot).halt = none ∧
      (run (handle (b.withFuel fuel)) ms boot).state = w := by
  induction ms using List.reverseRecOn with
  | nil =>
    exact ⟨boot, ⟨linked_run b [] rfl, fun _ hsome => absurd hsome (by simp [firstInit])⟩,
      Eventually.of_forall fun _ => ⟨rfl, rfl⟩⟩
  | append_singleton ms m ih =>
    have hpre : AllAnswerable b ms := by
      rintro pre m' post rfl
      exact h pre m' (post ++ [m]) (by simp)
    obtain ⟨w, hready, hev⟩ := ih hpre
    obtain ⟨r, w', hready', hev'⟩ := eventually_handle hdrain hready (h ms m [] rfl)
    refine ⟨w', hready', ?_⟩
    filter_upwards [hev, hev'] with fuel hrun hm
    obtain ⟨hhalt, rfl⟩ := hrun
    rw [run_append [m] ms boot hhalt, run_cons_ok hm]
    exact ⟨rfl, rfl⟩

variable (b) in
/-- For every list of messages and a liboggz that drains: the worker answers all of them, with
enough iterations for its drain loops, if and only if each of them is answerable after those in
front of it. -/
theorem answersAll_iff_answerable (hdrain : b.useOgg = true → ∀ o, Drains b.oggz o)
    (ms : List Message) : AnswersAll b ms ↔ AllAnswerable b ms := by
  constructor
  · intro h
    obtain ⟨fuel, hrun⟩ := h.exists
    intro pre m post hms
    have hanswerable := allAnswerable_of_run hrun pre m post hms
    exact ⟨hanswerable.init, hanswerable.exec, hanswerable.flush⟩
  · intro h
    obtain ⟨w, -, hev⟩ := eventually_run hdrain h
    exact hev.mono fun fuel hrun => hrun.1

end Progress

/-- A session with Ogg. -/
theorem answersAll_iff_answerable_session :
    AnswersAll oggBuild [monoInit, monoExec, monoFlush] ↔
      AllAnswerable oggBuild [monoInit, monoExec, monoFlush] :=
  answersAll_iff_answerable oggBuild (fun _ => drains_bareOggz) [monoInit, monoExec, monoFlush]

end SpresenseOpus.Worker
