import SpresenseOpus.Codec.OggStream
import SpresenseOpus.Worker.Sessions
import SpresenseOpus.Worker.Stream

/-!
# Which orders of messages keep the grammar of the stream

The worker keeps no record of whether a stream has begun or ended. An Init is executed once, but a
Flush feeds its packet in every state, and a frame of the expected size does so also after a Flush.
`Orderly` says which message may follow which messages, and the packets fed keep the grammar of an
Ogg stream in exactly the runs whose messages are orderly (`streamPrefix_iff_orderly`).
-/

namespace SpresenseOpus.Worker

open Machine

/-- There is a Flush among the messages. -/
def Flushed (ms : List Message) : Prop := ∃ f ∈ ms, f.kind = .flush

/-- A message that is not a Flush does not add one. -/
theorem flushed_append_of_ne {m : Message} (h : m.kind ≠ .flush) (ms : List Message) :
    Flushed (ms ++ [m]) ↔ Flushed ms := by
  unfold Flushed
  constructor
  · rintro ⟨f, hf, hk⟩
    rcases List.mem_append.mp hf with hf | hf
    · exact ⟨f, hf, hk⟩
    · rw [List.mem_singleton.mp hf] at hk
      exact absurd hk h
  · rintro ⟨f, hf, hk⟩
    exact ⟨f, List.mem_append_left _ hf, hk⟩

/-- A Flush adds one. -/
theorem flushed_append_of_flush {m : Message} (h : m.kind = .flush) (ms : List Message) :
    Flushed (ms ++ [m]) :=
  ⟨m, List.mem_append_right _ (List.mem_singleton_self m), h⟩

section Grammar

variable {ε σ : Type} (b : Build ε σ)

/-- `m` may follow the messages `ms`: a Flush comes after an Init, and after a Flush there is
neither another one nor a frame of the expected size. -/
structure Orderly (ms : List Message) (m : Message) : Prop where
  begun : m.kind = .flush → (firstInit ms).isSome
  ended : Flushed ms → m.kind ≠ .flush ∧ ∀ i, firstInit ms = some i → m.kind = .exec →
    m.execCmd.input_buffer.size ≠ b.packageSize i

/-- What the messages so far say about the stream, in any order: before an Init nothing is fed and
there is no handle, and after a Flush a packet has ended the stream. -/
structure Fed (ms : List Message) (g : Ogg σ) : Prop where
  none : firstInit ms = none → g.fed = [] ∧ g.oggz = none
  ended : Flushed ms → ∃ q ∈ g.fed, q.e_o_s = true

/-- What orderly messages say about the stream: it is open before the Flush and whole after it. -/
structure InGrammar (ms : List Message) (ps : List OggPacket) : Prop where
  none : firstInit ms = none → ps = [] ∧ ¬ Flushed ms
  opened : (firstInit ms).isSome → ¬ Flushed ms → IsOpen ps
  ended : Flushed ms → IsStream ps

/-- In each case the packets may have been fed of a stream. -/
theorem InGrammar.streamPrefix {ms : List Message} {ps : List OggPacket} (h : InGrammar ms ps) :
    StreamPrefix ps := by
  by_cases hf : Flushed ms
  · exact (h.ended hf).streamPrefix
  cases hi : firstInit ms with
  | none =>
    rw [(h.none hi).1]
    exact streamPrefix_nil
  | some i => exact (h.opened (by simp [hi]) hf).streamPrefix

variable {b}

/-- A Flush feeds the packet that ends the stream, whatever the state is. -/
theorem fed_of_flush (ho : b.useOgg = true) {m : Message} (hm : m.kind = .flush)
    (w : Globals ε σ) : (stateAfter ((handle b m).run w)).ogg.fed =
      w.ogg.fed ++ [footerPacket w.ogg.packetno] := by
  have hwrote := footerPage_wrote (b := b) w.ogg
  cases hf : b.footerPage w.ogg with
  | ok u g =>
    rw [hf] at hwrote
    rw [Turn.run_eq (.flushOgg hm ho hf)]
    exact hwrote.fed
  | error x g =>
    rw [hf] at hwrote
    rw [Turn.run_eq (.flushHung hm ho hf)]
    exact hwrote.fed

/-- A frame of the expected size feeds an audio packet, when the encoder is ready. -/
theorem fed_of_exec (ho : b.useOgg = true) {m : Message} (hm : m.kind = .exec) {w : Globals ε σ}
    (hready : EncoderReady w) (hsize : ∀ e, w.opusEncoder = some e →
      m.execCmd.input_buffer.size = e.getExpectedPackageSize) :
    ∃ p, (stateAfter ((handle b m).run w)).ogg.fed = w.ogg.fed ++ [p] := by
  have ⟨e, enc, he, henc, _⟩ := hready
  have hch := hready.channels_ne_zero he
  have hwrote := audioPage_wrote (b := b) w m e enc
  cases ha : b.audioPage m e enc w with
  | ok u g =>
    rw [ha] at hwrote
    rw [Turn.run_eq (.execOgg hm he (hsize e he) hch henc ho ha)]
    exact ⟨_, hwrote.fed⟩
  | error x g =>
    rw [ha] at hwrote
    rw [Turn.run_eq (.execHung hm he (hsize e he) hch henc ho ha)]
    exact ⟨_, hwrote.fed⟩

/-- A Flush with a null handle does not return. -/
theorem flush_null (ho : b.useOgg = true) {m : Message} (hm : m.kind = .flush) {w w' : Globals ε σ}
    {r : Reply} (hnull : w.ogg.oggz = none) : (handle b m).run w ≠ .ok r w' := by
  obtain ⟨g, hg, -⟩ := feedAndDrain_null b.oggz b.fuel footerPacket OGGZ_FLUSH_AFTER hnull
  have hhung : b.footerPage w.ogg = .error .outOfFuel g := hg
  rw [Turn.run_eq (.flushHung hm ho hhung)]
  simp

/-- A page comes after an Init, when there is no handle before one: an Exec would have no encoder,
and a Flush does not return. -/
theorem Feeds.exists_firstInit (ho : b.useOgg = true) {ms : List Message} {w w' : Globals ε σ}
    {m : Message} {p : OggPacket} {r : Reply} (hf : Feeds b w m p) (hl : Linked b ms w)
    (hnull : firstInit ms = none → w.ogg.oggz = none) (hrun : (handle b m).run w = .ok r w') :
    ∃ i, firstInit ms = some i := by
  rw [← Option.isSome_iff_exists]
  by_contra hnone
  rw [Option.not_isSome_iff_eq_none] at hnone
  rcases hf with ⟨hm, -⟩ | ⟨-, e, enc, he, -⟩
  · exact flush_null ho hm (hnull hnone) hrun
  · rw [hl.none hnone] at he
    exact absurd he (by simp)

/-- An answered message keeps what is known of the stream in any order of messages. -/
theorem fed_step (ho : b.useOgg = true) {ms : List Message} {w w' : Globals ε σ} {m : Message}
    {r : Reply} (hl : Linked b ms w) (h : Fed ms w.ogg) (hrun : (handle b m).run w = .ok r w') :
    Fed (ms ++ [m]) w'.ogg := by
  have ht := Turn.of_run hrun
  -- Before an Init, a message that is answered is quiet.
  have hnone : firstInit (ms ++ [m]) = none → m.kind ≠ .init ∧ firstInit ms = none := by
    intro hn
    have hm : m.kind ≠ .init := by
      intro hm
      simp [firstInit, List.find?_append, hm] at hn
    exact ⟨hm, firstInit_append_of_ne hm ms ▸ hn⟩
  rcases ht.stream_ok ho with ⟨hq, -, -, hg⟩ | ⟨hm, -, -, hw⟩ | ⟨p, g, hf, -, -, hw, hg⟩
  · rw [hg]
    exact ⟨fun hn => h.none (hnone hn).2,
      fun hf => h.ended ((flushed_append_of_ne hq.kind_ne_flush ms).mp hf)⟩
  · refine ⟨fun hn => absurd hm (hnone hn).1, fun hf => ?_⟩
    obtain ⟨q, hq, hend⟩ := h.ended ((flushed_append_of_ne (by simp [hm]) ms).mp hf)
    refine ⟨q, ?_, hend⟩
    rw [hw.fed, begun_fed]
    exact List.mem_append_left _ hq
  · have hfed : w'.ogg.fed = w.ogg.fed ++ [p] := by
      rw [hg]
      exact hw.fed
    refine ⟨fun hn => ?_, fun hflush => ?_⟩
    · obtain ⟨i, hi⟩ := hf.exists_firstInit ho hl (fun hn => (h.none hn).2) hrun
      rw [(hnone hn).2] at hi
      exact absurd hi (by simp)
    · rw [hfed]
      rcases hf with ⟨hm, rfl⟩ | ⟨hm, -⟩
      · exact ⟨_, List.mem_append_right _ (List.mem_singleton_self _), rfl⟩
      · obtain ⟨q, hq, hend⟩ := h.ended ((flushed_append_of_ne (by simp [hm]) ms).mp hflush)
        exact ⟨q, List.mem_append_left _ hq, hend⟩

/-- An orderly message that feeds a packet adds it to an open stream: an audio packet leaves the
stream open, and the packet of a Flush makes it whole. -/
theorem feeds_orderly {ms : List Message} {w : Globals ε σ} {m : Message} {p : OggPacket}
    (hl : Linked b ms w) (h : InGrammar ms w.ogg.fed) (hm : Orderly b ms m) (hf : Feeds b w m p) :
    (m.kind = .flush ∧ IsStream (w.ogg.fed ++ [p])) ∨
      (m.kind = .exec ∧ (firstInit ms).isSome ∧ ¬ Flushed ms ∧ IsOpen (w.ogg.fed ++ [p])) := by
  rcases hf with ⟨hk, rfl⟩ | ⟨hk, e, enc, he, henc, hsize, rfl⟩
  · -- A Flush comes after an Init and before any other Flush.
    have hopen := h.opened (hm.begun hk) fun hflushed => (hm.ended hflushed).1 hk
    exact .inl ⟨hk, _, _, rfl, hopen, isEnd_footerPacket _⟩
  · cases hi : firstInit ms with
    | none =>
      rw [hl.none hi] at he
      exact absurd he (by simp)
    | some i =>
      -- The encoder expects the frame size of the first Init, and so does `Orderly`.
      rw [getExpectedPackageSize_eq (hl.encoder hi he).1] at hsize
      have hflushed : ¬ Flushed ms := fun hflushed => (hm.ended hflushed).2 i hi hk hsize
      have hopen := h.opened (by simp [hi]) hflushed
      exact .inr ⟨hk, rfl, hflushed, hopen.append_audio (isAudio_audioPacket _ _ _ _)⟩

/-- An orderly message that is answered keeps the grammar. -/
theorem inGrammar_step (ho : b.useOgg = true) {ms : List Message} {w w' : Globals ε σ}
    {m : Message} {r : Reply} (hl : Linked b ms w) (h : InGrammar ms w.ogg.fed)
    (hm : Orderly b ms m) (hrun : (handle b m).run w = .ok r w') :
    InGrammar (ms ++ [m]) w'.ogg.fed := by
  have ht := Turn.of_run hrun
  rcases ht.stream_ok ho with ⟨hq, -, -, hg⟩ | ⟨hk, hi, -, hw⟩ | ⟨p, g, hf, -, -, hw, hg⟩
  · -- A quiet message changes neither the stream nor what is known of the messages.
    have hfirst := hq.firstInit_append hl
    rw [hg]
    refine ⟨?_, ?_, ?_⟩ <;> rw [flushed_append_of_ne hq.kind_ne_flush]
    · rw [hfirst]
      exact h.none
    · rw [hfirst]
      exact h.opened
    · exact h.ended
  · -- The first Init begins the stream.
    have hnone := hl.firstInit_none hi
    obtain ⟨hempty, hflushed⟩ := h.none hnone
    have hfed := hw.fed
    rw [begun_fed, hempty, List.nil_append] at hfed
    rw [hfed]
    refine ⟨?_, fun _ _ => isOpen_headers _ _ _ _, ?_⟩ <;>
      rw [flushed_append_of_ne (by simp [hk])]
    · rw [firstInit_append_of_none hnone hk]
      simp
    · exact fun hf => absurd hf hflushed
  · -- A page adds its packet.
    have hfed : w'.ogg.fed = w.ogg.fed ++ [p] := by
      rw [hg]
      exact hw.fed
    rw [hfed]
    rcases feeds_orderly hl h hm hf with ⟨hk, hstream⟩ | ⟨hk, hsome, hflushed, hopen⟩
    · have hfirst := firstInit_append_of_ne (m := m) (by simp [hk]) ms
      refine ⟨fun hn => ?_, fun _ hf => absurd (flushed_append_of_flush hk ms) hf,
        fun _ => hstream⟩
      rw [hfirst] at hn
      have hbegun := hm.begun hk
      simp [hn] at hbegun
    · have hfirst := firstInit_append_of_ne (m := m) (by simp [hk]) ms
      refine ⟨fun hn => ?_, fun _ _ => hopen, fun hf => ?_⟩
      · rw [hfirst] at hn
        simp [hn] at hsome
      · exact absurd ((flushed_append_of_ne (by simp [hk]) ms).mp hf) hflushed

/-- An orderly message that stops the worker has fed nothing that breaks the grammar. -/
theorem streamPrefix_halt {ms : List Message} {w w' : Globals ε σ} {m : Message} {x : Halt}
    (hl : Linked b ms w) (h : InGrammar ms w.ogg.fed) (hm : Orderly b ms m)
    (hrun : (handle b m).run w = .error x w') : StreamPrefix w'.ogg.fed := by
  have ht := Turn.of_run hrun
  rcases ht.stream_error with ⟨-, -, hg⟩ | ⟨-, hi, ps, hps, hw⟩ | ⟨p, hf, hw⟩
  · rw [hg]
    exact h.streamPrefix
  · -- The header pages hang: one or both of the header packets are fed.
    have hnone := hl.firstInit_none hi
    have hfed := hw.fed
    rw [begun_fed, (h.none hnone).1, List.nil_append] at hfed
    rw [hfed]
    exact (isOpen_headers _ _ _ _).streamPrefix.mono hps
  · rw [hw.fed]
    rcases feeds_orderly hl h hm hf with ⟨-, hstream⟩ | ⟨-, -, -, hopen⟩
    · exact hstream.streamPrefix
    · exact hopen.streamPrefix

variable (b)

/-- What is known of the stream in any order of messages holds after every run that does not
stop. -/
theorem fed_run (ho : b.useOgg = true) {ms : List Message}
    (hh : (run (handle b) ms boot).halt = none) : Fed ms (run (handle b) ms boot).state.ogg := by
  have hboot : Linked b [] (boot : Globals ε σ) ∧ Fed [] (boot : Globals ε σ).ogg :=
    ⟨linked_run b [] rfl, fun _ => ⟨rfl, rfl⟩, fun ⟨f, hf, _⟩ => absurd hf (by simp)⟩
  exact (run_history_invariant (P := fun ns _ w => Linked b ns w ∧ Fed ns w.ogg)
    (fun _ _ _ _ _ _ h hrun => ⟨linked_step h.1 hrun, fed_step ho h.1 h.2 hrun⟩)
    ms [] [] boot hboot hh).2

/-- The grammar is kept by every run of orderly messages that does not stop. -/
theorem inGrammar_run (ho : b.useOgg = true) {ms : List Message}
    (hord : ∀ pre m post, ms = pre ++ m :: post → Orderly b pre m)
    (hh : (run (handle b) ms boot).halt = none) :
    InGrammar ms (run (handle b) ms boot).state.ogg.fed := by
  have hboot : Linked b [] (boot : Globals ε σ) ∧ InGrammar [] (boot : Globals ε σ).ogg.fed := by
    have hflushed : ¬ Flushed [] := fun ⟨f, hf, _⟩ => absurd hf (by simp)
    exact ⟨linked_run b [] rfl, fun _ => ⟨rfl, hflushed⟩, fun h => absurd h (by simp [firstInit]),
      fun h => absurd h hflushed⟩
  refine (run_history_invariant (P := fun ns _ w =>
    (∀ pre m post, ns = pre ++ m :: post → Orderly b pre m) →
      Linked b ns w ∧ InGrammar ns w.ogg.fed) ?_ ms [] [] boot (fun _ => hboot) hh hord).2
  intro ns _ m w r w' hns hrun hall
  obtain ⟨hl, hg⟩ := hns fun pre n post h => hall pre n (post ++ [m]) (by simp [h])
  exact ⟨linked_step hl hrun, inGrammar_step ho hl hg (hall ns m [] rfl) hrun⟩

/-- In a run of the worker built with Ogg whose first Init, if there is one, creates the encoder,
what is fed is at all times the beginning of an Ogg stream if and only if every message that the
worker takes may follow the messages before it. -/
theorem streamPrefix_iff_orderly (ho : b.useOgg = true) (ms : List Message)
    (hcreates : ∀ i, firstInit ms = some i → b.Creates i) :
    (∀ ns, ns <+: ms → StreamPrefix (run (handle b) ns boot).state.ogg.fed) ↔
      ∀ pre m post, ms = pre ++ m :: post → (run (handle b) pre boot).halt = none →
        Orderly b pre m := by
  constructor
  · rintro hstream pre m post rfl hh
    have hfed := fed_run b ho hh
    have hafter := hstream (pre ++ [m]) ⟨post, by simp⟩
    rw [state_concat hh] at hafter
    refine ⟨fun hm => ?_, fun hflushed => ?_⟩
    · -- Before any Init, the packet of a Flush would be the first one.
      by_contra hnone
      rw [Option.not_isSome_iff_eq_none] at hnone
      rw [fed_of_flush ho hm, (hfed.none hnone).1, List.nil_append] at hafter
      exact absurd hafter.b_o_s_head (by simp [footerPacket])
    · -- After a Flush, any further packet would follow the one that has ended the stream.
      obtain ⟨q, hq, hend⟩ := hfed.ended hflushed
      have hlast : ∀ p, (stateAfter ((handle b m).run (run (handle b) pre boot).state)).ogg.fed ≠
          (run (handle b) pre boot).state.ogg.fed ++ [p] := by
        intro p hp
        rw [hp] at hafter
        have hq' := hafter.e_o_s_dropLast q (by rw [List.dropLast_concat]; exact hq)
        rw [hend] at hq'
        exact absurd hq' (by simp)
      refine ⟨fun hm => hlast _ (fed_of_flush ho hm _), fun i hi hm hsize => ?_⟩
      have hfirst := firstInit_append_of_some hi (m :: post)
      have hready := (encoderReady_iff_opened b hh).mpr ⟨i, hi, hcreates i hfirst⟩
      obtain ⟨p, hp⟩ := fed_of_exec ho hm hready fun e he => by
        rw [hsize, getExpectedPackageSize_eq ((linked_run b pre hh).encoder hi he).1]
      exact hlast p hp
  · -- A run that stops does so at an orderly message, after orderly messages.
    rintro hord ns ⟨tail, rfl⟩
    cases hh : (run (handle b) ns boot).halt with
    | none =>
      refine (inGrammar_run b ho (fun pre m post hns => ?_) hh).streamPrefix
      subst hns
      exact hord pre m (post ++ tail) (by simp) (halt_of_append hh)
    | some x =>
      obtain ⟨pre, m, post, rfl, hpre, hstop⟩ := exists_of_halt ns boot hh
      have hg : InGrammar pre (run (handle b) pre boot).state.ogg.fed := by
        refine inGrammar_run b ho (fun pre' m' post' hns => ?_) hpre
        subst hns
        exact hord pre' m' (post' ++ m :: post ++ tail) (by simp) (halt_of_append hpre)
      have hm : Orderly b pre m := hord pre m (post ++ tail) (by simp) hpre
      exact streamPrefix_halt (linked_run b pre hpre) hg hm hstop

end Grammar

/-- The first Init of a peer that begins with the mono Init creates the encoder. -/
theorem creates_monoInit (ms : List Message) :
    ∀ i, firstInit (monoInit :: ms) = some i → oggBuild.Creates i := by
  intro i hi
  obtain rfl : monoInit = i := by simpa [firstInit] using hi
  unfold Build.Creates
  decide

/-- The condition for an Init and a Flush. -/
theorem streamPrefix_iff_orderly_mono :
    (∀ ns, ns <+: [monoInit, monoFlush] →
      StreamPrefix (run (handle oggBuild) ns boot).state.ogg.fed) ↔
      ∀ pre m post, [monoInit, monoFlush] = pre ++ m :: post →
        (run (handle oggBuild) pre boot).halt = none → Orderly oggBuild pre m :=
  streamPrefix_iff_orderly oggBuild rfl [monoInit, monoFlush] (creates_monoInit [monoFlush])

/-- A second Flush feeds a second packet that ends the stream. -/
theorem exists_not_streamPrefix :
    ∃ ms, (∀ i, firstInit ms = some i → oggBuild.Creates i) ∧
      ¬ StreamPrefix (run (handle oggBuild) ms boot).state.ogg.fed := by
  refine ⟨[monoInit, monoFlush, monoFlush], creates_monoInit _, fun h => ?_⟩
  have hends : ∃ q ∈ (run (handle oggBuild) [monoInit, monoFlush, monoFlush]
      boot).state.ogg.fed.dropLast, q.e_o_s = true := by decide +kernel
  obtain ⟨q, hq, hend⟩ := hends
  rw [h.e_o_s_dropLast q hq] at hend
  exact absurd hend (by simp)

end SpresenseOpus.Worker
