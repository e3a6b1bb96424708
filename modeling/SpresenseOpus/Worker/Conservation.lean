import SpresenseOpus.Worker.Stream

/-!
# No Ogg byte is lost

The header pages come into being at an Init and leave the worker with a later message. In between,
and for whatever liboggz keeps back, `oggzBuffer` is the only place where bytes wait. What has been
handed out and what still waits are together everything that went through the callback
(`conserved_run`), and the header bytes are at the front of the first block that is handed out
(`holdsHeader_run`).
-/

namespace SpresenseOpus.Worker

open Machine

/-- The blocks that `memcpy` has put into output buffers, in the order of the replies. -/
def delivered (rs : List Reply) : List (List UInt8) := rs.filterMap Reply.copied

/-- A reply without a block adds nothing. -/
theorem delivered_append_none {r : Reply} (h : r.copied = none) (rs : List Reply) :
    delivered (rs ++ [r]) = delivered rs := by
  simp [delivered, h]

/-- A reply with a block adds it at the end. -/
theorem delivered_append_some {r : Reply} {block : List UInt8} (h : r.copied = some block)
    (rs : List Reply) : delivered (rs ++ [r]) = delivered rs ++ [block] := by
  simp [delivered, h]

section Conservation

variable {ε σ : Type} {b : Build ε σ}

/-- What was handed out, followed by what waits in `oggzBuffer`, is everything that went through
the callback. -/
def Conserved (rs : List Reply) (g : Ogg σ) : Prop :=
  (delivered rs).flatten ++ g.sink = g.chunks.flatten

/-- Writing packets keeps the balance: the sink gains what goes through the callback. -/
theorem Conserved.wrote {rs : List Reply} {g g' : Ogg σ} {ps : List OggPacket}
    (h : Conserved rs g) (hw : Wrote g ps g') : Conserved rs g' := by
  unfold Conserved at h ⊢
  obtain ⟨cs, hchunks, hsink⟩ := hw.produced
  calc (delivered rs).flatten ++ g'.sink
      = ((delivered rs).flatten ++ g.sink) ++ cs.flatten := by rw [hsink, List.append_assoc]
    _ = g.chunks.flatten ++ cs.flatten := by rw [h]
    _ = g'.chunks.flatten := by rw [hchunks, List.flatten_append]

/-- So does `ogg_begin`, which touches neither. -/
theorem Conserved.begun {rs : List Reply} {g : Ogg σ} (h : Conserved rs g) :
    Conserved rs (b.begun g) := by
  unfold Conserved at h ⊢
  rw [begun_sink, begun_chunks]
  exact h

/-- An answered message keeps the balance. -/
theorem conserved_step (ho : b.useOgg = true) {rs : List Reply} {w w' : Globals ε σ} {m : Message}
    {r : Reply} (h : Conserved rs w.ogg) (hrun : (handle b m).run w = .ok r w') :
    Conserved (rs ++ [r]) w'.ogg := by
  have ht := Turn.of_run hrun
  rcases ht.stream_ok ho with ⟨-, -, hr, hg⟩ | ⟨-, -, hr, hw⟩ | ⟨p, g, -, -, hr, hw, hg⟩
  · unfold Conserved
    rw [delivered_append_none hr, hg]
    exact h
  · -- An Init only adds to the sink.
    have hbegun : Conserved rs w'.ogg := h.begun.wrote hw
    unfold Conserved
    rw [delivered_append_none hr]
    exact hbegun
  · -- The sink moves to the end of what was handed out.
    have hpage : Conserved rs g := h.wrote hw
    unfold Conserved at hpage ⊢
    rw [delivered_append_some hr, hg, List.flatten_append, List.flatten_singleton,
      List.append_nil]
    exact hpage

/-- A message that stops the worker keeps it as well. -/
theorem conserved_halt {rs : List Reply} {w w' : Globals ε σ} {m : Message} {x : Halt}
    (h : Conserved rs w.ogg) (hrun : (handle b m).run w = .error x w') : Conserved rs w'.ogg := by
  have ht := Turn.of_run hrun
  rcases ht.stream_error with ⟨-, -, hg⟩ | ⟨-, -, ps, -, hw⟩ | ⟨p, -, hw⟩
  · rw [hg]
    exact h
  · exact h.begun.wrote hw
  · exact h.wrote hw

/-- The balance holds after any messages from boot. -/
theorem conserved_run (ho : b.useOgg = true) (ms : List Message) :
    Conserved (run (handle b) ms boot).replies (run (handle b) ms boot).state.ogg := by
  have hboot : Conserved [] (boot : Globals ε σ).ogg := rfl
  exact run_invariant (P := fun rs w => Conserved rs w.ogg)
    (fun _ _ _ _ _ h hrun => conserved_step ho h hrun)
    (fun _ _ _ _ _ h hrun => conserved_halt h hrun) ms [] boot hboot

/-- The header bytes are at the front of the first block handed out, or still at the front of
`oggzBuffer`. -/
def HoldsHeader (header : List UInt8) (rs : List Reply) (g : Ogg σ) : Prop :=
  match delivered rs with
  | [] => header <+: g.sink
  | block :: _ => header <+: block

/-- A state of the Ogg module whose sink is longer at its end still holds the header. -/
theorem HoldsHeader.mono {header : List UInt8} {rs : List Reply} {g g' : Ogg σ}
    (h : HoldsHeader header rs g) (hsink : g.sink <+: g'.sink) : HoldsHeader header rs g' := by
  unfold HoldsHeader at h ⊢
  cases hd : delivered rs with
  | nil =>
    rw [hd] at h
    exact h.trans hsink
  | cons block blocks =>
    rw [hd] at h
    exact h

/-- An answered message keeps the header at the front. -/
theorem holdsHeader_step (ho : b.useOgg = true) {header : List UInt8} {rs : List Reply}
    {w w' : Globals ε σ} {m : Message} {r : Reply} (h : HoldsHeader header rs w.ogg)
    (hrun : (handle b m).run w = .ok r w') : HoldsHeader header (rs ++ [r]) w'.ogg := by
  have ht := Turn.of_run hrun
  rcases ht.stream_ok ho with ⟨-, -, hr, hg⟩ | ⟨-, -, hr, hw⟩ | ⟨p, g, -, -, hr, hw, hg⟩
  · unfold HoldsHeader
    rw [delivered_append_none hr, hg]
    exact h
  · have hsink := hw.sink_prefix
    rw [begun_sink] at hsink
    unfold HoldsHeader
    rw [delivered_append_none hr]
    exact h.mono hsink
  · -- The block handed out is the sink: the first one takes the header with it.
    have hpage := h.mono hw.sink_prefix
    unfold HoldsHeader at hpage ⊢
    rw [delivered_append_some hr]
    cases hd : delivered rs with
    | nil =>
      rw [hd] at hpage
      exact hpage
    | cons block blocks =>
      rw [hd] at hpage
      exact hpage

/-- A message that stops the worker keeps it there as well. -/
theorem holdsHeader_halt {header : List UInt8} {rs : List Reply} {w w' : Globals ε σ} {m : Message}
    {x : Halt} (h : HoldsHeader header rs w.ogg) (hrun : (handle b m).run w = .error x w') :
    HoldsHeader header rs w'.ogg := by
  have ht := Turn.of_run hrun
  rcases ht.stream_error with ⟨-, -, hg⟩ | ⟨-, -, ps, -, hw⟩ | ⟨p, -, hw⟩
  · rw [hg]
    exact h
  · have hsink := hw.sink_prefix
    rw [begun_sink] at hsink
    exact h.mono hsink
  · exact h.mono hw.sink_prefix

/-- After an Init that is answered at boot, the header stays at the front in every run. -/
theorem holdsHeader_run (ho : b.useOgg = true) {i : Message} (hi : i.kind = .init) {r : Reply}
    {w : Globals ε σ} (hrun : (handle b i).run boot = .ok r w) (ms : List Message) :
    HoldsHeader w.ogg.chunks.flatten (run (handle b) (i :: ms) boot).replies
      (run (handle b) (i :: ms) boot).state.ogg := by
  -- The Init delivers nothing, so that all its bytes wait in the sink.
  have hboot : Conserved [] (boot : Globals ε σ).ogg := rfl
  have hconserved : Conserved [r] w.ogg := conserved_step ho hboot hrun
  have ht := Turn.of_run hrun
  have hr : r.copied = none := by
    rcases ht.stream_ok ho with ⟨-, -, hr, -⟩ | ⟨-, -, hr, -⟩ | ⟨p, g, hf, -⟩
    · exact hr
    · exact hr
    · rcases hf with ⟨hk, -⟩ | ⟨hk, -⟩
      · simp [hk] at hi
      · simp [hk] at hi
  have hdelivered : delivered [r] = [] := delivered_append_none hr []
  have hstart : HoldsHeader w.ogg.chunks.flatten [r] w.ogg := by
    unfold HoldsHeader
    unfold Conserved at hconserved
    rw [hdelivered] at hconserved ⊢
    rw [← hconserved]
    exact List.prefix_rfl
  rw [run_cons_ok hrun]
  exact run_invariant (P := fun rs w' => HoldsHeader w.ogg.chunks.flatten rs w'.ogg)
    (fun _ _ _ _ _ h hstep => holdsHeader_step ho h hstep)
    (fun _ _ _ _ _ h hstep => holdsHeader_halt h hstep) ms [r] w hstart

variable (b)

/-- In every state that the worker built with Ogg reaches after an Init, what has been handed out
and what waits in `oggzBuffer` are, in order, all bytes that went through the callback. An accepted
Exec and a Flush hand out a block and leave `oggzBuffer` empty, no other message hands out
anything, and the first block begins with the bytes of the header pages. -/
theorem ogg_bytes_conserved (ho : b.useOgg = true) {i : Message} (hi : i.kind = .init)
    (ms : List Message) :
    (delivered (run (handle b) (i :: ms) boot).replies).flatten ++
        (run (handle b) (i :: ms) boot).state.ogg.sink =
        (run (handle b) (i :: ms) boot).state.ogg.chunks.flatten ∧
      (∀ v ∈ visits (handle b) (i :: ms) boot, ∀ r w', (handle b v.2).run v.1 = .ok r w' →
        (Delivers v.2 r → r.copied.isSome ∧ w'.ogg.sink = []) ∧
        (¬ Delivers v.2 r → r.copied = none)) ∧
      ∀ r w, (handle b i).run boot = .ok r w → ∀ block blocks,
        delivered (run (handle b) (i :: ms) boot).replies = block :: blocks →
        w.ogg.chunks.flatten <+: block := by
  refine ⟨conserved_run ho (i :: ms), ?_, ?_⟩
  · rintro ⟨w, m⟩ - r w' hrun
    have ht := Turn.of_run hrun
    rcases ht.stream_ok ho with ⟨-, hd, hr, -⟩ | ⟨hk, -, hr, -⟩ | ⟨p, g, -, hd, hr, -, hg⟩
    · exact ⟨fun h => absurd h hd, fun _ => hr⟩
    · exact ⟨fun h => absurd h (by simp [Delivers, hk]), fun _ => hr⟩
    · exact ⟨fun _ => ⟨by simp [hr], by rw [hg]⟩, fun h => absurd hd h⟩
  · intro r w hrun block blocks hblocks
    have hheader := holdsHeader_run ho hi hrun ms
    unfold HoldsHeader at hheader
    rw [hblocks] at hheader
    exact hheader

end Conservation

/-- A session of one frame with Ogg is completed, and its two blocks are all bytes that went through
the callback. -/
theorem ogg_bytes_conserved_mono :
    (run (handle oggBuild) [monoInit, monoExec, monoFlush] boot).halt = none ∧
      (delivered (run (handle oggBuild) [monoInit, monoExec, monoFlush] boot).replies).flatten ++
        (run (handle oggBuild) [monoInit, monoExec, monoFlush] boot).state.ogg.sink =
        (run (handle oggBuild) [monoInit, monoExec, monoFlush] boot).state.ogg.chunks.flatten :=
  ⟨by decide +kernel,
    (ogg_bytes_conserved oggBuild rfl kind_monoInit [monoExec, monoFlush]).1⟩

end SpresenseOpus.Worker
