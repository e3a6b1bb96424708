import SpresenseOpus.Worker.Grammar
import SpresenseOpus.Worker.Length

/-!
# What the worker copies into an output buffer

With Ogg the worker copies all of `oggzBuffer` into the output buffer of an Exec or a Flush, and the
capacity that came with the command is by then overwritten in the local copy. `oggzBuffer` holds
two things: the backlog, which is the header pages as long as no message has taken them
(`Backlog`), and what liboggz makes of the packet of the message itself. The copy stays within the
capacity exactly when both together do (`withinCapacity_iff_fits`).
-/

namespace SpresenseOpus.Worker

open Machine

/-- A message that takes what `oggzBuffer` holds, when frames have `size` bytes. -/
def Message.TakesOutput (size : UInt32) (m : Message) : Prop :=
  m.kind = .flush ∨ m.IsFrame size

instance (size : UInt32) (m : Message) : Decidable (m.TakesOutput size) :=
  inferInstanceAs (Decidable (_ ∨ _))

/-- The `flush` argument with which the packet of a message is fed. -/
def Message.flushAfter (m : Message) : ℤ := if m.kind = .flush then OGGZ_FLUSH_AFTER else 0

section Capacity

variable {ε σ : Type} (b : Build ε σ)

/-- The bytes that liboggz makes of the two header packets of an Init at boot. -/
def Build.headerBytes (i : Message) : List UInt8 := (stateAfter (b.headers i {})).sink

/-- What waits in `oggzBuffer` after messages of which `i` is the first Init. -/
def Build.backlog (i : Message) (ms : List Message) : List UInt8 :=
  if ∃ f ∈ ms, f.TakesOutput (b.packageSize i) then [] else b.headerBytes i

/-- A message is answered in a state. -/
def Answered (w : Globals ε σ) (m : Message) : Prop := ∃ r w', (handle b m).run w = .ok r w'

/-- What is copied to the output buffer of a message fits the capacity received with it. -/
def WithinCapacity (w : Globals ε σ) (m : Message) : Prop :=
  ∀ r w', (handle b m).run w = .ok r w' → ∀ bytes, r.copied = some bytes →
    bytes.length ≤ (m.outputSize m.com_param).toNat

/-- What the messages so far say about `oggzBuffer`: before an Init the Ogg module is as at boot,
and no message has got through that would take its output; after it the backlog waits. -/
structure Backlog (ms : List Message) (w : Globals ε σ) : Prop where
  before : firstInit ms = none → w.ogg = {} ∧ ∀ f ∈ ms, f.kind ≠ .flush ∧ f.kind ≠ .exec
  waiting : ∀ i, firstInit ms = some i → w.ogg.sink = b.backlog i ms

variable {b}

/-- What is copied for a message that feeds a packet: the backlog, and what liboggz makes of the
packet. -/
theorem copied_of_feeds {w w' : Globals ε σ} {m : Message} {r : Reply} {p : OggPacket}
    (ho : b.useOgg = true) (hp : Feeds b w m p) (hrun : (handle b m).run w = .ok r w') :
    r.copied = some (w.ogg.sink ++ b.oggz.pageBytes b.fuel w.ogg p m.flushAfter) := by
  rcases hp with ⟨hk, rfl⟩ | ⟨hk, e, enc, he, henc, hsize, rfl⟩
  · -- A Flush feeds the last packet with a flush flag.
    have hflush : m.flushAfter = OGGZ_FLUSH_AFTER := if_pos hk
    cases hf : b.footerPage w.ogg with
    | ok u g =>
      rw [Turn.run_eq (.flushOgg hk ho hf)] at hrun
      obtain ⟨rfl, rfl⟩ := EStateM.Result.ok.inj hrun
      have hsink := footerPage_sink hf
      rw [hflush]
      exact congrArg some hsink
    | error x g =>
      rw [Turn.run_eq (.flushHung hk ho hf)] at hrun
      exact absurd hrun (by simp)
  · -- An Exec that is answered has a channel, and feeds its packet without a flag.
    have hflush : m.flushAfter = 0 := if_neg (by simp [hk])
    have hch : e.cfg.channels ≠ 0 := by
      intro hzero
      rw [Turn.run_eq (.execZeroChannels hk he hsize hzero)] at hrun
      exact absurd hrun (by simp)
    cases ha : b.audioPage m e enc w with
    | ok u g =>
      rw [Turn.run_eq (.execOgg hk he hsize hch henc ho ha)] at hrun
      obtain ⟨rfl, rfl⟩ := EStateM.Result.ok.inj hrun
      have hsink := audioPage_sink ha
      rw [hflush]
      exact congrArg some hsink
    | error x g =>
      rw [Turn.run_eq (.execHung hk he hsize hch henc ho ha)] at hrun
      exact absurd hrun (by simp)

/-- A message that takes no output leaves the backlog. -/
theorem backlog_append_of_not {i m : Message} (h : ¬ m.TakesOutput (b.packageSize i))
    (ms : List Message) : b.backlog i (ms ++ [m]) = b.backlog i ms := by
  unfold Build.backlog
  simp [List.mem_append, or_and_right, exists_or, h]

/-- After a message that takes the output there is no backlog. -/
theorem backlog_append_of_takes {i m : Message} (h : m.TakesOutput (b.packageSize i))
    (ms : List Message) : b.backlog i (ms ++ [m]) = [] :=
  if_pos ⟨m, List.mem_append_right _ (List.mem_singleton_self m), h⟩

/-- A quiet message leaves the backlog: an Exec among them has another size. -/
theorem backlog_quiet {ms : List Message} {w w' : Globals ε σ} {m : Message} (hl : Linked b ms w)
    (h : Backlog b ms w) (hq : Quiet w m) (hg : w'.ogg = w.ogg) : Backlog b (ms ++ [m]) w' := by
  have hfirst := hq.firstInit_append hl
  refine ⟨fun hn => ?_, fun i hi => ?_⟩
  · rw [hfirst] at hn
    obtain ⟨hogg, hkinds⟩ := h.before hn
    refine ⟨hg.trans hogg, fun f hf => ?_⟩
    rcases List.mem_append.mp hf with hf | hf
    · exact hkinds f hf
    · rw [List.mem_singleton.mp hf]
      refine ⟨hq.kind_ne_flush, fun hexec => ?_⟩
      obtain ⟨e, he, -⟩ := hq.exec hexec
      rw [hl.none hn] at he
      exact absurd he (by simp)
  · rw [hfirst] at hi
    have hnot : ¬ m.TakesOutput (b.packageSize i) := by
      rintro (hflush | ⟨hexec, hsize⟩)
      · exact hq.kind_ne_flush hflush
      · obtain ⟨e, he, hne⟩ := hq.exec hexec
        exact hne (hsize.trans (getExpectedPackageSize_eq (hl.encoder hi he).1).symm)
    rw [hg, backlog_append_of_not hnot]
    exact h.waiting i hi

/-- The first Init finds the module as at boot and leaves its header pages. -/
theorem backlog_init {ms : List Message} {w w' : Globals ε σ} {m : Message}
    (hnone : firstInit ms = none) (h : Backlog b ms w) (hk : m.kind = .init)
    (hheaders : b.headers m w.ogg = .ok () w'.ogg) : Backlog b (ms ++ [m]) w' := by
  obtain ⟨hogg, hkinds⟩ := h.before hnone
  have hfirst := firstInit_append_of_none hnone hk
  refine ⟨fun hn => by simp [hfirst] at hn, fun i hi => ?_⟩
  obtain rfl : m = i := Option.some.inj (hfirst.symm.trans hi)
  rw [hogg] at hheaders
  have hnot : ¬ ∃ f ∈ ms ++ [m], f.TakesOutput (b.packageSize m) := by
    rintro ⟨f, hf, htakes⟩
    rcases List.mem_append.mp hf with hf | hf
    · rcases htakes with hflush | ⟨hexec, -⟩
      · exact (hkinds f hf).1 hflush
      · exact (hkinds f hf).2 hexec
    · rw [List.mem_singleton.mp hf] at htakes
      simp [Message.TakesOutput, Message.IsFrame, hk] at htakes
  unfold Build.backlog Build.headerBytes
  rw [if_neg hnot, hheaders]
  rfl

/-- A page takes everything along. -/
theorem backlog_page {ms : List Message} {w w' : Globals ε σ} {i m : Message} {p : OggPacket}
    (hi : firstInit ms = some i) (hl : Linked b ms w) (hf : Feeds b w m p)
    (hsink : w'.ogg.sink = []) : Backlog b (ms ++ [m]) w' := by
  have hfirst := firstInit_append_of_some hi [m]
  refine ⟨fun hn => by simp [hfirst] at hn, fun i' hi' => ?_⟩
  obtain rfl : i = i' := Option.some.inj (hfirst.symm.trans hi')
  have htakes : m.TakesOutput (b.packageSize i) := by
    rcases hf with ⟨hk, -⟩ | ⟨hk, e, enc, he, -, hsize, -⟩
    · exact .inl hk
    · exact .inr ⟨hk, hsize.trans (getExpectedPackageSize_eq (hl.encoder hi he).1)⟩
  rw [backlog_append_of_takes htakes, hsink]

/-- An answered message keeps what is known of `oggzBuffer`. -/
theorem backlog_step (ho : b.useOgg = true) {ms : List Message} {w w' : Globals ε σ} {m : Message}
    {r : Reply} (hl : Linked b ms w) (h : Backlog b ms w) (hrun : (handle b m).run w = .ok r w') :
    Backlog b (ms ++ [m]) w' := by
  have ht := Turn.of_run hrun
  rcases ht.stream_ok ho with ⟨hq, -, -, hg⟩ | ⟨hk, hi, -, -⟩ | ⟨p, g, hf, -, -, -, hg⟩
  · exact backlog_quiet hl h hq hg
  · obtain ⟨-, ⟨hagain, -⟩ | ⟨-, -, -, hheaders⟩⟩ := ht.of_init hk
    · exact absurd hagain (by simp [hi])
    · exact backlog_init (hl.firstInit_none hi) h hk (hheaders ho)
  · obtain ⟨i, hi⟩ := hf.exists_firstInit ho hl (fun hn => by rw [(h.before hn).1]) hrun
    exact backlog_page hi hl hf (by rw [hg])

variable (b)

/-- The backlog waits in `oggzBuffer` after every run that does not stop. -/
theorem backlog_run (ho : b.useOgg = true) {ms : List Message}
    (hh : (run (handle b) ms boot).halt = none) : Backlog b ms (run (handle b) ms boot).state := by
  have hboot : Linked b [] (boot : Globals ε σ) ∧ Backlog b [] (boot : Globals ε σ) :=
    ⟨linked_run b [] rfl, fun _ => ⟨rfl, by simp⟩, fun i hi => by simp [firstInit] at hi⟩
  exact (run_history_invariant (P := fun ns _ w => Linked b ns w ∧ Backlog b ns w)
    (fun _ _ _ _ _ _ h hrun => ⟨linked_step h.1 hrun, backlog_step ho h.1 h.2 hrun⟩)
    ms [] [] boot hboot hh).2

/-- After every run of the worker built with Ogg that does not stop and has had an Init, the copy
for a message that feeds a packet stays within the capacity received if and only if the message is
not answered at all, or the backlog and what liboggz makes of the packet fit that capacity. -/
theorem withinCapacity_iff_fits (ho : b.useOgg = true) {ms : List Message}
    (hh : (run (handle b) ms boot).halt = none) {i : Message} (hi : firstInit ms = some i)
    {m : Message} {p : OggPacket} (hp : Feeds b (run (handle b) ms boot).state m p) :
    WithinCapacity b (run (handle b) ms boot).state m ↔
      ¬ Answered b (run (handle b) ms boot).state m ∨
        (b.backlog i ms).length + (b.oggz.pageBytes b.fuel
          (run (handle b) ms boot).state.ogg p m.flushAfter).length ≤
            (m.outputSize m.com_param).toNat := by
  have hsink := (backlog_run b ho hh).waiting i hi
  constructor
  · intro h
    by_cases ha : Answered b (run (handle b) ms boot).state m
    · obtain ⟨r, w', hrun⟩ := ha
      have hle := h r w' hrun _ (copied_of_feeds ho hp hrun)
      rw [List.length_append, hsink] at hle
      exact .inr hle
    · exact .inl ha
  · rintro h r w' hrun bytes hbytes
    have hle := h.resolve_left fun hn => hn ⟨r, w', hrun⟩
    rw [copied_of_feeds ho hp hrun] at hbytes
    obtain rfl := Option.some.inj hbytes
    rw [List.length_append, hsink]
    exact hle

end Capacity

/-- The mono Init is answered also with Ogg. -/
theorem halt_monoInit : (run (handle oggBuild) [monoInit] boot).halt = none := by decide +kernel

/-- It leaves the encoder that it has created. -/
theorem opusEncoder_monoInit : (run (handle oggBuild) [monoInit] boot).state.opusEncoder =
    some (oggBuild.created monoInit) := by
  have hh := halt_monoInit
  cases hrun : (handle oggBuild monoInit).run boot with
  | error x w =>
    rw [run_cons_error hrun] at hh
    exact absurd hh (by simp)
  | ok r w =>
    rw [run_cons_ok hrun]
    obtain ⟨-, ⟨hagain, -⟩ | ⟨-, -, he, -⟩⟩ := (Turn.of_run hrun).of_init kind_monoInit
    · exact absurd hagain (by simp [boot])
    · exact he

/-- The condition for a Flush after the Init of a mono encoder. -/
theorem withinCapacity_iff_fits_mono :
    WithinCapacity oggBuild (run (handle oggBuild) [monoInit] boot).state monoFlush ↔
      ¬ Answered oggBuild (run (handle oggBuild) [monoInit] boot).state monoFlush ∨
        (oggBuild.backlog monoInit [monoInit]).length + (oggBuild.oggz.pageBytes oggBuild.fuel
          (run (handle oggBuild) [monoInit] boot).state.ogg
          (footerPacket (run (handle oggBuild) [monoInit] boot).state.ogg.packetno)
          monoFlush.flushAfter).length ≤ (monoFlush.outputSize monoFlush.com_param).toNat :=
  withinCapacity_iff_fits oggBuild rfl halt_monoInit (by simp [firstInit])
    (.inl ⟨kind_monoFlush, rfl⟩)

/-- An Exec with room for three bytes, as many as its packet has. -/
def snugExec : Message := execMessage ⟨1920, 0x2000⟩ ⟨3, 0x3000⟩ fun _ => 0

/-- After the Init the header pages are copied along with its packet: 46 bytes. -/
theorem exists_not_withinCapacity :
    ∃ m p, Feeds oggBuild (run (handle oggBuild) [monoInit] boot).state m p ∧ m.kind = .exec ∧
      p.bytes = 3 ∧ m.outputSize m.com_param = 3 ∧
      ¬ WithinCapacity oggBuild (run (handle oggBuild) [monoInit] boot).state m := by
  have henc : (oggBuild.created (σ := List UInt8) monoInit).enc = some 48000 := by decide
  refine ⟨snugExec, _, .inr ⟨kind_execMessage _ _ _, _, 48000, opusEncoder_monoInit, henc,
    by decide, rfl⟩, kind_execMessage _ _ _, by decide, by decide, fun h => ?_⟩
  have hreplies : (run (handle oggBuild) [snugExec]
      (run (handle oggBuild) [monoInit] boot).state).replies.map
        (fun r => r.copied.map List.length) = [some 46] := by decide +kernel
  generalize (run (handle oggBuild) [monoInit] boot).state = w at h hreplies
  cases hrun : (handle oggBuild snugExec).run w with
  | error x w' =>
    rw [run_cons_error hrun] at hreplies
    exact absurd hreplies (by simp)
  | ok r w' =>
    rw [run_cons_ok hrun] at hreplies
    have hcopied : r.copied.map List.length = some 46 := (List.cons.inj hreplies).1
    obtain ⟨bytes, hbytes, hlen⟩ := Option.map_eq_some_iff.mp hcopied
    have hle := h r w' hrun bytes hbytes
    rw [hlen] at hle
    exact absurd hle (by decide)

end SpresenseOpus.Worker
