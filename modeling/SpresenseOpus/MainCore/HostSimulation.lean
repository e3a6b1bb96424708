import SpresenseOpus.Host.OggFile
import SpresenseOpus.Library.Lockstep
import SpresenseOpus.MainCore.Recorder

/-!
# The recorder on the main core is the host program

The program of the main core was made from the Ogg program of the host: the file has become a FIFO
that may come back short, and `size_t` has 32 bits. On the reads that are full the two are in
lockstep (`lockstep_passes`). So whatever the sizes of the reads are, the main core feeds the
packets and hands `ogg_writeFile_cb` the bytes that the host program does for the file of its full
reads, up to the page that ends the stream, and one stops where the other does (`stream_eq_host`).
The page that ends the stream is never written: `handleAudio` does not end.

That is about what the callback gets. As the program is configured it writes to `stdout`, where what
`beginRecorder` prints goes as well.
-/

namespace SpresenseOpus.MainCore

open Blocks Machine Reads
open Host (OpusAudioEncoder OggFile toSize)

section Simulation

variable {ε σ : Type} (opus : Libopus ε) (z : Liboggz σ)

/-- The host program, up to the page that ends the stream. -/
def hostStream (fuel : ℕ) (testAudioIn : List UInt8) : EStateM Halt (OggFile ε σ) Unit := do
  OggFile.onOgg (oggBegin z)
  OggFile.onOgg (oggWriteHeaderPage z fuel Host.recordingChannelNumber.toUInt32.toInt32
    Host.recordingSamplingRate.toInt32)
  OggFile.handleAudio opus z fuel testAudioIn

/-- The state in which the host program starts, with the settings of the recorder. -/
def hostStart : OggFile ε σ := { opusEncoder := OpusAudioEncoder.new opus recorderSettings }

/-- The host program is this, and the page that ends the stream. -/
theorem main_eq_hostStream (fuel : ℕ) (testAudioIn : List UInt8) :
    OggFile.main opus z fuel testAudioIn =
      hostStream opus z fuel testAudioIn >>= fun _ =>
        OggFile.onOgg (oggWriteFooterPage z fuel) := by
  simp only [OggFile.main, hostStream, bind_assoc]

/-- The two programs are in the same state: the Ogg module with what it has written, the encoder
with its buffer, and the position. -/
structure Same (h : OggFile ε σ) (w : Recorder ε σ) : Prop where
  ogg : h.ogg = w.ogg
  opusEncoder : h.opusEncoder = w.opusEncoder
  position : h.granulepos = w.posInSamples
  cfg : w.opusEncoder.cfg = recorderSettings

/-! ## A frame -/

/-- `encodeFrame` comes to the same in both programs, but for the type of the length. -/
inductive SameFrame : Except Halt (Host.EncodedFrame ε) → Except Halt (EncodedFrame ε) → Prop
  | ok (encodedBytes : List UInt8) (len : Int32) (next : OpusAudioEncoder ε) :
      next.cfg = recorderSettings →
      SameFrame (.ok ⟨encodedBytes, toSize len, next⟩) (.ok ⟨encodedBytes, len.toUInt32, next⟩)
  | error (x : Halt) : SameFrame (.error x) (.error x)

variable {opus}

/-- Given a frame, `encodeFrame` comes to the same. -/
theorem sameFrame_encodeFrame {e : OpusAudioEncoder ε} (hcfg : e.cfg = recorderSettings)
    (data : List UInt8) :
    SameFrame (e.encodeFrame opus data 960) (encodeFrame opus e data 960) := by
  have hch : e.cfg.channels ≠ 0 := by
    rw [hcfg]
    decide
  -- Both divide 960 bytes into 480 samples of one channel.
  have hhost : ((960 : UInt64) / toSize e.cfg.channels / 2).toInt64.toInt32 = 480 := by
    rw [hcfg]
    decide
  have hmain : ((960 : UInt32) / e.cfg.channels.toUInt32 / 2).toInt32 = 480 := by
    rw [hcfg]
    decide
  unfold OpusAudioEncoder.encodeFrame encodeFrame
  simp only [if_neg hch, hhost, hmain]
  cases e.enc with
  | none => exact .error _
  | some enc =>
    simp only
    split_ifs
    · exact .error _
    · exact .ok _ _ _ hcfg

/-- Both positions advance by the 480 samples. -/
theorem advance_eq_host (p : Int32) : Host.advance p 960 = advance p 960 := by
  have hhost : (960 : UInt64) / 2 / Host.recordingChannelNumber.toUInt64 = 480 := by decide
  have hmain : (960 : UInt32) / 2 / recordingCannelNumber.toUInt32 = 480 := by decide
  unfold Host.advance advance toSize
  rw [hhost, hmain]
  simp

variable (recording : ℕ → UInt8)

/-- The Ogg module does the same in both programs. -/
theorem lockstep_onOgg {α : Type} (x : OggM σ α) {R : α → α → OggFile ε σ → Recorder ε σ → Prop}
    {h : OggFile ε σ} {w : Recorder ε σ} (hogg : h.ogg = w.ogg)
    (hR : ∀ a g, R a a { h with ogg := g } { w with ogg := g }) :
    Lockstep R (fun h w => h.ogg = w.ogg) ((OggFile.onOgg x).run h)
      ((Recorder.onOgg x).run w) := by
  rw [OggFile.onOgg_run, Recorder.onOgg_run, hogg]
  cases x.run w.ogg with
  | ok a g => exact .ok (hR a g)
  | error e g => exact .error rfl

/-- What holds after a frame. -/
structure SameAt (taken : ℕ) (h : OggFile ε σ) (w : Recorder ε σ) : Prop extends Same h w where
  buffer : w.audioBuffer.length = 960
  taken : w.taken = taken

/-- A full read is a frame of the host program. -/
theorem lockstep_full (fuel : ℕ) {taken : ℕ} {h : OggFile ε σ} {w : Recorder ε σ}
    (hsame : SameAt taken h w) :
    Lockstep (fun _ _ => SameAt (taken + 960)) (fun h w => h.ogg = w.ogg)
      ((OggFile.encodeBuffer opus z fuel (segment recording taken 960)).run h)
      ((Recorder.pass opus z recording fuel 960).run w) := by
  obtain rfl := hsame.taken
  have hsize : UInt64.ofNat (segment recording w.taken 960).length = 960 := by
    rw [length_segment]
    rfl
  have hframe := @sameFrame_encodeFrame _ opus _ hsame.cfg (segment recording w.taken 960)
  have h960 : UInt32.ofNat 960 = 960 := rfl
  have hfull := @length_getAudio _ _ recording _ _ hsame.buffer _ (Nat.le_refl 960)
  have htaken := getAudio_taken recording w 960
  have hogg : h.ogg = (w.getAudio recording 960).ogg :=
    hsame.ogg.trans (getAudio_ogg recording w 960).symm
  rw [Recorder.pass_full opus z recording hsame.buffer, h960]
  unfold OggFile.encodeBuffer
  simp only [EStateM.run, hsize, hsame.opusEncoder]
  generalize w.opusEncoder.encodeFrame opus (segment recording w.taken 960) 960 = x at hframe ⊢
  generalize encodeFrame opus w.opusEncoder (segment recording w.taken 960) 960 = y at hframe ⊢
  generalize w.getAudio recording 960 = w' at hfull htaken hogg ⊢
  cases hframe with
  | error x => exact .error hogg
  | ok encodedBytes len next hcfg =>
    have hlong : (toSize len).toInt64.toInt = len.toInt := by
      unfold toSize
      simp
    have hint : len.toUInt32.toInt32.toInt = len.toInt := by
      rw [Int32.toInt32_toUInt32]
    have hpos : Host.advance h.granulepos 960 = advance w.posInSamples 960 := by
      rw [hsame.position, advance_eq_host]
    simp only [Host.writeOggFormat, writeOggFormat, hlong, hint, hpos]
    exact lockstep_onOgg _ hogg fun _ g => ⟨⟨rfl, rfl, rfl, hcfg⟩, hfull, htaken⟩

/-! ## The whole programs -/

/-- The passes of the recorder are in lockstep with the loop of the host program over the reads that
are full. -/
theorem lockstep_passes (fuel : ℕ) : ∀ (ns : List ℕ) {reads taken : ℕ} {h : OggFile ε σ}
    {w : Recorder ε σ}, SameAt taken h w → (∀ n ∈ ns, n ≤ 960) → ns.count 960 < reads →
    Lockstep (fun _ _ => SameAt (taken + ns.sum)) (fun h w => h.ogg = w.ogg)
      ((forEachBlock .outOfFuel 960 (OggFile.encodeBuffer opus z fuel) reads
        (kept 960 recording taken ns).flatten).run h)
      ((Recorder.passes opus z recording fuel ns).run w)
  | [], reads, taken, h, w, hsame, _, hreads => by
    obtain ⟨r, rfl⟩ := Nat.exists_eq_add_of_le' (Nat.one_le_of_lt hreads)
    have hne : ¬ (([] : List (List UInt8)).flatten.take 960).length = 960 := by simp
    rw [kept]
    unfold forEachBlock
    rw [if_neg hne]
    exact .ok hsame
  | n :: ns, reads, taken, h, w, hsame, hns, hreads => by
    have hle : n ≤ 960 := hns n List.mem_cons_self
    have hns' : ∀ m ∈ ns, m ≤ 960 := fun m hm => hns m (List.mem_cons_of_mem n hm)
    rw [List.sum_cons, ← Nat.add_assoc, kept, Recorder.passes]
    rcases hle.lt_or_eq with hlt | rfl
    · -- A short read is none of the host's.
      have hcount : ns.count 960 < reads := by
        rw [List.count_cons_of_ne hlt.ne] at hreads
        exact hreads
      rw [if_neg hlt.ne, List.nil_append, EStateM.run_bind,
        Recorder.pass_short (by decide) hsame.buffer hlt]
      refine lockstep_passes fuel ns ⟨⟨hsame.ogg, hsame.opusEncoder, hsame.position, hsame.cfg⟩,
        length_getAudio hsame.buffer hle, ?_⟩ hns' hcount
      rw [getAudio_taken, hsame.taken]
    · -- A full read is the next block of the file.
      obtain ⟨r, rfl⟩ := Nat.exists_eq_add_of_le' (Nat.one_le_of_lt hreads)
      have hcount : ns.count 960 < r := by
        rw [List.count_cons_self] at hreads
        omega
      have hlen : (segment recording taken 960).length = 960 := length_segment ..
      rw [if_pos rfl, List.singleton_append, List.flatten_cons]
      unfold forEachBlock
      rw [List.take_left' hlen, List.drop_left' hlen, if_pos hlen]
      exact (lockstep_full z recording fuel hsame).bind fun _ _ h' w' hsame' =>
        lockstep_passes fuel ns hsame' hns' hcount

variable (opus)

/-- The two programs are in lockstep, the host program on the full reads of the recorder. -/
theorem lockstep_main {fuel : ℕ} {sizes : List ℕ} (hsizes : ∀ n ∈ sizes, n ≤ 960)
    (hfuel : sizes.count 960 < fuel) :
    Lockstep (fun _ _ => SameAt sizes.sum) (fun h w => h.ogg = w.ogg)
      ((hostStream opus z fuel (kept 960 recording 0 sizes).flatten).run (hostStart opus))
      ((Recorder.main opus z recording fuel sizes).run (Recorder.start opus)) := by
  have hsize : ∀ h : OggFile ε σ, h.opusEncoder.cfg = recorderSettings →
      h.opusEncoder.getExpectedPackageSize.toNat = 960 := by
    intro h hcfg
    unfold OpusAudioEncoder.getExpectedPackageSize
    rw [hcfg]
    decide
  unfold hostStream Recorder.main
  -- Both begin with the same pages.
  refine Lockstep.bind (R := fun _ _ h w => Same h w ∧ w.taken = 0)
    (lockstep_onOgg _ rfl fun _ _ => ⟨⟨rfl, rfl, rfl, rfl⟩, rfl⟩) fun _ _ h w ⟨hsame, htaken⟩ => ?_
  refine Lockstep.bind (R := fun _ _ h w => Same h w ∧ w.taken = 0)
    (lockstep_onOgg _ hsame.ogg fun _ _ =>
      ⟨⟨rfl, hsame.opusEncoder, hsame.position, hsame.cfg⟩, htaken⟩)
    fun _ _ h w ⟨hsame, htaken⟩ => ?_
  -- The buffer gets its size, and the frames follow.
  rw [OggFile.handleAudio_run, Recorder.handleAudio_run,
    hsize h (hsame.opusEncoder ▸ hsame.cfg), ← Nat.zero_add sizes.sum]
  exact lockstep_passes z recording fuel sizes
    ⟨⟨hsame.ogg, hsame.opusEncoder, hsame.position, hsame.cfg⟩,
      length_resizeBuffer_recorder hsame.cfg, htaken⟩ hsizes hfuel

/-- For every recording and all sizes of the reads, the program of the main core has passed to
liboggz, and `ogg_writeFile_cb` has got, what the host program with the same settings has for the
file of the reads that are full, before the page that ends the stream; and one goes through if and
only if the other does. The host program is granted a read for each frame and one more. -/
theorem stream_eq_host {fuel : ℕ} {sizes : List ℕ} (hsizes : ∀ n ∈ sizes, n ≤ 960)
    (hfuel : sizes.count 960 < fuel) :
    let host := (hostStream opus z fuel (kept 960 recording 0 sizes).flatten).run (hostStart opus)
    let live := (Recorder.main opus z recording fuel sizes).run (Recorder.start opus)
    (stateAfter host).ogg.fed = (stateAfter live).ogg.fed ∧
      (stateAfter host).ogg.sink = (stateAfter live).ogg.sink ∧
      ((∃ h, host = .ok () h) ↔ ∃ w, live = .ok () w) := by
  intro host live
  have hlock := lockstep_main opus z recording hsizes hfuel
  have hogg : (stateAfter host).ogg = (stateAfter live).ogg :=
    hlock.stateAfter (P := fun h w => h.ogg = w.ogg) (fun _ _ _ _ h => h.ogg) fun _ _ h => h
  refine ⟨congrArg Ogg.fed hogg, congrArg Ogg.sink hogg, ?_⟩
  have hiff := hlock.ok_iff
  constructor
  · rintro ⟨h, hh⟩
    obtain ⟨⟨⟩, w, hw⟩ := hiff.mp ⟨(), h, hh⟩
    exact ⟨w, hw⟩
  · rintro ⟨w, hw⟩
    obtain ⟨⟨⟩, h, hh⟩ := hiff.mpr ⟨(), w, hw⟩
    exact ⟨h, hh⟩

end Simulation

/-- The two streams for a read of one byte between two full ones, of silence. -/
theorem stream_eq_host_twoFrames :
    let host := (hostStream countingOpus bareOggz 8
      (kept 960 (fun _ => 0) 0 [960, 1, 960]).flatten).run (hostStart countingOpus)
    let live := (Recorder.main countingOpus bareOggz (fun _ => 0) 8 [960, 1, 960]).run
      (Recorder.start countingOpus)
    (stateAfter host).ogg.fed = (stateAfter live).ogg.fed ∧
      (stateAfter host).ogg.sink = (stateAfter live).ogg.sink ∧
      ((∃ h, host = .ok () h) ↔ ∃ w, live = .ok () w) :=
  stream_eq_host countingOpus bareOggz (fun _ => 0) (by simp) (by decide)

end SpresenseOpus.MainCore
