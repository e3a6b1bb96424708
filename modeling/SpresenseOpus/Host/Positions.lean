import SpresenseOpus.Host.OggFile

/-!
# The granule positions of the host's Ogg file

`handleAudio` counts samples, and the packet of the `i`-th block carries the count after it. The
headers and the packet that ends the stream have no part in this: their position is zero. So the
positions of a file go back at its end, to a stream of no length, unless there is no block at all
(`granuleLaw_iff_short`).

The facts of this file are about every run of the program that comes to its end, whatever the
libraries do in it (`main_positions`).
-/

namespace SpresenseOpus.Host

open Blocks Filter Machine Words

section Positions

variable {ε σ : Type} {opus : Libopus ε} {z : Liboggz σ}

/-- The counter after `i` blocks, with the wrapping of an `int`. -/
theorem posAt_eq : ∀ i, posAt i = Int32.ofNat (480 * i)
  | 0 => rfl
  | i + 1 => by
    have hadvance : ∀ g : Int32, advance g 960 = g + 480 := by
      intro g
      unfold advance toSize recordingChannelNumber
      simp
    rw [posAt, posAt_eq i, hadvance, Nat.mul_succ, Int32.ofNat_add]
    rfl

/-- The state after `i` blocks, as far as the positions go. -/
structure PositionsAt (i : ℕ) (w : OggFile ε σ) : Prop where
  cfg : w.opusEncoder.cfg = monoSettings
  granulepos : w.granulepos = posAt i
  fed : ∃ as, w.ogg.fed = headPacket 1 48000 0 :: tagsPacket 1 :: as ∧
    as.map OggPacket.granulepos = (List.range i).map (fun k => (posAt (k + 1)).toInt) ∧
    ∀ p ∈ as, p.e_o_s = false

/-- A program of the Ogg module that returns has only changed the Ogg module. -/
theorem OggFile.onOgg_ok {α : Type} {x : OggM σ α} {a : α} {w w' : OggFile ε σ}
    (h : (OggFile.onOgg x).run w = .ok a w') :
    ∃ g, x.run w.ogg = .ok a g ∧ w' = { w with ogg := g } := by
  rw [OggFile.onOgg_run] at h
  exact onPart_ok _ h

/-- `encodeFrame` leaves the settings as they are. -/
theorem OpusAudioEncoder.encodeFrame_cfg {e : OpusAudioEncoder ε} {data : List UInt8}
    {dataLen : UInt64} {f : EncodedFrame ε} (hf : e.encodeFrame opus data dataLen = .ok f) :
    f.next.cfg = e.cfg := by
  obtain ⟨enc, -, -, -, hnext⟩ := OpusAudioEncoder.encodeFrame_ok hf
  rw [hnext]

/-- A turn of the loop that returns has fed a packet with the next position. -/
theorem positionsAt_step {file : List UInt8} {i fuel : ℕ} {w w' : OggFile ε σ}
    (hi : i < file.length / 960) (h : PositionsAt i w)
    (hrun : (OggFile.encodeBuffer opus z fuel (block 960 i file)).run w = .ok () w') :
    PositionsAt (i + 1) w' := by
  have hblock : UInt64.ofNat (block 960 i file).length = 960 := by rw [length_block hi]; rfl
  unfold OggFile.encodeBuffer at hrun
  simp only [EStateM.run, hblock] at hrun
  cases hf : w.opusEncoder.encodeFrame opus (block 960 i file) 960 with
  | error x => simp [hf] at hrun
  | ok f =>
    rw [hf] at hrun
    obtain ⟨g, hpage, rfl⟩ := OggFile.onOgg_ok hrun
    have hwrote := feedAndDrain_ok z hpage
    have hadvance : advance w.granulepos 960 = posAt (i + 1) := by rw [h.granulepos]; rfl
    obtain ⟨as, has, hgranules, hends⟩ := h.fed
    refine ⟨(OpusAudioEncoder.encodeFrame_cfg hf).trans h.cfg, hadvance,
      as ++ [audioPacket f.encodedBytes f.dataLenOut.toInt64.toInt (advance w.granulepos 960)
        w.ogg.packetno], ?_, ?_, ?_⟩
    · rw [hwrote.fed, has]
      rfl
    · rw [List.map_append, hgranules, List.range_succ, List.map_append, List.map_singleton,
        List.map_singleton, audioPacket_granulepos, hadvance]
    · intro p hp
      rcases List.mem_append.mp hp with hp | hp
      · exact hends p hp
      · rw [List.mem_singleton.mp hp]
        rfl

/-- What a run that comes to its end has fed: the headers, one audio packet with its position for
each whole block, and the packet that ends the stream. -/
theorem main_positions {fuel : ℕ} {file : List UInt8} {w : OggFile ε σ}
    (hrun : (OggFile.main opus z fuel file).run (OggFile.start opus) = .ok () w) :
    ∃ as n, w.ogg.fed = headPacket 1 48000 0 :: tagsPacket 1 :: as ++ [footerPacket n] ∧
      as.map OggPacket.granulepos =
        (List.range (file.length / 960)).map (fun k => (posAt (k + 1)).toInt) ∧
      ∀ p ∈ as, p.e_o_s = false := by
  obtain ⟨_, w₁, hbegin, hrun₁⟩ := bind_ok hrun
  obtain ⟨_, w₂, hheader, hrun₂⟩ := bind_ok hrun₁
  obtain ⟨_, w₃, hloop, hfooter⟩ := bind_ok hrun₂
  obtain ⟨g₁, hg₁, rfl⟩ := OggFile.onOgg_ok hbegin
  obtain ⟨g₂, hg₂, rfl⟩ := OggFile.onOgg_ok hheader
  obtain ⟨hfed, -⟩ := fed_of_begin z hg₁ hg₂
  have hstart : PositionsAt 0 (⟨g₂, OpusAudioEncoder.new opus monoSettings, 0⟩ : OggFile ε σ) :=
    ⟨rfl, rfl, [], hfed, rfl, by simp⟩
  have hblocks : (forEachBlock .outOfFuel 960 (OggFile.encodeBuffer opus z fuel) fuel
      (file.drop (960 * 0))).run ⟨g₂, OpusAudioEncoder.new opus monoSettings, 0⟩ = .ok () w₃ := by
    rw [OggFile.handleAudio_run, getExpectedPackageSize_mono rfl] at hloop
    exact hloop
  have hw₃ := forEachBlock_ok (by decide) (fun i s s' hi hs hturn => positionsAt_step hi hs hturn)
    fuel 0 (Nat.zero_le _) hstart hblocks
  obtain ⟨as, has, hgranules, hends⟩ := hw₃.fed
  obtain ⟨g₄, hg₄, rfl⟩ := OggFile.onOgg_ok hfooter
  refine ⟨as, w₃.ogg.packetno, ?_, hgranules, hends⟩
  rw [← has]
  exact (feedAndDrain_ok z hg₄).fed

/-- The law of granule positions, for a stream of so many samples: the positions do not go back, and
the packet that ends the stream has the number of samples. -/
structure GranuleLaw (samples : ℕ) (ps : List OggPacket) : Prop where
  monotone : (ps.map OggPacket.granulepos).Pairwise (· ≤ ·)
  last : ∀ p ∈ ps, p.e_o_s = true → p.granulepos = samples

/-- In every run that comes to its end, the packets keep the law of granule positions for the
samples of the whole blocks if and only if the file is too short for a block. -/
theorem granuleLaw_iff_short {fuel : ℕ} {file : List UInt8} {w : OggFile ε σ}
    (hrun : (OggFile.main opus z fuel file).run (OggFile.start opus) = .ok () w) :
    GranuleLaw (480 * (file.length / 960)) w.ogg.fed ↔ file.length < 960 := by
  obtain ⟨as, n, hfed, hgranules, hends⟩ := main_positions hrun
  have hend : footerPacket n ∈ w.ogg.fed := by
    rw [hfed]
    exact List.mem_append_right _ (List.mem_singleton_self _)
  constructor
  · intro h
    have hlast := h.last _ hend rfl
    have hzero : (footerPacket n).granulepos = 0 := rfl
    rw [hzero] at hlast
    omega
  · intro hshort
    have hblocks : file.length / 960 = 0 := Nat.div_eq_of_lt hshort
    rw [hblocks, List.range_zero, List.map_nil, List.map_eq_nil_iff] at hgranules
    subst hgranules
    rw [hfed, hblocks]
    refine ⟨by simp [headPacket, tagsPacket, footerPacket], fun p hp he => ?_⟩
    -- Only the headers and the last packet are there, all at zero.
    rcases List.mem_cons.mp hp with rfl | hp
    · rfl
    rcases List.mem_cons.mp hp with rfl | hp
    · rfl
    · rw [List.mem_singleton.mp hp]
      rfl

end Positions

/-- The program comes to its end on every file, with the small libraries. -/
theorem main_silent (file : List UInt8) : ∃ w, (∀ᶠ fuel in atTop,
    (OggFile.main silentOpus bareOggz fuel file).run (OggFile.start silentOpus) = .ok () w) := by
  obtain ⟨w, hev, -⟩ := main_fed drains_bareOggz rfl
    (by decide : createEncoder silentOpus monoSettings.toOpusEncoderSettings = some 48000) file
    fun i _ => succeeds_silentOpus file i
  exact ⟨w, hev⟩

/-- The condition for a file of two blocks and seven bytes more. -/
theorem granuleLaw_iff_short_oddFile :
    ∃ fuel w, (OggFile.main silentOpus bareOggz fuel oddFile).run (OggFile.start silentOpus) =
        .ok () w ∧
      (GranuleLaw (480 * (oddFile.length / 960)) w.ogg.fed ↔ oddFile.length < 960) := by
  obtain ⟨w, hev⟩ := main_silent oddFile
  obtain ⟨fuel, hrun⟩ := hev.exists
  exact ⟨fuel, w, hrun, granuleLaw_iff_short hrun⟩

/-- For that file the packet that ends the stream has position zero, after two frames of 480
samples. -/
theorem exists_not_granuleLaw :
    ∃ fuel w, (OggFile.main silentOpus bareOggz fuel oddFile).run (OggFile.start silentOpus) =
        .ok () w ∧
      w.ogg.fed.map OggPacket.granulepos = [0, 0, 480, 960, 0] ∧
      ¬ GranuleLaw (480 * (oddFile.length / 960)) w.ogg.fed := by
  obtain ⟨w, hev⟩ := main_silent oddFile
  obtain ⟨fuel, hrun⟩ := hev.exists
  obtain ⟨as, n, hfed, hgranules, -⟩ := main_positions hrun
  have hone : (posAt 1).toInt = 480 := by decide
  have htwo : (posAt 2).toInt = 960 := by decide
  have hall : w.ogg.fed.map OggPacket.granulepos = [0, 0, 480, 960, 0] := by
    rw [hfed, List.map_append, List.map_cons, List.map_cons, hgranules, blocks_oddFile]
    simp [headPacket, tagsPacket, footerPacket, List.range_succ, hone, htwo]
  refine ⟨fuel, w, hrun, hall, fun h => ?_⟩
  have hmonotone := h.monotone
  rw [hall] at hmonotone
  exact absurd hmonotone (by decide)

end SpresenseOpus.Host
