import SpresenseOpus.Host.Positions
import SpresenseOpus.MainCore.Recorder

/-!
# How long the granule positions are exact

The programs of the host and of the main core count samples in an `int`, with different arithmetic
around it: one adds a `size_t` of 64 bits, the other one of 32. Both wrap at the same place, and the
field of 64 bits that the count is stored in comes too late. The positions of all audio packets are
exact as long as the samples of the whole recording are fewer than `2^31`, which is a little more
than twelve hours (`exactPositions_iff_lt`).
-/

namespace SpresenseOpus.MainCore

open Words
open Host (OggFile main_positions main_silent)

/-- The `k`-th of `N` audio packets, from zero and behind the two headers, has the position
`480 * (k + 1)`. -/
def ExactPositions (N : ℕ) (ps : List OggPacket) : Prop :=
  ∀ k, k < N → ∃ p, ps[k + 2]? = some p ∧ p.granulepos = (480 * (k + 1) : ℕ)

/-- The packet at a place among the audio packets has the count of an `int` there. -/
theorem exists_granulepos {h t : OggPacket} {as rest ps : List OggPacket} {N : ℕ}
    (hps : ps = h :: t :: as ++ rest)
    (hgranules : as.map OggPacket.granulepos =
      (List.range N).map fun k => (Int32.ofNat (480 * (k + 1))).toInt) {k : ℕ} (hk : k < N) :
    ∃ p, ps[k + 2]? = some p ∧ p.granulepos = (Int32.ofNat (480 * (k + 1))).toInt := by
  have hat : (as.map OggPacket.granulepos)[k]? =
      some (Int32.ofNat (480 * (k + 1))).toInt := by
    rw [hgranules]
    simp [hk]
  rw [List.getElem?_map] at hat
  obtain ⟨p, hp, hgranule⟩ := Option.map_eq_some_iff.mp hat
  obtain ⟨hlt, -⟩ := List.getElem?_eq_some_iff.mp hp
  refine ⟨p, ?_, hgranule⟩
  rw [hps, List.cons_append, List.cons_append, List.getElem?_cons_succ, List.getElem?_cons_succ,
    List.getElem?_append_left hlt]
  exact hp

/-- Packets that carry the count of an `int` are exact as long as the count is below `2^31`. -/
theorem exactPositions_iff {h t : OggPacket} {as rest ps : List OggPacket} {N : ℕ}
    (hps : ps = h :: t :: as ++ rest)
    (hgranules : as.map OggPacket.granulepos =
      (List.range N).map fun k => (Int32.ofNat (480 * (k + 1))).toInt) :
    ExactPositions N ps ↔ 480 * N < 2^31 := by
  rw [← counter_exact_iff]
  constructor
  · intro hexact k hk
    obtain ⟨p, hp, hgranule⟩ := exists_granulepos hps hgranules hk
    obtain ⟨p', hp', hgranule'⟩ := hexact k hk
    obtain rfl := Option.some.inj (hp.symm.trans hp')
    rw [← hgranule, hgranule']
  · intro hcount k hk
    obtain ⟨p, hp, hgranule⟩ := exists_granulepos hps hgranules hk
    exact ⟨p, hp, by rw [hgranule, hcount k hk]⟩

/-- For every recording that a program gets through, the positions of its audio packets are exact if
and only if its samples are fewer than `2^31`: on the host, for the whole blocks of a file, and on
the main core, for the full reads. -/
theorem exactPositions_iff_lt {ε σ : Type} (opus : Libopus ε) (z : Liboggz σ) :
    (∀ fuel file w, (OggFile.main opus z fuel file).run (OggFile.start opus) = .ok () w →
      (ExactPositions (file.length / 960) w.ogg.fed ↔ 480 * (file.length / 960) < 2^31)) ∧
    (∀ recording fuel sizes w, (∀ n ∈ sizes, n ≤ 960) →
      (Recorder.main opus z recording fuel sizes).run (Recorder.start opus) = .ok () w →
      (ExactPositions (sizes.count 960) w.ogg.fed ↔ 480 * sizes.count 960 < 2^31)) := by
  constructor
  · intro fuel file w hrun
    obtain ⟨as, n, hfed, hgranules, -⟩ := main_positions hrun
    simp only [Host.posAt_eq] at hgranules
    exact exactPositions_iff hfed hgranules
  · intro recording fuel sizes w hsizes hrun
    obtain ⟨as, hfed, hgranules⟩ := (recorderAt_main hsizes hrun).fed
    rw [← List.append_nil (_ :: _ :: as)] at hfed
    exact exactPositions_iff hfed hgranules

/-- The condition for a file of two blocks. -/
theorem exactPositions_iff_lt_oddFile :
    ∃ fuel w, (OggFile.main silentOpus bareOggz fuel Host.oddFile).run
        (OggFile.start silentOpus) = .ok () w ∧
      (ExactPositions (Host.oddFile.length / 960) w.ogg.fed ↔
        480 * (Host.oddFile.length / 960) < 2^31) := by
  obtain ⟨w, hev⟩ := main_silent Host.oddFile
  obtain ⟨fuel, hrun⟩ := hev.exists
  exact ⟨fuel, w, hrun, (exactPositions_iff_lt silentOpus bareOggz).1 fuel Host.oddFile w hrun⟩

/-- A file of 4473925 blocks, 12 hours and 26 minutes. -/
def longFile : List UInt8 := List.replicate (960 * 4473925) 0

/-- Its last audio packet has a negative position. -/
theorem exists_not_exactPositions :
    ∃ fuel w, (OggFile.main silentOpus bareOggz fuel longFile).run (OggFile.start silentOpus) =
        .ok () w ∧
      (∃ p, w.ogg.fed[4473924 + 2]? = some p ∧ p.granulepos = -2147483296) ∧
      ¬ ExactPositions (longFile.length / 960) w.ogg.fed := by
  obtain ⟨w, hev⟩ := main_silent longFile
  obtain ⟨fuel, hrun⟩ := hev.exists
  obtain ⟨as, n, hfed, hgranules, -⟩ := main_positions hrun
  have hlen : longFile.length / 960 = 4473925 := by
    rw [longFile, List.length_replicate]
  have hlast : (Int32.ofNat (480 * (4473924 + 1))).toInt = -2147483296 := by decide
  rw [hlen] at hgranules ⊢
  simp only [Host.posAt_eq] at hgranules
  obtain ⟨p, hp, hgranule⟩ := exists_granulepos hfed hgranules (by decide : 4473924 < 4473925)
  refine ⟨fuel, w, hrun, ⟨p, hp, hgranule.trans hlast⟩, fun h => ?_⟩
  rw [exactPositions_iff hfed hgranules] at h
  exact absurd h (by decide)

end SpresenseOpus.MainCore
