import SpresenseOpus.Host.OggFile
import SpresenseOpus.Host.OpusDemo

/-!
# The two host programs agree

The opus_demo program and the Ogg program were written around one encoder class, and read a raw file
in the same blocks. They differ in the container. So when the encoder could be created and no frame
fails, they make the same of a file: the audio packets of the one are the packets of the records of
the other, with their lengths (`packets_agree`).

They differ in what they do about a frame that fails, too: one takes the error code for the length
of a packet and goes past the end of its buffer, the other one feeds a packet with it. So there is
nothing to agree on then. In the model alone a run of the opus_demo program that comes to its end
has met no such frame, because there a count past the buffer is a halt.
-/

namespace SpresenseOpus.Host

open Blocks Filter

section Agreement

variable {ε σ : Type} {opus : Libopus ε} {z : Liboggz σ}

/-- The audio packets of an Ogg file are those of its blocks. -/
theorem audioPackets_file (enc : ε) (file : List UInt8) (n : ℕ) (m : ℤ) :
    audioPackets (packetsBefore opus enc file n ++ [footerPacket m]) =
      (List.range n).map (packetAt opus enc file) := by
  have hheaders : 2 ≤ (packetsBefore opus enc file n).length := by
    simp [packetsBefore]
  have hfooter : (footerPacket m).e_o_s = true := rfl
  rw [audioPackets_append hheaders, if_pos hfooter, List.append_nil]
  unfold audioPackets packetsBefore
  rw [List.drop_succ_cons, List.drop_succ_cons, List.drop_zero, List.filter_eq_self]
  intro p hp
  obtain ⟨i, -, rfl⟩ := List.mem_map.mp hp
  rfl

/-- For every file, when the encoder could be created and no `opus_encode` of a whole block returns
an error, both programs come to their end, given enough iterations and a liboggz that drains, the
file of the opus_demo program is read back as records, and the audio packets of the Ogg program are,
one for one, the packets of these records with their lengths. libopus returns no more than the
buffer holds. -/
theorem packets_agree (hdrain : ∀ o, Drains z o) {o : σ} (hnew : z.new = some o) {enc : ε}
    (hcreate : createEncoder opus monoSettings.toOpusEncoderSettings = some enc)
    (file : List UInt8)
    (hmax : ∀ i, i < file.length / 960 →
      (outcomeAt opus enc file i).len.toInt ≤ OPUS_MAX_BUFFER_SIZE.toInt)
    (hnonneg : ∀ i, i < file.length / 960 → 0 ≤ (outcomeAt opus enc file i).len.toInt) :
    ∃ (w : OpusDemo ε) (w' : OggFile ε σ) (rs : List DemoRecord),
      (∀ᶠ fuel in atTop, OpusDemo.main opus fuel file = .ok () w) ∧
      (∀ᶠ fuel in atTop, (OggFile.main opus z fuel file).run (OggFile.start opus) = .ok () w') ∧
      demoCodec.parse w.testAudioOutOpus = some rs ∧
      (audioPackets w'.ogg.fed).map (fun p => (p.packet, p.bytes)) =
        rs.map fun r => (r.packet, (r.packet.length : ℤ)) := by
  have hok : ∀ i, i < file.length / 960 → Succeeds (outcomeAt opus enc file i) := fun i hi =>
    ⟨hnonneg i hi, hmax i hi⟩
  obtain ⟨w, hat, hdemo⟩ := demoAt_main hcreate hok
  obtain ⟨w', hogg, hfed⟩ := main_fed hdrain hnew hcreate file hok
  refine ⟨w, w', (List.range (file.length / 960)).map (recordAt opus enc file), hdemo, hogg, ?_, ?_⟩
  · rw [hat.written]
    exact parse_records fun i hi => hok i (List.mem_range.mp hi)
  · -- Both have one for each whole block, from the same call of `opus_encode`.
    rw [hfed, audioPackets_file, List.map_map, List.map_map]
    rfl

end Agreement

/-- The programs agree on the file of two blocks and five bytes more. -/
theorem packets_agree_shortFile :
    ∃ (w : OpusDemo (Int32 × ℕ)) (w' : OggFile (Int32 × ℕ) (List UInt8)) (rs : List DemoRecord),
      (∀ᶠ fuel in atTop, OpusDemo.main countingOpus fuel shortFile = .ok () w) ∧
      (∀ᶠ fuel in atTop, (OggFile.main countingOpus bareOggz fuel shortFile).run
        (OggFile.start countingOpus) = .ok () w') ∧
      demoCodec.parse w.testAudioOutOpus = some rs ∧
      (audioPackets w'.ogg.fed).map (fun p => (p.packet, p.bytes)) =
        rs.map fun r => (r.packet, (r.packet.length : ℤ)) :=
  packets_agree drains_bareOggz rfl (by decide) shortFile
    (fun i _ => (succeeds_countingOpus shortFile i).2)
    (fun i _ => (succeeds_countingOpus shortFile i).1)

end SpresenseOpus.Host
