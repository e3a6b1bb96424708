import SpresenseOpus.Codec.OggWriter

/-!
# The grammar of an Ogg stream

A stream is an identification header that begins it, a comment header, any number of audio packets,
and one empty packet that ends it. `StreamPrefix` says what a writer may have fed at any time. Only
the last packet of such a sequence may end the stream (`StreamPrefix.e_o_s_dropLast`).
-/

namespace SpresenseOpus

/-- The packet that begins a stream: an identification header. -/
structure IsHead (p : OggPacket) : Prop where
  b_o_s : p.b_o_s = true
  e_o_s : p.e_o_s = false
  head : (parseOpusHead p.packet).isSome

/-- The packet after it: a comment header. -/
structure IsTags (p : OggPacket) : Prop where
  b_o_s : p.b_o_s = false
  e_o_s : p.e_o_s = false
  tags : (parseOpusTags p.packet).isSome

/-- A packet in the middle of a stream. -/
structure IsAudio (p : OggPacket) : Prop where
  b_o_s : p.b_o_s = false
  e_o_s : p.e_o_s = false

/-- The packet that ends a stream: an empty one. -/
structure IsEnd (p : OggPacket) : Prop where
  b_o_s : p.b_o_s = false
  e_o_s : p.e_o_s = true
  empty : p.packet = [] ∧ p.bytes = 0

/-- A stream that has begun and not ended: the two headers and audio packets. -/
def IsOpen (ps : List OggPacket) : Prop :=
  ∃ h t as, ps = h :: t :: as ∧ IsHead h ∧ IsTags t ∧ ∀ a ∈ as, IsAudio a

/-- A whole stream. -/
def IsStream (ps : List OggPacket) : Prop := ∃ qs e, ps = qs ++ [e] ∧ IsOpen qs ∧ IsEnd e

/-- What may have been fed of a stream. -/
def StreamPrefix (ps : List OggPacket) : Prop := ∃ qs, IsStream qs ∧ ps <+: qs

/-! ## The packets of the page writers -/

/-- The first packet of `ogg_writeHeaderPage` begins a stream. -/
theorem isHead_headPacket (ch rate : Int32) (n : ℤ) : IsHead (headPacket ch rate n) := by
  refine ⟨rfl, rfl, ?_⟩
  have hparse := parseOpusHead_bytes
    { sampleRate := rate.toUInt32, channelCount := ch.toUInt32.toUInt8 } rfl rfl
  unfold headPacket
  rw [hparse]
  rfl

/-- Its second packet is a comment header. -/
theorem isTags_tagsPacket (n : ℤ) : IsTags (tagsPacket n) := by
  refine ⟨rfl, rfl, ?_⟩
  unfold tagsPacket
  rw [parseOpusTags_commentHeader]
  rfl

/-- The packet of `ogg_writeAudioDataPage` is an audio packet. -/
theorem isAudio_audioPacket (data : List UInt8) (bytes : ℤ) (pos : Int32) (n : ℤ) :
    IsAudio (audioPacket data bytes pos n) :=
  ⟨rfl, rfl⟩

/-- The packet of `ogg_writeFooterPage` ends a stream. -/
theorem isEnd_footerPacket (n : ℤ) : IsEnd (footerPacket n) := ⟨rfl, rfl, rfl, rfl⟩

/-! ## Streams and their prefixes -/

/-- An open stream takes further audio packets. -/
theorem IsOpen.append_audio {ps : List OggPacket} {p : OggPacket} (h : IsOpen ps)
    (hp : IsAudio p) : IsOpen (ps ++ [p]) := by
  obtain ⟨hd, t, as, rfl, hhd, ht, has⟩ := h
  refine ⟨hd, t, as ++ [p], rfl, hhd, ht, fun a ha => ?_⟩
  rcases List.mem_append.mp ha with ha | ha
  · exact has a ha
  · rw [List.mem_singleton.mp ha]
    exact hp

/-- The two header packets open a stream. -/
theorem isOpen_headers (ch rate : Int32) (m n : ℤ) : IsOpen [headPacket ch rate m, tagsPacket n] :=
  ⟨_, _, [], rfl, isHead_headPacket ch rate m, isTags_tagsPacket n, by simp⟩

/-- No packet of an open stream ends it. -/
theorem IsOpen.e_o_s {ps : List OggPacket} (h : IsOpen ps) : ∀ q ∈ ps, q.e_o_s = false := by
  obtain ⟨hd, t, as, rfl, hhd, ht, has⟩ := h
  intro q hq
  rcases List.mem_cons.mp hq with rfl | hq
  · exact hhd.e_o_s
  rcases List.mem_cons.mp hq with rfl | hq
  · exact ht.e_o_s
  · exact (has q hq).e_o_s

/-- A shorter sequence may have been fed as well. -/
theorem StreamPrefix.mono {ps qs : List OggPacket} (h : StreamPrefix qs) (hle : ps <+: qs) :
    StreamPrefix ps := by
  obtain ⟨rs, hrs, hqs⟩ := h
  exact ⟨rs, hrs, hle.trans hqs⟩

/-- A whole stream may have been fed. -/
theorem IsStream.streamPrefix {ps : List OggPacket} (h : IsStream ps) : StreamPrefix ps :=
  ⟨ps, h, List.prefix_rfl⟩

/-- An open stream may have been fed, since it can be ended. -/
theorem IsOpen.streamPrefix {ps : List OggPacket} (h : IsOpen ps) : StreamPrefix ps :=
  ⟨ps ++ [footerPacket 0], ⟨ps, _, rfl, h, isEnd_footerPacket 0⟩, List.prefix_append _ _⟩

/-- Nothing may have been fed. -/
theorem streamPrefix_nil : StreamPrefix [] :=
  (isOpen_headers 1 48000 0 1).streamPrefix.mono List.nil_prefix

/-- Only the last packet of what may have been fed ends the stream. -/
theorem StreamPrefix.e_o_s_dropLast {ps : List OggPacket} (h : StreamPrefix ps) :
    ∀ q ∈ ps.dropLast, q.e_o_s = false := by
  obtain ⟨_, ⟨qs, e, rfl, hopen, -⟩, hps⟩ := h
  intro q hq
  rcases List.prefix_concat_iff.mp hps with rfl | hps
  · rw [List.dropLast_concat] at hq
    exact hopen.e_o_s q hq
  · exact hopen.e_o_s q (hps.subset (List.dropLast_subset _ hq))

/-- The first packet of what may have been fed begins the stream. -/
theorem StreamPrefix.b_o_s_head {p : OggPacket} (h : StreamPrefix [p]) : p.b_o_s = true := by
  obtain ⟨_, ⟨_, e, rfl, ⟨hd, t, as, rfl, hhd, -, -⟩, -⟩, hps⟩ := h
  rw [List.cons_append] at hps
  obtain ⟨rfl, -⟩ := List.cons_prefix_cons.mp hps
  exact hhd.b_o_s

/-! ## The audio packets of a stream -/

/-- The audio packets of what is fed: those behind the two headers that do not end the stream. -/
def audioPackets (ps : List OggPacket) : List OggPacket := (ps.drop 2).filter fun p => !p.e_o_s

/-- Behind the headers, a packet is an audio packet if it does not end the stream. -/
theorem audioPackets_append {ps : List OggPacket} (h : 2 ≤ ps.length) (p : OggPacket) :
    audioPackets (ps ++ [p]) = audioPackets ps ++ if p.e_o_s then [] else [p] := by
  unfold audioPackets
  rw [List.drop_append_of_le_length h, List.filter_append]
  cases hp : p.e_o_s <;> simp [hp]

/-- Up to two packets there is no audio packet. -/
theorem audioPackets_of_length_le {ps : List OggPacket} (h : ps.length ≤ 2) :
    audioPackets ps = [] := by
  unfold audioPackets
  rw [List.drop_of_length_le h, List.filter_nil]

end SpresenseOpus
