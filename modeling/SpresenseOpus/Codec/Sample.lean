import SpresenseOpus.Codec.OggWriter

/-!
# Small libraries behind the interfaces

Libraries that the examples and counterexamples of the development are linked with. They keep to
what is documented of libopus and liboggz where those runs look: `silentOpus` checks its arguments
as libopus does and answers every frame with the packet of silence, `countingOpus` does so with
packets that tell the order of the calls, and `bareOggz` hands packets on in the chunks that it is
asked for, without any page headers.
-/

namespace SpresenseOpus

/-- `OPUS_BUFFER_TOO_SMALL`. -/
def OPUS_BUFFER_TOO_SMALL : Int32 := -2

/-- The frame sizes that an encoder of a sampling rate takes. -/
def legalFrameSizes (Fs : Int32) : List Int32 :=
  [Fs / 400, Fs / 200, Fs / 100, Fs / 50, Fs / 25, 3 * Fs / 50]

/-- A libopus whose encoder is its sampling rate and whose packets are all the same. -/
def silentOpus : Libopus Int32 where
  create Fs channels _ :=
    if Fs ∈ [8000, 12000, 16000, 24000, 48000] ∧ channels ∈ [1, 2] then some Fs else none
  create_args Fs channels _ e h := by
    by_contra hargs
    rw [if_neg hargs] at h
    exact absurd h (by simp)
  ctl enc request :=
    match request with
    | .setComplexity x => (if 0 ≤ x ∧ x ≤ 10 then OPUS_OK else OPUS_BAD_ARG, enc)
    | _ => (OPUS_OK, enc)
  encode enc _ frame_size max_data_bytes :=
    if frame_size ∉ legalFrameSizes enc ∨ max_data_bytes ≤ 0 then
      ⟨OPUS_BAD_ARG, [], enc, by decide⟩
    else if max_data_bytes < 3 then ⟨OPUS_BUFFER_TOO_SMALL, [], enc, by decide⟩
    else ⟨3, [0xf8, 0xff, 0xfe], enc, by decide⟩
  finalRange _ := 0

/-- A libopus whose encoder counts its packets, and writes into each how many came before it. -/
def countingOpus : Libopus (Int32 × ℕ) where
  create Fs channels application :=
    (silentOpus.create Fs channels application).map fun Fs => (Fs, 0)
  create_args Fs channels application _ h := by
    obtain ⟨enc, henc, -⟩ := Option.map_eq_some_iff.mp h
    exact silentOpus.create_args Fs channels application enc henc
  ctl enc request := ((silentOpus.ctl enc.1 request).1, enc)
  encode enc _ frame_size max_data_bytes :=
    if frame_size ∉ legalFrameSizes enc.1 ∨ max_data_bytes ≤ 0 then
      ⟨OPUS_BAD_ARG, [], enc, by decide⟩
    else if max_data_bytes < 3 then ⟨OPUS_BUFFER_TOO_SMALL, [], enc, by decide⟩
    else ⟨3, [0xf8, 0xff, UInt8.ofNat enc.2], (enc.1, enc.2 + 1), fun _ => rfl⟩
  finalRange enc := UInt32.ofNat enc.2

/-- A liboggz whose state is the bytes that it has not written yet. -/
def bareOggz : Liboggz (List UInt8) where
  new := some []
  serialnoNew pending := (1, pending)
  writeFeed pending op _ _ := (0, pending ++ op.packet)
  write pending n :=
    if pending = [] then ⟨0, [], []⟩
    else ⟨(pending.take n).length, [pending.take n], pending.drop n⟩

/-- The output of `bareOggz` always drains. -/
theorem drains_bareOggz (pending : List UInt8) : Drains bareOggz pending := by
  induction h : pending.length using Nat.strong_induction_on generalizing pending with
  | _ n ih =>
    by_cases hp : pending = []
    · exact .done (by simp [bareOggz, hp])
    · have hpos : 0 < pending.length := List.length_pos_of_ne_nil hp
      refine .more ?_ ?_
      · simp [bareOggz, hp, WRITE_CHUNK_SIZE, hpos]
      · have hnext : (bareOggz.write pending WRITE_CHUNK_SIZE).next =
            pending.drop WRITE_CHUNK_SIZE := by simp [bareOggz, hp]
        rw [hnext]
        refine ih (pending.drop WRITE_CHUNK_SIZE).length ?_ _ rfl
        rw [List.length_drop, WRITE_CHUNK_SIZE]
        omega

end SpresenseOpus
