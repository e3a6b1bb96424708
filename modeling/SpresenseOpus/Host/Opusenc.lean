import Mathlib.Order.Filter.AtTopBot.Basic
import SpresenseOpus.Codec.Libopus

/-!
# The libopusenc program

`doEncode` of `01_encode_on_host_opusenc.cpp` and of `encoderPoc_opusenc.h`: a raw file is read in
buffers of 480 samples, and each buffer is handed to `ope_encoder_write`. `fread` counts samples,
and `ope_encoder_write` expects samples of one channel, but the loop passes half of the count.
`doEncode_halves` says what the loop does, and `handsAll_iff` that something gets lost from every
file that has a sample.
-/

namespace SpresenseOpus.Host

open Filter

/-- `READ_SIZE_FROM_FILE`. -/
def READ_SIZE_FROM_FILE : ℕ := 480

/-- The 16-bit samples that bytes hold, low byte first. A last odd byte is no sample. -/
def samplesOf : List UInt8 → List Int16
  | lo :: hi :: bytes => (lo.toUInt16 ||| hi.toUInt16 <<< 8).toInt16 :: samplesOf bytes
  | _ => []

/-- `fread` of `n` items of two bytes: the items read, and the rest of the file. -/
def freadShort (n : ℕ) (fin : List UInt8) : List Int16 × List UInt8 :=
  (samplesOf (fin.take (2 * n)), fin.drop (2 * n))

/-- A call of `ope_encoder_write`: the samples that the buffer holds, and the count passed. -/
structure OpeWrite where
  pcm : List Int16
  samples_per_channel : Int32
  deriving DecidableEq, Repr

/-- The samples that a call hands to an encoder of one channel. -/
def OpeWrite.samples (w : OpeWrite) : List Int16 := w.pcm.take w.samples_per_channel.toInt.toNat

/-- The loop of `doEncode`, whose state is the calls of `ope_encoder_write` so far. -/
def encodeLoop : (fuel : ℕ) → (fin : List UInt8) → EStateM Halt (List OpeWrite) Unit
  | 0, _ => throw .outOfFuel
  | fuel + 1, fin => do
    let (buf, fin) := freadShort READ_SIZE_FROM_FILE fin
    let ret := Int32.ofNat buf.length
    -- `ret` is a count of items, which are samples already.
    if 0 < ret then
      modify fun ws => ws ++ [⟨buf, ret / 2⟩]
      encodeLoop fuel fin
    else pure ()

/-- `doEncode`, with the input file, if it can be opened, and whether `ope_encoder_create_file`
succeeds. -/
def doEncode (fuel : ℕ) (fin : Option (List UInt8)) (created : Bool) :
    EStateM Halt (List OpeWrite) Unit :=
  match fin with
  | none => pure ()
  | some fin => if created then encodeLoop fuel fin else pure ()

/-! ## What the loop hands over -/

/-- Two bytes make a sample. -/
theorem length_samplesOf : ∀ bytes, (samplesOf bytes).length = bytes.length / 2
  | [] => rfl
  | [_] => by simp [samplesOf]
  | lo :: hi :: bytes => by
    rw [samplesOf, List.length_cons, length_samplesOf bytes, List.length_cons, List.length_cons]
    omega

/-- A file can be cut between two samples. -/
theorem samplesOf_take_drop : ∀ (n : ℕ) (bytes : List UInt8),
    samplesOf (bytes.take (2 * n)) ++ samplesOf (bytes.drop (2 * n)) = samplesOf bytes
  | 0, bytes => rfl
  | n + 1, [] => by simp [samplesOf]
  | n + 1, [b] => by
    have htake : 2 * (n + 1) = 2 * n + 1 + 1 := by omega
    rw [htake]
    simp [samplesOf]
  | n + 1, lo :: hi :: bytes => by
    have htake : 2 * (n + 1) = 2 * n + 1 + 1 := by omega
    rw [htake, List.take_succ_cons, List.take_succ_cons, List.drop_succ_cons, List.drop_succ_cons,
      samplesOf, samplesOf, List.cons_append, samplesOf_take_drop n bytes]

/-- Half of the count of a buffer, as an `int`. -/
theorem toNat_half {n : ℕ} (h : n ≤ READ_SIZE_FROM_FILE) :
    (Int32.ofNat n / 2).toInt.toNat = n / 2 := by
  unfold READ_SIZE_FROM_FILE at h
  have htwo : (2 : Int32).toInt = 2 := rfl
  have hdiv : (n : ℤ).tdiv 2 = (n / 2 : ℕ) := (Int.ofNat_tdiv n 2).symm
  rw [Int32.toInt_div_of_ne_right _ _ (by decide), Int32.toInt_ofNat_of_lt (by omega), htwo, hdiv,
    Int.toNat_natCast]

/-- A buffer is not empty when its count is positive as an `int`. -/
theorem count_pos_iff {n : ℕ} (h : n ≤ READ_SIZE_FROM_FILE) : 0 < Int32.ofNat n ↔ 0 < n := by
  unfold READ_SIZE_FROM_FILE at h
  have hzero : (0 : Int32).toInt = 0 := rfl
  rw [Int32.lt_iff_toInt_lt, Int32.toInt_ofNat_of_lt (by omega), hzero]
  omega

/-- What the calls of the loop are about: their buffers are, one after another, the samples of the
file, and each call hands over the first half of its buffer. -/
structure HandsHalves (bytes : List UInt8) (ws : List OpeWrite) : Prop where
  buffers : ws.flatMap OpeWrite.pcm = samplesOf bytes
  halves : ∀ w ∈ ws, w.samples = w.pcm.take (w.pcm.length / 2)

/-- A file without a whole sample needs no call. -/
theorem HandsHalves.nil {bytes : List UInt8} (h : bytes.length < 2) : HandsHalves bytes [] := by
  have hlength := length_samplesOf bytes
  refine ⟨?_, by simp⟩
  rw [List.flatMap_nil]
  exact (List.eq_nil_of_length_eq_zero (by omega)).symm

/-- A call for the first buffer, and the calls for the rest of the file. -/
theorem HandsHalves.cons {bytes : List UInt8} {w : OpeWrite} {ws : List OpeWrite}
    (hpcm : w.pcm = samplesOf (bytes.take (2 * READ_SIZE_FROM_FILE)))
    (hw : w.samples = w.pcm.take (w.pcm.length / 2))
    (h : HandsHalves (bytes.drop (2 * READ_SIZE_FROM_FILE)) ws) : HandsHalves bytes (w :: ws) := by
  refine ⟨?_, fun v hv => ?_⟩
  · rw [List.flatMap_cons, h.buffers, hpcm, samplesOf_take_drop]
  · rcases List.mem_cons.mp hv with rfl | hv
    · exact hw
    · exact h.halves v hv

/-- The loop ends, given more iterations than the file has bytes, and its calls hand over the first
half of each buffer. -/
theorem encodeLoop_halves (fin : List UInt8) :
    ∃ ws', HandsHalves fin ws' ∧ ∀ ws fuel, fin.length < fuel →
      (encodeLoop fuel fin).run ws = .ok () (ws ++ ws') := by
  induction hn : fin.length using Nat.strong_induction_on generalizing fin with
  | _ n ih =>
    set buf := samplesOf (fin.take (2 * READ_SIZE_FROM_FILE)) with hbuf
    have hread : freadShort READ_SIZE_FROM_FILE fin =
        (buf, fin.drop (2 * READ_SIZE_FROM_FILE)) := rfl
    have hlength : buf.length = min (2 * READ_SIZE_FROM_FILE) fin.length / 2 := by
      rw [hbuf, length_samplesOf, List.length_take]
    have hle : buf.length ≤ READ_SIZE_FROM_FILE := by omega
    have hpos : 0 < 2 * READ_SIZE_FROM_FILE := by decide
    by_cases hcount : 0 < Int32.ofNat buf.length
    · -- There is a buffer, and the rest of the file is shorter.
      have hsome : 0 < buf.length := (count_pos_iff hle).mp hcount
      obtain ⟨ws', hws', hrun⟩ := ih (fin.drop (2 * READ_SIZE_FROM_FILE)).length
        (by rw [List.length_drop]; omega) _ rfl
      have hhalf : (OpeWrite.mk buf (Int32.ofNat buf.length / 2)).samples =
          buf.take (buf.length / 2) := by
        unfold OpeWrite.samples
        rw [toNat_half hle]
      refine ⟨⟨buf, Int32.ofNat buf.length / 2⟩ :: ws', hws'.cons rfl hhalf,
        fun ws fuel hfuel => ?_⟩
      obtain ⟨k, rfl⟩ := Nat.exists_eq_add_of_le' (Nat.one_le_of_lt hfuel)
      have hrest := hrun (ws ++ [⟨buf, Int32.ofNat buf.length / 2⟩]) k
        (by rw [List.length_drop]; omega)
      unfold encodeLoop
      simp only [hread, if_pos hcount, EStateM.run_bind, EStateM.run_modify]
      rw [hrest, List.append_assoc, List.singleton_append]
    · -- The read comes back empty, so that no whole sample is left.
      have hnone : buf.length = 0 := by
        by_contra h
        exact hcount ((count_pos_iff hle).mpr (Nat.pos_of_ne_zero h))
      refine ⟨[], .nil (by omega), fun ws fuel hfuel => ?_⟩
      obtain ⟨k, rfl⟩ := Nat.exists_eq_add_of_le' (Nat.one_le_of_lt hfuel)
      unfold encodeLoop
      simp only [hread, if_neg hcount, EStateM.run_pure, List.append_nil]

/-- `doEncode` comes to its end, given enough iterations, and its calls hand over the first half of
each buffer. -/
theorem doEncode_halves (fin : List UInt8) :
    ∃ ws, (∀ᶠ fuel in atTop, (doEncode fuel (some fin) true).run [] = .ok () ws) ∧
      HandsHalves fin ws := by
  obtain ⟨ws, hws, hrun⟩ := encodeLoop_halves fin
  refine ⟨ws, ?_, hws⟩
  filter_upwards [eventually_gt_atTop fin.length] with fuel hfuel
  exact hrun [] fuel hfuel

/-- First halves are no longer than half of the whole. -/
theorem HandsHalves.length_le {bytes : List UInt8} {ws : List OpeWrite} (h : HandsHalves bytes ws) :
    2 * (ws.flatMap OpeWrite.samples).length ≤ (samplesOf bytes).length := by
  rw [← h.buffers]
  have hws := h.halves
  clear h
  induction ws with
  | nil => simp
  | cons w ws ih =>
    have hw : w.samples.length ≤ w.pcm.length / 2 := by
      rw [hws w List.mem_cons_self, List.length_take]
      omega
    have htail := ih fun v hv => hws v (List.mem_cons_of_mem _ hv)
    rw [List.flatMap_cons, List.flatMap_cons, List.length_append, List.length_append]
    omega

/-- For every input file that can be opened `doEncode` comes to its end, given enough iterations,
and the samples handed to `ope_encoder_write` are those of the file if and only if the file has no
sample at all. -/
theorem handsAll_iff (fin : List UInt8) :
    ∃ ws, (∀ᶠ fuel in atTop, (doEncode fuel (some fin) true).run [] = .ok () ws) ∧
      (ws.flatMap OpeWrite.samples = samplesOf fin ↔ fin.length < 2) := by
  obtain ⟨ws, hrun, hhalves⟩ := doEncode_halves fin
  have hle := hhalves.length_le
  have hlength := length_samplesOf fin
  refine ⟨ws, hrun, fun hall => ?_, fun hshort => ?_⟩
  · rw [hall] at hle
    omega
  · have hnone : samplesOf fin = [] := List.eq_nil_of_length_eq_zero (by omega)
    rw [hnone, List.length_nil] at hle
    rw [hnone]
    exact List.eq_nil_of_length_eq_zero (by omega)

/-- Of a file of two samples the second one is not handed over. -/
theorem exists_not_handsAll :
    ∃ fin ws, (∀ᶠ fuel in atTop, (doEncode fuel (some fin) true).run [] = .ok () ws) ∧
      ws.flatMap OpeWrite.samples ≠ samplesOf fin := by
  obtain ⟨ws, hrun, hhalves⟩ := doEncode_halves [1, 0, 2, 0]
  refine ⟨_, ws, hrun, fun hall => ?_⟩
  have hle := hhalves.length_le
  rw [hall] at hle
  exact absurd hle (by decide)

end SpresenseOpus.Host
