import SpresenseOpus.Codec.FrameSize
import SpresenseOpus.Library.Blocks

/-!
# The calls of `opus_encode`

`Libopus.logged` is a library whose encoders remember what `opus_encode` has been called with, and
which is the given library otherwise. A program that is linked with it shows the calls that it
makes. `Covers` is what the settings ask of the `i`-th call on interleaved samples of 16 bits: the
configured frame size, and the samples of every channel from `i` times that size on.
-/

namespace SpresenseOpus

open Blocks

/-- The samples and the frame size that a call of `opus_encode` passes. -/
structure Call where
  pcm : List UInt8
  frame_size : Int32
  deriving DecidableEq, Repr

section Logged

variable {ε : Type} (opus : Libopus ε)

/-- The library `opus` with encoders that remember their calls. -/
def Libopus.logged : Libopus (ε × List Call) where
  create Fs channels application := (opus.create Fs channels application).map fun enc => (enc, [])
  create_args Fs channels application e h := by
    obtain ⟨enc, henc, -⟩ := Option.map_eq_some_iff.mp h
    exact opus.create_args Fs channels application enc henc
  ctl e request := ((opus.ctl e.1 request).1, (opus.ctl e.1 request).2, e.2)
  encode e pcm frame_size max_data_bytes :=
    let r := opus.encode e.1 pcm frame_size max_data_bytes
    ⟨r.len, r.data, (r.next, e.2 ++ [⟨pcm, frame_size⟩]), r.length_eq⟩
  finalRange e := opus.finalRange e.1

end Logged

/-- The calls that an encoder handle remembers. -/
def loggedCalls {ε : Type} (enc : Option (ε × List Call)) : List Call := (enc.map Prod.snd).getD []

/-! ## Interleaved samples -/

/-- The two bytes of the `k`-th sample of channel `j`, in interleaved samples of `c` channels. -/
def sample (c j k : ℕ) (bytes : List UInt8) : List UInt8 := (bytes.drop ((k * c + j) * 2)).take 2

/-- A call of `opus_encode` is the `i`-th frame that the settings ask for: it has the configured
frame size `F`, and its samples are those from `i * F` up to `(i + 1) * F` of every channel. -/
structure Covers (cfg : OpusEncoderSettings) (input : List UInt8) (i : ℕ) (call : Call) : Prop where
  frame_size : call.frame_size = cfg.getFrameSizeSamples cfg.sample_rate
  samples : ∀ k < (cfg.getFrameSizeSamples cfg.sample_rate).toInt.toNat,
    ∀ j < cfg.channels.toInt.toNat,
      sample cfg.channels.toInt.toNat j k call.pcm = sample cfg.channels.toInt.toNat j
        (i * (cfg.getFrameSizeSamples cfg.sample_rate).toInt.toNat + k) input

/-- Every call of a run is the frame that the settings ask for in its place. -/
def EachCovers (cfg : OpusEncoderSettings) (input : List UInt8) (calls : List Call) : Prop :=
  ∀ i call, calls[i]? = some call → Covers cfg input i call

/-- The samples of a block of whole frames are those of the input from the block on. -/
theorem sample_block {F c j k : ℕ} (hk : k < F) (hj : j < c) (i : ℕ) (input : List UInt8) :
    sample c j k (block (F * c * 2) i input) = sample c j (i * F + k) input := by
  have hrow : k * c + j < F * c := by
    calc k * c + j < (k + 1) * c := by rw [Nat.succ_mul]; omega
      _ ≤ F * c := Nat.mul_le_mul_right c hk
  have hplace : F * c * 2 * i + (k * c + j) * 2 = ((i * F + k) * c + j) * 2 := by ring
  unfold sample block
  rw [List.drop_take, List.take_take, List.drop_drop, hplace, Nat.min_eq_left (by omega)]

/-- Calls for the blocks of an input, with a frame size that is the configured one and, for a
program that leaves the channels out of its sizes, that size divided by the channels as well, are
the frames that the settings ask for. -/
theorem eachCovers_of_blocks {cfg : OpusEncoderSettings} (hfits : RateFits cfg) {frames : Int32}
    (hdiv : frames.toInt =
      (cfg.getFrameSizeSamples cfg.sample_rate).toInt / cfg.channels.toInt)
    (hframes : frames = cfg.getFrameSizeSamples cfg.sample_rate) {n : ℕ}
    (hn : n = (cfg.getFrameSizeSamples cfg.sample_rate).toInt.toNat * 2) {input : List UInt8}
    {calls : List Call}
    (hcalls : ∀ (i : ℕ) (call : Call), calls[i]? = some call →
      call = ⟨block n i input, frames⟩) :
    EachCovers cfg input calls := by
  have hsize := hfits.size_of_eq hdiv hframes hn
  intro i call hcall
  obtain rfl := hcalls i call hcall
  refine ⟨hframes, fun k hk j hj => ?_⟩
  rw [hsize]
  exact sample_block hk hj i input

end SpresenseOpus
