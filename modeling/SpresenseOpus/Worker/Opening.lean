import SpresenseOpus.Worker.Readiness

/-!
# What the peer learns from an Init

Three things can go wrong with the first Init: the codec is not Opus, `opus_encoder_create` fails,
or libopus does not take the complexity. The first is noticed by the branch, whose result is then
overwritten, the second is logged by the constructor, and the result of `applyConfiguration` is
dropped. So every Init that is answered is answered with `ApuExecOK` (`Turn.init_result`), and an
Init is answered truthfully exactly when nothing goes wrong (`truthfulInit_iff_accepts`).
-/

namespace SpresenseOpus.Worker

open Machine

section Opening

variable {ε σ : Type} (b : Build ε σ)

/-- libopus takes the complexity that an Init asks for. The number becomes an `int`, and a negative
one is not even passed on. -/
def Build.TakesComplexity (i : Message) : Prop :=
  let cfg := i.com_param.init_enc_cmd.settings
  ∃ enc, b.opus.create cfg.sample_rate cfg.channels cfg.application = some enc ∧
    0 ≤ cfg.complexity ∧ (b.opus.ctl enc (.setComplexity cfg.complexity)).1 = OPUS_OK

/-- Nothing goes wrong with an Init. -/
structure Build.Accepts (i : Message) : Prop where
  codec : i.com_param.init_enc_cmd.codec_type = .AudCodecOPUS
  created : b.Creates i
  complexity : b.TakesComplexity i

/-- What is asked of an Init in a state: `ApuExecOK` says that nothing has gone wrong, and when
something does the Init is answered with `ApuExecError` and leaves the flag, the encoder and the
Ogg output as they were, so that a later Init finds what this one has found. -/
structure TruthfulInit (w : Globals ε σ) (i : Message) : Prop where
  ok : ∀ r w', (handle b i).run w = .ok r w' → r.exec_result = some .ApuExecOK → b.Accepts i
  refused : ¬ b.Accepts i → ∃ r w', (handle b i).run w = .ok r w' ∧
    r.exec_result = some .ApuExecError ∧ w'.initialized = w.initialized ∧
    w'.opusEncoder = w.opusEncoder ∧ (b.useOgg = true → w'.ogg = w.ogg)

variable {b}

/-- An Init that is answered is answered with `ApuExecOK`. -/
theorem Turn.init_result {w w' : Globals ε σ} {i : Message} {r : Reply}
    (ht : Turn b w i (.ok r w')) (hi : i.kind = .init) : r.exec_result = some .ApuExecOK := by
  rw [(ht.of_init hi).1]
  rfl

variable (b)

/-- In every state, and so in every one in which no Init has been executed, an Init is answered
truthfully if and only if its codec is Opus, the encoder can be created, and libopus takes the
complexity. -/
theorem truthfulInit_iff_accepts (w : Globals ε σ) (i : Message) (hi : i.kind = .init) :
    TruthfulInit b w i ↔ b.Accepts i := by
  constructor
  · intro h
    by_contra hbad
    obtain ⟨r, w', hrun, hresult, -⟩ := h.refused hbad
    have hok := (Turn.of_run hrun).init_result hi
    rw [hok] at hresult
    exact absurd hresult (by simp)
  · intro h
    exact ⟨fun _ _ _ _ => h, fun hbad => absurd h hbad⟩

end Opening

/-- The condition for the Init of a mono encoder at boot. -/
theorem truthfulInit_iff_accepts_mono :
    TruthfulInit plainBuild boot monoInit ↔ plainBuild.Accepts monoInit :=
  truthfulInit_iff_accepts plainBuild boot monoInit kind_monoInit

/-- An Init for another codec. -/
def mp3Init : Message :=
  sendToDsp 0x1000
    { encCmd InitEvent with
      init_enc_cmd := {
        codec_type := .AudCodecMP3, channel_num := 1, input_sampling_rate := 48000
        init_opus_enc_param := { complexity := 5 } } }
    fun _ => 0

/-- It is answered with `ApuExecOK`, and later Inits are taken for duplicates. -/
theorem exists_not_truthfulInit :
    ∃ i r w', i.kind = .init ∧ i.com_param.init_enc_cmd.codec_type ≠ .AudCodecOPUS ∧
      (handle plainBuild i).run boot = .ok r w' ∧ r.exec_result = some .ApuExecOK ∧
      w'.initialized = true ∧ ¬ TruthfulInit plainBuild boot i := by
  have hk : mp3Init.kind = .init := kind_sendToDsp _ _ _ rfl
  have hcodec : mp3Init.com_param.init_enc_cmd.codec_type ≠ .AudCodecOPUS := by decide
  refine ⟨mp3Init, _, _, hk, hcodec, Turn.run_eq (.initPlain hk rfl rfl), rfl, rfl, fun h => ?_⟩
  exact hcodec (h.ok _ _ (Turn.run_eq (.initPlain hk rfl rfl)) rfl).codec

end SpresenseOpus.Worker
