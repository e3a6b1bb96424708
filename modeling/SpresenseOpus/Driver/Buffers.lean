import Mathlib.Data.Set.Basic
import SpresenseOpus.Driver.System

/-!
# What a command reads and writes

The worker reads the input buffer of an Exec, and writes to the output buffer of an Exec and, with
Ogg, of a Flush; whatever libopus leaves is bound by the size of the buffer, and what is copied from
`oggzBuffer` is not (`handled_within`). It does not tell commands apart that agree in what it reads
(`handle_congr`). The memory itself is plain: what is put into a buffer is read back
(`readBytes_put`), and leaves the bytes outside (`put_bytes_of_notMem`).
-/

namespace SpresenseOpus.Driver

open Machine Worker

/-! ## Buffers -/

/-- The addresses of a buffer. -/
def region (h : BufferHeader) : Set UInt32 := {a | (a - h.p_buffer).toNat < h.size.toNat}

/-- A structure that the worker handles as an Exec. -/
def IsExec (c : Wien2ApuCmd) : Prop :=
  c.header.process_mode = EncMode ∧ c.header.event_type = ExecEvent

/-- A structure that the worker handles as a Flush. -/
def IsFlush (c : Wien2ApuCmd) : Prop :=
  c.header.process_mode = EncMode ∧ c.header.event_type = FlushEvent

instance : DecidablePred IsExec := fun _ => inferInstanceAs (Decidable (_ ∧ _))

instance : DecidablePred IsFlush := fun _ => inferInstanceAs (Decidable (_ ∧ _))

section Buffers

variable {ε σ : Type} (b : Build ε σ)

/-- The bytes that the worker reads for a command. -/
def input (c : Wien2ApuCmd) : Set UInt32 :=
  {a | IsExec c ∧ a ∈ region c.exec_enc_cmd.input_buffer}

/-- The output buffer of a command: an Exec has one, and a Flush is given bytes with Ogg. -/
inductive OutputBuffer (c : Wien2ApuCmd) : BufferHeader → Prop
  | exec : IsExec c → OutputBuffer c c.exec_enc_cmd.output_buffer
  | flush : b.useOgg = true → IsFlush c → OutputBuffer c c.flush_enc_cmd.output_buffer

/-- The bytes that the worker may write for a command. -/
def output (c : Wien2ApuCmd) : Set UInt32 := {a | ∃ h, OutputBuffer b c h ∧ a ∈ region h}

/-- Two commands whose buffers do not get in each other's way: only inputs may be shared. -/
structure Apart (c d : Wien2ApuCmd) : Prop where
  output_input : ∀ a ∈ output b c, a ∉ input d
  input_output : ∀ a ∈ input c, a ∉ output b d
  output_output : ∀ a ∈ output b c, a ∉ output b d

/-- Structures with the same buffers. -/
structure SameBuffers (c d : Wien2ApuCmd) : Prop where
  header : c.header = d.header
  exec_enc_cmd : c.exec_enc_cmd = d.exec_enc_cmd
  flush_enc_cmd : c.flush_enc_cmd = d.flush_enc_cmd

variable {b}

/-- That two commands are apart is a matter of both. -/
theorem Apart.symm {c d : Wien2ApuCmd} (h : Apart b c d) : Apart b d c where
  output_input a hd hc := h.input_output a hc hd
  input_output a hd hc := h.output_input a hc hd
  output_output a hd hc := h.output_output a hc hd

/-- That two structures name the same buffers is a matter of both. -/
theorem SameBuffers.symm {c d : Wien2ApuCmd} (h : SameBuffers c d) : SameBuffers d c :=
  ⟨h.header.symm, h.exec_enc_cmd.symm, h.flush_enc_cmd.symm⟩

/-- Structures that name the same buffers have the same input. -/
theorem SameBuffers.input_eq {c d : Wien2ApuCmd} (h : SameBuffers c d) : input c = input d := by
  unfold input IsExec
  rw [h.header, h.exec_enc_cmd]

/-- An output buffer of one of them is one of the other. -/
theorem SameBuffers.outputBuffer {c d : Wien2ApuCmd} (h : SameBuffers c d) {buffer : BufferHeader}
    (hb : OutputBuffer b c buffer) : OutputBuffer b d buffer := by
  cases hb with
  | exec hexec =>
    rw [h.exec_enc_cmd]
    exact .exec (by rw [IsExec, ← h.header]; exact hexec)
  | flush hogg hflush =>
    rw [h.flush_enc_cmd]
    exact .flush hogg (by rw [IsFlush, ← h.header]; exact hflush)

/-- They have the same output. -/
theorem SameBuffers.output_eq {c d : Wien2ApuCmd} (h : SameBuffers c d) :
    output b c = output b d := by
  refine Set.ext fun a => ⟨?_, ?_⟩
  · rintro ⟨buffer, hb, ha⟩
    exact ⟨buffer, h.outputBuffer hb, ha⟩
  · rintro ⟨buffer, hb, ha⟩
    exact ⟨buffer, h.symm.outputBuffer hb, ha⟩

/-- Whether commands are apart only depends on the buffers that they name. -/
theorem SameBuffers.apart {c c' d d' : Wien2ApuCmd} (hc : SameBuffers c c')
    (hd : SameBuffers d d') (h : Apart b c d) : Apart b c' d' where
  output_input := by rw [← hc.output_eq, ← hd.input_eq]; exact h.output_input
  input_output := by rw [← hc.input_eq, ← hd.output_eq]; exact h.input_output
  output_output := by rw [← hc.output_eq, ← hd.output_eq]; exact h.output_output

end Buffers

/-- The addresses that `readBytes` reads are those of the buffer. -/
theorem readBytes_congr {mem mem' : UInt32 → UInt8} {h : BufferHeader}
    (heq : ∀ a ∈ region h, mem a = mem' a) :
    readBytes mem h.p_buffer h.size = readBytes mem' h.p_buffer h.size := by
  refine List.map_congr_left fun i hi => heq _ ?_
  have hlt : i < h.size.toNat := List.mem_range.mp hi
  have hsub : h.p_buffer + UInt32.ofNat i - h.p_buffer = UInt32.ofNat i := by
    rw [UInt32.add_comm, UInt32.add_sub_cancel]
  show (h.p_buffer + UInt32.ofNat i - h.p_buffer).toNat < h.size.toNat
  rw [hsub, UInt32.toNat_ofNat_of_lt' (hlt.trans h.size.toNat_lt)]
  exact hlt

/-- Bytes that are put into a buffer leave the others. -/
theorem put_bytes_of_notMem {mem : SharedMemory} {w : Write} {h : BufferHeader}
    (hbuffer : w.p_buffer = h.p_buffer) (hlen : w.bytes.length ≤ h.size.toNat) {a : UInt32}
    (ha : a ∉ region h) : (mem.put w).bytes a = mem.bytes a := by
  have hpast : w.bytes[(a - w.p_buffer).toNat]? = none := by
    refine List.getElem?_eq_none (hlen.trans ?_)
    rw [hbuffer]
    exact Nat.le_of_not_lt ha
  show (w.bytes[(a - w.p_buffer).toNat]?).getD (mem.bytes a) = mem.bytes a
  rw [hpast]
  rfl

/-- Bytes that are put into a buffer are read back. -/
theorem readBytes_put (mem : SharedMemory) {w : Write} (hlen : w.bytes.length < 2 ^ 32) :
    readBytes (mem.put w).bytes w.p_buffer (UInt32.ofNat w.bytes.length) = w.bytes := by
  refine List.ext_getElem ?_ fun i h1 h2 => ?_
  · rw [readBytes, List.length_map, List.length_range, UInt32.toNat_ofNat_of_lt' hlen]
  · have hsub : w.p_buffer + UInt32.ofNat i - w.p_buffer = UInt32.ofNat i := by
      rw [UInt32.add_comm, UInt32.add_sub_cancel]
    simp only [readBytes, List.getElem_map, List.getElem_range, SharedMemory.put, hsub]
    rw [UInt32.toNat_ofNat_of_lt' (h2.trans hlen), List.getElem?_eq_getElem h2]
    rfl

/-! ## What the worker does with a command -/

section Worker

variable {ε σ : Type} {b : Build ε σ}

/-- libopus leaves no more bytes in an output buffer than it is told to hold. -/
def KeepsToBuffer (opus : Libopus ε) : Prop :=
  ∀ enc pcm frame_size max_data_bytes,
    (opus.encode enc pcm frame_size max_data_bytes).data.length ≤ max_data_bytes.toInt.toNat

/-- What the worker puts into the output buffer for a command, in this order. -/
def writes (h : Handled) : List Write := h.encoded.toList ++ h.copied.toList

/-- What the output buffer of a command holds in the end: what was put there last. -/
def lastWrite (h : Handled) : Option Write := h.copied.or h.encoded

/-- What is put into the output buffer last is put there. -/
theorem mem_writes_of_last {h : Handled} {w : Write} (hw : lastWrite h = some w) :
    w ∈ writes h := by
  unfold writes
  rcases Option.or_eq_some_iff.mp hw with hcopied | ⟨-, hencoded⟩
  · simp [hcopied]
  · simp [hencoded]

variable (b) in
/-- Bytes within the output buffer of a command. -/
def Within (c : Wien2ApuCmd) (w : Write) : Prop :=
  ∃ buffer, OutputBuffer b c buffer ∧ w.p_buffer = buffer.p_buffer ∧
    w.bytes.length ≤ buffer.size.toNat

variable (b) in
/-- What was copied for a command is within its output buffer. -/
def Fits (h : Handled) : Prop := ∀ w, h.copied = some w → Within b h.com_param w

/-- A write within the output is one into the buffer of an Exec, or of a Flush with Ogg, and no
longer than that. -/
theorem within_iff {c : Wien2ApuCmd} {w : Write} : Within b c w ↔
    IsExec c ∧ w.p_buffer = c.exec_enc_cmd.output_buffer.p_buffer ∧
        w.bytes.length ≤ c.exec_enc_cmd.output_buffer.size.toNat ∨
      (b.useOgg = true ∧ IsFlush c) ∧ w.p_buffer = c.flush_enc_cmd.output_buffer.p_buffer ∧
        w.bytes.length ≤ c.flush_enc_cmd.output_buffer.size.toNat := by
  constructor
  · rintro ⟨buffer, hexec | ⟨hogg, hflush⟩, hw⟩
    · exact .inl ⟨hexec, hw⟩
    · exact .inr ⟨⟨hogg, hflush⟩, hw⟩
  · rintro (⟨hexec, hw⟩ | ⟨⟨hogg, hflush⟩, hw⟩)
    · exact ⟨_, .exec hexec, hw⟩
    · exact ⟨_, .flush hogg hflush, hw⟩

instance (c : Wien2ApuCmd) (w : Write) : Decidable (Within b c w) :=
  decidable_of_iff _ within_iff.symm

instance (h : Handled) : Decidable (Fits b h) :=
  inferInstanceAs (Decidable (∀ w ∈ h.copied, Within b h.com_param w))

variable (b) in
/-- A command that was handled within its output buffer, and whose structure has the same buffers
as before. -/
structure HandledWithin (c : Wien2ApuCmd) (h : Handled) : Prop where
  same : SameBuffers c h.com_param
  within : ∀ w ∈ writes h, Within b c w

/-- A structure that only gets a result is handled within its buffers: nothing is put anywhere. -/
theorem HandledWithin.of_result (c : Wien2ApuCmd) (x : ExecResult) (n : Option UInt32) :
    HandledWithin b c { com_param := c.setExecResult x, local_size := n } where
  same := ⟨rfl, rfl, rfl⟩
  within _ hw := absurd hw List.not_mem_nil

/-- A write within the output of one structure is within that of another one with the same buffers.
-/
theorem SameBuffers.within {c d : Wien2ApuCmd} (h : SameBuffers c d) {w : Write}
    (hw : Within b c w) : Within b d w := by
  obtain ⟨buffer, hb, hw⟩ := hw
  exact ⟨buffer, h.outputBuffer hb, hw⟩

/-- A message of the Exec kind names a structure that is handled as an Exec. -/
theorem isExec_of_kind {m : Message} (hk : m.kind = .exec) : IsExec m.com_param := by
  unfold Message.kind at hk
  split_ifs at hk with htype hmode hinit hexec
  exact ⟨not_not.mp hmode, hexec⟩

/-- The size of an output buffer as `opus_encode` is told it. -/
theorem toNat_toInt_le (size : UInt32) : size.toInt32.toInt.toNat ≤ size.toNat := by
  have hto : size.toInt32.toInt = (size.toNat : ℤ).bmod (2 ^ 32) := by
    rw [Int32.toInt, UInt32.toBitVec_toInt32, BitVec.toInt_eq_toNat_bmod]
    rfl
  have hle : (size.toNat : ℤ).bmod (2 ^ 32) ≤ size.toNat := by
    have hlt := size.toNat_lt
    rw [Int.bmod_def]
    split_ifs <;> omega
  rw [hto]
  omega

/-- What `opus_encode` leaves for an Exec is within its output buffer. -/
theorem within_encoded (hopus : KeepsToBuffer b.opus) {m : Message} (hk : m.kind = .exec)
    (e : OpusAudioEncoder ε) (enc : ε) :
    Within b m.com_param
      ⟨m.execCmd.output_buffer.p_buffer, (b.result (m.call e enc)).data⟩ :=
  ⟨_, .exec (isExec_of_kind hk), rfl, (hopus ..).trans (toNat_toInt_le _)⟩

/-- A reply of the worker hands back the word of its message, and its command was handled within its
output buffer, if what was copied fits. -/
theorem handled_within (hopus : KeepsToBuffer b.opus) {w w' : Globals ε σ} {m : Message}
    {r : Reply} (hrun : (handle b m).run w = .ok r w')
    (hfits : ∀ h, r.handled = some h → Fits b h) :
    r.msg_data = m.msgdata ∧ ∀ h, r.handled = some h → HandledWithin b m.com_param h := by
  cases Turn.of_run hrun with
  | value _ => exact ⟨rfl, fun h hh => absurd hh (by simp [replyToSpu])⟩
  | other _ =>
    refine ⟨rfl, fun h hh => ?_⟩
    obtain rfl := Option.some.inj hh
    exact ⟨⟨rfl, rfl, rfl⟩, fun w hw => absurd hw List.not_mem_nil⟩
  | initAgain _ _ => exact ⟨rfl, fun h hh => Option.some.inj hh ▸ .of_result ..⟩
  | initPlain _ _ _ => exact ⟨rfl, fun h hh => Option.some.inj hh ▸ .of_result ..⟩
  | initOgg _ _ _ _ => exact ⟨rfl, fun h hh => Option.some.inj hh ▸ .of_result ..⟩
  | execRejected _ _ _ => exact ⟨rfl, fun h hh => Option.some.inj hh ▸ .of_result ..⟩
  | flushPlain _ _ => exact ⟨rfl, fun h hh => Option.some.inj hh ▸ .of_result ..⟩
  | @execPlain e enc hk he hsize hch henc ho =>
    refine ⟨rfl, fun h hh => ?_⟩
    obtain rfl := Option.some.inj hh
    refine ⟨⟨rfl, rfl, rfl⟩, fun w hw => ?_⟩
    obtain rfl := List.mem_singleton.mp hw
    exact within_encoded hopus hk e enc
  | @execOgg e enc g hk he hsize hch henc ho ha =>
    refine ⟨rfl, fun h hh => ?_⟩
    have hcopied := hfits h hh
    obtain rfl := Option.some.inj hh
    have hsame : SameBuffers m.com_param (m.answer .ApuExecOK) := ⟨rfl, rfl, rfl⟩
    refine ⟨hsame, fun w hw => ?_⟩
    rcases List.mem_cons.mp hw with rfl | hw
    · exact within_encoded hopus hk e enc
    · obtain rfl := List.mem_singleton.mp hw
      exact hsame.symm.within (hcopied _ rfl)
  | flushOgg hk ho hf =>
    refine ⟨rfl, fun h hh => ?_⟩
    have hcopied := hfits h hh
    obtain rfl := Option.some.inj hh
    have hsame : SameBuffers m.com_param (m.answer .ApuExecOK) := ⟨rfl, rfl, rfl⟩
    refine ⟨hsame, fun w hw => ?_⟩
    obtain rfl := List.mem_singleton.mp hw
    exact hsame.symm.within (hcopied _ rfl)

/-- The worker does not tell two messages apart that agree in what it reads. -/
theorem handle_congr {m m' : Message} (hcommand : m.command = m'.command)
    (hdata : m.msgdata = m'.msgdata) (hcmd : m.com_param = m'.com_param)
    (hmem : ∀ a ∈ input m.com_param, m.mem a = m'.mem a) : handle b m = handle b m' := by
  obtain ⟨command, msgdata, c, mem⟩ := m
  obtain ⟨command', msgdata', c', mem'⟩ := m'
  simp only at hcommand hdata hcmd hmem
  subst hcommand hdata hcmd
  have hdispatch : dispatch b c mem = dispatch b c mem' := by
    unfold dispatch
    split_ifs with hinit hexec hflush
    · rfl
    · -- Only an Exec reads bytes, those of its input buffer.
      have hread : readBytes mem c.exec_enc_cmd.input_buffer.p_buffer
          c.exec_enc_cmd.input_buffer.size = readBytes mem' c.exec_enc_cmd.input_buffer.p_buffer
          c.exec_enc_cmd.input_buffer.size :=
        readBytes_congr fun a ha => hmem a ⟨hexec, ha⟩
      simp only [execBranch, execFrame, hread]
    · rfl
    · rfl
  unfold handle
  simp only [hdispatch]
  rfl

end Worker

end SpresenseOpus.Driver
