import SpresenseOpus.Subcore.System

/-!
# The stream that the sub core sends

What becomes of a recording on its way through both cores: the main core cuts it into frames, one
encoder of the sub core makes a packet of each, and liboggz makes a stream of the packets, which
goes out through `Serial`.

After every schedule the packets fed are the two headers and those of the frames that were encoded
(`streamAt_run`), and what was sent, with what waits to be sent, is all that liboggz has produced.
In a gapless schedule the frames are those of the recording. So liboggz gets the recording, encoded
frame by frame from its start, whatever is recorded and however the two cores take their turns
(`stream_of_gapless`).
-/

namespace SpresenseOpus.Subcore

open Machine
open Reads (pieces eq_pieces_of_prefix)

section Stream

variable {ε σ : Type} (opus : Libopus ε)

/-- What `opus_encode` makes of a captured frame: of 1920 bytes. -/
def outcome (enc : ε) (frame : List UInt8) : Encoded ε :=
  encodeCall opus enc frame 1920 OPUS_OUT_MAX_SIZE

/-- The encoder after frames. -/
def encoderAfter (enc : ε) (frames : List (List UInt8)) : ε :=
  frames.foldl (fun enc frame => (outcome opus enc frame).next) enc

/-- The packet of the `n`-th frame. -/
def packetAt (n : ℕ) (r : Encoded ε) : OggPacket :=
  audioPacket r.data r.len.toInt (posAt (n + 1)).toInt32 (n + 2)

/-- The packets that an encoder makes of frames, the first of which is the `n`-th one. -/
def packets (n : ℕ) (enc : ε) : List (List UInt8) → List OggPacket
  | [] => []
  | frame :: frames =>
    let r := outcome opus enc frame
    packetAt n r :: packets (n + 1) r.next frames

/-- The encoder after one more frame. -/
theorem encoderAfter_concat (enc : ε) (frames : List (List UInt8)) (frame : List UInt8) :
    encoderAfter opus enc (frames ++ [frame]) =
      (outcome opus (encoderAfter opus enc frames) frame).next := by
  simp [encoderAfter]

/-- A frame behind the others leads to a packet behind theirs, from the encoder as they leave it. -/
theorem packets_concat (frame : List UInt8) : ∀ (frames : List (List UInt8)) (n : ℕ) (enc : ε),
    packets opus n enc (frames ++ [frame]) = packets opus n enc frames ++
      [packetAt (n + frames.length) (outcome opus (encoderAfter opus enc frames) frame)]
  | [], _, _ => rfl
  | f :: frames, n, enc => by
    have hcount : n + 1 + frames.length = n + (f :: frames).length := by
      rw [List.length_cons]
      omega
    rw [List.cons_append, packets, packets, packets_concat frame frames (n + 1), hcount,
      List.cons_append]
    rfl

/-! ## The program -/

/-- The state of the program after frames: each has fed its packet, and all that liboggz has
produced was sent or is in `oggzBuffer`. -/
structure StreamAt (enc : ε) (frames : List (List UInt8)) (w : EncoderSub ε σ) : Prop where
  encoder : w.enc = some (encoderAfter opus enc frames)
  posInSamples : w.posInSamples = posAt frames.length
  packetno : w.ogg.packetno = frames.length + 2
  fed : w.ogg.fed = headPacket 1 48000 0 :: tagsPacket 1 :: packets opus 0 enc frames
  sent : w.serial ++ w.ogg.sink = w.ogg.chunks.flatten

variable {opus} {z : Liboggz σ} {fuel : ℕ}

/-- What `begin` leaves in the Ogg module. -/
theorem begin_ogg {w : EncoderSub ε σ} (h : (EncoderSub.begin opus z fuel).run {} = .ok () w) :
    w.serial = [] ∧ w.ogg.packetno = 2 ∧ w.ogg.sink = w.ogg.chunks.flatten := by
  unfold EncoderSub.begin at h
  obtain ⟨_, w₁, hbegin, h₁⟩ := bind_ok h
  obtain ⟨_, w₂, hheader, h₂⟩ := bind_ok h₁
  obtain ⟨g₁, hbegin', rfl⟩ := EncoderSub.onOgg_ok hbegin
  obtain ⟨g₂, hheader', rfl⟩ := EncoderSub.onOgg_ok hheader
  rw [EStateM.run_modify] at h₂
  obtain rfl := (EStateM.Result.ok.inj h₂).2
  refine ⟨rfl, (fed_of_begin z hbegin' hheader').2, ?_⟩
  -- `ogg_begin` writes nothing.
  have hempty : g₁.chunks = [] ∧ g₁.sink = [] := by
    unfold oggBegin at hbegin'
    rw [EStateM.run_modify] at hbegin'
    obtain rfl := (EStateM.Result.ok.inj hbegin').2
    cases z.new <;> exact ⟨rfl, rfl⟩
  obtain ⟨cs, hchunks, hsink⟩ := (oggWriteHeaderPage_ok z hheader').produced
  rw [hempty.1, List.nil_append] at hchunks
  rw [hempty.2, List.nil_append] at hsink
  show g₂.sink = g₂.chunks.flatten
  rw [hchunks, hsink]

/-- The program after `begin` has no frames behind it. -/
theorem streamAt_begin {w : EncoderSub ε σ} (h : (EncoderSub.begin opus z fuel).run {} = .ok () w)
    {enc : ε} (hcreate : opus.create 48000 1 OPUS_APPLICATION_VOIP = some enc) :
    StreamAt opus enc [] w := by
  obtain ⟨henc, hpos, hfed⟩ := begin_ok opus h
  obtain ⟨hserial, hpacketno, hsink⟩ := begin_ogg h
  refine ⟨henc.trans hcreate, hpos, hpacketno, hfed, ?_⟩
  rw [hserial, hsink]
  rfl

/-- The position that `exec` gives to the next frame. -/
theorem StreamAt.posStep {enc : ε} {frames : List (List UInt8)} {w : EncoderSub ε σ}
    (h : StreamAt opus enc frames w) :
    w.posInSamples + Subcore.posStep = posAt (frames.length + 1) := by
  rw [h.posInSamples, posAt, posAt, UInt32.ofNat_add, UInt32.add_mul, UInt32.ofNat_one,
    UInt32.one_mul]

variable (z fuel) in
/-- The page of the next frame is that of its packet. -/
theorem StreamAt.page {enc : ε} {frames : List (List UInt8)} {w : EncoderSub ε σ}
    (h : StreamAt opus enc frames w) (frame : List UInt8) :
    Wrote w.ogg
      [packetAt frames.length (outcome opus (encoderAfter opus enc frames) frame)]
      (stateAfter (w.page opus z fuel ⟨frame, 960⟩ (encoderAfter opus enc frames))) := by
  have hwrote := feedAndDrain_wrote z fuel
    (audioPacket (outcome opus (encoderAfter opus enc frames) frame).data
      (outcome opus (encoderAfter opus enc frames) frame).len.toInt
      (posAt (frames.length + 1)).toInt32) 0 w.ogg
  rw [h.packetno] at hwrote
  unfold EncoderSub.page
  rw [h.posStep]
  exact hwrote

variable (z fuel) in
/-- `exec` feeds the packet of its frame, whether it returns or not. When it returns, everything
that was produced is sent. -/
theorem streamAt_exec {enc : ε} {frames : List (List UInt8)} {w : EncoderSub ε σ}
    (h : StreamAt opus enc frames w) (frame : List UInt8) :
    StreamAt opus enc (frames ++ [frame])
        (stateAfter ((EncoderSub.exec opus z fuel ⟨frame, 960⟩).run w)) ∧
      ∀ w', (EncoderSub.exec opus z fuel ⟨frame, 960⟩).run w = .ok () w' → w'.ogg.sink = [] := by
  have hpage := h.page z fuel frame
  have hlen : (frames ++ [frame]).length = frames.length + 1 := by simp
  have hposition : w.posInSamples + posStep = posAt (frames ++ [frame]).length := by
    rw [hlen, h.posStep]
  have hencoder : some (outcome opus (encoderAfter opus enc frames) frame).next =
      some (encoderAfter opus enc (frames ++ [frame])) := by
    rw [encoderAfter_concat]
  -- Of a state of the module that the page writer may leave.
  have hogg : ∀ g, Wrote w.ogg
      [packetAt frames.length (outcome opus (encoderAfter opus enc frames) frame)] g →
      g.packetno = (frames ++ [frame]).length + 2 ∧
        g.fed = headPacket 1 48000 0 :: tagsPacket 1 :: packets opus 0 enc (frames ++ [frame]) ∧
        w.serial ++ g.sink = g.chunks.flatten := by
    intro g hg
    obtain ⟨cs, hchunks, hsink⟩ := hg.produced
    refine ⟨?_, ?_, ?_⟩
    · rw [hg.packetno, h.packetno, hlen, List.length_singleton]
      push_cast
      ring
    · rw [hg.fed, h.fed, packets_concat, Nat.zero_add]
      rfl
    · rw [hsink, hchunks, List.flatten_append, ← h.sent, List.append_assoc]
  cases hrun : w.page opus z fuel ⟨frame, 960⟩ (encoderAfter opus enc frames) with
  | ok u g =>
    rw [hrun] at hpage
    obtain ⟨hpacketno, hfed, hsent⟩ := hogg g hpage
    rw [exec_ok h.encoder hrun]
    refine ⟨⟨hencoder, hposition, hpacketno, hfed, ?_⟩, fun w' hw' => ?_⟩
    · exact (List.append_nil _).trans hsent
    · obtain rfl := (EStateM.Result.ok.inj hw').2
      rfl
  | error e g =>
    rw [hrun] at hpage
    obtain ⟨hpacketno, hfed, hsent⟩ := hogg g hpage
    rw [exec_error h.encoder hrun]
    exact ⟨⟨hencoder, hposition, hpacketno, hfed, hsent⟩, fun w' hw' => nomatch hw'⟩

/-! ## Both cores -/

variable {buffer capture : UInt32}

variable (opus buffer capture) in
/-- The state of the device: its program is where the frames that it has encoded leave it, and what
was produced for them is sent while it runs. -/
structure Streams (enc : ε) (d : Device ε σ) : Prop where
  points : Points buffer capture d.toCapturing
  stream : StreamAt opus enc d.encoded d.sub
  sent : d.halt = none → d.encoded ≠ [] → d.sub.ogg.sink = []

/-- A pass of the main core encodes nothing. -/
theorem streams_loop {enc : ε} {d : Device ε σ} (h : Streams opus buffer capture enc d)
    (recording : ℕ → UInt8) (read_size : ℕ) (failed : Bool) :
    Streams opus buffer capture enc
      { d with toCapturing := d.toCapturing.loop buffer capture recording read_size failed } := by
  have hencoded := (loop_balance buffer capture recording d.toCapturing read_size failed).1
  refine ⟨points_loop h.points read_size failed, ?_, ?_⟩
  · show StreamAt opus enc (d.toCapturing.loop buffer capture recording read_size failed).encoded _
    rw [hencoded]
    exact h.stream
  · show _ → (d.toCapturing.loop buffer capture recording read_size failed).encoded ≠ [] → _
    rw [hencoded]
    exact h.sent

/-- A pass of the sub core: the frame that an address leads to is encoded. -/
theorem streams_recv {enc : ε} {d : Device ε σ} (h : Streams opus buffer capture enc d) :
    Streams opus buffer capture enc (d.recv opus z fuel) := by
  cases hhalt : d.halt with
  | some e =>
    rw [recv_of_halt hhalt]
    exact h
  | none =>
    cases hq : d.queue with
    | nil =>
      rw [recv_of_nil hq]
      exact h
    | cons addr queue =>
      obtain ⟨hhanded, hencoded, -⟩ := handed_of_cons h.points hq
      obtain ⟨hstream, hsent⟩ := streamAt_exec z fuel h.stream (d.handed addr).buf
      rw [← hhanded, ← hencoded] at hstream
      rw [← hhanded] at hsent
      rw [recv_of_cons hhalt hq]
      cases hexec : (EncoderSub.exec opus z fuel (d.handed addr)).run d.sub with
      | ok u w' =>
        rw [hexec] at hstream
        rw [Machine.run_cons_ok hexec]
        exact ⟨(slot_recv h.points).1, hstream, fun _ _ => hsent w' hexec⟩
      | error e w' =>
        rw [hexec] at hstream
        rw [Machine.run_cons_error hexec]
        exact ⟨(slot_recv h.points).1, hstream, fun hnone => nomatch hnone⟩

variable (opus z fuel buffer capture) in
/-- After every schedule the packets fed are those of the frames encoded. -/
theorem streams_run (recording : ℕ → UInt8) {enc : ε} : ∀ (schedule : List Pass) {d : Device ε σ},
    Streams opus buffer capture enc d →
      Streams opus buffer capture enc
        (Device.run opus z fuel buffer capture recording schedule d)
  | [], _, h => h
  | .main read_size failed :: schedule, _, h =>
    streams_run recording schedule (streams_loop h recording read_size failed)
  | .sub :: schedule, _, h => streams_run recording schedule (streams_recv h)

variable (buffer capture) in
/-- In a gapless schedule the frames that are encoded are those of the recording. -/
theorem encoded_eq_pieces (recording : ℕ → UInt8) {schedule : List Pass} (h : Gapless schedule) :
    (Capturing.run buffer capture recording schedule .start).encoded =
      pieces bufferSize recording
        (Capturing.run buffer capture recording schedule .start).encoded.length := by
  have htaken := Slot.taken_of_gapless bufferSize_pos recording h
  rw [← refines_run buffer capture recording schedule] at htaken
  exact htaken

variable (opus z fuel buffer capture) in
/-- In every gapless schedule liboggz gets the header packets, and one packet for each frame of the
recording that was encoded, from its start and without a gap, as one encoder makes them; what was
sent and what waits to be sent is all that it has produced, and nothing waits while the program
runs. -/
theorem stream_of_gapless (recording : ℕ → UInt8) {sub : EncoderSub ε σ}
    (hbegin : (EncoderSub.begin opus z fuel).run {} = .ok () sub) {enc : ε}
    (hcreate : opus.create 48000 1 OPUS_APPLICATION_VOIP = some enc) {schedule : List Pass}
    (h : Gapless schedule) :
    let d := Device.run opus z fuel buffer capture recording schedule (.start sub)
    d.sub.ogg.fed = headPacket 1 48000 0 :: tagsPacket 1 ::
        packets opus 0 enc (pieces bufferSize recording d.encoded.length) ∧
      d.sub.serial ++ d.sub.ogg.sink = d.sub.ogg.chunks.flatten ∧
      (d.halt = none → d.encoded ≠ [] → d.sub.serial = d.sub.ogg.chunks.flatten) := by
  intro d
  have hstart : Streams opus buffer capture enc (.start sub) :=
    ⟨points_start, streamAt_begin hbegin hcreate, fun _ hne => absurd rfl hne⟩
  have hstreams : Streams opus buffer capture enc d :=
    streams_run opus z fuel buffer capture recording schedule hstart
  have hworks : Works opus z fuel buffer capture sub
      (Capturing.run buffer capture recording schedule .start) d :=
    works_run opus z fuel buffer capture recording sub schedule (works_start sub)
  have hencoded : d.encoded = pieces bufferSize recording d.encoded.length := by
    -- A sub core that never stops has encoded these and perhaps more.
    have hprefix := hworks.encoded
    rw [encoded_eq_pieces buffer capture recording h] at hprefix
    exact eq_pieces_of_prefix hprefix
  refine ⟨?_, hstreams.stream.sent, fun hhalt hne => ?_⟩
  · rw [← hencoded]
    exact hstreams.stream.fed
  · rw [← hstreams.stream.sent, hstreams.sent hhalt hne, List.append_nil]

end Stream

/-- The two frames of that schedule are taken alone, and nothing is lost in front of them. -/
theorem gapless_frameSchedule : Gapless frameSchedule := by decide +kernel

/-- The stream for these two frames, of silence. -/
theorem stream_of_gapless_frame : ∃ fuel sub,
    (EncoderSub.begin silentOpus bareOggz fuel).run {} = .ok () sub ∧
      let d := Device.run silentOpus bareOggz fuel 0x1000 0x2000 (fun _ => 0) frameSchedule
        (.start sub)
      d.sub.ogg.fed = headPacket 1 48000 0 :: tagsPacket 1 ::
          packets silentOpus 0 48000 (pieces bufferSize (fun _ => 0) d.encoded.length) ∧
        d.sub.serial ++ d.sub.ogg.sink = d.sub.ogg.chunks.flatten ∧
        (d.halt = none → d.encoded ≠ [] → d.sub.serial = d.sub.ogg.chunks.flatten) := by
  obtain ⟨fuel, sub, hbegin, -⟩ := begin_silentOpus
  exact ⟨fuel, sub, hbegin, stream_of_gapless silentOpus bareOggz fuel 0x1000 0x2000 (fun _ => 0)
    hbegin rfl gapless_frameSchedule⟩

end SpresenseOpus.Subcore
