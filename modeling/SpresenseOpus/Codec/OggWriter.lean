import Mathlib.Order.Filter.AtTopBot.Basic
import SpresenseOpus.Codec.Libopus
import SpresenseOpus.Codec.OggHeaders
import SpresenseOpus.Library.Machine

/-!
# The Ogg module

`encoderPoc_ogg.cpp`, whose four copies differ in where `ogg_writeFile_cb` puts its bytes (a file
on the host and on the main core, a vector on the sub core and in the DSP worker) and in nothing
else that this model sees. liboggz is outside the repository: `Liboggz` is what the module calls
of it, an arbitrary stateful producer of chunks for the callback.

The state keeps two histories that the code does not have, the packets passed to
`oggz_write_feed` and the chunks passed to the callback. Every function of the module is described
by `Wrote`: which packets it has fed, and that whatever it has put into the sink came through the
callback. A drain loop runs on the iterations that it is granted and halts when they are used up,
so that `Wrote` is also stated for a page writer that does not return.
-/

namespace SpresenseOpus

open Filter Machine

/-- `ogg_packet`. `packet` is what the pointer shows, as far as it is defined. -/
structure OggPacket where
  packet : List UInt8
  bytes : ℤ
  b_o_s : Bool
  e_o_s : Bool
  granulepos : ℤ
  packetno : ℤ
  deriving DecidableEq, Repr

/-- `OGGZ_ERR_BAD_OGGZ`, which liboggz returns for a null handle. -/
def OGGZ_ERR_BAD_OGGZ : ℤ := -2
/-- `OGGZ_FLUSH_AFTER`. -/
def OGGZ_FLUSH_AFTER : ℤ := 2
/-- `WRITE_CHUNK_SIZE`. -/
def WRITE_CHUNK_SIZE : ℕ := 256

/-- The outcome of one `oggz_write`. -/
structure OggzWritten (σ : Type) where
  /-- The value returned: a number of bytes, zero, or a negative error code. -/
  ret : ℤ
  /-- The chunks handed to the write callback, in order. -/
  chunks : List (List UInt8)
  /-- The handle's state after the call. -/
  next : σ

/-- The part of liboggz that the programs call, on the state behind a handle. -/
structure Liboggz (σ : Type) where
  /-- `oggz_new(OGGZ_WRITE | OGGZ_NONSTRICT)`, with `none` for the null handle of a failure. -/
  new : Option σ
  /-- `oggz_serialno_new`. -/
  serialnoNew : σ → ℤ × σ
  /-- `oggz_write_feed`. -/
  writeFeed : σ → OggPacket → (serialno flush : ℤ) → ℤ × σ
  /-- `oggz_write`. -/
  write : σ → (n : ℕ) → OggzWritten σ

/-- The globals of the Ogg module, the place that its callback writes to, and the histories. -/
structure Ogg (σ : Type) where
  packetno : ℤ := 0
  serialno : ℤ := -1
  oggz : Option σ := none
  /-- The bytes in the vector or file that `ogg_writeFile_cb` writes to. -/
  sink : List UInt8 := []
  /-- History: the packets passed to `oggz_write_feed`. -/
  fed : List OggPacket := []
  /-- History: the chunks passed to `ogg_writeFile_cb`. -/
  chunks : List (List UInt8) := []

/-- A program over the state of the Ogg module. -/
abbrev OggM (σ : Type) := EStateM Halt (Ogg σ)

section Writer

variable {σ : Type}

/-- `ogg_writeFile_cb`. -/
def oggWriteFileCb (g : Ogg σ) (buf : List UInt8) : Ogg σ :=
  { g with sink := g.sink ++ buf, chunks := g.chunks ++ [buf] }

variable (z : Liboggz σ)

/-- `ogg_begin`. -/
def oggBegin : OggM σ Unit :=
  modify fun g =>
    match z.new with
    -- A null handle goes unnoticed, and the error code is kept as the serial number.
    | none => { g with oggz := none, serialno := OGGZ_ERR_BAD_OGGZ }
    | some o => { g with oggz := some (z.serialnoNew o).2, serialno := (z.serialnoNew o).1 }

/-- `packetno++`. -/
def nextPacketno : OggM σ ℤ :=
  modifyGet fun g => (g.packetno, { g with packetno := g.packetno + 1 })

/-- The call of `oggz_write_feed` for the module's handle and stream. -/
def oggzWriteFeed (op : OggPacket) (flush : ℤ) : OggM σ ℤ :=
  modifyGet fun g =>
    match g.oggz with
    | none => (OGGZ_ERR_BAD_OGGZ, { g with fed := g.fed ++ [op] })
    | some o =>
      let r := z.writeFeed o op g.serialno flush
      (r.1, { g with fed := g.fed ++ [op], oggz := some r.2 })

/-- The call of `oggz_write` for the module's handle, which calls `ogg_writeFile_cb`. -/
def oggzWrite : OggM σ ℤ :=
  modifyGet fun g =>
    match g.oggz with
    | none => (OGGZ_ERR_BAD_OGGZ, g)
    | some o =>
      let r := z.write o WRITE_CHUNK_SIZE
      (r.ret, r.chunks.foldl oggWriteFileCb { g with oggz := some r.next })

/-- `while (int n = oggz_write(oggz, WRITE_CHUNK_SIZE))`, for at most `fuel` iterations. -/
def drain : (fuel : ℕ) → OggM σ Unit
  | 0 => throw .outOfFuel
  | fuel + 1 => do
    let n ← oggzWrite z
    -- An error code is not zero either, so that the loop goes on after a failed write.
    if n = 0 then pure () else drain fuel

/-- What the page writers do with a packet: number it, feed it, and drain the output. -/
def feedAndDrain (fuel : ℕ) (op : (packetno : ℤ) → OggPacket) (flush : ℤ) : OggM σ Unit := do
  let packetno ← nextPacketno
  -- Whether the packet was accepted is not looked at.
  let _ ← oggzWriteFeed z (op packetno) flush
  drain z fuel

/-- The packet that `ogg_writeHeaderPage` makes of the identification header. -/
def headPacket (recording_cannel_number recording_sampling_rate : Int32) (packetno : ℤ) :
    OggPacket :=
  let header : OpusOggHeader := {
    sampleRate := recording_sampling_rate.toUInt32
    channelCount := recording_cannel_number.toUInt32.toUInt8 }
  { packet := header.bytes, bytes := header.bytes.length, granulepos := 0, packetno
    b_o_s := true, e_o_s := false }

/-- The packet that `ogg_writeHeaderPage` makes of the comment header. -/
def tagsPacket (packetno : ℤ) : OggPacket :=
  let comment : OpusOggCommentHeader := {}
  { packet := comment.bytes, bytes := comment.bytes.length, granulepos := 0, packetno
    b_o_s := false, e_o_s := false }

/-- The packet of `ogg_writeAudioDataPage`. `bytes` is the length as a `long`. -/
def audioPacket (data : List UInt8) (bytes : ℤ) (pos : Int32) (packetno : ℤ) : OggPacket :=
  { packet := data.take bytes.toNat, bytes, granulepos := pos.toInt, packetno
    b_o_s := false, e_o_s := false }

/-- The position of an audio packet is the one that it is given. -/
@[simp] theorem audioPacket_granulepos (data : List UInt8) (bytes : ℤ) (pos : Int32)
    (packetno : ℤ) : (audioPacket data bytes pos packetno).granulepos = pos.toInt := rfl

/-- A buffer that begins with the data makes the same packet. -/
theorem audioPacket_of_take {data buffer : List UInt8} {bytes : ℤ}
    (hbytes : bytes.toNat = data.length) (h : buffer.take data.length = data) :
    audioPacket buffer bytes = audioPacket data bytes := by
  funext pos packetno
  unfold audioPacket
  rw [hbytes, h, List.take_length]

/-- The packet of `ogg_writeFooterPage`. -/
def footerPacket (packetno : ℤ) : OggPacket :=
  { packet := [], bytes := 0, granulepos := 0, packetno, b_o_s := false, e_o_s := true }

/-- `ogg_writeHeaderPage`. -/
def oggWriteHeaderPage (fuel : ℕ) (recording_cannel_number recording_sampling_rate : Int32) :
    OggM σ Unit := do
  feedAndDrain z fuel (headPacket recording_cannel_number recording_sampling_rate) 0
  feedAndDrain z fuel tagsPacket OGGZ_FLUSH_AFTER

/-- `ogg_writeAudioDataPage`. -/
def oggWriteAudioDataPage (fuel : ℕ) (data : List UInt8) (len : ℤ) (pos : Int32) : OggM σ Unit :=
  feedAndDrain z fuel (audioPacket data len pos) 0

/-- `ogg_writeFooterPage`. -/
def oggWriteFooterPage (fuel : ℕ) : OggM σ Unit :=
  feedAndDrain z fuel footerPacket OGGZ_FLUSH_AFTER

/-! ## What a program of the module writes -/

/-- `g'` is a state reached from `g` by feeding the packets `ps`: they are counted by `packetno`,
and what the sink has gained is what went through the callback. -/
structure Wrote (g : Ogg σ) (ps : List OggPacket) (g' : Ogg σ) : Prop where
  fed : g'.fed = g.fed ++ ps
  packetno : g'.packetno = g.packetno + ps.length
  produced : ∃ cs, g'.chunks = g.chunks ++ cs ∧ g'.sink = g.sink ++ cs.flatten
  handle : g'.oggz.isSome = g.oggz.isSome

/-- Nothing is written by doing nothing. -/
theorem Wrote.refl (g : Ogg σ) : Wrote g [] g :=
  ⟨by simp, by simp, ⟨[], by simp, by simp⟩, rfl⟩

/-- What two programs write is what they write one after the other. -/
theorem Wrote.trans {g g' g'' : Ogg σ} {ps qs : List OggPacket} (h : Wrote g ps g')
    (h' : Wrote g' qs g'') : Wrote g (ps ++ qs) g'' := by
  obtain ⟨cs, hchunks, hsink⟩ := h.produced
  obtain ⟨cs', hchunks', hsink'⟩ := h'.produced
  refine ⟨?_, ?_, ⟨cs ++ cs', ?_, ?_⟩, ?_⟩
  · rw [h'.fed, h.fed, List.append_assoc]
  · rw [h'.packetno, h.packetno, List.length_append]
    push_cast
    ring
  · rw [hchunks', hchunks, List.append_assoc]
  · rw [hsink', hsink, List.flatten_append, List.append_assoc]
  · rw [h'.handle, h.handle]

/-- Writing packets only adds to the end of the sink. -/
theorem Wrote.sink_prefix {g g' : Ogg σ} {ps : List OggPacket} (h : Wrote g ps g') :
    g.sink <+: g'.sink := by
  obtain ⟨cs, -, hsink⟩ := h.produced
  exact ⟨cs.flatten, hsink.symm⟩

/-- The callback on several chunks appends them to the sink and changes nothing else. -/
theorem foldl_oggWriteFileCb (g : Ogg σ) (cs : List (List UInt8)) :
    cs.foldl oggWriteFileCb g =
      { g with sink := g.sink ++ cs.flatten, chunks := g.chunks ++ cs } := by
  induction cs generalizing g with
  | nil => simp
  | cons c cs ih => simp [ih, oggWriteFileCb]

/-- `oggz_write` on a null handle fails and changes nothing. -/
theorem oggzWrite_none {g : Ogg σ} (ho : g.oggz = none) :
    (oggzWrite z).run g = .ok OGGZ_ERR_BAD_OGGZ g := by
  simp [oggzWrite, ho]

/-- `oggz_write` on a handle puts the chunks that it writes into the sink. -/
theorem oggzWrite_run_some {g : Ogg σ} {o : σ} (ho : g.oggz = some o) :
    (oggzWrite z).run g = .ok (z.write o WRITE_CHUNK_SIZE).ret { g with
      oggz := some (z.write o WRITE_CHUNK_SIZE).next
      sink := g.sink ++ (z.write o WRITE_CHUNK_SIZE).chunks.flatten
      chunks := g.chunks ++ (z.write o WRITE_CHUNK_SIZE).chunks } := by
  simp [oggzWrite, ho, foldl_oggWriteFileCb]

/-- `oggz_write` on a handle writes through the callback and feeds nothing. -/
theorem oggzWrite_some {g : Ogg σ} {o : σ} (ho : g.oggz = some o) :
    ∃ g', (oggzWrite z).run g = .ok (z.write o WRITE_CHUNK_SIZE).ret g' ∧ Wrote g [] g' ∧
      g'.oggz = some (z.write o WRITE_CHUNK_SIZE).next :=
  ⟨_, oggzWrite_run_some z ho, ⟨by simp, by simp, ⟨_, rfl, rfl⟩, by simp [ho]⟩, rfl⟩

/-- One `oggz_write` writes through the callback and feeds nothing, whatever the handle is. -/
theorem oggzWrite_wrote (g : Ogg σ) : ∃ n g', (oggzWrite z).run g = .ok n g' ∧ Wrote g [] g' := by
  cases ho : g.oggz with
  | none => exact ⟨_, g, oggzWrite_none z ho, Wrote.refl g⟩
  | some o =>
    obtain ⟨g', hrun, hg', -⟩ := oggzWrite_some z ho
    exact ⟨_, g', hrun, hg'⟩

/-- A drain loop writes through the callback and feeds nothing, whether it ends or not. -/
theorem drain_wrote : ∀ (fuel : ℕ) (g : Ogg σ), Wrote g [] (stateAfter ((drain z fuel).run g))
  | 0, g => Wrote.refl g
  | fuel + 1, g => by
    obtain ⟨n, g', hrun, hg'⟩ := oggzWrite_wrote z g
    rw [drain, EStateM.run_bind, hrun]
    by_cases hn : n = 0
    · simp only [hn, if_true]
      exact hg'
    · simp only [hn, if_false]
      exact hg'.trans (drain_wrote fuel g')

/-- With a null handle `oggz_write` fails every time, so that the drain loop does not end. -/
theorem drain_null {g : Ogg σ} (hg : g.oggz = none) :
    ∀ fuel, (drain z fuel).run g = .error .outOfFuel g
  | 0 => rfl
  | fuel + 1 => by
    rw [drain, EStateM.run_bind, oggzWrite_none z hg]
    exact drain_null hg fuel

/-- A drain loop halts for no other reason than that it does not end. -/
theorem drain_halt : ∀ (fuel : ℕ) (g : Ogg σ) {e : Halt} {g' : Ogg σ},
    (drain z fuel).run g = .error e g' → e = .outOfFuel
  | 0, g, e, g', h => by
    simp only [drain, EStateM.run_throw, EStateM.Result.error.injEq] at h
    exact h.1.symm
  | fuel + 1, g, e, g', h => by
    obtain ⟨n, g₁, hrun, -⟩ := oggzWrite_wrote z g
    rw [drain, EStateM.run_bind, hrun] at h
    by_cases hn : n = 0
    · simp [hn] at h
    · simp only [hn, if_false] at h
      exact drain_halt fuel g₁ h

/-- Numbering and feeding a packet adds it to what is fed. -/
theorem feed_wrote (op : OggPacket) (flush : ℤ) (g : Ogg σ) :
    ∃ n g', (oggzWriteFeed z op flush).run { g with packetno := g.packetno + 1 } = .ok n g' ∧
      Wrote g [op] g' := by
  cases ho : g.oggz with
  | none =>
    refine ⟨OGGZ_ERR_BAD_OGGZ,
      { g with packetno := g.packetno + 1, fed := g.fed ++ [op] }, ?_, ?_⟩
    · simp [oggzWriteFeed, ho]
    · exact ⟨rfl, rfl, ⟨[], by simp, by simp⟩, by simp⟩
  | some o =>
    refine ⟨(z.writeFeed o op g.serialno flush).1,
      { g with
        packetno := g.packetno + 1
        fed := g.fed ++ [op]
        oggz := some (z.writeFeed o op g.serialno flush).2 }, ?_, ?_⟩
    · simp [oggzWriteFeed]
    · exact ⟨rfl, rfl, ⟨[], by simp, by simp⟩, by simp [ho]⟩

/-- A page writer's run is the drain loop's, from a state in which its packet is fed. -/
theorem feedAndDrain_run (op : ℤ → OggPacket) (flush : ℤ) (g : Ogg σ) :
    ∃ g', (∀ fuel, (feedAndDrain z fuel op flush).run g = (drain z fuel).run g') ∧
      Wrote g [op g.packetno] g' := by
  obtain ⟨n, g', hrun, hg'⟩ := feed_wrote z (op g.packetno) flush g
  refine ⟨g', fun fuel => ?_, hg'⟩
  have hno : (nextPacketno (σ := σ)).run g =
      .ok g.packetno { g with packetno := g.packetno + 1 } := rfl
  rw [feedAndDrain, EStateM.run_bind, hno]
  simp only [EStateM.run_bind, hrun]

/-- A page writer feeds its one packet, whether it returns or not. -/
theorem feedAndDrain_wrote (fuel : ℕ) (op : ℤ → OggPacket) (flush : ℤ) (g : Ogg σ) :
    Wrote g [op g.packetno] (stateAfter ((feedAndDrain z fuel op flush).run g)) := by
  obtain ⟨g', hrun, hg'⟩ := feedAndDrain_run z op flush g
  rw [hrun]
  exact hg'.trans (drain_wrote z fuel g')

/-- A page writer halts for no other reason than that its drain loop does not end. -/
theorem feedAndDrain_halt {fuel : ℕ} {op : ℤ → OggPacket} {flush : ℤ} {g g' : Ogg σ} {e : Halt}
    (h : (feedAndDrain z fuel op flush).run g = .error e g') : e = .outOfFuel := by
  obtain ⟨g₁, hrun, -⟩ := feedAndDrain_run z op flush g
  rw [hrun] at h
  exact drain_halt z fuel g₁ h

/-- With a null handle a page writer feeds its packet and does not return. -/
theorem feedAndDrain_null (fuel : ℕ) (op : ℤ → OggPacket) (flush : ℤ) {g : Ogg σ}
    (hg : g.oggz = none) :
    ∃ g', (feedAndDrain z fuel op flush).run g = .error .outOfFuel g' ∧
      Wrote g [op g.packetno] g' := by
  obtain ⟨g', hrun, hg'⟩ := feedAndDrain_run z op flush g
  have hnull : g'.oggz = none := by
    have hsome := hg'.handle
    rw [hg] at hsome
    simpa using hsome
  exact ⟨g', by rw [hrun, drain_null z hnull], hg'⟩

/-- The bytes that liboggz hands to the callback, from a state of the handle on, in at most `fuel`
calls of `oggz_write` up to the first one that returns zero. -/
def Liboggz.written (fuel : ℕ) (o : σ) : List UInt8 :=
  match fuel with
  | 0 => []
  | fuel + 1 =>
    (z.write o WRITE_CHUNK_SIZE).chunks.flatten ++
      if (z.write o WRITE_CHUNK_SIZE).ret = 0 then []
      else Liboggz.written fuel (z.write o WRITE_CHUNK_SIZE).next

/-- The bytes that liboggz makes of a packet fed in a state of the module. -/
def Liboggz.pageBytes (fuel : ℕ) (g : Ogg σ) (op : OggPacket) (flush : ℤ) : List UInt8 :=
  match g.oggz with
  | none => []
  | some o => z.written fuel (z.writeFeed o op g.serialno flush).2

/-- A drain loop puts into the sink what liboggz writes. -/
theorem drain_sink : ∀ (fuel : ℕ) {g : Ogg σ} {o : σ}, g.oggz = some o →
    (stateAfter ((drain z fuel).run g)).sink = g.sink ++ z.written fuel o
  | 0, g, o, _ => (List.append_nil g.sink).symm
  | fuel + 1, g, o, ho => by
    rw [drain, EStateM.run_bind, oggzWrite_run_some z ho, Liboggz.written]
    by_cases hret : (z.write o WRITE_CHUNK_SIZE).ret = 0
    · simp [hret, stateAfter]
    · simp only [hret, if_false]
      rw [drain_sink fuel rfl, List.append_assoc]

/-- A page writer puts behind what the sink holds the bytes that liboggz makes of its packet. -/
theorem feedAndDrain_sink (fuel : ℕ) (op : ℤ → OggPacket) (flush : ℤ) (g : Ogg σ) :
    (stateAfter ((feedAndDrain z fuel op flush).run g)).sink =
      g.sink ++ z.pageBytes fuel g (op g.packetno) flush := by
  have hno : (nextPacketno (σ := σ)).run g =
      .ok g.packetno { g with packetno := g.packetno + 1 } := rfl
  rw [feedAndDrain, EStateM.run_bind, hno, Liboggz.pageBytes]
  cases ho : g.oggz with
  | none =>
    simp [oggzWriteFeed, EStateM.run_bind, drain_null, stateAfter]
  | some o =>
    simp only [oggzWriteFeed, EStateM.run_bind, EStateM.run_modifyGet]
    rw [drain_sink z fuel rfl]

/-- What `ogg_writeHeaderPage` feeds: the two header packets, or only the first of them when the
output of the first does not drain. -/
theorem oggWriteHeaderPage_wrote (fuel : ℕ) (ch rate : Int32) (g : Ogg σ) :
    ∃ ps, Wrote g ps (stateAfter ((oggWriteHeaderPage z fuel ch rate).run g)) ∧
      (ps = [headPacket ch rate g.packetno, tagsPacket (g.packetno + 1)] ∨
        ps = [headPacket ch rate g.packetno] ∧
          ∃ e g', (oggWriteHeaderPage z fuel ch rate).run g = .error e g') := by
  have hhead := feedAndDrain_wrote z fuel (headPacket ch rate) 0 g
  rw [oggWriteHeaderPage, EStateM.run_bind]
  cases h : (feedAndDrain z fuel (headPacket ch rate) 0).run g with
  | ok u g' =>
    rw [h, stateAfter] at hhead
    -- The second page is written in the state that the first one leaves.
    have htags := feedAndDrain_wrote z fuel tagsPacket OGGZ_FLUSH_AFTER g'
    rw [hhead.packetno, List.length_singleton, Nat.cast_one] at htags
    exact ⟨_, hhead.trans htags, .inl rfl⟩
  | error e g' =>
    rw [h, stateAfter] at hhead
    exact ⟨_, hhead, .inr ⟨rfl, e, g', rfl⟩⟩

/-- When `ogg_writeHeaderPage` returns, it has fed the two header packets. -/
theorem oggWriteHeaderPage_ok {fuel : ℕ} {ch rate : Int32} {g g' : Ogg σ}
    (h : (oggWriteHeaderPage z fuel ch rate).run g = .ok () g') :
    Wrote g [headPacket ch rate g.packetno, tagsPacket (g.packetno + 1)] g' := by
  obtain ⟨ps, hps, hcases⟩ := oggWriteHeaderPage_wrote z fuel ch rate g
  rw [h, stateAfter] at *
  rcases hcases with rfl | ⟨-, e, g'', herr⟩
  · exact hps
  · exact absurd herr (by simp)

/-- When a page writer returns, it has fed its packet. -/
theorem feedAndDrain_ok {fuel : ℕ} {op : ℤ → OggPacket} {flush : ℤ} {g g' : Ogg σ}
    (h : (feedAndDrain z fuel op flush).run g = .ok () g') : Wrote g [op g.packetno] g' := by
  have hwrote := feedAndDrain_wrote z fuel op flush g
  rw [h] at hwrote
  exact hwrote

/-- What a program has fed that has begun with `ogg_begin` and `ogg_writeHeaderPage`. -/
theorem fed_of_begin {fuel : ℕ} {ch rate : Int32} {g₁ g₂ : Ogg σ}
    (hbegin : (oggBegin z).run {} = .ok () g₁)
    (hheader : (oggWriteHeaderPage z fuel ch rate).run g₁ = .ok () g₂) :
    g₂.fed = [headPacket ch rate 0, tagsPacket 1] ∧ g₂.packetno = 2 := by
  have hbegun : g₁.fed = [] ∧ g₁.packetno = 0 := by
    unfold oggBegin at hbegin
    rw [EStateM.run_modify] at hbegin
    obtain rfl := (EStateM.Result.ok.inj hbegin).2
    cases z.new <;> exact ⟨rfl, rfl⟩
  have hwrote := oggWriteHeaderPage_ok z hheader
  rw [hbegun.2] at hwrote
  exact ⟨by rw [hwrote.fed, hbegun.1]; rfl, by rw [hwrote.packetno, hbegun.2]; rfl⟩

/-! ## Output that drains -/

/-- Calls of `oggz_write` from a state of the handle return positive counts until one returns
zero: the pending output drains without an error. -/
inductive Drains : σ → Prop
  | done {o : σ} : (z.write o WRITE_CHUNK_SIZE).ret = 0 → Drains o
  | more {o : σ} : 0 < (z.write o WRITE_CHUNK_SIZE).ret →
      Drains (z.write o WRITE_CHUNK_SIZE).next → Drains o

/-- The drain loop ends on output that drains, given enough iterations, always in the same
state. -/
theorem Drains.drain_eventually {o : σ} (hd : Drains z o) :
    ∀ g : Ogg σ, g.oggz = some o →
      ∃ g', Wrote g [] g' ∧ ∀ᶠ fuel in atTop, (drain z fuel).run g = .ok () g' := by
  induction hd with
  | @done o hret =>
    -- One iteration is enough.
    intro g ho
    obtain ⟨g', hrun, hg', -⟩ := oggzWrite_some z ho
    refine ⟨g', hg', eventually_atTop.mpr ⟨1, fun fuel hfuel => ?_⟩⟩
    obtain ⟨k, rfl⟩ := Nat.exists_eq_add_of_le' hfuel
    rw [drain, EStateM.run_bind, hrun]
    simp [hret]
  | @more o hret hnext ih =>
    -- One iteration more than from the next state.
    intro g ho
    obtain ⟨g', hrun, hg', ho'⟩ := oggzWrite_some z ho
    obtain ⟨g'', hg'', hev⟩ := ih g' ho'
    obtain ⟨F, hF⟩ := eventually_atTop.mp hev
    refine ⟨g'', hg'.trans hg'', eventually_atTop.mpr ⟨F + 1, fun fuel hfuel => ?_⟩⟩
    obtain ⟨k, rfl⟩ := Nat.exists_eq_add_of_le' (Nat.le_of_add_left_le hfuel)
    rw [drain, EStateM.run_bind, hrun]
    simp only [hret.ne', if_false]
    exact hF k (by omega)

variable {z}

/-- When all output drains, a page writer returns, given enough iterations, and has fed its
packet. -/
theorem feedAndDrain_eventually (hdrain : ∀ o, Drains z o) (op : ℤ → OggPacket) (flush : ℤ)
    {g : Ogg σ} (hg : g.oggz.isSome) :
    ∃ g', Wrote g [op g.packetno] g' ∧
      ∀ᶠ fuel in atTop, (feedAndDrain z fuel op flush).run g = .ok () g' := by
  obtain ⟨g₁, hrun, hg₁⟩ := feedAndDrain_run z op flush g
  obtain ⟨o, ho⟩ := Option.isSome_iff_exists.mp (hg₁.handle.trans hg)
  obtain ⟨g', hg', hev⟩ := (hdrain o).drain_eventually z g₁ ho
  refine ⟨g', hg₁.trans hg', hev.mono fun fuel hfuel => ?_⟩
  rw [hrun, hfuel]

/-- When all output drains, `ogg_writeHeaderPage` returns and has fed both header packets. -/
theorem oggWriteHeaderPage_eventually (hdrain : ∀ o, Drains z o) (ch rate : Int32) {g : Ogg σ}
    (hg : g.oggz.isSome) :
    ∃ g', Wrote g [headPacket ch rate g.packetno, tagsPacket (g.packetno + 1)] g' ∧
      ∀ᶠ fuel in atTop, (oggWriteHeaderPage z fuel ch rate).run g = .ok () g' := by
  obtain ⟨g₁, hg₁, hev₁⟩ := feedAndDrain_eventually hdrain (headPacket ch rate) 0 hg
  obtain ⟨g₂, hg₂, hev₂⟩ :=
    feedAndDrain_eventually hdrain tagsPacket OGGZ_FLUSH_AFTER (hg₁.handle.trans hg)
  have hno : g₁.packetno = g.packetno + 1 := hg₁.packetno
  rw [hno] at hg₂
  refine ⟨g₂, hg₁.trans hg₂, ?_⟩
  filter_upwards [hev₁, hev₂] with fuel h₁ h₂
  rw [oggWriteHeaderPage, EStateM.run_bind, h₁]
  exact h₂

/-- When liboggz hands out a handle and all output drains, a program that begins with `ogg_begin`
and `ogg_writeHeaderPage` gets through both, given enough iterations. -/
theorem begin_eventually (hdrain : ∀ o, Drains z o) {o : σ} (hnew : z.new = some o)
    (ch rate : Int32) :
    ∃ g₁ g₂, (oggBegin z).run {} = .ok () g₁ ∧ g₂.oggz.isSome ∧
      ∀ᶠ fuel in atTop, (oggWriteHeaderPage z fuel ch rate).run g₁ = .ok () g₂ := by
  have hbegin : (oggBegin z).run {} =
      .ok () { oggz := some (z.serialnoNew o).2, serialno := (z.serialnoNew o).1 } := by
    unfold oggBegin
    rw [EStateM.run_modify, hnew]
  obtain ⟨g₂, hg₂, hev⟩ := oggWriteHeaderPage_eventually hdrain ch rate
    (g := { oggz := some (z.serialnoNew o).2, serialno := (z.serialnoNew o).1 }) rfl
  exact ⟨_, g₂, hbegin, hg₂.handle.trans rfl, hev⟩

end Writer

end SpresenseOpus
