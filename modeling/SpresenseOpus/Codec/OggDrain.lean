import SpresenseOpus.Codec.Sample
import SpresenseOpus.Library.Polling

/-!
# When the drain loops end

The page writers poll `oggz_write` until it returns zero. liboggz keeps to the contract of
`Polling`: a count of at most `WRITE_CHUNK_SIZE` bytes that are then no longer pending, zero when
nothing is pending, or an error code. The loop condition takes an error for a count, so that a page
writer does not return when errors are all that is left to come, as with the null handle of a failed
`oggz_new`. Otherwise each of its loops ends with nothing pending (`drainLoops_end_iff`).
-/

namespace SpresenseOpus

open Filter Machine Polling

section Drain

variable {σ : Type} (z : Liboggz σ)

/-- A call of `oggz_write` on a handle: the value returned and the handle after it. -/
def Liboggz.poll (o : σ) : ℤ × σ :=
  ((z.write o WRITE_CHUNK_SIZE).ret, (z.write o WRITE_CHUNK_SIZE).next)

/-- A call of `oggz_write` of the module. -/
def oggzPoll (g : Ogg σ) : ℤ × Ogg σ :=
  match g.oggz with
  | none => (OGGZ_ERR_BAD_OGGZ, g)
  | some o => ((z.write o WRITE_CHUNK_SIZE).ret, { g with
      oggz := some (z.write o WRITE_CHUNK_SIZE).next
      sink := g.sink ++ (z.write o WRITE_CHUNK_SIZE).chunks.flatten
      chunks := g.chunks ++ (z.write o WRITE_CHUNK_SIZE).chunks })

/-- The output that is pending behind the handle of the module. -/
def pendingOf (pending : σ → ℕ) (g : Ogg σ) : ℕ := (g.oggz.map pending).getD 0

/-- The state in which a page writer enters its drain loop: the packet is numbered and fed. -/
def loopEntry (op : ℤ → OggPacket) (flush : ℤ) (g : Ogg σ) : Ogg σ :=
  { g with
    packetno := g.packetno + 1
    fed := g.fed ++ [op g.packetno]
    oggz := g.oggz.map fun o => (z.writeFeed o (op g.packetno) g.serialno flush).2 }

variable {z} in
/-- The drain loops of a page writer end, after finitely many iterations, with nothing pending. -/
def Finishes (pending : σ → ℕ) (page : ℕ → OggM σ Unit) (g : Ogg σ) : Prop :=
  ∃ g', (∀ᶠ fuel in atTop, (page fuel).run g = .ok () g') ∧ pendingOf pending g' = 0

/-- The call of the module returns what the poll says. -/
theorem oggzWrite_run (g : Ogg σ) :
    (oggzWrite z).run g = .ok (oggzPoll z g).1 (oggzPoll z g).2 := by
  cases ho : g.oggz with
  | none =>
    rw [oggzWrite_none z ho]
    simp only [oggzPoll, ho]
  | some o =>
    rw [oggzWrite_run_some z ho]
    simp only [oggzPoll, ho]

/-- The drain loop polls `oggz_write` until zero. -/
theorem drain_ok_iff : ∀ {fuel : ℕ} {g g' : Ogg σ},
    (drain z fuel).run g = .ok () g' ↔ loop (oggzPoll z) fuel g = some g'
  | 0, g, g' => by simp [drain, loop]
  | fuel + 1, g, g' => by
    unfold drain loop
    rw [EStateM.run_bind, oggzWrite_run]
    by_cases hzero : (oggzPoll z g).1 = 0
    · simp [hzero]
    · simp only [hzero, if_false]
      exact drain_ok_iff

/-- A page writer is its drain loop, entered with its packet fed. -/
theorem feedAndDrain_entry (fuel : ℕ) (op : ℤ → OggPacket) (flush : ℤ) (g : Ogg σ) :
    (feedAndDrain z fuel op flush).run g = (drain z fuel).run (loopEntry z op flush g) := by
  have hno : (nextPacketno (σ := σ)).run g =
      .ok g.packetno { g with packetno := g.packetno + 1 } := rfl
  rw [feedAndDrain, EStateM.run_bind, hno]
  unfold loopEntry oggzWriteFeed
  cases g.oggz <;> rfl

/-- The handle of the module keeps to the contract that liboggz keeps, and a null handle only
fails. -/
theorem contract_oggzPoll {pending : σ → ℕ} (hz : Contract z.poll WRITE_CHUNK_SIZE pending) :
    Contract (oggzPoll z) WRITE_CHUNK_SIZE (pendingOf pending) := by
  constructor
  · intro g hpos
    cases ho : g.oggz with
    | none =>
      simp only [oggzPoll, ho] at hpos
      exact absurd hpos (by decide)
    | some o =>
      simp only [oggzPoll, pendingOf, ho] at hpos ⊢
      exact hz.count o hpos
  · intro g hzero
    cases ho : g.oggz with
    | none =>
      simp only [oggzPoll, ho] at hzero
      exact absurd hzero (by decide)
    | some o =>
      simp only [oggzPoll, pendingOf, ho] at hzero ⊢
      exact hz.done o hzero
  · intro g hneg
    cases ho : g.oggz with
    | none => simp only [oggzPoll, ho]
    | some o =>
      simp only [oggzPoll, pendingOf, ho] at hneg ⊢
      exact hz.fail o hneg

/-- With a null handle every call fails. -/
theorem failsForever_null {g : Ogg σ} (hg : g.oggz = none) : FailsForever (oggzPoll z) g := by
  have hpoll : oggzPoll z g = (OGGZ_ERR_BAD_OGGZ, g) := by simp only [oggzPoll, hg]
  have hstay : ∀ n, after (oggzPoll z) n g = g := by
    intro n
    induction n with
    | zero => rfl
    | succ n ih => rw [after_succ, hpoll, ih]
  refine ⟨0, fun n hn => absurd hn (Nat.not_lt_zero n), fun n _ => ?_⟩
  unfold value
  rw [hstay, hpoll]
  show OGGZ_ERR_BAD_OGGZ < 0
  decide

variable {z} {pending : σ → ℕ}

/-- A drain loop that ends leaves the state after the first call that returns zero. -/
theorem stopsAt_of_drain {fuel : ℕ} {g g' : Ogg σ} (hrun : (drain z fuel).run g = .ok () g') :
    StopsAt (oggzPoll z) g g' :=
  (stopsAt_iff _).mpr ⟨fuel, (drain_ok_iff z).mp hrun⟩

/-- It has not come to where errors are all that is left. -/
theorem not_failsForever_of_drain (hz : Contract z.poll WRITE_CHUNK_SIZE pending) {fuel : ℕ}
    {g g' : Ogg σ} (hrun : (drain z fuel).run g = .ok () g') : ¬ FailsForever (oggzPoll z) g :=
  ((contract_oggzPoll z hz).ends_iff g).mp (stopsAt_of_drain hrun).ends

/-- A drain loop, for every amount of pending output, ends with nothing pending unless errors are
all that is left to come. -/
theorem drain_finishes_iff (hz : Contract z.poll WRITE_CHUNK_SIZE pending) (g : Ogg σ) :
    Finishes pending (drain z) g ↔ ¬ FailsForever (oggzPoll z) g := by
  have hpoll := contract_oggzPoll z hz
  constructor
  · rintro ⟨g', hev, -⟩
    obtain ⟨fuel, hrun⟩ := hev.exists
    exact not_failsForever_of_drain hz hrun
  · intro hnot
    obtain ⟨g', hev⟩ := ((hpoll.ends_iff g).mpr hnot).loop_eventually
    have hstops : StopsAt (oggzPoll z) g g' := (stopsAt_iff _).mpr hev.exists
    exact ⟨g', hev.mono fun fuel hfuel => (drain_ok_iff z).mpr hfuel,
      hpoll.pending_eq_zero hstops⟩

/-- So does a page writer with one packet. -/
theorem feedAndDrain_finishes_iff (hz : Contract z.poll WRITE_CHUNK_SIZE pending)
    (op : ℤ → OggPacket) (flush : ℤ) (g : Ogg σ) :
    Finishes pending (fun fuel => feedAndDrain z fuel op flush) g ↔
      ¬ FailsForever (oggzPoll z) (loopEntry z op flush g) := by
  rw [← drain_finishes_iff hz]
  unfold Finishes
  simp only [feedAndDrain_entry]

/-- `ogg_writeHeaderPage` has two loops, the second of which is entered after the first call of
`oggz_write` that returns zero. -/
theorem oggWriteHeaderPage_finishes_iff (hz : Contract z.poll WRITE_CHUNK_SIZE pending)
    (ch rate : Int32) (g : Ogg σ) :
    Finishes pending (fun fuel => oggWriteHeaderPage z fuel ch rate) g ↔
      ¬ FailsForever (oggzPoll z) (loopEntry z (headPacket ch rate) 0 g) ∧
        ∀ g₁, StopsAt (oggzPoll z) (loopEntry z (headPacket ch rate) 0 g) g₁ →
          ¬ FailsForever (oggzPoll z) (loopEntry z tagsPacket OGGZ_FLUSH_AFTER g₁) := by
  constructor
  · rintro ⟨g', hev, -⟩
    -- A run that returns has come out of both loops.
    obtain ⟨fuel, hrun⟩ := hev.exists
    obtain ⟨u, g₁, hfirst, hsecond⟩ := bind_ok hrun
    rw [feedAndDrain_entry] at hfirst hsecond
    refine ⟨not_failsForever_of_drain hz hfirst, fun g₂ h₂ => ?_⟩
    obtain rfl := (stopsAt_of_drain hfirst).unique h₂
    exact not_failsForever_of_drain hz hsecond
  · rintro ⟨hhead, htags⟩
    obtain ⟨g₁, hev₁, -⟩ := (feedAndDrain_finishes_iff hz (headPacket ch rate) 0 g).mpr hhead
    have hstops : StopsAt (oggzPoll z) (loopEntry z (headPacket ch rate) 0 g) g₁ := by
      obtain ⟨fuel, hrun⟩ := hev₁.exists
      rw [feedAndDrain_entry] at hrun
      exact stopsAt_of_drain hrun
    obtain ⟨g', hev', hpending⟩ :=
      (feedAndDrain_finishes_iff hz tagsPacket OGGZ_FLUSH_AFTER g₁).mpr (htags g₁ hstops)
    refine ⟨g', ?_, hpending⟩
    filter_upwards [hev₁, hev'] with fuel h₁ h'
    rw [oggWriteHeaderPage, EStateM.run_bind, h₁]
    exact h'

/-- For every liboggz that keeps to its contract, every amount of pending output and all arguments,
a drain loop ends after finitely many iterations, with nothing pending, if and only if it does not
come to where every further call of `oggz_write` fails before one has returned zero. The page
writers end when their drain loops do, as they are entered. -/
theorem drainLoops_end_iff (hz : Contract z.poll WRITE_CHUNK_SIZE pending) (g : Ogg σ) :
    (Finishes pending (drain z) g ↔ ¬ FailsForever (oggzPoll z) g) ∧
    (∀ ch rate, Finishes pending (fun fuel => oggWriteHeaderPage z fuel ch rate) g ↔
      ¬ FailsForever (oggzPoll z) (loopEntry z (headPacket ch rate) 0 g) ∧
        ∀ g₁, StopsAt (oggzPoll z) (loopEntry z (headPacket ch rate) 0 g) g₁ →
          ¬ FailsForever (oggzPoll z) (loopEntry z tagsPacket OGGZ_FLUSH_AFTER g₁)) ∧
    (∀ data len pos, Finishes pending (fun fuel => oggWriteAudioDataPage z fuel data len pos) g ↔
      ¬ FailsForever (oggzPoll z) (loopEntry z (audioPacket data len pos) 0 g)) ∧
    (Finishes pending (oggWriteFooterPage z) g ↔
      ¬ FailsForever (oggzPoll z) (loopEntry z footerPacket OGGZ_FLUSH_AFTER g)) :=
  ⟨drain_finishes_iff hz g, fun ch rate => oggWriteHeaderPage_finishes_iff hz ch rate g,
    fun data len pos => feedAndDrain_finishes_iff hz (audioPacket data len pos) 0 g,
    feedAndDrain_finishes_iff hz footerPacket OGGZ_FLUSH_AFTER g⟩

end Drain

/-- `bareOggz` keeps to the contract: what is pending are the bytes that it has not written. -/
theorem contract_bareOggz : Contract bareOggz.poll WRITE_CHUNK_SIZE List.length := by
  -- A call hands on the first bytes of what is pending, or returns zero when there are none.
  have hpoll : ∀ o, bareOggz.poll o =
      if o = [] then (0, [])
      else (((o.take WRITE_CHUNK_SIZE).length : ℤ), o.drop WRITE_CHUNK_SIZE) := by
    intro o
    unfold Liboggz.poll bareOggz
    by_cases ho : o = [] <;> simp [ho]
  constructor
  · intro o hpos
    by_cases ho : o = []
    · rw [hpoll, if_pos ho] at hpos
      exact absurd hpos (lt_irrefl 0)
    · rw [hpoll, if_neg ho, List.length_take, List.length_drop]
      simp only
      omega
  · intro o hzero
    by_cases ho : o = []
    · rw [hpoll, if_pos ho, ho]
      exact ⟨rfl, rfl⟩
    · rw [hpoll, if_neg ho, List.length_take] at hzero
      have hpos := List.length_pos_of_ne_nil ho
      have hsize : WRITE_CHUNK_SIZE = 256 := rfl
      simp only at hzero
      omega
  · intro o hneg
    by_cases ho : o = []
    · rw [hpoll, if_pos ho] at hneg
      exact absurd hneg (lt_irrefl 0)
    · rw [hpoll, if_neg ho] at hneg
      simp only at hneg
      omega

/-- The drain loop over three pending bytes ends: after a count of three, zero is returned. -/
theorem drainLoops_end_iff_three :
    Finishes List.length (drain bareOggz) { oggz := some [1, 2, 3] } := by
  have hcontract := contract_oggzPoll bareOggz contract_bareOggz
  have hends : Ends (oggzPoll bareOggz) { oggz := some [1, 2, 3] } := ⟨1, by decide⟩
  exact (drainLoops_end_iff contract_bareOggz { oggz := some [1, 2, 3] }).1.mpr
    ((hcontract.ends_iff _).mp hends)

/-- A liboggz whose `oggz_new` fails. -/
def brokenOggz : Liboggz (List UInt8) := { bareOggz with new := none }

/-- When `oggz_new` fails, `oggz_write` returns `OGGZ_ERR_BAD_OGGZ` for the null handle on every
call, and `ogg_writeHeaderPage` never returns. -/
theorem exists_not_finishes :
    ∃ g, (oggBegin brokenOggz).run {} = .ok () g ∧
      Contract brokenOggz.poll WRITE_CHUNK_SIZE List.length ∧ pendingOf List.length g = 0 ∧
      (∀ fuel, ∃ g', (oggWriteHeaderPage brokenOggz fuel 1 48000).run g = .error .outOfFuel g') ∧
      ¬ Finishes List.length (fun fuel => oggWriteHeaderPage brokenOggz fuel 1 48000) g := by
  have hcontract : Contract brokenOggz.poll WRITE_CHUNK_SIZE List.length := contract_bareOggz
  have hhangs : ∀ fuel, ∃ g', (oggWriteHeaderPage brokenOggz fuel 1 48000).run
      { serialno := OGGZ_ERR_BAD_OGGZ } = .error .outOfFuel g' := by
    intro fuel
    obtain ⟨g', hrun, -⟩ := feedAndDrain_null brokenOggz fuel (headPacket 1 48000) 0
      (g := { serialno := OGGZ_ERR_BAD_OGGZ }) rfl
    refine ⟨g', ?_⟩
    rw [oggWriteHeaderPage, EStateM.run_bind, hrun]
  refine ⟨{ serialno := OGGZ_ERR_BAD_OGGZ }, rfl, hcontract, rfl, hhangs, fun h => ?_⟩
  -- Already the first loop comes to where errors are all that is left: the handle is null.
  have hfirst := ((oggWriteHeaderPage_finishes_iff hcontract 1 48000 _).mp h).1
  exact hfirst (failsForever_null brokenOggz rfl)

end SpresenseOpus
