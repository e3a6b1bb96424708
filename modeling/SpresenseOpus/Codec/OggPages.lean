import Mathlib.Algebra.BigOperators.Group.List.Basic
import Mathlib.Algebra.Group.Action.Defs
import SpresenseOpus.Codec.OggDrain

/-!
# When a packet leaves the muxer

libogg collects packets in a page and hands the page out when it has to: for the packet that begins
the stream, for a packet that is fed with a flush flag, and when the page is full. `PageRule` is
that rule, on what the handle holds back, and `heldAfter` is what it holds back after a sequence of
audio packets, which are fed without a flag. So a call of `ogg_writeAudioDataPage` emits its packet
only if the packet fills a page of its own (`eachCallEmits_iff`). The others stay behind until later
packets fill the page or the footer flushes it, and meanwhile nothing goes to the callback
(`sink_of_not_full`).
-/

namespace SpresenseOpus

open Filter Machine Polling

/-! ## Pages -/

/-- The lacing values of a packet of `n` bytes. -/
def lacing (n : ℕ) : List ℕ := List.replicate (n / 255) 255 ++ [n % 255]

/-- A page with these lacing values is full: its body has more than 4096 bytes, or its table of
lacing values has no room for another one. -/
def Full (page : List ℕ) : Prop := 4096 < page.sum ∨ 255 ≤ page.length

instance (page : List ℕ) : Decidable (Full page) :=
  inferInstanceAs (Decidable (4096 < page.sum ∨ 255 ≤ page.length))

/-- One lacing value for each 255 bytes, and one that ends the packet. -/
@[simp] theorem length_lacing (n : ℕ) : (lacing n).length = n / 255 + 1 := by
  simp [lacing]

/-- The lacing values of a packet sum to its length. -/
@[simp] theorem sum_lacing (n : ℕ) : (lacing n).sum = n := by
  unfold lacing
  rw [List.sum_append, List.sum_replicate, List.sum_singleton, smul_eq_mul]
  exact Nat.div_add_mod' n 255

/-- Every packet has a lacing value, also an empty one. -/
theorem lacing_ne_nil (n : ℕ) : lacing n ≠ [] := by
  intro h
  have hlen := congrArg List.length h
  rw [length_lacing, List.length_nil] at hlen
  omega

/-- A packet fills a page of its own when it has more than 4096 bytes. -/
theorem full_lacing (n : ℕ) : Full (lacing n) ↔ 4096 < n := by
  unfold Full
  rw [sum_lacing, length_lacing]
  omega

/-- What is held back when a packet of `n` bytes is added to a page without a flag. `rest` is what
is left of a full page when it has been handed out. -/
def addPacket (rest : List ℕ → List ℕ) (held : List ℕ) (n : ℕ) : List ℕ :=
  if Full (held ++ lacing n) then rest (held ++ lacing n) else held ++ lacing n

/-- What is held back after packets of the given sizes, when nothing was before. -/
def heldAfter (rest : List ℕ → List ℕ) (sizes : List ℕ) : List ℕ := sizes.foldl (addPacket rest) []

/-- Nothing is held back of a packet that fills a page and is handed out whole. -/
theorem addPacket_nil_iff (rest : List ℕ → List ℕ) (n : ℕ) :
    addPacket rest [] n = [] ↔ 4096 < n ∧ rest (lacing n) = [] := by
  unfold addPacket
  rw [List.nil_append, ← full_lacing]
  by_cases hfull : Full (lacing n)
  · simp [hfull]
  · simp [hfull, lacing_ne_nil]

/-- Nothing is held back after any of the packets if and only if every packet fills a page of its
own and is handed out whole. -/
theorem heldAfter_eq_nil_iff (rest : List ℕ → List ℕ) (sizes : List ℕ) :
    (∀ pre, pre <+: sizes → heldAfter rest pre = []) ↔
      ∀ n ∈ sizes, 4096 < n ∧ rest (lacing n) = [] := by
  constructor
  · intro h n hn
    obtain ⟨pre, post, rfl⟩ := List.append_of_mem hn
    have hbefore : heldAfter rest pre = [] := h pre (List.prefix_append _ _)
    have hafter : heldAfter rest (pre ++ [n]) = [] := h (pre ++ [n]) ⟨post, by simp⟩
    unfold heldAfter at hbefore hafter
    rw [List.foldl_append, hbefore] at hafter
    exact (addPacket_nil_iff rest n).mp hafter
  · rintro h pre ⟨post, rfl⟩
    have hpre : ∀ n ∈ pre, addPacket rest [] n = [] := fun n hn =>
      (addPacket_nil_iff rest n).mpr (h n (List.mem_append_left _ hn))
    clear h
    induction pre with
    | nil => rfl
    | cons n pre ih =>
      unfold heldAfter at ih ⊢
      rw [List.foldl_cons, hpre n List.mem_cons_self]
      exact ih fun m hm => hpre m (List.mem_cons_of_mem _ hm)

/-! ## The module -/

section Pages

variable {σ : Type}

/-- What liboggz does with a packet, on a handle that is at rest, with nothing left to be written.
`page` is what the handle holds back: the lacing values of what it has been fed and has not handed
to the callback. `rest` is what stays of a full page. -/
structure PageRule (z : Liboggz σ) (serialno : ℤ) (atRest : σ → Prop) (page : σ → List ℕ)
    (rest : List ℕ → List ℕ) : Prop where
  /-- A new handle is at rest and holds nothing. -/
  new : ∀ o, z.new = some o → (z.serialnoNew o).1 = serialno ∧ atRest (z.serialnoNew o).2 ∧
    page (z.serialnoNew o).2 = []
  /-- A packet that begins the stream or is fed with a flush flag leaves nothing behind. -/
  flushed : ∀ o o' op flush fuel, atRest o → 0 ≤ op.bytes →
    op.b_o_s = true ∨ flush = OGGZ_FLUSH_AFTER →
    loop z.poll fuel (z.writeFeed o op serialno flush).2 = some o' → atRest o' ∧ page o' = []
  /-- Another packet is added to the page, of which something is handed out only if it is full. -/
  added : ∀ o o' op fuel, atRest o → 0 ≤ op.bytes → op.b_o_s = false → op.e_o_s = false →
    loop z.poll fuel (z.writeFeed o op serialno 0).2 = some o' →
    atRest o' ∧ page o' = addPacket rest (page o) op.bytes.toNat
  /-- When the page is not full nothing goes to the callback. -/
  quiet : ∀ o op fuel, atRest o → 0 ≤ op.bytes → op.b_o_s = false → op.e_o_s = false →
    ¬ Full (page o ++ lacing op.bytes.toNat) →
    z.written fuel (z.writeFeed o op serialno 0).2 = []

/-- What the module's handle holds back. -/
def pageOf (page : σ → List ℕ) (g : Ogg σ) : List ℕ := (g.oggz.map page).getD []

/-- The arguments of a call of `ogg_writeAudioDataPage`. -/
structure AudioCall where
  data : List UInt8
  len : ℕ
  pos : Int32

/-- The call. -/
def AudioCall.write (z : Liboggz σ) (fuel : ℕ) (c : AudioCall) : OggM σ Unit :=
  oggWriteAudioDataPage z fuel c.data c.len c.pos

/-- Each of the calls emits its packet: when it returns, nothing of any packet fed so far is held
back. -/
def EachCallEmits (z : Liboggz σ) (page : σ → List ℕ) (fuel : ℕ) (calls : List AudioCall)
    (g : Ogg σ) : Prop :=
  ∀ pre, pre <+: calls → pre ≠ [] → pageOf page (run (AudioCall.write z fuel) pre g).state = []

/-- The module between two page writers: its handle is at rest. -/
structure AtRest (serialno : ℤ) (atRest : σ → Prop) (page : σ → List ℕ) (held : List ℕ)
    (g : Ogg σ) : Prop where
  serialno : g.serialno = serialno
  handle : ∃ o, g.oggz = some o ∧ atRest o ∧ page o = held

/-- It holds back what its handle does. -/
theorem AtRest.pageOf_eq {serialno : ℤ} {atRest : σ → Prop} {page : σ → List ℕ} {held : List ℕ}
    {g : Ogg σ} (h : AtRest serialno atRest page held g) : pageOf page g = held := by
  obtain ⟨o, ho, -, hpage⟩ := h.handle
  unfold pageOf
  rw [ho, Option.map_some, Option.getD_some, hpage]

variable (z : Liboggz σ)

/-- A page writer that returns has drained its handle, from the state in which its packet is fed. -/
theorem feedAndDrain_handle {fuel : ℕ} {op : ℤ → OggPacket} {flush : ℤ} {g g' : Ogg σ} {o : σ}
    (ho : g.oggz = some o) (hrun : (feedAndDrain z fuel op flush).run g = .ok () g') :
    ∃ o', loop z.poll fuel (z.writeFeed o (op g.packetno) g.serialno flush).2 = some o' ∧
      g'.oggz = some o' ∧ g'.serialno = g.serialno := by
  rw [feedAndDrain_entry, drain_ok_iff] at hrun
  -- The polls of the module are those of its handle, and leave the serial number.
  refine loop_of_related (R := fun h o => h.oggz = some o ∧ h.serialno = g.serialno) ?_ ?_ hrun
  · rintro h o ⟨ho, hno⟩
    simpa [oggzPoll, Liboggz.poll, ho] using hno
  · unfold loopEntry
    rw [ho]
    exact ⟨rfl, rfl⟩

variable {z} {serialno : ℤ} {atRest : σ → Prop} {page : σ → List ℕ} {rest : List ℕ → List ℕ}

/-- A page writer whose packet begins the stream or is flushed leaves nothing behind. -/
theorem atRest_flushed (hz : PageRule z serialno atRest page rest) {fuel : ℕ}
    {op : ℤ → OggPacket} {flush : ℤ} {held : List ℕ} {g g' : Ogg σ}
    (hg : AtRest serialno atRest page held g) (hbytes : 0 ≤ (op g.packetno).bytes)
    (hflush : (op g.packetno).b_o_s = true ∨ flush = OGGZ_FLUSH_AFTER)
    (hrun : (feedAndDrain z fuel op flush).run g = .ok () g') :
    AtRest serialno atRest page [] g' := by
  obtain ⟨o, ho, hrest, -⟩ := hg.handle
  obtain ⟨o', hloop, ho', hno⟩ := feedAndDrain_handle z ho hrun
  rw [hg.serialno] at hloop
  obtain ⟨hrest', hpage'⟩ := hz.flushed o o' _ flush fuel hrest hbytes hflush hloop
  exact ⟨hno.trans hg.serialno, o', ho', hrest', hpage'⟩

/-- After the header pages nothing is held back. -/
theorem atRest_header (hz : PageRule z serialno atRest page rest) {fuel : ℕ} {ch rate : Int32}
    {g₀ g₁ g₂ : Ogg σ} (hbegin : (oggBegin z).run g₀ = .ok () g₁)
    (hheader : (oggWriteHeaderPage z fuel ch rate).run g₁ = .ok () g₂) :
    AtRest serialno atRest page [] g₂ := by
  obtain ⟨u, g, hhead, htags⟩ := bind_ok hheader
  unfold oggBegin at hbegin
  rw [EStateM.run_modify] at hbegin
  obtain rfl := (EStateM.Result.ok.inj hbegin).2
  cases hnew : z.new with
  | none =>
    -- With a null handle the header page would not have returned.
    rw [hnew] at hhead
    obtain ⟨g', hhangs, -⟩ := feedAndDrain_null z fuel (headPacket ch rate) 0
      (g := { g₀ with oggz := none, serialno := OGGZ_ERR_BAD_OGGZ }) rfl
    exact absurd (hhead.symm.trans hhangs) (by simp)
  | some o =>
    obtain ⟨hno, hrest, hpage⟩ := hz.new o hnew
    rw [hnew] at hhead
    have hbegun : AtRest serialno atRest page [] { g₀ with
        oggz := some (z.serialnoNew o).2, serialno := (z.serialnoNew o).1 } :=
      ⟨hno, _, rfl, hrest, hpage⟩
    have hfirst := atRest_flushed hz hbegun (Int.natCast_nonneg _) (.inl rfl) hhead
    exact atRest_flushed hz hfirst (Int.natCast_nonneg _) (.inr rfl) htags

/-- A call of `ogg_writeAudioDataPage` that returns has added its packet to the page. -/
theorem atRest_write (hz : PageRule z serialno atRest page rest) {fuel : ℕ} {c : AudioCall}
    {held : List ℕ} {g g' : Ogg σ} (hg : AtRest serialno atRest page held g)
    (hrun : (c.write z fuel).run g = .ok () g') :
    AtRest serialno atRest page (addPacket rest held c.len) g' := by
  obtain ⟨o, ho, hrest, rfl⟩ := hg.handle
  obtain ⟨o', hloop, ho', hno⟩ := feedAndDrain_handle z ho hrun
  rw [hg.serialno] at hloop
  obtain ⟨hrest', hpage'⟩ := hz.added o o' _ fuel hrest (Int.natCast_nonneg _) rfl rfl hloop
  exact ⟨hno.trans hg.serialno, o', ho', hrest', hpage'⟩

/-- After any calls that return, the handle is at rest and holds back what the sizes of all packets
so far make it hold back. -/
theorem atRest_run (hz : PageRule z serialno atRest page rest) {fuel : ℕ} {g : Ogg σ}
    (hg : AtRest serialno atRest page [] g) {calls : List AudioCall}
    (hreturns : (run (AudioCall.write z fuel) calls g).halt = none) :
    AtRest serialno atRest page (heldAfter rest (calls.map AudioCall.len))
      (run (AudioCall.write z fuel) calls g).state := by
  refine run_history_invariant (P := fun cs _ g' =>
    AtRest serialno atRest page (heldAfter rest (cs.map AudioCall.len)) g') ?_ calls [] [] g hg
      hreturns
  intro cs _ c s _ s' hs hrun
  have hstep := atRest_write hz hs hrun
  unfold heldAfter at hstep ⊢
  rw [List.map_append, List.foldl_append]
  exact hstep

/-- For every sequence of calls of `ogg_writeAudioDataPage` after `ogg_writeHeaderPage`, with
packets of any sizes, that return: each call emits its packet if and only if every packet has more
than 4096 bytes, so that it fills a page of its own, and a page with that packet is handed out
whole. -/
theorem eachCallEmits_iff (hz : PageRule z serialno atRest page rest) {fuel : ℕ} {ch rate : Int32}
    {g₀ g₁ g₂ : Ogg σ} (hbegin : (oggBegin z).run g₀ = .ok () g₁)
    (hheader : (oggWriteHeaderPage z fuel ch rate).run g₁ = .ok () g₂) {calls : List AudioCall}
    (hreturns : (run (AudioCall.write z fuel) calls g₂).halt = none) :
    EachCallEmits z page fuel calls g₂ ↔
      ∀ c ∈ calls, 4096 < c.len ∧ rest (lacing c.len) = [] := by
  have hg := atRest_header hz hbegin hheader
  have hpage : ∀ pre, pre <+: calls →
      pageOf page (run (AudioCall.write z fuel) pre g₂).state =
        heldAfter rest (pre.map AudioCall.len) := by
    rintro pre ⟨post, rfl⟩
    exact (atRest_run hz hg (halt_of_append hreturns)).pageOf_eq
  have hsizes : (∀ c ∈ calls, 4096 < c.len ∧ rest (lacing c.len) = []) ↔
      ∀ n ∈ calls.map AudioCall.len, 4096 < n ∧ rest (lacing n) = [] := by
    rw [List.forall_mem_map]
  rw [hsizes, ← heldAfter_eq_nil_iff]
  constructor
  · intro h sizes hprefix
    obtain ⟨pre, hpre, rfl⟩ := List.prefix_map_iff.mp hprefix
    by_cases hne : pre = []
    · rw [hne]
      rfl
    · rw [← hpage pre hpre]
      exact h pre hpre hne
  · intro h pre hpre _
    rw [hpage pre hpre]
    exact h _ (hpre.map _)

/-- A call that does not fill the page hands nothing to the callback, so that the caller's output
for its frame is empty. -/
theorem sink_of_not_full (hz : PageRule z serialno atRest page rest) (fuel : ℕ) {c : AudioCall}
    {held : List ℕ} {g : Ogg σ} (hg : AtRest serialno atRest page held g)
    (hfull : ¬ Full (held ++ lacing c.len)) :
    (stateAfter ((c.write z fuel).run g)).sink = g.sink := by
  obtain ⟨o, ho, hrest, rfl⟩ := hg.handle
  have hquiet := hz.quiet o (audioPacket c.data c.len c.pos g.packetno) fuel hrest
    (Int.natCast_nonneg _) rfl rfl hfull
  have hbytes : z.pageBytes fuel g (audioPacket c.data c.len c.pos g.packetno) 0 = [] := by
    unfold Liboggz.pageBytes
    simp only [ho, hg.serialno]
    exact hquiet
  unfold AudioCall.write oggWriteAudioDataPage
  rw [feedAndDrain_sink, hbytes, List.append_nil]

end Pages

/-! ## A muxer that collects packets -/

/-- The state of `pagingOggz`: the page under construction and the output that is still to be
written. -/
structure Paging where
  page : List ℕ
  body : List UInt8
  out : List UInt8
  deriving DecidableEq, Repr

/-- A liboggz that collects packets in a page and hands it out whole, as its lacing values and its
body. -/
def pagingOggz : Liboggz Paging where
  new := some ⟨[], [], []⟩
  serialnoNew o := (1, o)
  writeFeed o op _ flush :=
    let page := o.page ++ lacing op.bytes.toNat
    let body := o.body ++ op.packet
    if op.b_o_s = true ∨ flush = OGGZ_FLUSH_AFTER ∨ Full page then
      (0, ⟨[], [], o.out ++ page.map UInt8.ofNat ++ body⟩)
    else (0, ⟨page, body, o.out⟩)
  write o n :=
    if o.out = [] then ⟨0, [], o⟩
    else ⟨(o.out.take n).length, [o.out.take n], { o with out := o.out.drop n }⟩

/-- A call of its `oggz_write`. -/
theorem poll_pagingOggz (o : Paging) : pagingOggz.poll o =
    if o.out = [] then (0, o)
    else (((o.out.take WRITE_CHUNK_SIZE).length : ℤ),
      { o with out := o.out.drop WRITE_CHUNK_SIZE }) := by
  unfold Liboggz.poll pagingOggz
  by_cases hout : o.out = [] <;> simp [hout]

/-- Writing leaves the page under construction, and ends when there is no output. -/
theorem loop_pagingOggz : ∀ {fuel : ℕ} {o o' : Paging}, loop pagingOggz.poll fuel o = some o' →
    o'.out = [] ∧ o'.page = o.page
  | 0, _, _, h => absurd h (by simp [loop])
  | fuel + 1, o, o', h => by
    unfold loop at h
    rw [poll_pagingOggz] at h
    by_cases hout : o.out = []
    · rw [if_pos hout, if_pos rfl] at h
      obtain rfl := Option.some.inj h
      exact ⟨hout, rfl⟩
    · have hpos : ((o.out.take WRITE_CHUNK_SIZE).length : ℤ) ≠ 0 := by
        have hlen := List.length_pos_of_ne_nil hout
        have hsize : WRITE_CHUNK_SIZE = 256 := rfl
        rw [List.length_take]
        omega
      rw [if_neg hout, if_neg hpos] at h
      obtain ⟨hdrained, hpage⟩ := loop_pagingOggz h
      exact ⟨hdrained, hpage⟩

/-- Without output nothing is written. -/
theorem written_pagingOggz {o : Paging} (h : o.out = []) : ∀ fuel, pagingOggz.written fuel o = []
  | 0 => rfl
  | fuel + 1 => by simp [Liboggz.written, pagingOggz, h]

/-- A packet that begins the stream, is flushed or fills the page leaves the page empty. -/
theorem writeFeed_handsOut {o : Paging} {op : OggPacket} {flush : ℤ} (serialno : ℤ)
    (h : op.b_o_s = true ∨ flush = OGGZ_FLUSH_AFTER ∨ Full (o.page ++ lacing op.bytes.toNat)) :
    (pagingOggz.writeFeed o op serialno flush).2.page = [] := by
  simp only [pagingOggz, if_pos h]

/-- Another packet is only collected. -/
theorem writeFeed_collects {o : Paging} {op : OggPacket} (serialno : ℤ) (hbos : op.b_o_s = false)
    (hfull : ¬ Full (o.page ++ lacing op.bytes.toNat)) :
    (pagingOggz.writeFeed o op serialno 0).2 =
      ⟨o.page ++ lacing op.bytes.toNat, o.body ++ op.packet, o.out⟩ := by
  have hfeed : ¬ (op.b_o_s = true ∨ (0 : ℤ) = OGGZ_FLUSH_AFTER ∨
      Full (o.page ++ lacing op.bytes.toNat)) := by
    simp [hbos, hfull, OGGZ_FLUSH_AFTER]
  simp only [pagingOggz, if_neg hfeed]

/-- `pagingOggz` keeps to the rule, with nothing left of a full page. -/
theorem pageRule_pagingOggz :
    PageRule pagingOggz 1 (fun o => o.out = []) Paging.page (fun _ => []) := by
  refine ⟨?_, ?_, ?_, ?_⟩
  · intro o ho
    obtain rfl := Option.some.inj ho
    exact ⟨rfl, rfl, rfl⟩
  · intro o o' op flush fuel _ _ hflush hloop
    obtain ⟨hdrained, hpage⟩ := loop_pagingOggz hloop
    refine ⟨hdrained, hpage.trans (writeFeed_handsOut 1 ?_)⟩
    rcases hflush with hbegin | hafter
    · exact .inl hbegin
    · exact .inr (.inl hafter)
  · intro o o' op fuel _ _ hbos _ hloop
    obtain ⟨hdrained, hpage⟩ := loop_pagingOggz hloop
    refine ⟨hdrained, hpage.trans ?_⟩
    unfold addPacket
    by_cases hfull : Full (o.page ++ lacing op.bytes.toNat)
    · rw [if_pos hfull]
      exact writeFeed_handsOut 1 (.inr (.inr hfull))
    · rw [if_neg hfull, writeFeed_collects 1 hbos hfull]
  · intro o op fuel hrest _ hbos _ hfull
    rw [writeFeed_collects 1 hbos hfull]
    apply written_pagingOggz
    exact hrest

/-- The output of `pagingOggz` always drains. -/
theorem drains_pagingOggz (o : Paging) : Drains pagingOggz o := by
  induction h : o.out.length using Nat.strong_induction_on generalizing o with
  | _ n ih =>
    by_cases hout : o.out = []
    · exact .done (by simp [pagingOggz, hout])
    · have hpos : 0 < o.out.length := List.length_pos_of_ne_nil hout
      refine .more ?_ ?_
      · simp [pagingOggz, hout, WRITE_CHUNK_SIZE, hpos]
      · have hnext : (pagingOggz.write o WRITE_CHUNK_SIZE).next =
            { o with out := o.out.drop WRITE_CHUNK_SIZE } := by simp [pagingOggz, hout]
        rw [hnext]
        refine ih (o.out.drop WRITE_CHUNK_SIZE).length ?_ _ rfl
        rw [List.length_drop, WRITE_CHUNK_SIZE]
        omega

/-- With `pagingOggz` the header pages and a call return. -/
theorem returns_pagingOggz (c : AudioCall) : ∃ fuel g₁ g₂ g₃,
    (oggBegin pagingOggz).run {} = .ok () g₁ ∧
      (oggWriteHeaderPage pagingOggz fuel 1 48000).run g₁ = .ok () g₂ ∧
      (c.write pagingOggz fuel).run g₂ = .ok () g₃ := by
  obtain ⟨g₁, g₂, hbegin, hhandle, hheader⟩ :=
    begin_eventually drains_pagingOggz (o := ⟨[], [], []⟩) rfl 1 48000
  obtain ⟨g₃, -, hwrite⟩ :=
    feedAndDrain_eventually drains_pagingOggz (audioPacket c.data c.len c.pos) 0 hhandle
  obtain ⟨fuel, h₂, h₃⟩ := (hheader.and hwrite).exists
  exact ⟨fuel, g₁, g₂, g₃, hbegin, h₂, h₃⟩

/-- A packet of 5000 bytes. -/
def largePacket : AudioCall := ⟨List.replicate 5000 0, 5000, 960⟩

/-- The packet of silence. -/
def smallPacket : AudioCall := ⟨[0xf8, 0xff, 0xfe], 3, 960⟩

/-- The large packet is emitted by its call. -/
theorem eachCallEmits_iff_largePacket : ∃ fuel g₁ g₂,
    (oggBegin pagingOggz).run {} = .ok () g₁ ∧
      (oggWriteHeaderPage pagingOggz fuel 1 48000).run g₁ = .ok () g₂ ∧
      (run (AudioCall.write pagingOggz fuel) [largePacket] g₂).halt = none ∧
      EachCallEmits pagingOggz Paging.page fuel [largePacket] g₂ := by
  obtain ⟨fuel, g₁, g₂, g₃, hbegin, hheader, hwrite⟩ := returns_pagingOggz largePacket
  have hreturns : (run (AudioCall.write pagingOggz fuel) [largePacket] g₂).halt = none := by
    rw [run_cons_ok hwrite]
    rfl
  refine ⟨fuel, g₁, g₂, hbegin, hheader, hreturns, ?_⟩
  refine (eachCallEmits_iff pageRule_pagingOggz hbegin hheader hreturns).mpr fun c hc => ?_
  rw [List.mem_singleton.mp hc]
  exact ⟨by decide, rfl⟩

/-- The small one is not: its call returns, nothing has gone to the callback, and the handle still
holds its three bytes. -/
theorem exists_not_eachCallEmits : ∃ fuel g₁ g₂ g₃,
    (oggBegin pagingOggz).run {} = .ok () g₁ ∧
      (oggWriteHeaderPage pagingOggz fuel 1 48000).run g₁ = .ok () g₂ ∧
      (smallPacket.write pagingOggz fuel).run g₂ = .ok () g₃ ∧
      g₃.sink = g₂.sink ∧ pageOf Paging.page g₃ = [3] ∧
      ¬ EachCallEmits pagingOggz Paging.page fuel [smallPacket] g₂ := by
  obtain ⟨fuel, g₁, g₂, g₃, hbegin, hheader, hwrite⟩ := returns_pagingOggz smallPacket
  have hg := atRest_header pageRule_pagingOggz hbegin hheader
  have hfull : ¬ Full ([] ++ lacing smallPacket.len) := by decide
  have hsink := sink_of_not_full pageRule_pagingOggz fuel hg hfull
  rw [hwrite] at hsink
  have hheld : pageOf Paging.page g₃ = [3] := by
    rw [(atRest_write pageRule_pagingOggz hg hwrite).pageOf_eq]
    decide
  refine ⟨fuel, g₁, g₂, g₃, hbegin, hheader, hwrite, hsink, hheld, fun h => ?_⟩
  have hempty := h [smallPacket] List.prefix_rfl (by simp)
  rw [run_cons_ok hwrite] at hempty
  change pageOf Paging.page g₃ = [] at hempty
  rw [hheld] at hempty
  exact absurd hempty (by simp)

end SpresenseOpus
