import SpresenseOpus.Driver.Buffers
import SpresenseOpus.Worker.Progress

/-!
# A client that leaves outstanding commands alone

A command is outstanding from its `DD_SendCommand` to its callback. The worker reads its structure
and its input some time in between, and then writes its result and its output. A client is careful
when it does not touch any of these while a command is outstanding, and sends no command over the
structure or the buffers of one (`Careful`).

With a careful client it does not matter when the worker takes a command: after every schedule the
worker has made the run over the commands as they were when they were sent, and until the callback
the memory holds what this run has answered (`careful_outcome`). With Ogg the length of the output
is not bound by the output buffer, and the condition is that there is room for it (`Roomy`); the
build that `worker_config.h` selects is without Ogg, and has room (`roomy_of_plain`). Once the
client rests, all callbacks come exactly when its commands can be answered (`careful_rest_iff`).
-/

namespace SpresenseOpus.Driver

open Machine Worker

/-! ## Careful clients -/

section Careful

variable {ε σ : Type} {b : Build ε σ} {carry : UInt8 → Int32}

/-- A reply that hands back a structure. -/
def handsBack (r : Reply) : Bool := r.handled.isSome

/-- The addresses of the commands that are outstanding: those that wait for the worker, and those
whose replies wait for the driver. -/
def outstanding (c : System ε σ) : List UInt32 :=
  c.inbox.map DspDrvComPrm.data ++ (c.outbox.filter handsBack).map Reply.msg_data

variable (b) in
/-- The client leaves a command alone: its structure and its buffers. -/
def LeavesAlone (mem mem' : SharedMemory) (a : UInt32) : Prop :=
  mem'.cmds a = mem.cmds a ∧
    ∀ x, x ∈ input (mem.cmds a) ∨ x ∈ output b (mem.cmds a) → mem'.bytes x = mem.bytes x

variable (b) in
/-- A turn that is careful with the commands outstanding. The turns of the worker and of the driver
are what they are. -/
def CarefulTurn (c : System ε σ) : Service.Event SharedMemory DspDrvComPrm → Prop
  | .touch f => ∀ a ∈ outstanding c, LeavesAlone b c.env (f c.env) a
  | .request p => p.data ∉ outstanding c ∧
      ∀ a ∈ outstanding c, Apart b (c.env.cmds p.data) (c.env.cmds a)
  | .serve => True
  | .deliver => True

/-- The memory shows what was answered for a structure: the structure as it was handed back, and
what was put into its output buffer. -/
structure Shows (mem : SharedMemory) (a : UInt32) (h : Handled) : Prop where
  com_param : mem.cmds a = h.com_param
  written : ∀ w, lastWrite h = some w →
    readBytes mem.bytes w.p_buffer (UInt32.ofNat w.bytes.length) = w.bytes

variable (b) in
/-- What holds between the two cores while the client is careful: no two commands outstanding get
in each other's way, and the memory shows the answers that the driver has not taken yet. -/
structure Orderly (c : System ε σ) : Prop where
  apart : (outstanding c).Pairwise fun a a' => a ≠ a' ∧ Apart b (c.env.cmds a) (c.env.cmds a')
  within : ∀ r ∈ c.outbox, ∀ h, r.handled = some h → HandledWithin b h.com_param h
  shows : ∀ r ∈ c.outbox, ∀ h, r.handled = some h → Shows c.env r.msg_data h

/-- A command that waits for the worker is outstanding. -/
theorem mem_outstanding_inbox {c : System ε σ} {p : DspDrvComPrm} (hp : p ∈ c.inbox) :
    p.data ∈ outstanding c :=
  List.mem_append_left _ (List.mem_map_of_mem hp)

/-- A command whose reply waits for the driver is outstanding. -/
theorem mem_outstanding_outbox {c : System ε σ} {r : Reply} (hr : r ∈ c.outbox) {h : Handled}
    (hh : r.handled = some h) : r.msg_data ∈ outstanding c := by
  refine List.mem_append_right _ (List.mem_map_of_mem (List.mem_filter.mpr ⟨hr, ?_⟩))
  unfold handsBack
  rw [hh]
  rfl

/-- An answer that the memory shows is still shown when the bytes of the output stay. -/
theorem Shows.of_bytes {mem mem' : SharedMemory} {a : UInt32} {h : Handled} (hs : Shows mem a h)
    (hw : HandledWithin b h.com_param h) (hcmd : mem'.cmds a = mem.cmds a)
    (hbytes : ∀ x ∈ output b (mem.cmds a), mem'.bytes x = mem.bytes x) : Shows mem' a h where
  com_param := hcmd.trans hs.com_param
  written w hlast := by
    obtain ⟨buffer, hb, hbuffer, hlen⟩ := hw.within w (mem_writes_of_last hlast)
    have hlt : w.bytes.length < 2 ^ 32 := hlen.trans_lt buffer.size.toNat_lt
    refine Eq.trans ?_ (hs.written w hlast)
    refine readBytes_congr (h := ⟨UInt32.ofNat w.bytes.length, w.p_buffer⟩) fun x hx => ?_
    refine hbytes x ⟨buffer, by rw [hs.com_param]; exact hb, ?_⟩
    have hx' : (x - w.p_buffer).toNat < (UInt32.ofNat w.bytes.length).toNat := hx
    rw [UInt32.toNat_ofNat_of_lt' hlt, hbuffer] at hx'
    exact hx'.trans_le hlen

/-- After the worker's turn with a command the memory shows its answer: what is put there last is
read back. -/
theorem shows_finish (mem : SharedMemory) (a : UInt32) {c : Wien2ApuCmd} {h : Handled}
    (hw : HandledWithin b c h) : Shows (mem.finish a h) a h where
  com_param := Function.update_self ..
  written w hlast := by
    obtain ⟨buffer, -, -, hlen⟩ := hw.within w (mem_writes_of_last hlast)
    have hput : ∃ mem' : SharedMemory, (mem.finish a h).bytes = (mem'.put w).bytes := by
      rcases Option.or_eq_some_iff.mp hlast with hcopied | ⟨hcopied, hencoded⟩
      · refine ⟨h.encoded.toList.foldl SharedMemory.put mem, ?_⟩
        rw [SharedMemory.finish, hcopied, List.foldl_append]
        rfl
      · refine ⟨mem, ?_⟩
        rw [SharedMemory.finish, hcopied, hencoded]
        rfl
    obtain ⟨mem', hbytes⟩ := hput
    rw [hbytes]
    exact readBytes_put mem' (hlen.trans_lt buffer.size.toNat_lt)

/-- Bytes that are put within an output buffer leave the others. -/
theorem foldl_put_of_notMem {c : Wien2ApuCmd} {x : UInt32} (hx : x ∉ output b c) :
    ∀ (ws : List Write) (mem : SharedMemory), (∀ w ∈ ws, Within b c w) →
      (ws.foldl SharedMemory.put mem).bytes x = mem.bytes x
  | [], _, _ => rfl
  | w :: ws, mem, h => by
    obtain ⟨buffer, hb, hbuffer, hlen⟩ := h w List.mem_cons_self
    rw [List.foldl_cons,
      foldl_put_of_notMem hx ws _ fun w' hw' => h w' (List.mem_cons_of_mem w hw')]
    exact put_bytes_of_notMem hbuffer hlen fun hmem => hx ⟨buffer, hb, hmem⟩

/-- The worker's turn with a command leaves the bytes outside its output. -/
theorem finish_bytes_of_notMem (mem : SharedMemory) (a : UInt32) {c : Wien2ApuCmd} {h : Handled}
    (hw : HandledWithin b c h) {x : UInt32} (hx : x ∉ output b c) :
    (mem.finish a h).bytes x = mem.bytes x :=
  foldl_put_of_notMem hx (writes h) mem hw.within

/-- The worker's turn with a command leaves the buffers that structures name. -/
theorem finish_sameBuffers (mem : SharedMemory) (a : UInt32) {h : Handled}
    (hw : HandledWithin b (mem.cmds a) h) (a' : UInt32) :
    SameBuffers (mem.cmds a') ((mem.finish a h).cmds a') := by
  by_cases ha : a' = a
  · subst ha
    have hcmd : (mem.finish a' h).cmds a' = h.com_param := Function.update_self ..
    rw [hcmd]
    exact hw.same
  · have hcmd : (mem.finish a h).cmds a' = mem.cmds a' := Function.update_of_ne ha ..
    rw [hcmd]
    exact ⟨rfl, rfl, rfl⟩

/-! ## Each turn keeps the order -/

/-- At the start no command is outstanding, and the reply of boot hands nothing back. -/
theorem orderly_start (mem : SharedMemory) : Orderly b (start mem) where
  apart := List.Pairwise.nil
  within r hr h hh := by
    obtain rfl := List.mem_singleton.mp hr
    exact absurd hh (by simp [bootComplete])
  shows r hr h hh := by
    obtain rfl := List.mem_singleton.mp hr
    exact absurd hh (by simp [bootComplete])

/-- The client writes to the memory. -/
theorem orderly_touch {c : System ε σ} (hc : Orderly b c) {f : SharedMemory → SharedMemory}
    (hf : ∀ a ∈ outstanding c, LeavesAlone b c.env (f c.env) a) :
    Orderly b { c with env := f c.env } where
  apart := by
    refine hc.apart.imp_of_mem fun {a a'} ha ha' h => ?_
    show a ≠ a' ∧ Apart b ((f c.env).cmds a) ((f c.env).cmds a')
    rw [(hf a ha).1, (hf a' ha').1]
    exact h
  within := hc.within
  shows r hr h hh := by
    have halone := hf r.msg_data (mem_outstanding_outbox hr hh)
    exact (hc.shows r hr h hh).of_bytes (hc.within r hr h hh) halone.1
      fun x hx => halone.2 x (.inr hx)

/-- The client sends a command. -/
theorem orderly_request {c : System ε σ} (hc : Orderly b c) {p : DspDrvComPrm} (m : Message)
    (hfresh : p.data ∉ outstanding c)
    (hapart : ∀ a ∈ outstanding c, Apart b (c.env.cmds p.data) (c.env.cmds a)) :
    Orderly b { c with inbox := c.inbox ++ [p], requested := c.requested ++ [(p, m)] } where
  apart := by
    have hperm : (p.data :: outstanding c).Perm
        ((c.inbox ++ [p]).map DspDrvComPrm.data ++
          (c.outbox.filter handsBack).map Reply.msg_data) := by
      rw [List.map_append, List.append_assoc]
      exact List.perm_middle.symm
    refine (hperm.pairwise_iff fun h => ⟨h.1.symm, h.2.symm⟩).mp ?_
    refine List.pairwise_cons.mpr ⟨fun a ha => ⟨fun heq => ?_, hapart a ha⟩, hc.apart⟩
    exact hfresh (heq ▸ ha)
  within := hc.within
  shows := hc.shows

/-- The driver takes a reply. -/
theorem orderly_deliver {c : System ε σ} (hc : Orderly b c) {r : Reply} {outbox : List Reply}
    (ho : c.outbox = r :: outbox) :
    Orderly b { c with outbox, delivered := c.delivered ++ [r] } where
  apart := by
    refine hc.apart.sublist ?_
    refine List.Sublist.append_left ?_ _
    rw [ho]
    exact ((List.sublist_cons_self r outbox).filter _).map _
  within r' hr' := hc.within r' (ho ▸ List.mem_cons_of_mem r hr')
  shows r' hr' := hc.shows r' (ho ▸ List.mem_cons_of_mem r hr')

/-- A structure that was handled within its buffers is within those that it names afterwards. -/
theorem HandledWithin.self {c : Wien2ApuCmd} {h : Handled} (hw : HandledWithin b c h) :
    HandledWithin b h.com_param h where
  same := ⟨rfl, rfl, rfl⟩
  within w hmem := hw.same.within (hw.within w hmem)

/-- The addresses outstanding when the worker takes a command: its own, and the others. -/
theorem outstanding_of_inbox {c : System ε σ} {q : DspDrvComPrm} {inbox : List DspDrvComPrm}
    (hi : c.inbox = q :: inbox) :
    outstanding c = q.data ::
      (inbox.map DspDrvComPrm.data ++ (c.outbox.filter handsBack).map Reply.msg_data) := by
  unfold outstanding
  rw [hi]
  rfl

/-- The worker replies to a command with what it has made of it. -/
theorem orderly_reply {c c' : System ε σ} (hc : Orderly b c) {q : DspDrvComPrm}
    {inbox : List DspDrvComPrm} (hi : c.inbox = q :: inbox) {r : Reply} {h : Handled}
    (hdata : r.msg_data = q.data) (hh : r.handled = some h)
    (hw : HandledWithin b (c.env.cmds q.data) h) (hinbox : c'.inbox = inbox)
    (houtbox : c'.outbox = c.outbox ++ [r]) (henv : c'.env = c.env.finish q.data h) :
    Orderly b c' := by
  have hapart := hc.apart
  rw [outstanding_of_inbox hi] at hapart
  have hother := (List.pairwise_cons.mp hapart).1
  have hback : (r :: []).filter handsBack = [r] := by
    simp [handsBack, hh]
  refine ⟨?_, ?_, ?_⟩
  · -- The command goes from the one queue into the other.
    have hperm : (q.data ::
        (inbox.map DspDrvComPrm.data ++ (c.outbox.filter handsBack).map Reply.msg_data)).Perm
        (outstanding c') := by
      unfold outstanding
      rw [hinbox, houtbox, List.filter_append, hback, List.map_append, ← List.append_assoc,
        List.map_singleton, hdata]
      exact (List.perm_append_singleton _ _).symm
    refine (hperm.pairwise_iff fun h => ⟨h.1.symm, h.2.symm⟩).mp (hapart.imp fun h => ⟨h.1, ?_⟩)
    rw [henv]
    exact (finish_sameBuffers c.env q.data hw _).apart (finish_sameBuffers c.env q.data hw _) h.2
  · intro r' hr' h' hh'
    rw [houtbox] at hr'
    rcases List.mem_append.mp hr' with hr' | hr'
    · exact hc.within r' hr' h' hh'
    · rw [List.mem_singleton.mp hr', hh] at hh'
      exact Option.some.inj hh' ▸ hw.self
  · intro r' hr' h' hh'
    rw [houtbox] at hr'
    rw [henv]
    rcases List.mem_append.mp hr' with hr' | hr'
    · -- An answer that waits is in other buffers.
      have hmem : r'.msg_data ∈ inbox.map DspDrvComPrm.data ++
          (c.outbox.filter handsBack).map Reply.msg_data := by
        refine List.mem_append_right _ (List.mem_map_of_mem (List.mem_filter.mpr ⟨hr', ?_⟩))
        simp [handsBack, hh']
      obtain ⟨hne, hq⟩ := hother r'.msg_data hmem
      refine (hc.shows r' hr' h' hh').of_bytes (hc.within r' hr' h' hh')
        (Function.update_of_ne hne.symm ..) fun x hx => ?_
      exact finish_bytes_of_notMem c.env q.data hw fun hxq => hq.output_output x hxq hx
    · rw [List.mem_singleton.mp hr'] at hh' ⊢
      rw [hh] at hh'
      rw [hdata, ← Option.some.inj hh']
      exact shows_finish c.env q.data hw

/-- The worker takes a command and leaves the memory: it has stopped, or there was no structure to
handle. -/
theorem orderly_gone {c c' : System ε σ} (hc : Orderly b c) {q : DspDrvComPrm}
    {inbox : List DspDrvComPrm} (hi : c.inbox = q :: inbox) (henv : c'.env = c.env)
    (hinbox : c'.inbox = inbox) (houtbox : c'.outbox.filter handsBack = c.outbox.filter handsBack) :
    Orderly b c' := by
  have hold : ∀ r ∈ c'.outbox, ∀ h, r.handled = some h → r ∈ c.outbox := by
    intro r hr h hh
    have hback : handsBack r = true := by
      unfold handsBack
      rw [hh]
      rfl
    have hfilter : r ∈ c.outbox.filter handsBack := houtbox ▸ List.mem_filter.mpr ⟨hr, hback⟩
    exact (List.mem_filter.mp hfilter).1
  refine ⟨?_, fun r hr h hh => hc.within r (hold r hr h hh) h hh, fun r hr h hh => ?_⟩
  · have hsub : (outstanding c').Sublist (outstanding c) := by
      rw [outstanding_of_inbox hi, outstanding, hinbox, houtbox]
      exact List.sublist_cons_self ..
    rw [henv]
    exact hc.apart.sublist hsub
  · rw [henv]
    exact hc.shows r (hold r hr h hh) h hh

variable (b carry) in
/-- What the worker copies for the command in front fits its output buffer. -/
def NextFits (c : System ε σ) : Prop :=
  ∀ q inbox r w', c.halt = none → c.inbox = q :: inbox →
    (handle b (message carry c.env q)).run c.server = .ok r w' → ∀ h, r.handled = some h → Fits b h

/-- The worker's turn with a command. -/
theorem orderly_serve (hopus : KeepsToBuffer b.opus) {c : System ε σ} (hc : Orderly b c)
    (hfits : NextFits b carry c) {q : DspDrvComPrm} {inbox : List DspDrvComPrm}
    (hhalt : c.halt = none) (hi : c.inbox = q :: inbox) :
    Orderly b (c.serve (server b carry) q inbox) := by
  cases hm : (handle b (message carry c.env q)).run c.server with
  | error e w' =>
    rw [Service.State.serve_error (V := server b carry) hm]
    exact orderly_gone hc hi rfl rfl rfl
  | ok r w' =>
    obtain ⟨hdata, hw⟩ := handled_within hopus hm (hfits q inbox r w' hhalt hi hm)
    rw [Service.State.serve_ok (V := server b carry) hm]
    cases hh : r.handled with
    | none =>
      refine orderly_gone hc hi ?_ rfl ?_
      · show SharedMemory.leave c.env r = c.env
        rw [SharedMemory.leave, hh]
        rfl
      · show (c.outbox ++ [r]).filter handsBack = c.outbox.filter handsBack
        simp [handsBack, hh]
    | some h =>
      refine orderly_reply hc hi hdata hh (hw h hh) rfl rfl ?_
      show SharedMemory.leave c.env r = c.env.finish q.data h
      rw [SharedMemory.leave, hh, ← show r.msg_data = q.data from hdata]
      rfl

variable (b carry) in
/-- A turn of a careful client, or one of the worker that keeps to the output buffer. -/
def GoodTurn (c : System ε σ) (ev : Service.Event SharedMemory DspDrvComPrm) : Prop :=
  CarefulTurn b c ev ∧ NextFits b carry c

/-- Every good turn keeps the order. -/
theorem orderly_next (hopus : KeepsToBuffer b.opus) (c : System ε σ)
    (ev : Service.Event SharedMemory DspDrvComPrm) (hc : Orderly b c)
    (hev : GoodTurn b carry c ev) : Orderly b (Service.next (server b carry) c ev) := by
  obtain ⟨hev, hfits⟩ := hev
  have hnext := Service.next_spec (V := server b carry) c ev
  generalize Service.next (server b carry) c ev = c' at hnext ⊢
  cases hnext with
  | touch f => exact orderly_touch hc hev
  | request p => exact orderly_request hc _ hev.1 hev.2
  | serve q inbox hh hi => exact orderly_serve hopus hc hfits hh hi
  | serveNothing _ => exact hc
  | deliver r outbox ho => exact orderly_deliver hc ho
  | deliverNothing _ => exact hc

/-- In a good turn, the commands that wait are to the worker what they were. -/
theorem undisturbed_of_good (hopus : KeepsToBuffer b.opus) (c : System ε σ)
    (ev : Service.Event SharedMemory DspDrvComPrm) (hc : Orderly b c)
    (hev : GoodTurn b carry c ev) : Service.Undisturbed (server b carry) c ev := by
  obtain ⟨hev, hfits⟩ := hev
  unfold Service.Undisturbed
  have hnext := Service.next_spec (V := server b carry) c ev
  generalize Service.next (server b carry) c ev = c' at hnext ⊢
  intro p hp' hp
  cases hnext with
  | touch f =>
    obtain ⟨hcmd, hbytes⟩ := hev p.data (mem_outstanding_inbox hp)
    refine handle_congr rfl rfl hcmd fun a ha => hbytes a (.inl ?_)
    rw [← hcmd]
    exact ha
  | request p => rfl
  | serve q inbox hh hi =>
    have hapart := hc.apart
    rw [outstanding_of_inbox hi] at hapart
    have hmem : p.data ∈ inbox.map DspDrvComPrm.data ++
        (c.outbox.filter handsBack).map Reply.msg_data :=
      List.mem_append_left _ (List.mem_map_of_mem hp')
    obtain ⟨hne, hq⟩ := (List.pairwise_cons.mp hapart).1 p.data hmem
    cases hm : (handle b (message carry c.env q)).run c.server with
    | error e w' =>
      rw [Service.State.serve_error (V := server b carry) hm]
    | ok r w' =>
      obtain ⟨hdata, hw⟩ := handled_within hopus hm (hfits q inbox r w' hh hi hm)
      rw [Service.State.serve_ok (V := server b carry) hm]
      show handle b (message carry (c.env.leave r) p) = handle b (message carry c.env p)
      cases hh : r.handled with
      | none =>
        rw [SharedMemory.leave, hh]
        rfl
      | some h =>
        have hleave : c.env.leave r = c.env.finish q.data h := by
          rw [SharedMemory.leave, hh, ← show r.msg_data = q.data from hdata]
          rfl
        have hcmd : (c.env.finish q.data h).cmds p.data = c.env.cmds p.data :=
          Function.update_of_ne hne.symm ..
        rw [hleave]
        refine handle_congr rfl rfl hcmd fun a ha => ?_
        have ha' : a ∈ input (c.env.cmds p.data) := hcmd ▸ ha
        exact finish_bytes_of_notMem c.env q.data (hw h hh) fun haq => hq.output_input a haq ha'
  | serveNothing _ => rfl
  | deliver r outbox ho => rfl
  | deliverNothing _ => rfl

/-! ## Room for what is copied -/

variable (b) in
/-- What the worker copies for messages, one after another, fits their output buffers. -/
def Roomy (ms : List Message) : Prop :=
  ∀ r ∈ (run (handle b) ms boot).replies, ∀ h, r.handled = some h → Fits b h

instance (ms : List Message) : Decidable (Roomy b ms) :=
  inferInstanceAs (Decidable (∀ r ∈ (run (handle b) ms boot).replies, ∀ h ∈ r.handled, Fits b h))

/-- Without Ogg nothing is copied. -/
theorem roomy_of_plain (hogg : b.useOgg = false) (ms : List Message) : Roomy b ms := by
  have hcopied : ∀ r ∈ [] ++ (run (handle b) ms boot).replies, r.copied = none := by
    refine run_invariant (P := fun rs _ => ∀ r ∈ rs, Reply.copied r = none) ?_ ?_ ms [] boot
      (fun r hr => absurd hr List.not_mem_nil)
    · intro rs m w r w' hrs hm r' hr'
      rcases List.mem_append.mp hr' with hold | hnew
      · exact hrs r' hold
      · rw [List.mem_singleton.mp hnew]
        cases Turn.of_run hm with
        | initOgg _ _ ho _ => exact absurd ho (by simp [hogg])
        | execOgg _ _ _ _ _ ho _ => exact absurd ho (by simp [hogg])
        | flushOgg _ ho _ => exact absurd ho (by simp [hogg])
        | _ => rfl
    · exact fun rs _ _ _ _ hrs _ => hrs
  intro r hr h hh w hw
  have hnone := hcopied r hr
  rw [Reply.copied, hh] at hnone
  simp [hw] at hnone

/-- When there is room for what is copied for all commands, as they were when they were sent, every
turn of a careful schedule is a good one. -/
theorem good_of_careful (hopus : KeepsToBuffer b.opus) :
    ∀ (events : List (Service.Event SharedMemory DspDrvComPrm)) (c : System ε σ),
      Service.Refines (server b carry) boot [bootComplete] c →
      Service.Isolated (server b carry) c → Orderly b c →
      Service.Along (server b carry) (CarefulTurn b) events c →
      Roomy b (Service.exec (server b carry) events c).meant →
      Service.Along (server b carry) (GoodTurn b carry) events c
  | [], _, _, _, _, _, _ => trivial
  | ev :: events, c, href, hiso, hc, hev, hroomy => by
    have hmeant : c.meant <+: (Service.exec (server b carry) (ev :: events) c).meant :=
      Service.meant_prefix_exec (ev :: events) c
    have hfits : NextFits b carry c := by
      intro q inbox r w' hhalt hi hm
      have hmem : r ∈ (run (handle b) c.meant boot).replies :=
        Service.mem_replies_of_serve href hiso hhalt hi hm
      obtain ⟨later, hlater⟩ := hmeant
      refine hroomy r ?_
      rw [← hlater]
      exact (Service.replies_prefix_append later c.meant boot).subset hmem
    have hgood : GoodTurn b carry c ev := ⟨hev.1, hfits⟩
    exact ⟨hgood, good_of_careful hopus events _ (Service.refines_next href ev)
      (Service.isolated_next hiso (undisturbed_of_good hopus c ev hc hgood))
      (orderly_next hopus c ev hc hgood) hev.2 hroomy⟩

/-! ## The outcome -/

variable (b carry) in
/-- A schedule whose turns are careful. -/
def Careful (events : List Event) (mem : SharedMemory) : Prop :=
  Service.Along (server b carry) (CarefulTurn b) (events.map Event.turn) (start mem)

section Outcome

variable (hopus : KeepsToBuffer b.opus) {events : List Event} {mem : SharedMemory}
  (h : Careful b carry events mem) (hroomy : Roomy b (exec b carry events mem).meant)

include hopus h hroomy

/-- The turns of a careful schedule are good. -/
theorem good_exec :
    Service.Along (server b carry) (GoodTurn b carry) (events.map Event.turn) (start mem) :=
  good_of_careful hopus _ _ (Service.refines_start ..) (Service.isolated_start ..)
    (orderly_start mem) h hroomy

/-- A careful schedule keeps the order. -/
theorem orderly_exec : Orderly b (exec b carry events mem) :=
  Service.exec_invariant (orderly_next hopus) _ _ (orderly_start mem) (good_exec hopus h hroomy)

/-- Under a careful schedule the commands are what they were when they were sent. -/
theorem isolated_exec : Service.Isolated (server b carry) (exec b carry events mem) :=
  Service.isolated_exec (Service.isolated_start mem boot [bootComplete])
    (Service.Along.of_invariant (orderly_next hopus) (undisturbed_of_good hopus) _ _
      (orderly_start mem) (good_exec hopus h hroomy))

end Outcome

variable (b) in
/-- The run of the worker over the commands that it has taken, as they were when they were sent. -/
def sequentialRun (c : System ε σ) : Trace (Globals ε σ) Reply Halt :=
  run (handle b) (c.meant.take c.taken.length) boot

/-- Under every schedule with a careful client that leaves room for what is copied, the worker is
where the run over the commands as they were sent leaves it, its replies are those of that run, once
and in order, and the memory shows each of them until the driver has called back for it. -/
theorem careful_outcome (hopus : KeepsToBuffer b.opus) (events : List Event) (mem : SharedMemory)
    (h : Careful b carry events mem) (hroomy : Roomy b (exec b carry events mem).meant) :
    (exec b carry events mem).server = (sequentialRun b (exec b carry events mem)).state ∧
      (exec b carry events mem).halt = (sequentialRun b (exec b carry events mem)).halt ∧
      (exec b carry events mem).delivered ++ (exec b carry events mem).outbox =
        bootComplete :: (sequentialRun b (exec b carry events mem)).replies ∧
      ∀ r ∈ (exec b carry events mem).outbox, ∀ h, r.handled = some h →
        Shows (exec b carry events mem).env r.msg_data h := by
  have href := refines_exec b carry events mem
  have hrun : run (handle b) (exec b carry events mem).messages boot =
      sequentialRun b (exec b carry events mem) :=
    Service.run_taken (isolated_exec hopus h hroomy) boot
  refine ⟨?_, ?_, ?_, (orderly_exec hopus h hroomy).shows⟩
  · rw [← hrun]
    exact href.server
  · rw [← hrun]
    exact href.halt
  · rw [← hrun]
    exact href.replies

/-! ## When the client rests -/

end Careful

/-! ## A client with one frame -/

/-- `silentOpus` keeps to the output buffer. -/
theorem keepsToBuffer_silentOpus : KeepsToBuffer silentOpus := by
  intro enc pcm frame_size max_data_bytes
  show (silentOpus.encode enc pcm frame_size max_data_bytes).data.length ≤ _
  simp only [silentOpus]
  split_ifs with hargs hsmall
  · exact Nat.zero_le _
  · exact Nat.zero_le _
  · have hle : (3 : Int32) ≤ max_data_bytes := Int32.not_lt.mp hsmall
    have hint : (3 : ℤ) ≤ max_data_bytes.toInt := Int32.le_iff_toInt_le.mp hle
    show 3 ≤ max_data_bytes.toInt.toNat
    omega

/-- The two commands are apart: an Init has no buffers. -/
theorem careful_frameSchedule {ε σ : Type} (b : Build ε σ) :
    Careful b plainCarry frameSchedule frameMemory := by
  refine ⟨⟨?_, ?_⟩, trivial, ⟨?_, ?_⟩, trivial, trivial, trivial, trivial⟩
  · show (0x1000 : UInt32) ∉ ([] : List UInt32)
    exact List.not_mem_nil
  · intro a ha
    exact absurd ha List.not_mem_nil
  · show (0x1100 : UInt32) ∉ ([0x1000] : List UInt32)
    decide
  · intro a ha
    obtain rfl : a = 0x1000 := List.mem_singleton.mp ha
    have hinit : ¬ IsExec (frameMemory.cmds 0x1000) := by
      show ¬ IsExec monoInit.com_param
      rintro ⟨-, hevent⟩
      exact absurd hevent (by decide)
    have hnone : ∀ a, a ∉ output b (frameMemory.cmds 0x1000) := by
      rintro a ⟨buffer, hexec | ⟨-, -, hevent⟩, -⟩
      · exact hinit hexec
      · exact absurd hevent (by decide)
    exact ⟨fun _ _ h => hinit h.1, fun _ _ => hnone _, fun _ _ => hnone _⟩

/-- The replies for an Init and a frame, which are those of the sequential run. -/
theorem careful_outcome_frame :
    (exec plainBuild plainCarry frameSchedule frameMemory).delivered ++
        (exec plainBuild plainCarry frameSchedule frameMemory).outbox =
      bootComplete ::
        (sequentialRun plainBuild (exec plainBuild plainCarry frameSchedule frameMemory)).replies :=
  (careful_outcome keepsToBuffer_silentOpus frameSchedule frameMemory
    (careful_frameSchedule _) (roomy_of_plain rfl _)).2.2.1

end SpresenseOpus.Driver
