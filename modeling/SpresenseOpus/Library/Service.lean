import SpresenseOpus.Library.Machine

/-!
# A machine that serves requests out of a queue

A client puts requests into one queue, a server takes them out one after another and puts its
replies into a second queue, and a receiver takes these. Neither waits for the other: a schedule
says whose turn it is. What a request means may depend on an environment that they share, such as a
memory: the server looks at it when it takes the request, not when the request was made, and leaves
something there with its reply.

The server is a machine of `Library/Machine.lean`. Whatever the schedule is, what it does is one run
over the messages taken, the replies are delivered in order and once, and what is not delivered is
still in a queue (`refines_exec`). When nothing disturbs the requests that wait, these messages are
the ones that the requests meant when they were made (`isolated_exec`), so that the outcome is that
of a plain run over the requests, and only how far it has got is a matter of the schedule
(`run_taken`).
-/

namespace Service

open Machine

variable {E Q M S R H : Type}

/-- A machine at work in an environment. -/
structure Server (E Q M S R H : Type) where
  /-- What the machine does with a message. -/
  step : M → EStateM H S R
  /-- The message that a request amounts to. -/
  look : E → Q → M
  /-- What a reply leaves in the environment. -/
  leave : E → R → E

/-- One turn. -/
inductive Event (E Q : Type) where
  /-- The client changes the environment. -/
  | touch (f : E → E)
  /-- The client makes a request. -/
  | request (q : Q)
  /-- The server takes the oldest request and replies to it. -/
  | serve
  /-- The receiver takes the oldest reply. -/
  | deliver

/-- The environment, the two queues, the server and why it has stopped, and what was delivered;
with the history of the requests made and taken, each with what it amounted to at the time. -/
structure State (E Q M S R H : Type) where
  env : E
  inbox : List Q := []
  server : S
  halt : Option H := none
  outbox : List R := []
  delivered : List R := []
  requested : List (Q × M) := []
  taken : List (Q × M) := []

variable (V : Server E Q M S R H)

/-- The start: the server has some replies out that nobody has asked for. -/
def start (env : E) (server : S) (greeting : List R) : State E Q M S R H :=
  { env, server, outbox := greeting }

/-- The server's turn with a request. -/
def State.serve (c : State E Q M S R H) (q : Q) (inbox : List Q) : State E Q M S R H :=
  let m := V.look c.env q
  let t := run V.step [m] c.server
  { c with
    env := t.replies.foldl V.leave c.env
    inbox
    server := t.state
    halt := t.halt
    outbox := c.outbox ++ t.replies
    taken := c.taken ++ [(q, m)] }

/-- The server's turn with a request that it answers. -/
theorem State.serve_ok {c : State E Q M S R H} {q : Q} {r : R} {s' : S}
    (h : (V.step (V.look c.env q)).run c.server = .ok r s') (inbox : List Q) :
    c.serve V q inbox =
      { c with
        env := V.leave c.env r, inbox, server := s', halt := none, outbox := c.outbox ++ [r]
        taken := c.taken ++ [(q, V.look c.env q)] } := by
  have ht : run V.step [V.look c.env q] c.server = ⟨[r], s', none⟩ := run_cons_ok h
  simp only [State.serve, ht]
  rfl

/-- The server's turn with a request that stops it. -/
theorem State.serve_error {c : State E Q M S R H} {q : Q} {e : H} {s' : S}
    (h : (V.step (V.look c.env q)).run c.server = .error e s') (inbox : List Q) :
    c.serve V q inbox =
      { c with
        inbox, server := s', halt := some e, taken := c.taken ++ [(q, V.look c.env q)] } := by
  have ht : run V.step [V.look c.env q] c.server = ⟨[], s', some e⟩ := run_cons_error h
  simp only [State.serve, ht, List.append_nil]
  rfl

/-- One turn: a server that has stopped and an empty queue let theirs pass. -/
def next (c : State E Q M S R H) : Event E Q → State E Q M S R H
  | .touch f => { c with env := f c.env }
  | .request q =>
    { c with inbox := c.inbox ++ [q], requested := c.requested ++ [(q, V.look c.env q)] }
  | .serve =>
    match c.halt, c.inbox with
    | none, q :: inbox => c.serve V q inbox
    | _, _ => c
  | .deliver =>
    match c.outbox with
    | r :: outbox => { c with outbox, delivered := c.delivered ++ [r] }
    | [] => c

/-- The state after the turns of a schedule. -/
def exec (events : List (Event E Q)) (c : State E Q M S R H) : State E Q M S R H :=
  events.foldl (next V) c

/-- A schedule takes its first turn, and then the others. -/
@[simp] theorem exec_cons (ev : Event E Q) (events : List (Event E Q)) (c : State E Q M S R H) :
    exec V (ev :: events) c = exec V events (next V c ev) := rfl

/-- A condition on turns holds for every turn of a schedule. -/
def Along (D : State E Q M S R H → Event E Q → Prop) :
    List (Event E Q) → State E Q M S R H → Prop
  | [], _ => True
  | ev :: events, c => D c ev ∧ Along D events (next V c ev)

variable {V}

/-- A property that every turn under a condition keeps holds after a schedule of such turns. -/
theorem exec_invariant {D : State E Q M S R H → Event E Q → Prop}
    {P : State E Q M S R H → Prop} (hnext : ∀ c ev, P c → D c ev → P (next V c ev)) :
    ∀ (events : List (Event E Q)) (c : State E Q M S R H), P c → Along V D events c →
      P (exec V events c)
  | [], _, h, _ => h
  | ev :: events, c, h, hD => by
    rw [exec_cons]
    exact exec_invariant hnext events (next V c ev) (hnext c ev h hD.1) hD.2

/-- A condition that follows from an invariant and another condition holds along the schedule when
that one does. -/
theorem Along.of_invariant {D D' : State E Q M S R H → Event E Q → Prop}
    {P : State E Q M S R H → Prop} (hnext : ∀ c ev, P c → D c ev → P (next V c ev))
    (hD' : ∀ c ev, P c → D c ev → D' c ev) :
    ∀ (events : List (Event E Q)) (c : State E Q M S R H), P c → Along V D events c →
      Along V D' events c
  | [], _, _, _ => trivial
  | ev :: events, c, h, hD =>
    ⟨hD' c ev h hD.1, of_invariant hnext hD' events (next V c ev) (hnext c ev h hD.1) hD.2⟩

/-- What a turn can do. -/
inductive Next (c : State E Q M S R H) : Event E Q → State E Q M S R H → Prop
  | touch (f : E → E) : Next c (.touch f) { c with env := f c.env }
  | request (q : Q) : Next c (.request q)
      { c with inbox := c.inbox ++ [q], requested := c.requested ++ [(q, V.look c.env q)] }
  | serve (q : Q) (inbox : List Q) : c.halt = none → c.inbox = q :: inbox →
      Next c .serve (c.serve V q inbox)
  | serveNothing : c.halt ≠ none ∨ c.inbox = [] → Next c .serve c
  | deliver (r : R) (outbox : List R) : c.outbox = r :: outbox →
      Next c .deliver { c with outbox, delivered := c.delivered ++ [r] }
  | deliverNothing : c.outbox = [] → Next c .deliver c

/-- Every turn does one of these. -/
theorem next_spec (c : State E Q M S R H) (ev : Event E Q) : Next (V := V) c ev (next V c ev) := by
  cases ev with
  | touch f => exact .touch f
  | request q => exact .request q
  | serve =>
    cases hh : c.halt with
    | some h =>
      have hnext : next V c .serve = c := by simp [next, hh]
      rw [hnext]
      exact .serveNothing (.inl (by simp [hh]))
    | none =>
      cases hi : c.inbox with
      | nil =>
        have hnext : next V c .serve = c := by simp [next, hh, hi]
        rw [hnext]
        exact .serveNothing (.inr hi)
      | cons q inbox =>
        have hnext : next V c .serve = c.serve V q inbox := by simp [next, hh, hi]
        rw [hnext]
        exact .serve q inbox hh hi
  | deliver =>
    cases ho : c.outbox with
    | nil =>
      have hnext : next V c .deliver = c := by simp [next, ho]
      rw [hnext]
      exact .deliverNothing ho
    | cons r outbox =>
      have hnext : next V c .deliver = { c with outbox, delivered := c.delivered ++ [r] } := by
        simp [next, ho]
      rw [hnext]
      exact .deliver r outbox ho

/-! ## Whatever the schedule -/

/-- The messages that the server has taken. -/
def State.messages (c : State E Q M S R H) : List M := c.taken.map Prod.snd

variable (V) in
/-- A state is what a run over the messages taken explains. -/
structure Refines (s : S) (greeting : List R) (c : State E Q M S R H) : Prop where
  /-- The replies are out once and in order. -/
  replies : c.delivered ++ c.outbox = greeting ++ (run V.step c.messages s).replies
  server : c.server = (run V.step c.messages s).state
  halt : c.halt = (run V.step c.messages s).halt
  /-- Every message taken was replied to, except for one that has stopped the server. -/
  served : (run V.step c.messages s).replies.length + c.halt.toList.length = c.taken.length
  /-- The requests are taken once and in order. -/
  requests : c.requested.map Prod.fst = c.taken.map Prod.fst ++ c.inbox

/-- At the start the server has run over no messages. -/
theorem refines_start (env : E) (s : S) (greeting : List R) :
    Refines V s greeting (start env s greeting) where
  replies := by simp [start, State.messages]
  server := rfl
  halt := rfl
  served := rfl
  requests := rfl

/-- A message by itself is taken. -/
theorem length_visits_singleton {step : M → EStateM H S R} (m : M) (s : S) :
    (visits step [m] s).length = 1 := by
  cases hm : (step m).run s with
  | ok r s' =>
    rw [visits_cons_ok hm]
    rfl
  | error e s' =>
    rw [visits_cons_error hm]
    rfl

/-- A turn keeps to the run over the messages taken. -/
theorem refines_next {s : S} {greeting : List R} {c : State E Q M S R H}
    (h : Refines V s greeting c) (ev : Event E Q) : Refines V s greeting (next V c ev) := by
  have hnext := next_spec (V := V) c ev
  generalize next V c ev = c' at hnext ⊢
  cases hnext with
  | touch f => exact ⟨h.replies, h.server, h.halt, h.served, h.requests⟩
  | request q =>
    refine ⟨h.replies, h.server, h.halt, h.served, ?_⟩
    rw [List.map_append, h.requests, List.append_assoc]
    rfl
  | serve q inbox hh hi =>
    -- The message is the next one of the run.
    have hmessages : (c.serve V q inbox).messages = c.messages ++ [V.look c.env q] := by
      simp [State.messages, State.serve]
    have hrun := @run_append _ _ _ _ V.step [V.look c.env q] c.messages s
      (by rw [← h.halt, hh])
    rw [← h.server] at hrun
    have hone : (run V.step [V.look c.env q] c.server).replies.length +
        (run V.step [V.look c.env q] c.server).halt.toList.length = 1 :=
      (length_visits [V.look c.env q] c.server).symm.trans (length_visits_singleton _ _)
    refine ⟨?_, ?_, ?_, ?_, ?_⟩
    · rw [hmessages, hrun]
      simp only [State.serve]
      rw [← List.append_assoc, h.replies, List.append_assoc]
    · rw [hmessages, hrun]
      rfl
    · rw [hmessages, hrun]
      rfl
    · have hserved := h.served
      rw [hh] at hserved
      simp only [Option.toList_none, List.length_nil] at hserved
      rw [hmessages, hrun]
      simp only [State.serve, List.length_append, List.length_cons, List.length_nil]
      omega
    · have hrequests := h.requests
      rw [hi] at hrequests
      simp only [State.serve, List.map_append, List.map_cons, List.map_nil]
      rw [hrequests, List.append_assoc]
      rfl
  | serveNothing _ => exact h
  | deliver r outbox ho =>
    refine ⟨?_, h.server, h.halt, h.served, h.requests⟩
    have hreplies := h.replies
    rw [ho] at hreplies
    simp only [List.append_assoc, List.singleton_append]
    exact hreplies
  | deliverNothing _ => exact h

/-- After every schedule the server has run over the messages taken, and every reply of that run
was delivered once and in order, or waits to be. -/
theorem refines_exec {s : S} {greeting : List R} :
    ∀ (events : List (Event E Q)) {c : State E Q M S R H}, Refines V s greeting c →
      Refines V s greeting (exec V events c)
  | [], _, h => h
  | ev :: events, _, h => refines_exec events (refines_next h ev)

/-! ## The histories -/

/-- The requests of a schedule. -/
def requests (events : List (Event E Q)) : List Q :=
  events.filterMap fun
    | .request q => some q
    | _ => none

variable (V) in
/-- A turn leaves the requests that go on waiting as they are to the server. -/
def Undisturbed (c : State E Q M S R H) (ev : Event E Q) : Prop :=
  ∀ q ∈ (next V c ev).inbox, q ∈ c.inbox →
    V.step (V.look (next V c ev).env q) = V.step (V.look c.env q)

variable (V) in
/-- To the server, the requests are what they were when they were made. -/
def Isolated (c : State E Q M S R H) : Prop :=
  c.requested.map (fun r => V.step r.2) =
    c.taken.map (fun r => V.step r.2) ++ c.inbox.map fun q => V.step (V.look c.env q)

/-- At the start no request has been made. -/
theorem isolated_start (env : E) (s : S) (greeting : List R) :
    Isolated V (start env s greeting) := rfl

/-- A turn that disturbs nothing keeps the requests what they were. -/
theorem isolated_next {c : State E Q M S R H} (h : Isolated V c) {ev : Event E Q}
    (hev : Undisturbed V c ev) : Isolated V (next V c ev) := by
  unfold Undisturbed at hev
  unfold Isolated at h ⊢
  have hnext := next_spec (V := V) c ev
  generalize next V c ev = c' at hev hnext ⊢
  cases hnext with
  | touch f =>
    have hsame : (c.inbox.map fun q => V.step (V.look (f c.env) q)) =
        c.inbox.map fun q => V.step (V.look c.env q) :=
      List.map_congr_left fun q hq => hev q hq hq
    exact h.trans (congrArg (_ ++ ·) hsame.symm)
  | request q =>
    simp only [List.map_append, List.map_cons, List.map_nil]
    rw [h, List.append_assoc]
  | serve q inbox hh hi =>
    have hsame : (inbox.map fun q' => V.step (V.look (c.serve V q inbox).env q')) =
        inbox.map fun q' => V.step (V.look c.env q') :=
      List.map_congr_left fun q' hq => hev q' hq (hi ▸ List.mem_cons_of_mem q hq)
    rw [hi, List.map_cons] at h
    -- The request that is taken goes over with what it amounts to now.
    calc c.requested.map (fun r => V.step r.2)
        = c.taken.map (fun r => V.step r.2) ++
            (V.step (V.look c.env q) :: inbox.map fun q' => V.step (V.look c.env q')) := h
      _ = (c.taken ++ [(q, V.look c.env q)]).map (fun r => V.step r.2) ++
            inbox.map fun q' => V.step (V.look c.env q') := by
        rw [List.map_append, List.append_assoc]
        rfl
      _ = _ := congrArg (_ ++ ·) hsame.symm
  | serveNothing _ => exact h
  | deliver r outbox ho => exact h
  | deliverNothing _ => exact h

/-- Along a schedule that disturbs nothing, the requests are what they were when they were made. -/
theorem isolated_exec {events : List (Event E Q)} {c : State E Q M S R H} (h : Isolated V c)
    (hev : Along V (Undisturbed V) events c) : Isolated V (exec V events c) :=
  exec_invariant (P := Isolated V) (fun _ _ h hev => isolated_next h hev) events c h hev

/-- Messages that the machine does not tell apart make the same runs. -/
theorem run_congr {step : M → EStateM H S R} : ∀ {ms ns : List M}, ms.map step = ns.map step →
    ∀ s, run step ms s = run step ns s
  | [], ns, h, s => by
    rw [List.map_eq_nil_iff.mp h.symm]
  | m :: ms, ns, h, s => by
    obtain ⟨n, ns, rfl, hn, hns⟩ := List.map_eq_cons_iff.mp h.symm
    cases hm : (step m).run s with
    | ok r s' => rw [run_cons_ok hm, run_cons_ok (hn ▸ hm), run_congr hns.symm s']
    | error e s' => rw [run_cons_error hm, run_cons_error (hn ▸ hm)]

/-- The messages that the requests meant when they were made. -/
def State.meant (c : State E Q M S R H) : List M := c.requested.map Prod.snd

/-- A server whose requests nothing has disturbed has made the plain run over the first of them: how
many there are is all that the schedule decides. -/
theorem run_taken {c : State E Q M S R H} (h : Isolated V c) (s : S) :
    run V.step c.messages s = run V.step (c.meant.take c.taken.length) s := by
  refine run_congr ?_ s
  have hmap := congrArg (List.take c.taken.length) h
  rw [List.take_left' (List.length_map ..), ← List.map_take] at hmap
  calc c.messages.map V.step = c.taken.map fun r => V.step r.2 := by
        rw [State.messages, List.map_map]
        rfl
    _ = (c.requested.take c.taken.length).map fun r => V.step r.2 := hmap.symm
    _ = (c.meant.take c.taken.length).map V.step := by
        rw [State.meant, ← List.map_take, List.map_map]
        rfl

/-- The history keeps the requests that were made. -/
theorem meant_prefix_exec : ∀ (events : List (Event E Q)) (c : State E Q M S R H),
    c.meant <+: (exec V events c).meant
  | [], _ => List.prefix_rfl
  | ev :: events, c => by
    refine List.IsPrefix.trans ?_ (meant_prefix_exec events (next V c ev))
    have hnext := next_spec (V := V) c ev
    generalize next V c ev = c' at hnext ⊢
    cases hnext with
    | request q =>
      refine ⟨[V.look c.env q], ?_⟩
      rw [State.meant, State.meant, List.map_append]
      rfl
    | touch f => exact List.prefix_rfl
    | serve q inbox hh hi => exact List.prefix_rfl
    | serveNothing hno => exact List.prefix_rfl
    | deliver r outbox ho => exact List.prefix_rfl
    | deliverNothing ho => exact List.prefix_rfl

/-- The replies of a run are the first ones of a run over more messages. -/
theorem replies_prefix_append {step : M → EStateM H S R} (ns : List M) : ∀ (ms : List M) (s : S),
    (run step ms s).replies <+: (run step (ms ++ ns) s).replies
  | [], _ => List.nil_prefix
  | m :: ms, s => by
    rw [List.cons_append]
    cases hm : (step m).run s with
    | ok r s' =>
      rw [run_cons_ok hm, run_cons_ok hm]
      exact (List.prefix_cons_inj r).mpr (replies_prefix_append ns ms s')
    | error e s' =>
      rw [run_cons_error hm]
      exact List.nil_prefix

/-- The reply to the request in front is one of the plain run over the requests. -/
theorem mem_replies_of_serve {s : S} {greeting : List R} {c : State E Q M S R H}
    (hr : Refines V s greeting c) (hi : Isolated V c) (hhalt : c.halt = none) {q : Q}
    {inbox : List Q} (hinbox : c.inbox = q :: inbox) {r : R} {s' : S}
    (hstep : (V.step (V.look c.env q)).run c.server = .ok r s') :
    r ∈ (run V.step c.meant s).replies := by
  have hmeant : c.meant.map V.step =
      (c.messages ++ V.look c.env q :: inbox.map fun q' => V.look c.env q').map V.step := by
    have hmap := hi
    unfold Isolated at hmap
    rw [hinbox] at hmap
    rw [State.meant, List.map_map, List.map_append, List.map_cons, List.map_map, State.messages,
      List.map_map]
    exact hmap
  rw [hr.halt] at hhalt
  rw [hr.server] at hstep
  rw [run_congr hmeant, run_append _ _ _ hhalt, run_cons_ok hstep]
  exact List.mem_append_right _ List.mem_cons_self

end Service
