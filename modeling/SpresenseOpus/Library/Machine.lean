import Mathlib.Data.List.Basic

/-!
# Machines driven by messages

A machine takes one message after another. Each message is a program in `EStateM`: it updates the
machine's state and either answers with a reply, or stops the machine for good with a reason. `run`
takes a list of messages from a state and keeps what an observer sees: the replies in order, the
last state, and the reason for a stop.

The rules of this file carry facts about one step to whole runs: invariants (`run_invariant`,
`run_history_invariant`), the composition of runs (`run_append`), what the replies say
(`replies_of_invariant`), and the deletion of messages that change nothing (`run_select`).
-/

namespace Machine

variable {M S R H : Type}

/-- What a run leaves: the replies in order, the last state, and why the machine stopped before
the end of its messages, if it did. -/
structure Trace (S R H : Type) where
  /-- The replies to the messages that were completed. -/
  replies : List R
  /-- The state after the last message taken. -/
  state : S
  /-- The reason for which the machine stopped, if it did. -/
  halt : Option H

/-- A trace with one more reply in front. -/
def Trace.push (r : R) (t : Trace S R H) : Trace S R H := { t with replies := r :: t.replies }

/-- The run of a machine over a list of messages. A message that stops the machine is the last one
taken. -/
def run (step : M → EStateM H S R) : List M → S → Trace S R H
  | [], s => ⟨[], s, none⟩
  | m :: ms, s =>
    match (step m).run s with
    | .ok r s' => (run step ms s').push r
    | .error h s' => ⟨[], s', some h⟩

/-- The messages that a run takes, each with the state that it is taken in. The message that stops
the machine is among them, the ones after it are not. -/
def visits (step : M → EStateM H S R) : List M → S → List (S × M)
  | [], _ => []
  | m :: ms, s =>
    (s, m) ::
      match (step m).run s with
      | .ok _ s' => visits step ms s'
      | .error _ _ => []

/-- The state that a program leaves, whether it returns or stops. -/
def stateAfter {A : Type} : EStateM.Result H S A → S
  | .ok _ s => s
  | .error _ s => s

/-- A sequence of two programs that returns has gone through both. -/
theorem bind_ok {A B : Type} {x : EStateM H S A} {f : A → EStateM H S B} {b : B} {s s' : S}
    (h : (Bind.bind x f).run s = .ok b s') :
    ∃ a s₁, x.run s = .ok a s₁ ∧ (f a).run s₁ = .ok b s' := by
  rw [EStateM.run_bind] at h
  cases hx : x.run s with
  | ok a s₁ =>
    rw [hx] at h
    exact ⟨a, s₁, rfl, h⟩
  | error e s₁ =>
    rw [hx] at h
    exact absurd h (by simp)

/-- The result of a program on a part of the state, put back into the whole. -/
def onPart {T A : Type} (put : T → S) : EStateM.Result H T A → EStateM.Result H S A
  | .ok a t => .ok a (put t)
  | .error e t => .error e (put t)

/-- A part that returns leaves its state in the whole. -/
@[simp] theorem onPart_of_ok {T A : Type} (put : T → S) (a : A) (t : T) :
    onPart (H := H) put (.ok a t) = .ok a (put t) := rfl

/-- So does a part that halts. -/
@[simp] theorem onPart_of_error {T A : Type} (put : T → S) (e : H) (t : T) :
    onPart (A := A) put (.error e t) = .error e (put t) := rfl

/-- The state after the run of a part has the state of the part in it. -/
@[simp] theorem stateAfter_onPart {T A : Type} (put : T → S) (x : EStateM.Result H T A) :
    stateAfter (onPart put x) = put (stateAfter x) := by
  cases x <;> rfl

/-- A program on a part of the state that returns has changed that part only. -/
theorem onPart_ok {T A : Type} (put : T → S) {x : EStateM.Result H T A} {a : A} {s : S}
    (h : onPart put x = .ok a s) : ∃ t, x = .ok a t ∧ s = put t := by
  cases x with
  | ok b t =>
    obtain ⟨rfl, rfl⟩ := EStateM.Result.ok.inj h
    exact ⟨t, rfl, rfl⟩
  | error e t => exact absurd h (by simp)

section Run

variable {step : M → EStateM H S R}

/-- A run over no messages stays where it is. -/
@[simp] theorem run_nil (s : S) : run step [] s = ⟨[], s, none⟩ := rfl

/-- A run over no messages visits none. -/
@[simp] theorem visits_nil (s : S) : visits step [] s = [] := rfl

/-- A message that is answered puts its reply in front of the rest of the run. -/
theorem run_cons_ok {m : M} {ms : List M} {s s' : S} {r : R} (h : (step m).run s = .ok r s') :
    run step (m :: ms) s = (run step ms s').push r := by
  simp [run, h]

/-- A message that stops the machine ends the run. -/
theorem run_cons_error {m : M} {ms : List M} {s s' : S} {e : H}
    (h : (step m).run s = .error e s') : run step (m :: ms) s = ⟨[], s', some e⟩ := by
  simp [run, h]

/-- After a message that is answered, the rest of the messages are taken from its last state. -/
theorem visits_cons_ok {m : M} {ms : List M} {s s' : S} {r : R} (h : (step m).run s = .ok r s') :
    visits step (m :: ms) s = (s, m) :: visits step ms s' := by
  simp [visits, h]

/-- No message is taken after one that stops the machine. -/
theorem visits_cons_error {m : M} {ms : List M} {s s' : S} {e : H}
    (h : (step m).run s = .error e s') : visits step (m :: ms) s = [(s, m)] := by
  simp [visits, h]

/-- A run that does not stop takes all its messages. -/
theorem map_snd_visits : ∀ {ms : List M} {s : S}, (run step ms s).halt = none →
    (visits step ms s).map Prod.snd = ms
  | [], _, _ => rfl
  | m :: ms, s, h => by
    cases hm : (step m).run s with
    | ok r s' =>
      rw [run_cons_ok hm] at h
      rw [visits_cons_ok hm, List.map_cons, map_snd_visits h]
    | error e s' =>
      rw [run_cons_error hm] at h
      exact absurd h (by simp)

/-- Every message that is taken is answered, except for one that stops the machine. -/
theorem length_visits : ∀ (ms : List M) (s : S),
    (visits step ms s).length =
      (run step ms s).replies.length + (run step ms s).halt.toList.length
  | [], _ => rfl
  | m :: ms, s => by
    cases hm : (step m).run s with
    | ok r s' =>
      have ih := length_visits ms s'
      rw [visits_cons_ok hm, run_cons_ok hm, List.length_cons, ih]
      simp only [Trace.push, List.length_cons]
      omega
    | error e s' =>
      rw [visits_cons_error hm, run_cons_error hm]
      rfl

/-- Runs compose: when the first messages do not stop the machine, the others run from the state
that they leave. -/
theorem run_append (ns : List M) : ∀ (ms : List M) (s : S), (run step ms s).halt = none →
    run step (ms ++ ns) s =
      { replies := (run step ms s).replies ++ (run step ns (run step ms s).state).replies
        state := (run step ns (run step ms s).state).state
        halt := (run step ns (run step ms s).state).halt }
  | [], s, _ => rfl
  | m :: ms, s, h => by
    cases hm : (step m).run s with
    | ok r s' =>
      rw [run_cons_ok hm] at h
      have ih := run_append ns ms s' h
      rw [List.cons_append, run_cons_ok hm, run_cons_ok hm, ih]
      rfl
    | error e s' =>
      rw [run_cons_error hm] at h
      exact absurd h (by simp)

/-- One more message after messages that do not stop the machine leaves what its program leaves. -/
theorem state_concat {ms : List M} {s : S} (h : (run step ms s).halt = none) (m : M) :
    (run step (ms ++ [m]) s).state = stateAfter ((step m).run (run step ms s).state) := by
  rw [run_append [m] ms s h]
  cases hm : (step m).run (run step ms s).state with
  | ok r s' =>
    rw [run_cons_ok hm]
    rfl
  | error e s' =>
    rw [run_cons_error hm]
    rfl

/-- A property of the replies so far and the state that every message keeps, also one that stops the
machine, holds at the end of a run. -/
theorem run_invariant {P : List R → S → Prop}
    (hok : ∀ rs m s r s', P rs s → (step m).run s = .ok r s' → P (rs ++ [r]) s')
    (herr : ∀ rs m s e s', P rs s → (step m).run s = .error e s' → P rs s') :
    ∀ (ms : List M) (rs : List R) (s : S), P rs s →
      P (rs ++ (run step ms s).replies) (run step ms s).state
  | [], rs, s, h => by simpa using h
  | m :: ms, rs, s, h => by
    cases hm : (step m).run s with
    | ok r s' =>
      have ih := run_invariant hok herr ms (rs ++ [r]) s' (hok rs m s r s' h hm)
      rw [List.append_assoc] at ih
      rw [run_cons_ok hm]
      exact ih
    | error e s' =>
      rw [run_cons_error hm]
      simpa using herr rs m s e s' h hm

/-- A property of the messages so far, their replies and the state, kept by every answered message,
holds at the end of a run that does not stop. -/
theorem run_history_invariant {P : List M → List R → S → Prop}
    (hok : ∀ ns rs m s r s', P ns rs s → (step m).run s = .ok r s' →
      P (ns ++ [m]) (rs ++ [r]) s') :
    ∀ (ms ns : List M) (rs : List R) (s : S), P ns rs s → (run step ms s).halt = none →
      P (ns ++ ms) (rs ++ (run step ms s).replies) (run step ms s).state
  | [], ns, rs, s, h, _ => by simpa using h
  | m :: ms, ns, rs, s, h, hh => by
    cases hm : (step m).run s with
    | ok r s' =>
      rw [run_cons_ok hm] at hh ⊢
      have ih := run_history_invariant hok ms (ns ++ [m]) (rs ++ [r]) s'
        (hok ns rs m s r s' h hm) hh
      rw [List.append_assoc, List.append_assoc] at ih
      exact ih
    | error e s' =>
      rw [run_cons_error hm] at hh
      exact absurd hh (by simp)

/-- A run that stops does so at one of its messages, after messages that do not stop it. -/
theorem exists_of_halt {e : H} : ∀ (ms : List M) (s : S), (run step ms s).halt = some e →
    ∃ pre m post, ms = pre ++ m :: post ∧ (run step pre s).halt = none ∧
      (step m).run (run step pre s).state = .error e (run step ms s).state
  | [], s, h => absurd h (by simp)
  | m :: ms, s, h => by
    cases hm : (step m).run s with
    | ok r s' =>
      -- The stop comes later, in the run of the other messages.
      rw [run_cons_ok hm] at h
      obtain ⟨pre, n, post, rfl, hh, hn⟩ := exists_of_halt ms s' h
      refine ⟨m :: pre, n, post, rfl, ?_, ?_⟩
      · rw [run_cons_ok hm]
        exact hh
      · rw [run_cons_ok hm, run_cons_ok hm]
        exact hn
    | error e' s' =>
      rw [run_cons_error hm] at h ⊢
      obtain rfl := Option.some.inj h
      exact ⟨[], m, ms, rfl, rfl, hm⟩

/-- A run that does not stop has not stopped before. -/
theorem halt_of_append {ns : List M} : ∀ {ms : List M} {s : S},
    (run step (ms ++ ns) s).halt = none → (run step ms s).halt = none
  | [], _, _ => rfl
  | m :: ms, s, h => by
    rw [List.cons_append] at h
    cases hm : (step m).run s with
    | ok r s' =>
      rw [run_cons_ok hm] at h ⊢
      exact halt_of_append h
    | error e s' =>
      rw [run_cons_error hm] at h
      exact absurd h (by simp)

/-- The messages taken are those that a run reaches: each one stands after messages that do not
stop the machine and leave the state that it is taken in. -/
theorem mem_visits_iff {v : S × M} : ∀ {ms : List M} {s : S}, v ∈ visits step ms s ↔
    ∃ pre post, ms = pre ++ v.2 :: post ∧ (run step pre s).halt = none ∧
      (run step pre s).state = v.1
  | [], s => by simp
  | m :: ms, s => by
    constructor
    · -- A message that is taken is the first one, or is taken by the rest of the run.
      intro hv
      cases hm : (step m).run s with
      | ok r s' =>
        rw [visits_cons_ok hm] at hv
        rcases List.mem_cons.mp hv with rfl | hv
        · exact ⟨[], ms, rfl, rfl, rfl⟩
        · obtain ⟨pre, post, rfl, hh, hs⟩ := mem_visits_iff.mp hv
          refine ⟨m :: pre, post, rfl, ?_, ?_⟩
          · rw [run_cons_ok hm]; exact hh
          · rw [run_cons_ok hm]; exact hs
      | error e s' =>
        rw [visits_cons_error hm, List.mem_singleton] at hv
        rw [hv]
        exact ⟨[], ms, rfl, rfl, rfl⟩
    · -- The messages in front of it are all answered, so that the run gets to it.
      rintro ⟨pre, post, heq, hh, hs⟩
      cases pre with
      | nil =>
        obtain ⟨rfl, rfl⟩ := List.cons.inj heq
        have hv : v = (s, v.2) := Prod.ext hs.symm rfl
        rw [hv, visits]
        exact List.mem_cons_self
      | cons n pre =>
        obtain ⟨rfl, rfl⟩ := List.cons.inj heq
        cases hm : (step m).run s with
        | ok r s' =>
          rw [run_cons_ok hm] at hh hs
          rw [visits_cons_ok hm]
          exact List.mem_cons_of_mem _ (mem_visits_iff.mpr ⟨pre, post, rfl, hh, hs⟩)
        | error e s' =>
          rw [run_cons_error hm] at hh
          exact absurd hh (by simp)

/-! ## What the replies say -/

/-- When an invariant makes something about every reply known from its message alone, the replies
of a run are known from its messages, as far as the run gets. -/
theorem replies_of_invariant {X : Type} {Inv : S → Prop} {f : M → X} {g : R → X}
    (hok : ∀ m s r s', Inv s → (step m).run s = .ok r s' → Inv s' ∧ g r = f m) :
    ∀ (ms : List M) (s : S), Inv s → (run step ms s).replies.map g <+: ms.map f
  | [], s, _ => List.prefix_rfl
  | m :: ms, s, hs => by
    cases hm : (step m).run s with
    | ok r s' =>
      obtain ⟨hs', hr⟩ := hok m s r s' hs hm
      have ih := replies_of_invariant hok ms s' hs'
      rw [run_cons_ok hm, List.map_cons, ← hr]
      exact (List.prefix_cons_inj (g r)).mpr ih
    | error e s' =>
      rw [run_cons_error hm]
      exact List.nil_prefix

/-- Messages that are all answered in a state without changing it leave that state. -/
theorem run_unchanged {s : S} : ∀ {ms : List M}, (∀ m ∈ ms, ∃ r, (step m).run s = .ok r s) →
    (run step ms s).state = s
  | [], _ => rfl
  | m :: ms, h => by
    obtain ⟨r, hr⟩ := h m List.mem_cons_self
    rw [run_cons_ok hr]
    exact run_unchanged fun n hn => h n (List.mem_cons_of_mem _ hn)

/-! ## Deleting messages -/

/-- The elements of a list at the places where a mask is true. -/
def select {α : Type} : List Bool → List α → List α
  | true :: mask, x :: xs => x :: select mask xs
  | false :: mask, _ :: xs => select mask xs
  | _, _ => []

/-- There is nothing to select from an empty list. -/
@[simp] theorem select_nil {α : Type} (mask : List Bool) : select mask ([] : List α) = [] := by
  cases mask with
  | nil => rfl
  | cons b mask => cases b <;> rfl

/-- The messages of a list that a mask deletes. -/
def dropped {α : Type} (mask : List Bool) (xs : List α) : List α := select (mask.map not) xs

/-- Messages that are answered without any change of the state can be deleted from a run: the
last state, the reason for a stop and the replies to the other messages stay as they are. `Inv` is
an invariant of the run, and it may be what makes the deleted messages harmless. -/
theorem run_select {Inv : S → Prop} {D : M → Prop}
    (hok : ∀ m s r s', Inv s → (step m).run s = .ok r s' → Inv s')
    (hD : ∀ m s, Inv s → D m → ∃ r, (step m).run s = .ok r s) :
    ∀ (mask : List Bool) (ms : List M) (s : S), mask.length = ms.length → Inv s →
      (∀ m ∈ dropped mask ms, D m) →
      run step (select mask ms) s =
        { run step ms s with replies := select mask (run step ms s).replies }
  | [], [], s, _, _, _ => rfl
  | true :: mask, m :: ms, s, hlen, hs, hdrop => by
    have hlen' : mask.length = ms.length := by simpa using hlen
    rw [select]
    cases hm : (step m).run s with
    | ok r s' =>
      rw [run_cons_ok hm, run_cons_ok hm, run_select hok hD mask ms s' hlen' (hok m s r s' hs hm)
        hdrop]
      rfl
    | error e s' =>
      rw [run_cons_error hm, run_cons_error hm, select_nil]
  | false :: mask, m :: ms, s, hlen, hs, hdrop => by
    have hlen' : mask.length = ms.length := by simpa using hlen
    have hm : m ∈ dropped (false :: mask) (m :: ms) := List.mem_cons_self
    have htail : ∀ n ∈ dropped mask ms, D n := fun n hn => hdrop n (List.mem_cons_of_mem _ hn)
    obtain ⟨r, hr⟩ := hD m s hs (hdrop m hm)
    -- The deleted message leaves the state, and the mask deletes its reply.
    rw [select, run_cons_ok hr, run_select hok hD mask ms s hlen' hs htail]
    rfl

end Run

end Machine
