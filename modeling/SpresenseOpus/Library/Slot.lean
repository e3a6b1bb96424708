import Mathlib.Data.List.GetD
import Mathlib.Data.List.Infix
import SpresenseOpus.Library.Reads

/-!
# A slot that a stream is read into

A writer reads a stream in pieces of at most `N` elements, each to the front of one slot. For a full
piece it leaves a notice; a piece that is short, or that the writer rejects, stays in the slot
without one. A reader takes a notice and with it the first `N` elements of the slot as it is by
then. Neither waits for the other, and a schedule says in which order they take their turns.

Where the pieces come from, and what the slot is a mixture of, is a matter of the schedule alone:
the `Ledger` keeps it, and `follows_run` says that it tells the truth about every stream. So there
are two conditions on schedules that are exact. What is taken are the first pieces that were kept,
whatever the stream is, if and only if the reader never finds more than one notice and never a slot
that was read into since (`taken_prefix_iff_untorn`). And what is taken is the stream itself if and
only if the reader never finds more than one notice and never that something was dropped
(`taken_flatten_prefix_iff_gapless`).
-/

namespace Slot

open Reads (segment length_segment getElem?_segment segment_prefix_of_le pieces
  pieces_succ flatten_pieces)

/-- One turn. -/
inductive Turn where
  /-- The writer reads `n` elements, and rejects them or not. -/
  | read (n : ℕ) (rejected : Bool)
  /-- The reader looks for a notice. -/
  | take
  deriving DecidableEq, Repr

/-! ## What happens to a stream -/

/-- Where the next piece begins, the slot, the notices that are left, and everything that was kept
and taken. -/
structure State (α : Type) where
  position : ℕ := 0
  slot : List α := []
  notices : ℕ := 0
  kept : List (List α) := []
  taken : List (List α) := []

section Stream

variable {α : Type} (N : ℕ) (f : ℕ → α)

/-- The writer's turn. -/
def State.read (n : ℕ) (rejected : Bool) (s : State α) : State α :=
  let piece := segment f s.position n
  let s := { s with position := s.position + n, slot := piece ++ s.slot.drop n }
  if n = N ∧ rejected = false then
    { s with notices := s.notices + 1, kept := s.kept ++ [piece] }
  else s

/-- The reader's turn. -/
def State.take (s : State α) : State α :=
  if s.notices = 0 then s
  else { s with notices := s.notices - 1, taken := s.taken ++ [s.slot.take N] }

/-- One turn. -/
def step (s : State α) : Turn → State α
  | .read n rejected => s.read N f n rejected
  | .take => s.take N

/-- The state after the turns of a schedule. -/
def run (schedule : List Turn) : State α := schedule.foldl (step N f) {}

/-- The last turn of a run is the writer's. -/
theorem run_read (schedule : List Turn) (n : ℕ) (rejected : Bool) :
    run N f (schedule ++ [.read n rejected]) = (run N f schedule).read N f n rejected :=
  List.foldl_concat ..

/-- The last turn of a run is the reader's. -/
theorem run_take (schedule : List Turn) :
    run N f (schedule ++ [.take]) = (run N f schedule).take N :=
  List.foldl_concat ..

/-- The writer takes nothing. -/
@[simp] theorem State.read_taken (n : ℕ) (rejected : Bool) (s : State α) :
    (s.read N f n rejected).taken = s.taken := by
  unfold State.read
  split_ifs <;> rfl

/-- What is kept stays kept. -/
theorem State.kept_prefix_read (n : ℕ) (rejected : Bool) (s : State α) :
    s.kept <+: (s.read N f n rejected).kept := by
  unfold State.read
  split_ifs
  · exact List.prefix_append ..
  · exact List.prefix_rfl

/-- The reader keeps nothing. -/
@[simp] theorem State.take_kept (s : State α) : (s.take N).kept = s.kept := by
  unfold State.take
  split_ifs <;> rfl

/-- Without a notice the reader's turn passes. -/
theorem State.take_of_none {s : State α} (h : s.notices = 0) : s.take N = s := if_pos h

/-- With a notice the reader takes the front of the slot. -/
theorem State.take_taken {s : State α} (h : s.notices ≠ 0) :
    (s.take N).taken = s.taken ++ [s.slot.take N] := by
  rw [State.take, if_neg h]

/-- What is taken stays taken. -/
theorem taken_prefix_append (pre post : List Turn) :
    (run N f pre).taken <+: (run N f (pre ++ post)).taken := by
  induction post using List.reverseRecOn with
  | nil => rw [List.append_nil]
  | append_singleton post turn ih =>
    rw [← List.append_assoc]
    refine ih.trans ?_
    cases turn with
    | read n rejected => rw [run_read, State.read_taken]
    | take =>
      rw [run_take]
      by_cases hnone : (run N f (pre ++ post)).notices = 0
      · rw [State.take_of_none N hnone]
      · rw [State.take_taken N hnone]
        exact List.prefix_append ..

end Stream

/-! ## What the schedule decides -/

/-- What a schedule decides. -/
structure Ledger where
  /-- Where the next piece begins. -/
  position : ℕ := 0
  /-- Where the last piece began that was not empty. -/
  last : ℕ := 0
  /-- That piece was kept. -/
  whole : Bool := false
  /-- The notices that are left. -/
  notices : ℕ := 0
  /-- Where the pieces began that were kept. -/
  starts : List ℕ := []
  deriving DecidableEq, Repr

variable (N : ℕ)

/-- What a turn of the writer decides. -/
def Ledger.read (n : ℕ) (rejected : Bool) (l : Ledger) : Ledger :=
  if n = 0 then l
  else if n = N ∧ rejected = false then
    { position := l.position + n, last := l.position, whole := true, notices := l.notices + 1
      starts := l.starts ++ [l.position] }
  else { l with position := l.position + n, last := l.position, whole := false }

/-- What one turn decides. -/
def Ledger.step (l : Ledger) : Turn → Ledger
  | .read n rejected => l.read N n rejected
  | .take => { l with notices := l.notices - 1 }

/-- The ledger of a schedule. -/
def ledger (schedule : List Turn) : Ledger := schedule.foldl (Ledger.step N) {}

/-- One more turn decides what it decides after the ledger so far. -/
theorem ledger_concat (schedule : List Turn) (turn : Turn) :
    ledger N (schedule ++ [turn]) = (ledger N schedule).step N turn :=
  List.foldl_concat ..

/-- The pieces that the reader has still to take into account: those kept, and a last one that was
not. -/
def Ledger.places (l : Ledger) : List ℕ := if l.whole then l.starts else l.starts ++ [l.last]

/-- What holds of every ledger: the places are in their order and end at the last one, no piece kept
begins behind the others, and they take up their room. -/
structure Ordered (l : Ledger) : Prop where
  sorted : l.places.Pairwise (· < ·)
  last : l.places.getLast? = some l.last
  before : ∀ s ∈ l.starts, s < l.position
  room : N * l.starts.length ≤ l.last + if l.whole then N else 0
  full : l.whole = true → l.position = l.last + N
  rest : l.whole = false → l.starts ≠ [] → l.last < l.position
  notices : l.notices ≤ l.starts.length

variable {N}

/-- The pieces kept take up their room in what was read. -/
theorem Ordered.room_le {l : Ledger} (h : Ordered N l) : N * l.starts.length ≤ l.position := by
  have hroom := h.room
  cases hwhole : l.whole with
  | true =>
    have hfull := h.full hwhole
    rw [hwhole] at hroom
    simp only [if_true] at hroom
    omega
  | false =>
    by_cases hnil : l.starts = []
    · rw [hnil]
      exact Nat.zero_le _
    · have hrest := h.rest hwhole hnil
      rw [hwhole] at hroom
      simp only [Bool.false_eq_true, if_false] at hroom
      omega

/-- What a nonempty piece leaves. -/
theorem ordered_read (hN : 0 < N) {l : Ledger} (h : Ordered N l) {n : ℕ} (hn : n ≠ 0)
    (rejected : Bool) : Ordered N (l.read N n rejected) := by
  have hsorted : (l.starts ++ [l.position]).Pairwise (· < ·) := by
    refine List.pairwise_append.mpr ⟨?_, List.pairwise_singleton .., fun s hs t ht => ?_⟩
    · have hplaces := h.sorted
      unfold Ledger.places at hplaces
      split_ifs at hplaces
      · exact hplaces
      · exact hplaces.sublist (List.sublist_append_left ..)
    · rw [List.mem_singleton.mp ht]
      exact h.before s hs
  have hroom := h.room_le
  unfold Ledger.read
  rw [if_neg hn]
  split_ifs with hkept
  · obtain ⟨rfl, -⟩ := hkept
    refine ⟨hsorted, List.getLast?_concat .., ?_, ?_, fun _ => rfl, fun h => absurd h (by simp), ?_⟩
    · intro s hs
      show s < l.position + n
      rcases List.mem_append.mp hs with hold | hnew
      · have hlt := h.before s hold
        omega
      · rw [List.mem_singleton.mp hnew]
        omega
    · show n * (l.starts ++ [l.position]).length ≤ l.position + n
      rw [List.length_append, List.length_singleton, Nat.mul_add, Nat.mul_one]
      omega
    · show l.notices + 1 ≤ (l.starts ++ [l.position]).length
      have hnotices := h.notices
      rw [List.length_append, List.length_singleton]
      omega
  · refine ⟨hsorted, List.getLast?_concat .., ?_, hroom, fun h => absurd h (by simp), ?_, h.notices⟩
    · intro s hs
      have hlt := h.before s hs
      show s < l.position + n
      omega
    · intro _ _
      show l.position < l.position + n
      omega

/-- A turn keeps the ledger in order. -/
theorem ordered_step (hN : 0 < N) {l : Ledger} (h : Ordered N l) (turn : Turn) :
    Ordered N (l.step N turn) := by
  cases turn with
  | read n rejected =>
    show Ordered N (l.read N n rejected)
    by_cases hn : n = 0
    · unfold Ledger.read
      rw [if_pos hn]
      exact h
    · exact ordered_read hN h hn rejected
  | take =>
    have hnotices := h.notices
    exact ⟨h.sorted, h.last, h.before, h.room, h.full, h.rest, by simp only [Ledger.step]; omega⟩

/-- The ledger of every schedule is in order. -/
theorem ordered_ledger (hN : 0 < N) (schedule : List Turn) : Ordered N (ledger N schedule) := by
  induction schedule using List.reverseRecOn with
  | nil => constructor <;> simp [ledger, Ledger.places]
  | append_singleton schedule turn ih =>
    rw [ledger_concat]
    exact ordered_step hN ih turn

/-- A piece kept begins in front of the last place if others come between. -/
theorem Ordered.lt_last {l : Ledger} (h : Ordered N l) {k s : ℕ} (hs : l.starts[k]? = some s)
    (hk : k + 1 < l.places.length) : s < l.last := by
  have hplace : l.places[k]? = some s := by
    unfold Ledger.places
    split_ifs
    · exact hs
    · rw [List.getElem?_append_left (List.getElem?_eq_some_iff.mp hs).1, hs]
  have hlast := h.last
  rw [List.getLast?_eq_getElem?] at hlast
  obtain ⟨hlt, hplace⟩ := List.getElem?_eq_some_iff.mp hplace
  obtain ⟨hlt', hlast⟩ := List.getElem?_eq_some_iff.mp hlast
  rw [← hplace, ← hlast]
  exact List.pairwise_iff_getElem.mp h.sorted k (l.places.length - 1) hlt hlt' (by omega)

/-! ## The ledger tells the truth -/

section Follows

variable {α : Type} (f : ℕ → α)

variable (N) in
/-- What the ledger says about a state. -/
structure Follows (l : Ledger) (s : State α) : Prop where
  position : s.position = l.position
  notices : s.notices = l.notices
  kept : s.kept = l.starts.map fun start => segment f start N
  /-- The slot begins with the last piece, and is nothing else if that was kept. -/
  front : l.starts ≠ [] → s.slot[0]? = some (f l.last)
  content : l.whole = true → s.slot.take N = segment f l.last N
  room : l.starts ≠ [] → N ≤ s.slot.length
  taken : ∀ t ∈ s.taken, t.length = N
  balance : s.taken.length + l.notices = l.starts.length

variable {f}

/-- A turn of the writer. -/
theorem follows_read (hN : 0 < N) {l : Ledger} {s : State α} (h : Follows N f l s) (n : ℕ)
    (rejected : Bool) :
    Follows N f (l.read N n rejected) (s.read N f n rejected) := by
  obtain rfl | hn := Nat.eq_zero_or_pos n
  · -- An empty piece changes nothing.
    have hpiece : segment f s.position 0 = [] := rfl
    simp only [Ledger.read, State.read, if_true, hpiece, List.nil_append, List.drop_zero,
      Nat.add_zero, if_neg (fun hzero : 0 = N ∧ rejected = false => hN.ne hzero.1)]
    exact h
  · have hfront : (segment f s.position n ++ s.slot.drop n)[0]? = some (f l.position) := by
      rw [List.getElem?_append_left (by rw [length_segment]; exact hn), getElem?_segment f _ hn,
        h.position, Nat.add_zero]
    unfold Ledger.read State.read
    simp only [if_neg hn.ne']
    split_ifs with hkept
    · obtain ⟨rfl, -⟩ := hkept
      refine ⟨congrArg (· + n) h.position, congrArg (· + 1) h.notices, ?_, fun _ => hfront,
        fun _ => ?_, fun _ => ?_, h.taken, ?_⟩
      · show s.kept ++ [segment f s.position n] = _
        rw [h.kept, h.position, List.map_append, List.map_singleton]
      · show (segment f s.position n ++ s.slot.drop n).take n = segment f l.position n
        rw [List.take_left' (length_segment ..), h.position]
      · show n ≤ (segment f s.position n ++ s.slot.drop n).length
        rw [List.length_append, length_segment]
        omega
      · show s.taken.length + (l.notices + 1) = (l.starts ++ [l.position]).length
        have hbalance := h.balance
        rw [List.length_append, List.length_singleton]
        omega
    · refine ⟨congrArg (· + n) h.position, h.notices, h.kept, fun _ => hfront,
        fun hwhole => absurd hwhole (by simp), fun hne => ?_, h.taken, h.balance⟩
      show N ≤ (segment f s.position n ++ s.slot.drop n).length
      have hroom := h.room hne
      rw [List.length_append, length_segment, List.length_drop]
      omega

/-- A turn of the reader. -/
theorem follows_take {l : Ledger} {s : State α} (h : Follows N f l s) :
    Follows N f (l.step N .take) (s.take N) := by
  have hnotices := h.notices
  have hbalance := h.balance
  unfold State.take
  split_ifs with hnone
  · refine ⟨h.position, ?_, h.kept, h.front, h.content, h.room, h.taken, ?_⟩
    · show s.notices = l.notices - 1
      omega
    · show s.taken.length + (l.notices - 1) = l.starts.length
      omega
  · have hne : l.starts ≠ [] := by
      rw [← List.length_pos_iff]
      omega
    refine ⟨h.position, congrArg (· - 1) hnotices, h.kept, h.front, h.content, h.room, ?_, ?_⟩
    · intro t ht
      rcases List.mem_append.mp ht with hold | hnew
      · exact h.taken t hold
      · have hroom := h.room hne
        rw [List.mem_singleton.mp hnew, List.length_take]
        omega
    · show (s.taken ++ [s.slot.take N]).length + (l.notices - 1) = l.starts.length
      rw [List.length_append, List.length_singleton]
      omega

/-- The ledger of a schedule tells the truth about every stream. -/
theorem follows_run (hN : 0 < N) (f : ℕ → α) (schedule : List Turn) :
    Follows N f (ledger N schedule) (run N f schedule) := by
  induction schedule using List.reverseRecOn with
  | nil => constructor <;> simp [ledger, run]
  | append_singleton schedule turn ih =>
    rw [ledger_concat]
    cases turn with
    | read n rejected =>
      rw [run_read]
      exact follows_read hN ih n rejected
    | take =>
      rw [run_take]
      exact follows_take ih

/-- What is taken when a notice is left begins with the last piece. -/
theorem taken_take (hN : 0 < N) (f : ℕ → α) {pre : List Turn} (hne : (ledger N pre).notices ≠ 0) :
    (run N f (pre ++ [.take])).taken = (run N f pre).taken ++ [(run N f pre).slot.take N] ∧
      ((run N f pre).slot.take N)[0]? = some (f (ledger N pre).last) := by
  have h := follows_run hN f pre
  have hstarts : (ledger N pre).starts ≠ [] := by
    have hbalance := h.balance
    rw [← List.length_pos_iff]
    omega
  refine ⟨?_, ?_⟩
  · rw [run_take, State.take_taken N (by rw [h.notices]; exact hne)]
  · rw [List.getElem?_take_of_lt hN]
    exact h.front hstarts

end Follows

/-! ## Which schedules keep the pieces -/

variable (N) in
/-- A condition on the ledger holds whenever the reader finds a notice. -/
def AtTakes (C : Ledger → Prop) (schedule : List Turn) : Prop :=
  ∀ pre post, schedule = pre ++ .take :: post → (ledger N pre).notices ≠ 0 → C (ledger N pre)

/-- It holds in the first part of a schedule. -/
theorem AtTakes.of_append {C : Ledger → Prop} {pre post : List Turn}
    (h : AtTakes N C (pre ++ post)) : AtTakes N C pre := by
  intro pre' post' hsplit
  exact h pre' (post' ++ post) (by rw [hsplit, List.append_assoc, List.cons_append])

/-- The condition, turn by turn. -/
theorem atTakes_iff {C : Ledger → Prop} {schedule : List Turn} : AtTakes N C schedule ↔
    ∀ i < schedule.length, schedule[i]? = some .take → (ledger N (schedule.take i)).notices ≠ 0 →
      C (ledger N (schedule.take i)) := by
  constructor
  · intro h i hi htake
    obtain ⟨hlt, hat⟩ := List.getElem?_eq_some_iff.mp htake
    exact h _ (schedule.drop (i + 1)) (by
      rw [← hat, ← List.drop_eq_getElem_cons, List.take_append_drop])
  · rintro h pre post rfl
    have hi := h pre.length
    simpa using hi

instance (C : Ledger → Prop) [DecidablePred C] (schedule : List Turn) :
    Decidable (AtTakes N C schedule) :=
  decidable_of_iff _ atTakes_iff.symm

variable (N) in
/-- Whenever the reader finds a notice, it is the only one, and the last piece that was not empty
was kept. -/
def Untorn (schedule : List Turn) : Prop :=
  AtTakes N (fun l => l.notices = 1 ∧ l.whole = true) schedule

variable (N) in
/-- Whenever the reader finds a notice, it is the only one, and nothing was dropped. -/
def Gapless (schedule : List Turn) : Prop :=
  AtTakes N (fun l => l.notices = 1 ∧ l.position = N * l.starts.length) schedule

instance (schedule : List Turn) : Decidable (Untorn N schedule) :=
  inferInstanceAs (Decidable (AtTakes _ _ _))

instance (schedule : List Turn) : Decidable (Gapless N schedule) :=
  inferInstanceAs (Decidable (AtTakes _ _ _))

/-- The pieces kept stay where they are. -/
theorem starts_prefix_append (pre post : List Turn) :
    (ledger N pre).starts <+: (ledger N (pre ++ post)).starts := by
  induction post using List.reverseRecOn with
  | nil => rw [List.append_nil]
  | append_singleton post turn ih =>
    rw [← List.append_assoc, ledger_concat]
    refine ih.trans ?_
    cases turn with
    | read n rejected =>
      show _ <+: ((ledger N (pre ++ post)).read N n rejected).starts
      unfold Ledger.read
      split_ifs
      · exact List.prefix_rfl
      · exact List.prefix_append ..
      · exact List.prefix_rfl
    | take => exact List.prefix_rfl

section Conditions

variable {α : Type}

/-- A place is told from every other by a stream. -/
theorem eq_of_forall_stream [Nontrivial α] {m n : ℕ} (h : ∀ f : ℕ → α, f m = f n) : m = n := by
  by_contra hne
  obtain ⟨a, b, hab⟩ := exists_pair_ne α
  have heq := h fun i => if i = n then a else b
  simp only [if_neg hne, if_true] at heq
  exact hab heq.symm

/-- If what is taken are the first pieces kept, whatever the stream is, then the reader finds each
of them alone and whole. -/
theorem untorn_of_prefix_taken [Nontrivial α] (hN : 0 < N) {schedule : List Turn}
    (h : ∀ f : ℕ → α, (run N f schedule).taken <+: (run N f schedule).kept) :
    Untorn N schedule := by
  intro pre post hsplit hne
  have hordered := ordered_ledger hN pre
  have hnotices := hordered.notices
  -- The piece that this turn should take.
  obtain ⟨s, hs⟩ : ∃ s,
      (ledger N pre).starts[(ledger N pre).starts.length - (ledger N pre).notices]? = some s :=
    ⟨_, List.getElem?_eq_getElem (by omega)⟩
  have hlast : s = (ledger N pre).last := by
    refine eq_of_forall_stream (α := α) fun f => ?_
    have hfollows := follows_run hN f pre
    have hbalance := hfollows.balance
    obtain ⟨htaken, hfirst⟩ := taken_take hN f hne
    -- It is in its place among the pieces taken, and therefore among those kept.
    have hpre : (run N f pre).taken ++ [(run N f pre).slot.take N] <+: (run N f schedule).kept := by
      have happend := taken_prefix_append N f (pre ++ [.take]) post
      rw [List.append_assoc, List.singleton_append, ← hsplit, htaken] at happend
      exact happend.trans (h f)
    have hkept : (run N f schedule).kept[(run N f pre).taken.length]? =
        some ((run N f pre).slot.take N) := by
      obtain ⟨rest, hrest⟩ := hpre
      rw [← hrest, List.getElem?_append_left (by simp), List.getElem?_concat_length]
    obtain ⟨rest, hrest⟩ := starts_prefix_append pre (.take :: post) (N := N)
    rw [← hsplit] at hrest
    have hk : (run N f pre).taken.length =
        (ledger N pre).starts.length - (ledger N pre).notices := by omega
    rw [(follows_run hN f schedule).kept, ← hrest, hk, List.map_append,
      List.getElem?_append_left (by rw [List.length_map]; omega), List.getElem?_map, hs,
      Option.map_some, Option.some_inj] at hkept
    rw [← hkept, getElem?_segment f s hN, Option.some_inj] at hfirst
    exact hfirst
  have hplaces : ¬ (ledger N pre).starts.length - (ledger N pre).notices + 1 <
      (ledger N pre).places.length := by
    intro hlt
    exact absurd (hordered.lt_last hs hlt) (by rw [hlast]; exact Nat.lt_irrefl _)
  unfold Ledger.places at hplaces
  split_ifs at hplaces with hwhole
  · exact ⟨by omega, hwhole⟩
  · rw [List.length_append, List.length_singleton] at hplaces
    omega

/-- When a notice is found alone and whole, what is taken is the piece kept last. -/
theorem taken_prefix_of_untorn (hN : 0 < N) (f : ℕ → α) {schedule : List Turn}
    (h : Untorn N schedule) : (run N f schedule).taken <+: (run N f schedule).kept := by
  induction schedule using List.reverseRecOn with
  | nil => exact List.prefix_rfl
  | append_singleton schedule turn ih =>
    have hpre := ih h.of_append
    cases turn with
    | read n rejected =>
      rw [run_read, State.read_taken]
      exact hpre.trans (State.kept_prefix_read N f n rejected _)
    | take =>
      have hfollows := follows_run hN f schedule
      by_cases hnone : (ledger N schedule).notices = 0
      · rw [run_take, State.take_of_none N (hfollows.notices.trans hnone)]
        exact hpre
      · obtain ⟨hone, hwhole⟩ := h schedule [] rfl hnone
        rw [(taken_take hN f hnone).1, run_take, State.take_kept, hfollows.content hwhole]
        -- All pieces kept but the last one are taken, and the last one is whole.
        have hbalance := hfollows.balance
        have hlast := (ordered_ledger hN schedule).last
        unfold Ledger.places at hlast
        rw [if_pos hwhole] at hlast
        obtain ⟨rest, hrest⟩ := hpre
        have hlen := congrArg List.length (hrest.trans hfollows.kept)
        rw [List.length_append, List.length_map] at hlen
        obtain ⟨x, rfl⟩ : ∃ x, rest = [x] := List.length_eq_one_iff.mp (by omega)
        have hx := congrArg List.getLast? (hrest.trans hfollows.kept)
        rw [List.getLast?_concat, List.getLast?_map, hlast, Option.map_some, Option.some_inj] at hx
        rw [← hrest, hx]

/-- What is taken are the first pieces that were kept, whatever the stream is, if and only if the
reader finds each notice alone and the slot whole. -/
theorem taken_prefix_iff_untorn [Nontrivial α] (hN : 0 < N) (schedule : List Turn) :
    (∀ f : ℕ → α, (run N f schedule).taken <+: (run N f schedule).kept) ↔ Untorn N schedule :=
  ⟨untorn_of_prefix_taken hN, fun h f => taken_prefix_of_untorn hN f h⟩

/-- What is taken ends where it should. -/
theorem length_flatten_taken (hN : 0 < N) (f : ℕ → α) (schedule : List Turn) :
    (run N f schedule).taken.flatten.length = N * (run N f schedule).taken.length := by
  have htaken := (follows_run hN f schedule).taken
  generalize (run N f schedule).taken = l at htaken ⊢
  induction l with
  | nil => rfl
  | cons t l ih =>
    rw [List.flatten_cons, List.length_append, htaken t List.mem_cons_self,
      ih fun u hu => htaken u (List.mem_cons_of_mem t hu), List.length_cons, Nat.mul_add,
      Nat.mul_one, Nat.add_comm]

/-- If what is taken is the stream, whatever it is, then the reader finds each notice alone and
nothing dropped. -/
theorem gapless_of_prefix_taken [Nontrivial α] (hN : 0 < N) {schedule : List Turn}
    (h : ∀ f : ℕ → α, (run N f schedule).taken.flatten <+:
      segment f 0 (run N f schedule).position) : Gapless N schedule := by
  intro pre post hsplit hne
  have hordered := ordered_ledger hN pre
  have hnotices := hordered.notices
  have hlast : N * ((ledger N pre).starts.length - (ledger N pre).notices) =
      (ledger N pre).last := by
    refine eq_of_forall_stream (α := α) fun f => ?_
    have hbalance := (follows_run hN f pre).balance
    obtain ⟨htaken, hfirst⟩ := taken_take hN f hne
    have hk : (run N f pre).taken.length =
        (ledger N pre).starts.length - (ledger N pre).notices := by omega
    -- What this turn takes stands behind the pieces that were taken before.
    have hpre : (run N f pre).taken.flatten ++ (run N f pre).slot.take N <+:
        segment f 0 (run N f schedule).position := by
      have happend := taken_prefix_append N f (pre ++ [.take]) post
      rw [List.append_assoc, List.singleton_append, ← hsplit, htaken] at happend
      obtain ⟨rest, hrest⟩ := happend
      refine List.IsPrefix.trans ⟨rest.flatten, ?_⟩ (h f)
      rw [← hrest]
      simp
    obtain ⟨rest, hrest⟩ := hpre
    have hlen := length_flatten_taken hN f pre
    rw [hk] at hlen
    have hat : (segment f 0 (run N f schedule).position)[
        N * ((ledger N pre).starts.length - (ledger N pre).notices)]? =
          some (f (ledger N pre).last) := by
      rw [← hrest, List.append_assoc, List.getElem?_append_right (by omega), hlen, Nat.sub_self,
        List.getElem?_append_left (List.getElem?_eq_some_iff.mp hfirst).1, hfirst]
    have hlt := (List.getElem?_eq_some_iff.mp hat).1
    rw [length_segment] at hlt
    rw [getElem?_segment f 0 hlt, Nat.zero_add, Option.some_inj] at hat
    exact hat
  -- Nothing has room between the pieces taken and the last one.
  have hroom := hordered.room
  have hfull := hordered.full
  have hpos : 0 < (ledger N pre).notices := Nat.pos_of_ne_zero hne
  obtain ⟨k, hk⟩ : ∃ k, (ledger N pre).starts.length = k + (ledger N pre).notices :=
    ⟨_, (Nat.sub_add_cancel hnotices).symm⟩
  rw [hk, Nat.add_sub_cancel] at hlast
  rw [hk, ← hlast, Nat.mul_add] at hroom
  cases hwhole : (ledger N pre).whole with
  | true =>
    rw [hwhole, if_pos rfl] at hroom
    have hone : (ledger N pre).notices = 1 := by
      have hle : N * (ledger N pre).notices ≤ N * 1 := by omega
      have hle := Nat.le_of_mul_le_mul_left hle hN
      omega
    refine ⟨hone, ?_⟩
    rw [hfull hwhole, hk, hone, ← hlast, Nat.mul_add, Nat.mul_one]
  | false =>
    rw [hwhole] at hroom
    simp only [Bool.false_eq_true, if_false] at hroom
    have hpositive := Nat.mul_pos hN hpos
    omega

/-- When each notice is found alone and nothing is dropped, what is taken are the pieces of the
stream, one behind another. -/
theorem taken_of_gapless (hN : 0 < N) (f : ℕ → α) {schedule : List Turn}
    (h : Gapless N schedule) :
    (run N f schedule).taken = pieces N f (run N f schedule).taken.length := by
  induction schedule using List.reverseRecOn with
  | nil => rfl
  | append_singleton schedule turn ih =>
    have hpre := ih h.of_append
    cases turn with
    | read n rejected =>
      rw [run_read, State.read_taken]
      exact hpre
    | take =>
      have hfollows := follows_run hN f schedule
      by_cases hnone : (ledger N schedule).notices = 0
      · rw [run_take, State.take_of_none N (hfollows.notices.trans hnone)]
        exact hpre
      · obtain ⟨hone, hposition⟩ := h schedule [] rfl hnone
        have hordered := ordered_ledger hN schedule
        have hbalance := hfollows.balance
        have hlen : (ledger N schedule).starts.length = (run N f schedule).taken.length + 1 := by
          omega
        have hroom := hordered.room
        rw [hlen, Nat.mul_add, Nat.mul_one] at hposition hroom
        -- The last piece was kept, and begins where the pieces taken end.
        have hwhole : (ledger N schedule).whole = true := by
          by_contra hnot
          rw [Bool.not_eq_true] at hnot
          have hne : (ledger N schedule).starts ≠ [] := by
            rw [← List.length_pos_iff]
            omega
          have hrest := hordered.rest hnot hne
          rw [hnot] at hroom
          simp only [Bool.false_eq_true, if_false] at hroom
          omega
        have hlast : (ledger N schedule).last = N * (run N f schedule).taken.length := by
          have hfull := hordered.full hwhole
          omega
        rw [(taken_take hN f hnone).1, List.length_append, List.length_singleton, pieces_succ,
          ← hpre, hfollows.content hwhole, hlast]

/-- What is taken is the stream, whatever it is, if and only if the reader finds each notice alone
and nothing dropped. -/
theorem taken_flatten_prefix_iff_gapless [Nontrivial α] (hN : 0 < N) (schedule : List Turn) :
    (∀ f : ℕ → α, (run N f schedule).taken.flatten <+:
      segment f 0 (run N f schedule).position) ↔ Gapless N schedule := by
  refine ⟨gapless_of_prefix_taken hN, fun h f => ?_⟩
  rw [taken_of_gapless hN f h, flatten_pieces]
  refine segment_prefix_of_le f 0 ?_
  -- No more is taken than was kept, and that has its room in what was read.
  have hfollows := follows_run hN f schedule
  have hroom := (ordered_ledger hN schedule).room_le
  have hle : N * (run N f schedule).taken.length ≤ N * (ledger N schedule).starts.length :=
    Nat.mul_le_mul_left N (by have hbalance := hfollows.balance; omega)
  rw [hfollows.position]
  omega

end Conditions

end Slot
