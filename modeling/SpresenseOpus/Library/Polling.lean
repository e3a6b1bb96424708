import Mathlib.Order.Filter.AtTopBot.Basic
import Mathlib.Tactic.Push

/-!
# Polling until zero

A loop that polls a device until the poll returns zero. A poll hands on some of what is pending and
returns how much, or returns zero when nothing is pending, or fails with a negative value, which the
loop does not tell from a count (`Contract`). Counts use up what is pending, so that only finitely
many of them occur. What can keep the loop going are errors, and `Contract.ends_iff` says that it
ends unless every poll fails from some point on.
-/

namespace Polling

open Filter

variable {S : Type} (poll : S → ℤ × S)

/-- The state after `n` polls. -/
def after : ℕ → S → S
  | 0, s => s
  | n + 1, s => after n (poll s).2

/-- The value that the poll returns after `n` others. -/
def value (n : ℕ) (s : S) : ℤ := (poll (after poll n s)).1

/-- The loop that polls until zero, for at most `fuel` polls. -/
def loop : (fuel : ℕ) → S → Option S
  | 0, _ => none
  | fuel + 1, s => if (poll s).1 = 0 then some (poll s).2 else loop fuel (poll s).2

/-- No polls leave the state as it was. -/
@[simp] theorem after_zero (s : S) : after poll 0 s = s := rfl

/-- The state after a poll and `n` more. -/
@[simp] theorem after_succ (n : ℕ) (s : S) : after poll (n + 1) s = after poll n (poll s).2 := rfl

/-- The polls after the first `m` are those from the state that these leave. -/
theorem after_add (n : ℕ) : ∀ (m : ℕ) (s : S), after poll (m + n) s = after poll n (after poll m s)
  | 0, s => by rw [Nat.zero_add, after_zero]
  | m + 1, s => by rw [Nat.succ_add, after_succ, after_succ, after_add n m]

/-- The value after `m + n` polls is the one after `n` from the state that `m` leave. -/
theorem value_add (m n : ℕ) (s : S) : value poll (m + n) s = value poll n (after poll m s) := by
  unfold value
  rw [after_add]

/-- The first poll that returns zero leaves the state `s'`. -/
def StopsAt (s s' : S) : Prop :=
  ∃ n, value poll n s = 0 ∧ (∀ m < n, value poll m s ≠ 0) ∧ after poll (n + 1) s = s'

/-- The loop leaves the state after the first poll that returns zero. -/
theorem loop_eq_some : ∀ {fuel : ℕ} {s s' : S}, loop poll fuel s = some s' ↔
    ∃ n < fuel, value poll n s = 0 ∧ (∀ m < n, value poll m s ≠ 0) ∧ after poll (n + 1) s = s'
  | 0, s, s' => by simp [loop]
  | fuel + 1, s, s' => by
    unfold loop
    by_cases hzero : (poll s).1 = 0
    · rw [if_pos hzero, Option.some_inj]
      constructor
      · rintro rfl
        exact ⟨0, Nat.succ_pos _, hzero, fun m hm => absurd hm (Nat.not_lt_zero m), rfl⟩
      · rintro ⟨n, -, -, hfirst, rfl⟩
        cases n with
        | zero => rfl
        | succ n => exact absurd hzero (hfirst 0 (Nat.succ_pos n))
    · rw [if_neg hzero, loop_eq_some]
      constructor
      · rintro ⟨n, hn, hval, hfirst, hs'⟩
        refine ⟨n + 1, Nat.succ_lt_succ hn, hval, fun m hm => ?_, hs'⟩
        cases m with
        | zero => exact hzero
        | succ m => exact hfirst m (Nat.lt_of_succ_lt_succ hm)
      · rintro ⟨n, hn, hval, hfirst, hs'⟩
        cases n with
        | zero => exact absurd hval hzero
        | succ n =>
          exact ⟨n, Nat.lt_of_succ_lt_succ hn, hval,
            fun m hm => hfirst (m + 1) (Nat.succ_lt_succ hm), hs'⟩

/-- Some poll returns zero, so that the loop ends. -/
def Ends (s : S) : Prop := ∃ n, value poll n s = 0

/-- From some point on every poll fails, and none before has returned zero. -/
def FailsForever (s : S) : Prop :=
  ∃ N, (∀ n < N, value poll n s ≠ 0) ∧ ∀ n, N ≤ n → value poll n s < 0

/-- A loop that ends does so for all sufficiently large numbers of polls, always in the same
state. -/
theorem Ends.loop_eventually {s : S} (h : Ends poll s) :
    ∃ s', ∀ᶠ fuel in atTop, loop poll fuel s = some s' := by
  classical
  refine ⟨after poll (Nat.find h + 1) s, eventually_atTop.mpr ⟨Nat.find h + 1, ?_⟩⟩
  intro fuel hfuel
  exact (loop_eq_some poll).mpr
    ⟨Nat.find h, hfuel, Nat.find_spec h, fun m hm => Nat.find_min h hm, rfl⟩

variable {poll} in
/-- There is one such state at most. -/
theorem StopsAt.unique {s a b : S} (ha : StopsAt poll s a) (hb : StopsAt poll s b) : a = b := by
  obtain ⟨m, hm, hmfirst, rfl⟩ := ha
  obtain ⟨n, hn, hnfirst, rfl⟩ := hb
  rcases lt_trichotomy m n with hlt | rfl | hlt
  · exact absurd hm (hnfirst m hlt)
  · rfl
  · exact absurd hn (hmfirst n hlt)

/-- The loop comes out in that state, for some number of polls. -/
theorem stopsAt_iff {s s' : S} : StopsAt poll s s' ↔ ∃ fuel, loop poll fuel s = some s' := by
  constructor
  · rintro ⟨n, hval, hfirst, hs'⟩
    exact ⟨n + 1, (loop_eq_some poll).mpr ⟨n, n.lt_succ_self, hval, hfirst, hs'⟩⟩
  · rintro ⟨fuel, hloop⟩
    obtain ⟨n, -, hval, hfirst, hs'⟩ := (loop_eq_some poll).mp hloop
    exact ⟨n, hval, hfirst, hs'⟩

variable {poll} in
/-- Where the loop stops somewhere, it ends. -/
theorem StopsAt.ends {s s' : S} (h : StopsAt poll s s') : Ends poll s := by
  obtain ⟨n, hval, -⟩ := h
  exact ⟨n, hval⟩

/-- Two devices whose related states poll the same value have the same loop, up to the relation. -/
theorem loop_of_related {T : Type} {poll : S → ℤ × S} {poll' : T → ℤ × T} {R : S → T → Prop}
    (h : ∀ s t, R s t → (poll s).1 = (poll' t).1 ∧ R (poll s).2 (poll' t).2) :
    ∀ {fuel : ℕ} {s s' : S} {t : T}, R s t → loop poll fuel s = some s' →
      ∃ t', loop poll' fuel t = some t' ∧ R s' t'
  | 0, _, _, _, _, hloop => absurd hloop (by simp [loop])
  | fuel + 1, s, s', t, hst, hloop => by
    obtain ⟨hval, hnext⟩ := h s t hst
    unfold loop at hloop ⊢
    rw [← hval]
    by_cases hzero : (poll s).1 = 0
    · rw [if_pos hzero] at hloop ⊢
      obtain rfl := Option.some.inj hloop
      exact ⟨_, rfl, hnext⟩
    · rw [if_neg hzero] at hloop ⊢
      exact loop_of_related h hnext hloop

/-! ## A device that keeps count of what is pending -/

/-- What a poll may do: return a positive count of at most `limit`, by which what is pending gets
less, return zero when nothing is pending, or return a negative error code and leave what is
pending. -/
structure Contract (limit : ℕ) (pending : S → ℕ) : Prop where
  count : ∀ s, 0 < (poll s).1 →
    (poll s).1 ≤ limit ∧ (pending (poll s).2 : ℤ) + (poll s).1 = pending s
  done : ∀ s, (poll s).1 = 0 → pending s = 0 ∧ pending (poll s).2 = 0
  fail : ∀ s, (poll s).1 < 0 → pending (poll s).2 = pending s

variable {poll} {limit : ℕ} {pending : S → ℕ}

/-- No poll makes more pending. -/
theorem Contract.pending_le (h : Contract poll limit pending) (s : S) :
    pending (poll s).2 ≤ pending s := by
  rcases lt_trichotomy (poll s).1 0 with hneg | hzero | hpos
  · exact (h.fail s hneg).le
  · rw [(h.done s hzero).2]
    exact Nat.zero_le _
  · have hcount := (h.count s hpos).2
    omega

/-- Polls never add to what is pending. -/
theorem Contract.pending_after_le (h : Contract poll limit pending) :
    ∀ (n : ℕ) (s : S), pending (after poll n s) ≤ pending s
  | 0, _ => le_rfl
  | n + 1, s => (h.pending_after_le n (poll s).2).trans (h.pending_le s)

/-- A loop that does not end fails forever: by induction on what is pending, since a count makes it
less, and after the last count only errors are left. -/
theorem Contract.failsForever (h : Contract poll limit pending) {s : S} (hs : ¬ Ends poll s) :
    FailsForever poll s := by
  induction hp : pending s using Nat.strong_induction_on generalizing s with
  | _ p ih =>
    have hne : ∀ n, value poll n s ≠ 0 := fun n hn => hs ⟨n, hn⟩
    by_cases hall : ∀ n, value poll n s < 0
    · exact ⟨0, fun n hn => absurd hn (Nat.not_lt_zero n), fun n _ => hall n⟩
    · push Not at hall
      obtain ⟨k, hk⟩ := hall
      have hpos : 0 < value poll k s := lt_of_le_of_ne hk (hne k).symm
      -- After the count of this poll less is pending.
      have hless : pending (after poll (k + 1) s) < p := by
        have hcount := (h.count (after poll k s) hpos).2
        have hle := h.pending_after_le k s
        have hstep : after poll (k + 1) s = (poll (after poll k s)).2 := after_add poll 1 k s
        change 0 < (poll (after poll k s)).1 at hpos
        rw [hstep]
        omega
      have hends : ¬ Ends poll (after poll (k + 1) s) := by
        rintro ⟨n, hn⟩
        rw [← value_add] at hn
        exact hne _ hn
      obtain ⟨N, -, hN⟩ := ih _ hless hends rfl
      refine ⟨k + 1 + N, fun n _ => hne n, fun n hn => ?_⟩
      obtain ⟨m, rfl⟩ := Nat.exists_eq_add_of_le hn
      rw [Nat.add_assoc, value_add]
      exact hN (N + m) (Nat.le_add_right N m)

/-- The loop ends unless, before a poll has returned zero, it has come to where every further poll
fails. -/
theorem Contract.ends_iff (h : Contract poll limit pending) (s : S) :
    Ends poll s ↔ ¬ FailsForever poll s := by
  constructor
  · rintro ⟨n, hn⟩ ⟨N, hne, hneg⟩
    rcases Nat.lt_or_ge n N with hlt | hge
    · exact hne n hlt hn
    · exact (hneg n hge).ne hn
  · intro hnot
    by_contra hends
    exact hnot (h.failsForever hends)

/-- Where the loop has ended nothing is pending. -/
theorem Contract.pending_eq_zero (h : Contract poll limit pending) {s s' : S}
    (hstops : StopsAt poll s s') : pending s' = 0 := by
  obtain ⟨n, hval, -, rfl⟩ := hstops
  have hstep : after poll (n + 1) s = (poll (after poll n s)).2 := after_add poll 1 n s
  rw [hstep]
  exact (h.done _ hval).2

end Polling
