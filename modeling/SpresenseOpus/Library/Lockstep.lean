import Mathlib.Data.List.Forall2
import SpresenseOpus.Library.Blocks
import SpresenseOpus.Library.Machine

/-!
# Programs in lockstep

Two programs in `EStateM`, each over a state of its own, are in lockstep from a pair of states when
they come to the same end: both return, or both stop for the same reason. `Lockstep` says this of
two results, with a relation between what the programs leave when they return and another one for
when they stop.

Sequences of programs in lockstep are in lockstep (`Lockstep.bind`). The rule for loops puts a loop
over the blocks of a file against a machine that takes one message for each block
(`lockstep_forEachBlock`); the relation is indexed by the blocks that are still to come.
-/

namespace Machine

open Blocks

variable {S T H A B C D : Type}

/-- Two programs have come to the same end: both have returned, and `R` holds of their values and
states, or both have stopped for the same reason, and `Q` holds of their states. -/
inductive Lockstep (R : A → B → S → T → Prop) (Q : S → T → Prop) :
    EStateM.Result H S A → EStateM.Result H T B → Prop
  | ok {a : A} {b : B} {s : S} {t : T} : R a b s t → Lockstep R Q (.ok a s) (.ok b t)
  | error {e : H} {s : S} {t : T} : Q s t → Lockstep R Q (.error e s) (.error e t)

section Rules

variable {R : A → B → S → T → Prop} {Q : S → T → Prop}

/-- What holds of the states at either end holds of the states that are left. -/
theorem Lockstep.stateAfter {P : S → T → Prop} {x : EStateM.Result H S A}
    {y : EStateM.Result H T B} (h : Lockstep R Q x y) (hok : ∀ a b s t, R a b s t → P s t)
    (herr : ∀ s t, Q s t → P s t) : P (stateAfter x) (stateAfter y) := by
  cases h with
  | ok hR => exact hok _ _ _ _ hR
  | error hQ => exact herr _ _ hQ

/-- One program returns if and only if the other one does. -/
theorem Lockstep.ok_iff {x : EStateM.Result H S A} {y : EStateM.Result H T B}
    (h : Lockstep R Q x y) : (∃ a s, x = .ok a s) ↔ ∃ b t, y = .ok b t := by
  cases h with
  | ok hR => exact iff_of_true ⟨_, _, rfl⟩ ⟨_, _, rfl⟩
  | error hQ =>
    constructor
    · rintro ⟨_, _, hx⟩
      exact absurd hx (by simp)
    · rintro ⟨_, _, hy⟩
      exact absurd hy (by simp)

/-- Programs in lockstep go on with programs in lockstep. -/
theorem Lockstep.bind {R' : C → D → S → T → Prop} {x : EStateM H S A} {y : EStateM H T B}
    {f : A → EStateM H S C} {g : B → EStateM H T D} {s : S} {t : T}
    (h : Lockstep R Q (x.run s) (y.run t))
    (hfg : ∀ a b s t, R a b s t → Lockstep R' Q ((f a).run s) ((g b).run t)) :
    Lockstep R' Q ((Bind.bind x f).run s) ((Bind.bind y g).run t) := by
  rw [EStateM.run_bind, EStateM.run_bind]
  generalize x.run s = r at h
  generalize y.run t = r' at h
  cases h with
  | ok hR => exact hfg _ _ _ _ hR
  | error hQ => exact .error hQ

end Rules

/-! ## The run of a machine as a program -/

variable {M Rep α : Type}

/-- The program that takes one message after another. -/
def takeAll (step : M → EStateM H T Rep) : List M → EStateM H T Unit
  | [] => pure ()
  | m :: ms => do
    let _ ← step m
    takeAll step ms

/-- The program that takes messages ends as their run does. -/
theorem takeAll_run (step : M → EStateM H T Rep) : ∀ (ms : List M) (t : T),
    (takeAll step ms).run t =
      match (run step ms t).halt with
      | none => .ok () (run step ms t).state
      | some e => .error e (run step ms t).state
  | [], t => rfl
  | m :: ms, t => by
    rw [takeAll, EStateM.run_bind]
    cases hm : (step m).run t with
    | ok r t' =>
      rw [run_cons_ok hm]
      exact takeAll_run step ms t'
    | error e t' => rw [run_cons_error hm]

/-- The program leaves the state of the run. -/
theorem stateAfter_takeAll (step : M → EStateM H T Rep) (ms : List M) (t : T) :
    stateAfter ((takeAll step ms).run t) = (run step ms t).state := by
  rw [takeAll_run]
  cases (run step ms t).halt <;> rfl

/-- The program returns if and only if the run does not stop. -/
theorem takeAll_ok_iff (step : M → EStateM H T Rep) (ms : List M) (t : T) :
    (∃ u t', (takeAll step ms).run t = .ok u t') ↔ (run step ms t).halt = none := by
  rw [takeAll_run]
  cases (run step ms t).halt with
  | none => exact iff_of_true ⟨(), _, rfl⟩ rfl
  | some e =>
    constructor
    · rintro ⟨_, _, hend⟩
      exact absurd hend (by simp)
    · intro hnone
      exact absurd hnone (by simp)

/-- Messages are taken in two parts. -/
theorem takeAll_append (step : M → EStateM H T Rep) (ns : List M) : ∀ ms : List M,
    takeAll step (ms ++ ns) = do
      takeAll step ms
      takeAll step ns
  | [] => rfl
  | m :: ms => by
    rw [List.cons_append, takeAll, takeAll, takeAll_append step ns ms, bind_assoc]

/-- A loop over the blocks of a file is in lockstep with a machine that takes a message for each of
them. `R` is indexed by the blocks that are still to come. -/
theorem lockstep_forEachBlock {stop : H} {n reads : ℕ} {body : List α → EStateM H S Unit}
    {step : M → EStateM H T Rep} {P : List α → M → Prop} {R : List (List α) → S → T → Prop}
    {Q : S → T → Prop} (hn : 0 < n)
    (hstep : ∀ f fs m s t, f.length = n → P f m → R (f :: fs) s t →
      Lockstep (fun _ _ => R fs) Q ((body f).run s) ((step m).run t)) {fs : List (List α)}
    {ms : List M} (hP : List.Forall₂ P fs ms) (hlen : ∀ f ∈ fs, f.length = n)
    (hreads : fs.length < reads) {s : S} {t : T} (h : R fs s t) :
    Lockstep (fun _ _ => R []) Q ((forEachBlock stop n body reads fs.flatten).run s)
      ((takeAll step ms).run t) := by
  induction hP generalizing reads s t with
  | nil =>
    -- The first read comes back short, and there is no message.
    obtain ⟨r, rfl⟩ := Nat.exists_eq_add_of_le' (Nat.one_le_of_lt hreads)
    have hne : ¬ (([] : List (List α)).flatten.take n).length = n := by
      simp only [List.flatten_nil, List.take_nil, List.length_nil]
      omega
    unfold forEachBlock
    rw [if_neg hne]
    exact .ok h
  | @cons f m fs ms hfm _ ih =>
    obtain ⟨r, rfl⟩ := Nat.exists_eq_add_of_le' (Nat.one_le_of_lt hreads)
    have hf : f.length = n := hlen f List.mem_cons_self
    have htake : (f :: fs).flatten.take n = f := by
      rw [List.flatten_cons, ← hf, List.take_left]
    have hdrop : (f :: fs).flatten.drop n = fs.flatten := by
      rw [List.flatten_cons, ← hf, List.drop_left]
    unfold forEachBlock
    rw [htake, hdrop, if_pos hf, takeAll]
    refine (hstep f fs m s t hf hfm h).bind fun _ _ s' t' h' => ?_
    refine ih (fun g hg => hlen g (List.mem_cons_of_mem _ hg)) ?_ h'
    rw [List.length_cons] at hreads
    omega

end Machine
