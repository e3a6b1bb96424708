import Mathlib.Order.Filter.AtTopBot.Basic
import SpresenseOpus.Library.Machine

/-!
# Reading a file in blocks of a fixed size

`block n i xs` is the `i`-th block of `n` elements of a list, counting from zero. A list has
`xs.length / n` whole blocks; what is left after them is shorter than a block.

`forEachBlock` is the loop that reads one block after another and ends at the first read that comes
back short. Its rule `forEachBlock_eventually` asks for an invariant that is counted by the blocks
read, and gives the run of the loop for all sufficiently large numbers of iterations.
-/

namespace Blocks

open Filter Machine

variable {α : Type}

/-- The `i`-th block of `n` elements of a list. -/
def block (n i : ℕ) (xs : List α) : List α := (xs.drop (n * i)).take n

/-- A block that is not past the whole ones has its full length. -/
theorem length_block {n i : ℕ} {xs : List α} (h : i < xs.length / n) :
    (block n i xs).length = n := by
  have hle : n * (i + 1) ≤ xs.length := by
    calc n * (i + 1) ≤ n * (xs.length / n) := Nat.mul_le_mul_left n h
      _ ≤ xs.length := Nat.mul_div_le _ _
  rw [Nat.mul_add, Nat.mul_one] at hle
  unfold block
  rw [List.length_take, List.length_drop]
  omega

/-- After the whole blocks less than a block is left. -/
theorem length_drop_lt {n : ℕ} (hn : 0 < n) (xs : List α) :
    (xs.drop (n * (xs.length / n))).length < n := by
  have hmod : xs.length % n < n := Nat.mod_lt _ hn
  have hsplit : n * (xs.length / n) + xs.length % n = xs.length := Nat.div_add_mod _ _
  rw [List.length_drop]
  omega

/-- Taking a block off the list after the `i`-th block leaves the list after the next one. -/
theorem drop_drop_block (n i : ℕ) (xs : List α) :
    (xs.drop (n * i)).drop n = xs.drop (n * (i + 1)) := by
  rw [List.drop_drop, Nat.mul_succ]

/-- The blocks of a list that is put together from pieces of their length are the pieces. -/
theorem block_flatten {n : ℕ} : ∀ {ls : List (List α)} {i : ℕ} {l : List α},
    (∀ x ∈ ls, x.length = n) → ls[i]? = some l → block n i ls.flatten = l
  | l :: ls, 0, _, h, rfl => by
    have hl : l.length = n := h l List.mem_cons_self
    unfold block
    rw [Nat.mul_zero, List.drop_zero, List.flatten_cons]
    exact List.take_left' hl
  | l :: ls, i + 1, x, h, hx => by
    have hl : l.length = n := h l List.mem_cons_self
    have ih := block_flatten (fun y hy => h y (List.mem_cons_of_mem _ hy))
      (show ls[i]? = some x from hx)
    unfold block at ih ⊢
    rw [List.flatten_cons, Nat.mul_succ, Nat.add_comm, ← List.drop_drop, List.drop_left' hl]
    exact ih

section Loop

variable {S H : Type}

/-- The loop over a file in reads of `n` elements: a full read goes to `body`, and the first short
one ends the loop. It stops with `stop` when it takes more reads than it is granted. -/
def forEachBlock (stop : H) (n : ℕ) (body : List α → EStateM H S Unit) :
    (fuel : ℕ) → List α → EStateM H S Unit
  | 0, _ => throw stop
  | fuel + 1, xs =>
    if (xs.take n).length = n then do
      body (xs.take n)
      forEachBlock stop n body fuel (xs.drop n)
    else pure ()

/-- From after `i` whole blocks on, the loop takes the remaining `k` ones and one short read. -/
theorem forEachBlock_from (stop : H) (body : ℕ → List α → EStateM H S Unit) {n : ℕ} {xs : List α}
    {I : ℕ → S → Prop} (hn : 0 < n)
    (hbody : ∀ i s, i < xs.length / n → I i s → ∃ s', I (i + 1) s' ∧
      ∀ᶠ fuel in atTop, (body fuel (block n i xs)).run s = .ok () s') :
    ∀ (k i : ℕ) (s : S), i + k = xs.length / n → I i s → ∃ s', I (xs.length / n) s' ∧
      ∀ᶠ fuel in atTop, ∀ reads, k < reads →
        (forEachBlock stop n (body fuel) reads (xs.drop (n * i))).run s = .ok () s'
  | 0, i, s, hi, h => by
    -- Only the short read is left, which ends the loop.
    obtain rfl : i = xs.length / n := by omega
    refine ⟨s, h, Eventually.of_forall fun fuel reads hreads => ?_⟩
    obtain ⟨r, rfl⟩ := Nat.exists_eq_add_of_le' hreads
    have hshort := length_drop_lt hn xs
    have hne : ((xs.drop (n * (xs.length / n))).take n).length ≠ n := by
      rw [List.length_take]
      omega
    unfold forEachBlock
    rw [if_neg hne]
    rfl
  | k + 1, i, s, hi, h => by
    -- The read is full: one turn of the body, and the loop over the blocks behind it.
    obtain ⟨s₁, h₁, hev₁⟩ := hbody i s (by omega) h
    obtain ⟨s', h', hev'⟩ := forEachBlock_from stop body hn hbody k (i + 1) s₁ (by omega) h₁
    refine ⟨s', h', ?_⟩
    filter_upwards [hev₁, hev'] with fuel hrun hrest reads hreads
    obtain ⟨r, rfl⟩ := Nat.exists_eq_add_of_le' (Nat.one_le_of_lt hreads)
    have hfull : ((xs.drop (n * i)).take n).length = n := length_block (by omega)
    unfold forEachBlock
    rw [if_pos hfull, EStateM.run_bind]
    unfold block at hrun
    rw [hrun, drop_drop_block]
    exact hrest r (by omega)

/-- An invariant counted by the blocks carries the loop over all whole blocks of a file, given
enough iterations. -/
theorem forEachBlock_eventually (stop : H) (body : ℕ → List α → EStateM H S Unit) {n : ℕ}
    {xs : List α} {I : ℕ → S → Prop} (hn : 0 < n)
    (hbody : ∀ i s, i < xs.length / n → I i s → ∃ s', I (i + 1) s' ∧
      ∀ᶠ fuel in atTop, (body fuel (block n i xs)).run s = .ok () s') {s : S} (h : I 0 s) :
    ∃ s', I (xs.length / n) s' ∧
      ∀ᶠ fuel in atTop, (forEachBlock stop n (body fuel) fuel xs).run s = .ok () s' := by
  obtain ⟨s', h', hev⟩ := forEachBlock_from stop body hn hbody _ 0 s (Nat.zero_add _) h
  refine ⟨s', h', ?_⟩
  filter_upwards [hev, eventually_gt_atTop (xs.length / n)] with fuel hrun hfuel
  have hall := hrun fuel hfuel
  rwa [Nat.mul_zero, List.drop_zero] at hall

/-- A loop that has come to its end has kept an invariant that is counted by the blocks and kept by
every turn of the body that returns. -/
theorem forEachBlock_ok {stop : H} {body : List α → EStateM H S Unit} {n : ℕ} {xs : List α}
    {I : ℕ → S → Prop} (hn : 0 < n)
    (hbody : ∀ i s s', i < xs.length / n → I i s → (body (block n i xs)).run s = .ok () s' →
      I (i + 1) s') :
    ∀ (reads i : ℕ) {s s' : S}, i ≤ xs.length / n → I i s →
      (forEachBlock stop n body reads (xs.drop (n * i))).run s = .ok () s' → I (xs.length / n) s'
  | 0, _, _, _, _, _, hrun => absurd hrun (by simp [forEachBlock])
  | reads + 1, i, s, s', hi, h, hrun => by
    unfold forEachBlock at hrun
    have hlen : ((xs.drop (n * i)).take n).length = min n (xs.length - n * i) := by
      rw [List.length_take, List.length_drop]
    by_cases hfull : ((xs.drop (n * i)).take n).length = n
    · -- A full read is one of the whole blocks.
      have hlt : i < xs.length / n := by
        refine (Nat.le_div_iff_mul_le hn).mpr ?_
        rw [Nat.mul_comm, Nat.mul_succ]
        omega
      rw [if_pos hfull] at hrun
      obtain ⟨_, s₁, hturn, hrest⟩ := bind_ok hrun
      rw [drop_drop_block] at hrest
      exact forEachBlock_ok hn hbody reads (i + 1) hlt (hbody i s s₁ hlt h hturn) hrest
    · rw [if_neg hfull] at hrun
      obtain rfl := (EStateM.Result.ok.inj hrun).2
      have hend : i = xs.length / n := by
        refine hi.antisymm (Nat.lt_succ_iff.mp ((Nat.div_lt_iff_lt_mul hn).mpr ?_))
        rw [Nat.mul_comm, Nat.mul_succ]
        omega
      rw [← hend]
      exact h

/-- In whatever state the loop stops, it has kept a property that follows from an invariant counted
by the blocks: every turn of the body that returns keeps the invariant, and one that stops the loop
leaves the property. -/
theorem forEachBlock_stateAfter (stop : H) (body : List α → EStateM H S Unit) (n : ℕ) (xs : List α)
    {I : ℕ → S → Prop} {J : S → Prop} (hkeep : ∀ i s, I i s → J s)
    (hok : ∀ i s s', (block n i xs).length = n → I i s → (body (block n i xs)).run s = .ok () s' →
      I (i + 1) s')
    (herror : ∀ i s e s', (block n i xs).length = n → I i s →
      (body (block n i xs)).run s = .error e s' → J s') :
    ∀ (reads i : ℕ) (s : S), I i s →
      J (stateAfter ((forEachBlock stop n body reads (xs.drop (n * i))).run s))
  | 0, i, s, h => hkeep i s h
  | reads + 1, i, s, h => by
    unfold forEachBlock
    by_cases hfull : ((xs.drop (n * i)).take n).length = n
    · rw [if_pos hfull, EStateM.run_bind]
      cases hturn : (body (block n i xs)).run s with
      | ok u s' =>
        have ih := forEachBlock_stateAfter stop body n xs hkeep hok herror reads (i + 1) s'
          (hok i s s' hfull h hturn)
        unfold block at hturn
        rw [hturn, drop_drop_block]
        exact ih
      | error e s' =>
        have hleft := herror i s e s' hfull h hturn
        unfold block at hturn
        rw [hturn]
        exact hleft
    · rw [if_neg hfull]
      exact hkeep i s h

/-- With one read granted and one block to read, the loop leaves what the body leaves. -/
theorem stateAfter_forEachBlock_one (stop : H) (body : List α → EStateM H S Unit) {n : ℕ}
    {xs : List α} (hlen : xs.length = n) (s : S) :
    stateAfter ((forEachBlock stop n body 1 xs).run s) = stateAfter ((body xs).run s) := by
  have htake : xs.take n = xs := List.take_of_length_le hlen.le
  unfold forEachBlock
  rw [htake, if_pos hlen, EStateM.run_bind]
  cases (body xs).run s <;> rfl

end Loop

end Blocks
