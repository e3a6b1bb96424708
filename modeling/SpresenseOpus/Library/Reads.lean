import Mathlib.Algebra.BigOperators.Group.List.Basic
import Mathlib.Data.List.Basic
import Mathlib.Data.List.Induction
import Mathlib.Logic.Nontrivial.Basic
import Mathlib.Tactic.Ring

/-!
# Reading a stream that comes in pieces

A reader asks a queue for `N` elements at a time and gets as many as there are, at most `N`, which
are then gone from the queue. It keeps a read that is full and drops one that is short. `kept` is
what it keeps of a stream, and `keepsStream_iff_inPlace` says when that is the stream itself: when
every full read is in its place, and less than a full read is lost altogether. Whatever the stream
is, this is so exactly for the sizes with nothing lost in front of a full read
(`inPlace_iff_unsplit`).
-/

namespace Reads

variable {α : Type}

/-- `n` elements of a stream from a place on. -/
def segment (f : ℕ → α) (start n : ℕ) : List α := (List.range n).map fun i => f (start + i)

/-- A segment has as many elements as it is asked for. -/
@[simp] theorem length_segment (f : ℕ → α) (start n : ℕ) : (segment f start n).length = n := by
  simp [segment]

/-- Two segments, one behind the other. -/
theorem segment_append (f : ℕ → α) (start m n : ℕ) :
    segment f start m ++ segment f (start + m) n = segment f start (m + n) := by
  unfold segment
  rw [List.range_add, List.map_append, List.map_map]
  simp [Function.comp_def, Nat.add_assoc]

/-- A shorter segment from the same place is the beginning of a longer one. -/
theorem segment_prefix_of_le (f : ℕ → α) (start : ℕ) {m n : ℕ} (h : m ≤ n) :
    segment f start m <+: segment f start n := by
  obtain ⟨k, rfl⟩ := Nat.exists_eq_add_of_le h
  exact ⟨_, segment_append f start m k⟩

/-- The elements of a segment are those of the stream from its place on. -/
theorem getElem?_segment (f : ℕ → α) (start : ℕ) {i n : ℕ} (h : i < n) :
    (segment f start n)[i]? = some (f (start + i)) := by
  simp [segment, h]

/-- The first `n` pieces of a stream, of `N` elements each. -/
def pieces (N : ℕ) (f : ℕ → α) (n : ℕ) : List (List α) :=
  (List.range n).map fun k => segment f (N * k) N

/-- There are as many pieces as are asked for. -/
@[simp] theorem length_pieces (N : ℕ) (f : ℕ → α) (n : ℕ) : (pieces N f n).length = n := by
  simp [pieces]

/-- One more piece begins where the others end. -/
theorem pieces_succ (N : ℕ) (f : ℕ → α) (n : ℕ) :
    pieces N f (n + 1) = pieces N f n ++ [segment f (N * n) N] := by
  simp [pieces, List.range_succ]

/-- The pieces make up the stream. -/
theorem flatten_pieces (N : ℕ) (f : ℕ → α) (n : ℕ) :
    (pieces N f n).flatten = segment f 0 (N * n) := by
  induction n with
  | zero => rfl
  | succ n ih =>
    rw [pieces_succ, List.flatten_append, List.flatten_singleton, ih, Nat.mul_succ,
      ← segment_append, Nat.zero_add]

/-- The beginning of a list of pieces is one. -/
theorem eq_pieces_of_prefix {N : ℕ} {f : ℕ → α} {n : ℕ} {ls : List (List α)}
    (h : ls <+: pieces N f n) : ls = pieces N f ls.length := by
  have hlen : ls.length ≤ n := by
    have hle := h.length_le
    rwa [length_pieces] at hle
  have htake := List.prefix_iff_eq_take.mp h
  unfold pieces at htake ⊢
  rwa [← List.map_take, List.take_range, Nat.min_eq_left hlen] at htake

section Kept

variable (N : ℕ) (f : ℕ → α)

/-- The reads that are kept, for reads of the sizes `ns` from a place of the stream on. -/
def kept : ℕ → List ℕ → List (List α)
  | _, [] => []
  | start, n :: ns => (if n = N then [segment f start N] else []) ++ kept (start + n) ns

/-- What is kept of one read. -/
theorem kept_singleton (start n : ℕ) :
    kept N f start [n] = if n = N then [segment f start N] else [] := by
  rw [kept, kept, List.append_nil]

/-- What is kept of the reads `ms` and then `ns`. -/
theorem kept_append (ns : List ℕ) : ∀ (ms : List ℕ) (start : ℕ),
    kept N f start (ms ++ ns) = kept N f start ms ++ kept N f (start + ms.sum) ns
  | [], start => by simp [kept]
  | m :: ms, start => by
    rw [List.cons_append, kept, kept, kept_append ns ms (start + m), List.sum_cons,
      List.append_assoc, Nat.add_assoc]

/-- What is kept is full. -/
theorem length_of_mem_kept : ∀ {ns : List ℕ} {start : ℕ} {l : List α},
    l ∈ kept N f start ns → l.length = N
  | n :: ns, start, l, h => by
    rw [kept, List.mem_append] at h
    rcases h with hfull | hrest
    · split_ifs at hfull
      · rw [List.mem_singleton.mp hfull, length_segment]
      · exact absurd hfull List.not_mem_nil
    · exact length_of_mem_kept hrest

/-- Each full read is kept with its whole length. -/
theorem length_flatten_kept : ∀ (ns : List ℕ) (start : ℕ),
    (kept N f start ns).flatten.length = N * ns.count N
  | [], _ => rfl
  | n :: ns, start => by
    have ih := length_flatten_kept ns (start + n)
    rw [kept, List.flatten_append, List.length_append, ih, List.count_cons]
    by_cases hn : n = N
    · subst hn
      simp
      ring
    · simp [hn]

/-- The sizes of the short reads. -/
def short (ns : List ℕ) : List ℕ := ns.filter fun n => n ≠ N

/-- What is read is kept or in a short read. -/
theorem sum_eq : ∀ ns : List ℕ, ns.sum = N * ns.count N + (short N ns).sum
  | [] => rfl
  | n :: ns => by
    have ih := sum_eq ns
    unfold short at ih ⊢
    rw [List.sum_cons, ih, List.count_cons, List.filter_cons]
    by_cases hn : n = N
    · subst hn
      simp
      ring
    · simp [hn]
      ring

/-- Nothing is lost in front of a full read, and less than a full read altogether. -/
structure Unsplit (ns : List ℕ) : Prop where
  inFront : ∀ pre post, ns = pre ++ N :: post → (short N pre).sum = 0
  altogether : (short N ns).sum < N

/-- Whatever is lost in front of a full read makes no difference in this stream: the full read is
what stands where the reads kept before it end. Less than a full read is lost altogether. -/
structure InPlace (ns : List ℕ) : Prop where
  inFront : ∀ pre post, ns = pre ++ N :: post →
    segment f pre.sum N = segment f (N * pre.count N) N
  altogether : (short N ns).sum < N

/-- The reads that are kept are the stream so far, up to less than a full read. -/
structure KeepsStream (ns : List ℕ) : Prop where
  keeps : (kept N f 0 ns).flatten <+: segment f 0 ns.sum
  reaches : ns.sum < (kept N f 0 ns).flatten.length + N

/-- If every full read is in its place, the reads kept are the beginning of the stream. -/
theorem flatten_kept_of_inFront {ns : List ℕ} (h : ∀ pre post, ns = pre ++ N :: post →
      segment f pre.sum N = segment f (N * pre.count N) N) :
    (kept N f 0 ns).flatten = segment f 0 (N * ns.count N) := by
  induction ns using List.reverseRecOn with
  | nil => rfl
  | append_singleton ns n ih =>
    have ih := ih fun pre post hns => h pre (post ++ [n]) (by simp [hns])
    rw [kept_append, List.flatten_append, ih, Nat.zero_add, kept, kept, List.append_nil,
      List.count_append, List.count_singleton]
    by_cases hn : n = N
    · subst hn
      have happend := segment_append f 0 (n * ns.count n) n
      rw [Nat.zero_add] at happend
      rw [if_pos rfl, List.flatten_singleton, h ns [] rfl, happend]
      simp [Nat.mul_add]
    · rw [if_neg hn]
      simp [hn]

/-- If the reads kept are the beginning of the stream, every full read is in its place. -/
theorem inFront_of_keeps {ns : List ℕ} (h : (kept N f 0 ns).flatten <+: segment f 0 ns.sum)
    {pre post : List ℕ} (hns : ns = pre ++ N :: post) :
    segment f pre.sum N = segment f (N * pre.count N) N := by
  have hkept : (kept N f 0 ns).flatten =
      (kept N f 0 pre).flatten ++ segment f pre.sum N ++ (kept N f (pre.sum + N) post).flatten := by
    rw [hns, kept_append, Nat.zero_add, kept, if_pos rfl, List.flatten_append, List.flatten_append,
      List.flatten_singleton, List.append_assoc]
  -- The reads up to this one have their length of the stream.
  have hlen : (kept N f 0 pre).flatten.length = N * pre.count N := length_flatten_kept N f pre 0
  have hle : N * pre.count N + N ≤ ns.sum := by
    have hsum := sum_eq N pre
    rw [hns, List.sum_append, List.sum_cons]
    omega
  have hprefix : (kept N f 0 pre).flatten ++ segment f pre.sum N <+: segment f 0 ns.sum :=
    (List.prefix_append _ _).trans (hkept ▸ h)
  have heq : (kept N f 0 pre).flatten ++ segment f pre.sum N =
      segment f 0 (N * pre.count N) ++ segment f (0 + N * pre.count N) N := by
    rw [segment_append]
    apply List.IsPrefix.eq_of_length
    · apply List.prefix_of_prefix_length_le hprefix (segment_prefix_of_le f 0 hle)
      simp [hlen]
    · simp [hlen]
  have hright := List.append_inj_right heq (by rw [hlen, length_segment])
  rw [Nat.zero_add] at hright
  exact hright

/-- The reads kept of a stream are the stream so far, up to less than a full read, if and only if
every full read is in its place and less than a full read is lost altogether. -/
theorem keepsStream_iff_inPlace (ns : List ℕ) : KeepsStream N f ns ↔ InPlace N f ns := by
  have hsum := sum_eq N ns
  constructor
  · intro h
    have hreaches := h.reaches
    rw [length_flatten_kept] at hreaches
    exact ⟨fun pre post hns => inFront_of_keeps N f h.keeps hns, by omega⟩
  · intro h
    have hshort := h.altogether
    refine ⟨?_, ?_⟩
    · rw [flatten_kept_of_inFront N f h.inFront]
      exact segment_prefix_of_le f 0 (by omega)
    · rw [length_flatten_kept]
      omega

/-- A segment is the same from two places of every stream only if the places are the same. -/
theorem eq_of_segment_eq [Nontrivial α] (hN : 0 < N) {m n : ℕ}
    (h : ∀ f : ℕ → α, segment f m N = segment f n N) : m = n := by
  by_contra hne
  obtain ⟨a, b, hab⟩ := exists_pair_ne α
  -- A stream that has its one `a` at `n`.
  have heq := h fun i => if i = n then a else b
  have hfirst := congrArg (fun l => l[0]?) heq
  simp only [getElem?_segment _ _ hN, Nat.add_zero, if_neg hne, if_true, Option.some_inj] at hfirst
  exact hab hfirst.symm

/-- Every full read is in its place, whatever the stream is, if and only if nothing is lost in front
of a full read. -/
theorem inPlace_iff_unsplit [Nontrivial α] (hN : 0 < N) (ns : List ℕ) :
    (∀ f : ℕ → α, InPlace N f ns) ↔ Unsplit N ns := by
  constructor
  · intro h
    obtain ⟨a, -⟩ := exists_pair_ne α
    refine ⟨fun pre post hns => ?_, (h fun _ => a).altogether⟩
    have hplace := eq_of_segment_eq N hN fun f => (h f).inFront pre post hns
    have hsum := sum_eq N pre
    omega
  · intro h f
    refine ⟨fun pre post hns => ?_, h.altogether⟩
    rw [sum_eq N pre, h.inFront pre post hns, Nat.add_zero]

end Kept

end Reads
