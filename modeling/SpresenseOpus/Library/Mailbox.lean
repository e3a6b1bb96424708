import Mathlib.Data.List.Basic
import Mathlib.Data.List.Count
import Mathlib.Data.List.Induction

/-!
# A slot that is overwritten

A writer puts values into one slot, each over the one before, and leaves a notice for each of them.
A reader takes a notice and with it whatever the slot holds by then. Neither of them waits for the
other, and a schedule says in which order they take their turns.

The values taken are, whatever the values are, the first ones written in exactly the schedules in
which the reader never finds more than one notice: in these they are
(`taken_prefix_of_prompt`), and in the others two different values are enough to tell
(`prompt_of_taken_prefix`).
-/

namespace Mailbox

/-- Who takes a turn. -/
inductive Party where
  | writer
  | reader
  deriving DecidableEq, Repr

/-- The notices that are left, and everything that was written and taken. The slot holds the last
value written. -/
structure Box (α : Type) where
  notices : ℕ := 0
  written : List α := []
  taken : List α := []
  deriving DecidableEq, Repr

/-- The notices that are left after a schedule. -/
def waiting (schedule : List Party) : ℕ :=
  schedule.foldl (fun n party => match party with | .writer => n + 1 | .reader => n - 1) 0

/-- The reader keeps up: whenever it looks, at most one notice is left. -/
def Prompt (schedule : List Party) : Prop :=
  ∀ pre post, schedule = pre ++ .reader :: post → waiting pre ≤ 1

/-- The first part of a prompt schedule is prompt. -/
theorem Prompt.of_append {pre post : List Party} (h : Prompt (pre ++ post)) : Prompt pre := by
  intro pre' post' hsplit
  exact h pre' (post' ++ post) (by rw [hsplit, List.append_assoc, List.cons_append])

/-- A turn of the writer leaves one more notice. -/
theorem waiting_writer (schedule : List Party) :
    waiting (schedule ++ [.writer]) = waiting schedule + 1 :=
  List.foldl_concat ..

/-- A turn of the reader takes a notice, if there is one. -/
theorem waiting_reader (schedule : List Party) :
    waiting (schedule ++ [.reader]) = waiting schedule - 1 :=
  List.foldl_concat ..

section Box

variable {α : Type}

/-- The writer's turn. -/
def Box.write (x : α) (b : Box α) : Box α :=
  { b with notices := b.notices + 1, written := b.written ++ [x] }

/-- The reader's turn. -/
def Box.read (b : Box α) : Box α :=
  if b.notices = 0 then b
  else { b with notices := b.notices - 1, taken := b.taken ++ b.written.getLast?.toList }

/-- Writing leaves one more notice. -/
@[simp] theorem Box.write_notices (x : α) (b : Box α) : (b.write x).notices = b.notices + 1 := rfl

/-- What is written comes behind what was. -/
@[simp] theorem Box.write_written (x : α) (b : Box α) : (b.write x).written = b.written ++ [x] :=
  rfl

/-- Writing takes nothing. -/
@[simp] theorem Box.write_taken (x : α) (b : Box α) : (b.write x).taken = b.taken := rfl

/-- Reading takes a notice, if there is one. -/
@[simp] theorem Box.read_notices (b : Box α) : b.read.notices = b.notices - 1 := by
  unfold Box.read
  split_ifs with hnone
  · rw [hnone]
  · rfl

/-- Reading writes nothing. -/
@[simp] theorem Box.read_written (b : Box α) : b.read.written = b.written := by
  unfold Box.read
  split_ifs <;> rfl

/-- With a notice, reading takes what was written last. -/
@[simp] theorem Box.read_taken (b : Box α) :
    b.read.taken = b.taken ++ if b.notices = 0 then [] else b.written.getLast?.toList := by
  unfold Box.read
  split_ifs
  · rw [List.append_nil]
  · rfl

/-- One turn, when the writer has the values `values` to write. -/
def step (values : ℕ → α) (b : Box α) : Party → Box α
  | .writer => b.write (values b.written.length)
  | .reader => b.read

/-- The box after the turns of a schedule. -/
def run (values : ℕ → α) (schedule : List Party) : Box α := schedule.foldl (step values) {}

variable (values : ℕ → α)

/-- The last turn of a run is the writer's. -/
theorem run_writer (schedule : List Party) : run values (schedule ++ [.writer]) =
    (run values schedule).write (values (run values schedule).written.length) :=
  List.foldl_concat ..

/-- The last turn of a run is the reader's. -/
theorem run_reader (schedule : List Party) :
    run values (schedule ++ [.reader]) = (run values schedule).read :=
  List.foldl_concat ..

/-- A turn of the writer counts. -/
theorem count_writer (schedule : List Party) :
    (schedule ++ [Party.writer]).count .writer = schedule.count .writer + 1 := by
  rw [List.count_append]
  rfl

/-- A turn of the reader does not count as one of the writer. -/
theorem count_reader (schedule : List Party) :
    (schedule ++ [Party.reader]).count .writer = schedule.count .writer := by
  rw [List.count_append]
  rfl

/-- How many notices are left is a matter of the schedule. -/
theorem run_notices (schedule : List Party) : (run values schedule).notices = waiting schedule := by
  induction schedule using List.reverseRecOn with
  | nil => rfl
  | append_singleton schedule party ih =>
    cases party with
    | writer => rw [run_writer, Box.write_notices, ih, waiting_writer]
    | reader => rw [run_reader, Box.read_notices, ih, waiting_reader]

/-- What is written are the values in their order. -/
theorem run_written (schedule : List Party) :
    (run values schedule).written = (List.range (schedule.count .writer)).map values := by
  induction schedule using List.reverseRecOn with
  | nil => rfl
  | append_singleton schedule party ih =>
    cases party with
    | writer =>
      rw [run_writer, Box.write_written, ih, List.length_map, List.length_range, count_writer,
        List.range_succ, List.map_append, List.map_singleton]
    | reader => rw [run_reader, Box.read_written, ih, count_reader]

/-- A value is written in each turn of the writer. -/
theorem length_run_written (schedule : List Party) :
    (run values schedule).written.length = schedule.count .writer := by
  rw [run_written, List.length_map, List.length_range]

/-- Every value written has its notice or was the occasion to take one. -/
theorem run_balance (schedule : List Party) :
    (run values schedule).taken.length + waiting schedule = schedule.count .writer := by
  induction schedule using List.reverseRecOn with
  | nil => rfl
  | append_singleton schedule party ih =>
    cases party with
    | writer =>
      rw [run_writer, Box.write_taken, waiting_writer, count_writer]
      omega
    | reader =>
      rw [run_reader, Box.read_taken, run_notices, waiting_reader, count_reader]
      split_ifs with hnone
      · rw [List.append_nil]
        omega
      · -- There is a notice, so that something was written and the slot is not empty.
        have hlength := length_run_written values schedule
        have hne : (run values schedule).written ≠ [] := by
          rw [← List.length_pos_iff]
          omega
        have hone : (run values schedule).written.getLast?.toList.length = 1 := by
          rw [List.getLast?_eq_some_getLast hne]
          rfl
        rw [List.length_append, hone]
        omega

/-- What is taken stays taken. -/
theorem taken_prefix_append (pre post : List Party) :
    (run values pre).taken <+: (run values (pre ++ post)).taken := by
  induction post using List.reverseRecOn with
  | nil =>
    have hnil : pre ++ [] = pre := List.append_nil pre
    exact hnil.symm ▸ List.prefix_rfl
  | append_singleton post party ih =>
    rw [← List.append_assoc]
    cases party with
    | writer =>
      rw [run_writer]
      exact ih
    | reader =>
      rw [run_reader, Box.read_taken]
      exact ih.trans (List.prefix_append _ _)

/-- In a prompt schedule the values taken are the first ones written. -/
theorem taken_prefix_of_prompt {schedule : List Party} (h : Prompt schedule) :
    (run values schedule).taken <+: (run values schedule).written := by
  induction schedule using List.reverseRecOn with
  | nil => exact List.prefix_rfl
  | append_singleton schedule party ih =>
    have hpre := ih h.of_append
    cases party with
    | writer =>
      rw [run_writer, Box.write_taken, Box.write_written]
      exact hpre.trans (List.prefix_append _ _)
    | reader =>
      rw [run_reader, Box.read_taken, Box.read_written, run_notices]
      split_ifs with hnone
      · rw [List.append_nil]
        exact hpre
      · -- One notice is left, so that all values but the last one are taken.
        have hone : waiting schedule ≤ 1 := h schedule [] rfl
        have hbalance := run_balance values schedule
        have hlength := length_run_written values schedule
        obtain ⟨rest, hrest⟩ := hpre
        rw [← hrest, List.length_append] at hlength
        obtain ⟨x, rfl⟩ : ∃ x, rest = [x] := List.length_eq_one_iff.mp (by omega)
        rw [← hrest, List.getLast?_concat]
        exact List.prefix_rfl

/-- If the values taken are the first ones written whenever the values are among two different ones,
then the schedule is prompt. -/
theorem prompt_of_taken_prefix {schedule : List Party} {x y : α} (hxy : x ≠ y)
    (h : ∀ values : ℕ → α, (∀ i, values i = x ∨ values i = y) →
      (run values schedule).taken <+: (run values schedule).written) : Prompt schedule := by
  intro pre post hsplit
  by_contra hwaiting
  -- All values are `x` but the one that is in the slot when the reader looks.
  let values : ℕ → α := fun i => if i + 1 = pre.count .writer then y else x
  have hvalues : ∀ i, values i = x ∨ values i = y := by
    intro i
    unfold values
    split_ifs
    · exact .inr rfl
    · exact .inl rfl
  have hbalance := run_balance values pre
  set k := (run values pre).taken.length with hk
  have hlast : (run values pre).written.getLast? = some y := by
    rw [run_written, List.getLast?_map, List.getLast?_range, if_neg (by omega), Option.map_some]
    unfold values
    rw [if_pos (by omega)]
  have hy : (run values (pre ++ [.reader])).taken[k]? = some y := by
    rw [run_reader, Box.read_taken, run_notices, if_neg (by omega), hlast, hk,
      Option.toList_some, List.getElem?_concat_length]
  -- It is taken in the place of an earlier one.
  have hpre : (run values (pre ++ [.reader])).taken <+: (run values schedule).written := by
    have happend := taken_prefix_append values (pre ++ [.reader]) post
    rw [List.append_assoc, List.singleton_append, ← hsplit] at happend
    exact happend.trans (h values hvalues)
  have hat : (run values schedule).written[k]? = some y := by
    obtain ⟨rest, hrest⟩ := hpre
    rw [← hrest, List.getElem?_append_left (List.getElem?_eq_some_iff.mp hy).1, hy]
  have hx : values k = x := by
    unfold values
    rw [if_neg (by omega)]
  rw [run_written, List.getElem?_map, Option.map_eq_some_iff] at hat
  obtain ⟨i, hi, hiy⟩ := hat
  obtain ⟨hlt, rfl⟩ := List.getElem?_eq_some_iff.mp hi
  rw [List.getElem_range, hx] at hiy
  exact hxy hiy

end Box

end Mailbox
