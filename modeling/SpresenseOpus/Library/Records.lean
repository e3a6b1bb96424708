import Mathlib.Data.List.Basic

/-!
# Streams of self-delimiting records

A `RecordCodec` writes a record as symbols and reads one record from the front of a stream, without
looking past it. Records that are written one after another, with nothing between them, are then
read back in order and with nothing left over (`RecordCodec.parse_flatMap`), whatever the
payloads are.
-/

namespace Records

/-- The first `k` symbols of a stream and the rest of it, when it is that long. -/
def readN {β : Type} (k : ℕ) (bs : List β) : Option (List β × List β) :=
  if k ≤ bs.length then some (bs.take k, bs.drop k) else none

/-- A block of `k` symbols at the front of a stream is read as it is. -/
theorem readN_append {β : Type} {k : ℕ} {xs : List β} (rest : List β) (h : xs.length = k) :
    readN k (xs ++ rest) = some (xs, rest) := by
  subst h
  simp [readN]

/-- Reads records from a stream until its end, at most `n` of them. -/
def readAll {α β : Type} (read : List β → Option (α × List β)) : ℕ → List β → Option (List α)
  | _, [] => some []
  | 0, _ :: _ => none
  | n + 1, b :: bs =>
    match read (b :: bs) with
    | none => none
    | some (a, rest) => (readAll read n rest).map (a :: ·)

/-- A format of records: how a record is written, how one is read from the front of a stream, and
that a valid record is read back as it was written. -/
structure RecordCodec (α β : Type) where
  /-- The records that the format can carry. -/
  Valid : α → Prop
  /-- The symbols of a record. -/
  write : α → List β
  /-- The record at the front of a stream, and the rest of the stream. -/
  read : List β → Option (α × List β)
  /-- A valid record is read back, whatever follows it. -/
  read_write : ∀ a rest, Valid a → read (write a ++ rest) = some (a, rest)
  /-- A record is never empty, so that reading one makes progress. -/
  write_ne_nil : ∀ a, write a ≠ []

variable {α β : Type} (c : RecordCodec α β)

/-- The records of a whole stream, or nothing when it does not end where a record ends. Every
record takes at least one symbol, so that the length of the stream bounds their number. -/
def RecordCodec.parse (bs : List β) : Option (List α) := readAll c.read bs.length bs

/-- Written records are read back by any reader that may read that many. -/
theorem RecordCodec.readAll_flatMap : ∀ (as : List α) (n : ℕ), as.length ≤ n →
    (∀ a ∈ as, c.Valid a) → readAll c.read n (as.flatMap c.write) = some as
  | [], n, _, _ => by cases n <;> rfl
  | a :: as, 0, hn, _ => absurd hn (by simp)
  | a :: as, n + 1, hn, hv => by
    have ih := RecordCodec.readAll_flatMap as n (by simpa using hn)
      fun x hx => hv x (List.mem_cons_of_mem _ hx)
    have hread := c.read_write a (as.flatMap c.write) (hv a List.mem_cons_self)
    rw [List.flatMap_cons]
    cases hw : c.write a with
    | nil => exact absurd hw (c.write_ne_nil a)
    | cons b bs =>
      rw [hw, List.cons_append] at hread
      simp only [List.cons_append, readAll, hread, ih, Option.map_some]

/-- There are no more records than symbols. -/
theorem RecordCodec.length_le_length_flatMap (as : List α) :
    as.length ≤ (as.flatMap c.write).length := by
  induction as with
  | nil => simp
  | cons a as ih =>
    have hpos : 0 < (c.write a).length := List.length_pos_of_ne_nil (c.write_ne_nil a)
    simp only [List.flatMap_cons, List.length_cons, List.length_append]
    omega

/-- Records written one after another are parsed back in order, with nothing left over. -/
theorem RecordCodec.parse_flatMap {as : List α} (hv : ∀ a ∈ as, c.Valid a) :
    c.parse (as.flatMap c.write) = some as :=
  c.readAll_flatMap as _ (c.length_le_length_flatMap as) hv

end Records
