import Mathlib.Algebra.Order.Ring.Nat
import Mathlib.Tactic.Ring

/-!
# Numbers as bytes

Unsigned numbers of a fixed width as byte strings, low byte first (`toBytesLE`) or high byte first
(`toBytesBE`), and the readers that give the numbers back. A reader is total: it takes the value
of whatever bytes it is given, so the width is the caller's business. The last section has the
conversions of signed machine integers that are not negative.
-/

namespace Words

/-- The `k` low bytes of a number, low byte first. -/
def toBytesLE : ℕ → ℕ → List UInt8
  | 0, _ => []
  | k + 1, n => UInt8.ofNat n :: toBytesLE k (n / 256)

/-- The number that bytes write, low byte first. -/
def ofBytesLE : List UInt8 → ℕ
  | [] => 0
  | b :: bs => b.toNat + 256 * ofBytesLE bs

/-- The `k` low bytes of a number, high byte first. -/
def toBytesBE (k n : ℕ) : List UInt8 := (toBytesLE k n).reverse

/-- The number that bytes write, high byte first. -/
def ofBytesBE (bs : List UInt8) : ℕ := ofBytesLE bs.reverse

/-- A number is written with as many bytes as it is given. -/
@[simp] theorem length_toBytesLE : ∀ k n, (toBytesLE k n).length = k
  | 0, _ => rfl
  | k + 1, n => by rw [toBytesLE, List.length_cons, length_toBytesLE k]

/-- So it is with the high byte first. -/
@[simp] theorem length_toBytesBE (k n : ℕ) : (toBytesBE k n).length = k := by
  rw [toBytesBE, List.length_reverse, length_toBytesLE]

/-- Reading back the `k` low bytes gives the number modulo `256^k`. -/
theorem ofBytesLE_toBytesLE : ∀ k n, ofBytesLE (toBytesLE k n) = n % 256^k
  | 0, n => by simp [toBytesLE, ofBytesLE, Nat.mod_one]
  | k + 1, n => by
    have hbyte : (UInt8.ofNat n).toNat = n % 256 := by simp
    rw [toBytesLE, ofBytesLE, hbyte, ofBytesLE_toBytesLE k, pow_succ', Nat.mod_mul]

/-- Below `256^k` the `k` low bytes, low byte first, give the number back. -/
theorem ofBytesLE_toBytesLE_of_lt {k n : ℕ} (h : n < 256^k) : ofBytesLE (toBytesLE k n) = n := by
  rw [ofBytesLE_toBytesLE, Nat.mod_eq_of_lt h]

/-- Below `256^k` the `k` low bytes, high byte first, give the number back. -/
theorem ofBytesBE_toBytesBE_of_lt {k n : ℕ} (h : n < 256^k) : ofBytesBE (toBytesBE k n) = n := by
  rw [ofBytesBE, toBytesBE, List.reverse_reverse, ofBytesLE_toBytesLE_of_lt h]

/-! ## Signed machine integers -/

/-- A 32-bit number that is not negative keeps its value as an unsigned one. -/
theorem toNat_toUInt32_of_nonneg {x : Int32} (h : 0 ≤ x.toInt) :
    x.toUInt32.toNat = x.toInt.toNat := by
  have hx : x.toInt = x.toUInt32.toNat :=
    BitVec.toInt_eq_toNat_of_lt (BitVec.toInt_pos_iff.mp h)
  rw [hx, Int.toNat_natCast]

/-- A 64-bit number that is not negative keeps its value as an unsigned one. -/
theorem toNat_toUInt64_of_nonneg {x : Int64} (h : 0 ≤ x.toInt) :
    x.toUInt64.toNat = x.toInt.toNat := by
  have hx : x.toInt = x.toUInt64.toNat :=
    BitVec.toInt_eq_toNat_of_lt (BitVec.toInt_pos_iff.mp h)
  rw [hx, Int.toNat_natCast]

/-- A small unsigned 32-bit number keeps its value as a signed one. -/
theorem toInt_toInt32_of_lt {x : UInt32} (h : x.toNat < 2^31) : x.toInt32.toInt = x.toNat :=
  BitVec.toInt_eq_toNat_of_lt (by change 2 * x.toNat < 2^32; omega)

/-- A small unsigned 64-bit number keeps its value as a signed one. -/
theorem toInt_toInt64_of_lt {x : UInt64} (h : x.toNat < 2^63) : x.toInt64.toInt = x.toNat :=
  BitVec.toInt_eq_toNat_of_lt (by change 2 * x.toNat < 2^64; omega)

/-- A product that is not negative and fits into a signed 32-bit number is exact. -/
theorem toInt_mul_of_lt {x y : Int32} (hpos : 0 ≤ x.toInt * y.toInt)
    (hlt : x.toInt * y.toInt < 2^31) : (x * y).toInt = x.toInt * y.toInt := by
  rw [Int32.toInt_mul]
  exact Int.bmod_eq_of_le (by omega) (by omega)

/-- A product of 32-bit numbers that fits is exact, factor by factor. -/
theorem toNat_mul_mul_of_lt {x y c : UInt32} (h : x.toNat * y.toNat * c.toNat < 2^32)
    (hc : 0 < c.toNat) : (x * y * c).toNat = x.toNat * y.toNat * c.toNat := by
  have hxy : x.toNat * y.toNat < 2^32 := (Nat.le_mul_of_pos_right _ hc).trans_lt h
  rw [UInt32.toNat_mul, UInt32.toNat_mul, Nat.mod_eq_of_lt hxy, Nat.mod_eq_of_lt h]

/-- Dividing a product that fits by its last two factors, in either order, gives the first one. -/
theorem mul_mul_div_div {x y c : UInt32} (h : x.toNat * y.toNat * c.toNat < 2^32)
    (hy : 0 < y.toNat) (hc : 0 < c.toNat) :
    x * y * c / c / y = x ∧ x * y * c / y / c = x := by
  have hmul := toNat_mul_mul_of_lt h hc
  constructor
  · apply UInt32.toNat_inj.mp
    calc (x * y * c / c / y).toNat = x.toNat * y.toNat * c.toNat / c.toNat / y.toNat := by
          rw [UInt32.toNat_div, UInt32.toNat_div, hmul]
      _ = x.toNat * y.toNat / y.toNat := by rw [Nat.mul_div_cancel _ hc]
      _ = x.toNat := Nat.mul_div_cancel _ hy
  · apply UInt32.toNat_inj.mp
    calc (x * y * c / y / c).toNat = x.toNat * y.toNat * c.toNat / y.toNat / c.toNat := by
          rw [UInt32.toNat_div, UInt32.toNat_div, hmul]
      _ = x.toNat * c.toNat / c.toNat := by rw [Nat.mul_right_comm, Nat.mul_div_cancel _ hy]
      _ = x.toNat := Nat.mul_div_cancel _ hc

/-- A signed 32-bit counter that has advanced in equal steps has the exact value after each of `N`
steps if and only if it has it after the last one, that is, below `2^31`. -/
theorem counter_exact_iff (step N : ℕ) :
    (∀ k, k < N → (Int32.ofNat (step * (k + 1))).toInt = (step * (k + 1) : ℕ)) ↔
      step * N < 2^31 := by
  constructor
  · intro h
    cases N with
    | zero => norm_num
    | succ k =>
      have hlt := (Int32.ofNat (step * (k + 1))).toInt_lt
      rw [h k (Nat.lt_succ_self k)] at hlt
      exact_mod_cast hlt
  · intro h k hk
    have hle : step * (k + 1) ≤ step * N := Nat.mul_le_mul_left step hk
    exact Int32.toInt_ofNat_of_lt (hle.trans_lt h)

end Words
