import Mathlib.Algebra.Order.Group.Nat
import Mathlib.Tactic.Common

/-! A number of a fixed size is sent in network order, the most significant byte first, and read
back by shifting the bytes that arrive into a value. A little-endian host has the bytes in the other
order. -/

namespace ByteOrder

/-- The value of some bytes, the most significant first. -/
def valueBE (bytes : List UInt8) : ℕ := bytes.foldl (fun n b => n <<< 8 ||| b.toNat) 0

/-- The low bytes of a number, the most significant first. -/
def bytesBE (value : ℕ) : ℕ → List UInt8
  | 0 => []
  | count + 1 => UInt8.ofNat (value >>> (8 * count)) :: bytesBE value count

theorem shiftIn_eq (n : ℕ) (b : UInt8) : n <<< 8 ||| b.toNat = n * 256 + b.toNat := by
  rw [← Nat.shiftLeft_add_eq_or_of_lt b.toNat_lt, Nat.shiftLeft_eq]

theorem foldl_shiftIn (n : ℕ) (bytes : List UInt8) :
    bytes.foldl (fun n b => n <<< 8 ||| b.toNat) n = n * 256 ^ bytes.length + valueBE bytes := by
  induction bytes generalizing n with
  | nil => simp [valueBE]
  | cons b bytes ih =>
    rw [valueBE, List.foldl_cons, List.foldl_cons, ih, ih, shiftIn_eq, shiftIn_eq,
      List.length_cons, pow_succ', Nat.add_mul, Nat.mul_assoc, Nat.zero_mul, Nat.zero_add,
      Nat.add_assoc]

@[simp] theorem valueBE_nil : valueBE [] = 0 := rfl

theorem valueBE_cons (b : UInt8) (bytes : List UInt8) :
    valueBE (b :: bytes) = b.toNat * 256 ^ bytes.length + valueBE bytes := by
  rw [valueBE, List.foldl_cons, foldl_shiftIn, shiftIn_eq, Nat.zero_mul, Nat.zero_add]

theorem valueBE_lt (bytes : List UInt8) : valueBE bytes < 256 ^ bytes.length := by
  induction bytes with
  | nil => simp
  | cons b bytes ih =>
    have hb : b.toNat + 1 ≤ 256 := b.toNat_lt
    rw [valueBE_cons, List.length_cons, pow_succ']
    calc b.toNat * 256 ^ bytes.length + valueBE bytes
        < (b.toNat + 1) * 256 ^ bytes.length := by rw [Nat.succ_mul]; omega
      _ ≤ 256 * 256 ^ bytes.length := Nat.mul_le_mul_right _ hb

@[simp] theorem length_bytesBE (value count : ℕ) : (bytesBE value count).length = count := by
  induction count with
  | zero => rfl
  | succ count ih => rw [bytesBE, List.length_cons, ih]

theorem valueBE_bytesBE (value count : ℕ) :
    valueBE (bytesBE value count) = value % 256 ^ count := by
  induction count with
  | zero => simp [bytesBE, Nat.mod_one]
  | succ count ih =>
    have hshift : value >>> (8 * count) = value / 256 ^ count := by
      rw [Nat.shiftRight_eq_div_pow, pow_mul]
      rfl
    have hbyte : (UInt8.ofNat (value / 256 ^ count)).toNat = value / 256 ^ count % 256 := by
      rw [UInt8.toNat_ofNat']
    rw [bytesBE, valueBE_cons, length_bytesBE, ih, hshift, hbyte, Nat.pow_succ, Nat.mod_mul,
      Nat.mul_comm, Nat.add_comm]

/-- Bytes of the same number with the same value are the same. -/
theorem valueBE_inj {xs ys : List UInt8} (hlen : xs.length = ys.length)
    (h : valueBE xs = valueBE ys) : xs = ys := by
  induction xs generalizing ys with
  | nil => exact (List.length_eq_zero_iff.mp hlen.symm).symm
  | cons x xs ih =>
    obtain ⟨y, ys, rfl⟩ := List.exists_cons_of_length_eq_add_one hlen.symm
    have htail : xs.length = ys.length := Nat.succ.inj hlen
    have hx := valueBE_lt xs
    have hy := valueBE_lt ys
    rw [valueBE_cons, valueBE_cons, htail] at h
    rw [htail] at hx
    have hpos : 0 < 256 ^ ys.length := Nat.pow_pos (by omega)
    -- the first byte is the quotient, and the others are the remainder
    have hdiv := congrArg (· / 256 ^ ys.length) h
    simp only [Nat.mul_comm _ (256 ^ ys.length), Nat.mul_add_div hpos, Nat.div_eq_of_lt hx,
      Nat.div_eq_of_lt hy, Nat.add_zero] at hdiv
    obtain rfl : x = y := UInt8.toNat_inj.mp hdiv
    rw [ih htail (Nat.add_left_cancel h)]

theorem bytesBE_valueBE (bytes : List UInt8) : bytesBE (valueBE bytes) bytes.length = bytes := by
  apply valueBE_inj (length_bytesBE ..)
  rw [valueBE_bytesBE, Nat.mod_eq_of_lt (valueBE_lt bytes)]

/-- The value of some bytes, the least significant first. -/
def valueLE (bytes : List UInt8) : ℕ := valueBE bytes.reverse

/-- The low bytes of a number, the least significant first. -/
def bytesLE (value count : ℕ) : List UInt8 := (bytesBE value count).reverse

@[simp] theorem length_bytesLE (value count : ℕ) : (bytesLE value count).length = count := by
  rw [bytesLE, List.length_reverse, length_bytesBE]

theorem valueLE_bytesLE (value count : ℕ) :
    valueLE (bytesLE value count) = value % 256 ^ count := by
  rw [valueLE, bytesLE, List.reverse_reverse, valueBE_bytesBE]

theorem bytesLE_valueLE (bytes : List UInt8) : bytesLE (valueLE bytes) bytes.length = bytes := by
  rw [bytesLE, valueLE, ← List.length_reverse, bytesBE_valueBE, List.reverse_reverse]

theorem valueLE_lt (bytes : List UInt8) : valueLE bytes < 256 ^ bytes.length := by
  have h := valueBE_lt bytes.reverse
  rwa [List.length_reverse] at h

end ByteOrder
