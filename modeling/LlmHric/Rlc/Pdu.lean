import Mathlib.Algebra.Ring.Nat
import Mathlib.Logic.Function.Basic
import Mathlib.Tactic.Common
import Mathlib.Tactic.Ring

/-! The header fields of a PDU are read and written bit by bit, the most significant bit first. The
receiver keeps the segments of an SDU in a list, ordered by their offset, and the lists of the
sequence numbers of its window in the slots of a ring. -/

namespace LlmHric.Rlc

/-! ### Bits -/

/-- `nr_rlc_pdu_decoder_t`: the next byte to decode, and the next bit in it. -/
structure Decoder where
  buffer : List UInt8
  byte : ℕ
  bit : ℕ

namespace Decoder

/-- `nr_rlc_pdu_decoder_init` -/
def init (buffer : List UInt8) : Decoder := ⟨buffer, 0, 0⟩

/-- The position after one bit. -/
def next (d : Decoder) : Decoder :=
  if d.bit + 1 = 8 then { d with byte := d.byte + 1, bit := 0 } else { d with bit := d.bit + 1 }

/-- `get_bit` -/
def getBit (d : Decoder) : Option (ℕ × Decoder) :=
  match d.buffer[d.byte]? with
  | none => none
  | some b => some ((b.toNat >>> (7 - d.bit)) % 2, d.next)

/-- The loop of `nr_rlc_pdu_decoder_get_bits`. -/
def getBitsFrom (ret : ℕ) : ℕ → Decoder → Option (ℕ × Decoder)
  | 0, d => some (ret, d)
  | count + 1, d =>
    match d.getBit with
    | none => none
    | some (b, d') => getBitsFrom (2 * ret + b) count d'

/-- `nr_rlc_pdu_decoder_get_bits` -/
def getBits (d : Decoder) (count : ℕ) : Option (ℕ × Decoder) := getBitsFrom 0 count d

theorem getBitsFrom_add (ret a b : ℕ) (d : Decoder) :
    getBitsFrom ret (a + b) d = (getBitsFrom ret a d).bind fun r => getBitsFrom r.1 b r.2 := by
  induction a generalizing ret d with
  | zero => simp [getBitsFrom]
  | succ a ih =>
    rw [Nat.succ_add, getBitsFrom, getBitsFrom]
    cases d.getBit with
    | none => rfl
    | some r => exact ih _ _

theorem getBitsFrom_lt {ret count v : ℕ} {d d' : Decoder}
    (h : getBitsFrom ret count d = some (v, d')) : v < (ret + 1) * 2 ^ count := by
  induction count generalizing ret d with
  | zero =>
    obtain ⟨rfl, -⟩ := Prod.mk.inj (Option.some.inj h)
    simp
  | succ count ih =>
    rw [getBitsFrom] at h
    split at h
    · cases h
    · rename_i b d₁ hbit
      have hb : b < 2 := by
        rw [getBit] at hbit
        split at hbit
        · cases hbit
        · obtain ⟨rfl, -⟩ := Prod.mk.inj (Option.some.inj hbit)
          exact Nat.mod_lt _ Nat.two_pos
      calc v < (2 * ret + b + 1) * 2 ^ count := ih h
        _ ≤ (2 * (ret + 1)) * 2 ^ count := Nat.mul_le_mul_right _ (by omega)
        _ = (ret + 1) * 2 ^ (count + 1) := by ring

/-- A field is smaller than its number of bits allows. -/
theorem getBits_lt {count v : ℕ} {d d' : Decoder} (h : d.getBits count = some (v, d')) :
    v < 2 ^ count := by
  simpa using getBitsFrom_lt h

theorem getBitsFrom_inByte {buffer : List UInt8} {i : ℕ} {b : UInt8} (hb : buffer[i]? = some b)
    (ret : ℕ) {j count : ℕ} (hj : j < 8) (h : j + count ≤ 8) :
    getBitsFrom ret count ⟨buffer, i, j⟩ =
      some (ret * 2 ^ count + b.toNat / 2 ^ (8 - j - count) % 2 ^ count,
        if j + count = 8 then ⟨buffer, i + 1, 0⟩ else ⟨buffer, i, j + count⟩) := by
  induction count generalizing ret j with
  | zero =>
    rw [getBitsFrom, if_neg (by omega), pow_zero, Nat.mod_one]
    simp
  | succ count ih =>
    have hshift : b.toNat / 2 ^ (8 - j - (count + 1)) / 2 ^ count = b.toNat >>> (7 - j) := by
      rw [Nat.div_div_eq_div_mul, ← pow_add, Nat.shiftRight_eq_div_pow]
      congr 2
      omega
    have hval : ret * 2 ^ (count + 1) + b.toNat / 2 ^ (8 - j - (count + 1)) % 2 ^ (count + 1) =
        (2 * ret + b.toNat >>> (7 - j) % 2) * 2 ^ count +
          b.toNat / 2 ^ (8 - j - (count + 1)) % 2 ^ count := by
      rw [Nat.mod_pow_succ, hshift, pow_succ, Nat.add_mul]
      ring
    rw [getBitsFrom, getBit, hb, hval]
    simp only [next]
    by_cases hlast : j + 1 = 8
    · obtain rfl : count = 0 := by omega
      simp [getBitsFrom, hlast, Nat.mod_one]
    · rw [if_neg hlast, ih _ (by omega) (by omega)]
      have hexp : 8 - (j + 1) - count = 8 - j - (count + 1) := by omega
      have hnext : j + 1 + count = j + (count + 1) := by omega
      rw [hexp, hnext]

end Decoder

/-- `nr_rlc_pdu_encoder_t`: the bits written so far, and the bytes there is room for. -/
structure Encoder where
  bits : List Bool
  size : ℕ

namespace Encoder

/-- `nr_rlc_pdu_encoder_init` -/
def init (size : ℕ) : Encoder := ⟨[], size⟩

def byte (c : Encoder) : ℕ := c.bits.length / 8

/-- `put_bit`; the program ends when the buffer is full. -/
def putBit (c : Encoder) (b : Bool) : Option Encoder :=
  if c.byte = c.size then none else some { c with bits := c.bits ++ [b] }

/-- `nr_rlc_pdu_encoder_put_bits` -/
def putBits (c : Encoder) (value : ℕ) : ℕ → Option Encoder
  | 0 => some c
  | count + 1 =>
    match c.putBit (value.testBit count) with
    | none => none
    | some c' => c'.putBits value count

def setBit (c : Encoder) (byte bit : ℕ) : Encoder :=
  { c with bits := c.bits.set (8 * byte + 7 - bit) true }

end Encoder

def toBytes : List Bool → List UInt8
  | b₇ :: b₆ :: b₅ :: b₄ :: b₃ :: b₂ :: b₁ :: b₀ :: bits =>
    UInt8.ofNat ([b₇, b₆, b₅, b₄, b₃, b₂, b₁, b₀].foldl (fun n b => 2 * n + b.toNat) 0) ::
      toBytes bits
  | _ => []

/-- `nr_rlc_pdu_t` -/
structure Pdu where
  sn : ℕ
  so : ℕ
  size : ℕ
  isFirst : Bool
  isLast : Bool
  data : Option (List UInt8)
  deriving DecidableEq

/-- `nr_rlc_new_pdu` -/
def newPdu (sn so : ℕ) (isFirst isLast : Bool) (data : List UInt8) : Pdu :=
  ⟨sn, so, data.length, isFirst, isLast, some data⟩

/-- The loop of `nr_rlc_rx_manager_add_pdu`: the list stays ordered by `so`. -/
def insertPdu (pdu : Pdu) : List Pdu → List Pdu
  | [] => [pdu]
  | cur :: l => if cur.so > pdu.so then pdu :: cur :: l else cur :: insertPdu pdu l

/-- `nr_rlc_rx_manager_t` -/
structure RxManager where
  rxList : ℕ → List Pdu
  size : ℕ
  start : ℕ
  snStart : ℕ

namespace RxManager

/-- `nr_rlc_new_rx_manager` -/
def new (size : ℕ) : RxManager := ⟨fun _ => [], size, 0, 0⟩

/-- `get_pos` -/
def getPos (m : RxManager) (sn : ℕ) : ℕ := (m.start + (sn + m.size * 2 - m.snStart)) % m.size

/-- `nr_rlc_rx_manager_get_pdu_from_sn` -/
def getPduFromSn (m : RxManager) (sn : ℕ) : List Pdu := m.rxList (m.getPos sn)

/-- The manager with another list in the slot of a sequence number. -/
def setPduFromSn (m : RxManager) (sn : ℕ) (l : List Pdu) : RxManager :=
  { m with rxList := Function.update m.rxList (m.getPos sn) l }

/-- `nr_rlc_rx_manager_clear_pdu` -/
def clearPdu (m : RxManager) (sn : ℕ) : RxManager := m.setPduFromSn sn []

/-- `nr_rlc_rx_manager_advance` -/
def advance (m : RxManager) (count : ℕ) : RxManager :=
  { m with start := (m.start + count) % m.size }

/-- `nr_rlc_rx_manager_set_start` -/
def setStart (m : RxManager) (snStart : ℕ) : RxManager := { m with snStart }

/-- `nr_rlc_rx_manager_add_pdu` -/
def addPdu (m : RxManager) (pdu : Pdu) : RxManager :=
  m.setPduFromSn pdu.sn (insertPdu pdu (m.getPduFromSn pdu.sn))

end RxManager

end LlmHric.Rlc
