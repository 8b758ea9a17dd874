import Mathlib.Algebra.Order.Group.Nat
import Mathlib.Data.Nat.Bitwise
import Mathlib.Tactic.Common

/-! The identifiers of cells, base stations and core network functions are numbers in FlexRIC and
bit strings in ASN.1. Each kind has an encoder, which asserts that the number fits, and a decoder,
which asserts the length of the bit string. Most of them put the low byte first and shift the bits
of the last byte up to its upper end.

The operands of an expression that are narrower than an `int` are promoted to it, and an `int` in an
expression of 64 bits is extended with its sign. -/

namespace LlmHric.Flexric

/-- `BIT_STRING_t`; `size` is the length of the buffer. -/
structure BitString where
  bitsUnused : ℕ
  buf : List (BitVec 8)
  deriving DecidableEq

/-- A byte as an operand: it is promoted to `int`. -/
def promote (b : BitVec 8) : BitVec 32 := b.setWidth 32

/-- An `int` as an operand of an expression of 64 bits. -/
def widen (x : BitVec 32) : BitVec 64 := x.signExtend 64

/-- The encoders that put the low byte first. `bits` is the length of the bit string. -/
def idToBitString {w : ℕ} (bits unused size : ℕ) (val : BitVec w) : Option BitString :=
  if val.toNat < 2 ^ bits then
    some ⟨unused, (List.range (size - 1)).map (fun i => (val >>> (8 * i)).setWidth 8) ++
      [((val >>> (8 * (size - 1))) <<< unused).setWidth 8]⟩
  else none

/-- The expression `dst | buf[k - 1] << 8 * (k - 1) | ... | buf[0]` of the decoders. -/
def orBytes (buf : List (BitVec 8)) : ℕ → BitVec 64 → BitVec 64
  | 0, dst => dst
  | k + 1, dst => orBytes buf k (dst ||| widen (promote (buf.getD k 0) <<< (8 * k)))

/-- The decoders for the low byte first. -/
def idToU64 (unused size : ℕ) (src : BitString) : Option (BitVec 64) :=
  if src.bitsUnused = unused ∧ src.buf.length = size then
    let dst := widen (promote (src.buf.getD (size - 1) 0) >>> unused)
    some (orBytes src.buf (size - 1) (dst <<< (8 * (size - 1))))
  else none

/-- `cp_amf_region_id_to_bit_string` -/
def cpAmfRegionIdToBitString (src : BitVec 8) : BitString := ⟨0, [src]⟩

/-- `cp_amf_region_id_to_u8` -/
def cpAmfRegionIdToU8 (src : BitString) : Option (BitVec 8) :=
  if src.bitsUnused = 0 ∧ src.buf.length = 1 then some (src.buf.getD 0 0) else none

/-- `cp_amf_set_id_to_bit_string` -/
def cpAmfSetIdToBitString (val : BitVec 16) : Option BitString :=
  if val.toNat < 1024 then
    some ⟨6, [(((val.setWidth 32 : BitVec 32) <<< 6) >>> 8).setWidth 8,
      ((val.setWidth 32 : BitVec 32) <<< 6).setWidth 8]⟩
  else none

/-- `cp_amf_set_id_to_u16` -/
def cpAmfSetIdToU16 (src : BitString) : Option (BitVec 16) :=
  if src.bitsUnused = 6 ∧ src.buf.length = 2 then
    some (((promote (src.buf.getD 0 0) <<< 8) >>> 6 ||| promote (src.buf.getD 1 0) >>> 6).setWidth
      16)
  else none

/-- `cp_amf_ptr_to_bit_string` -/
def cpAmfPtrToBitString (src : BitVec 8) : Option BitString :=
  if src.toNat < 64 then some ⟨2, [(promote src <<< 2).setWidth 8]⟩ else none

/-- `cp_amf_ptr_to_u8` -/
def cpAmfPtrToU8 (src : BitString) : Option (BitVec 8) :=
  if src.bitsUnused = 2 ∧ src.buf.length = 1 then
    some ((promote (src.buf.getD 0 0) >>> 2).setWidth 8)
  else none

/-- `cp_nr_cell_id_to_bit_string` -/
def cpNrCellIdToBitString (val : BitVec 64) : Option BitString := idToBitString 36 4 5 val

/-- `cp_nr_cell_id_to_u64` -/
def cpNrCellIdToU64 (src : BitString) : Option (BitVec 64) := idToU64 4 5 src

/-- `cp_eutra_cell_id_to_bit_string` -/
def cpEutraCellIdToBitString (val : BitVec 32) : Option BitString := idToBitString 28 4 4 val

/-- `cp_eutra_cell_id_to_u32` -/
def cpEutraCellIdToU32 (src : BitString) : Option (BitVec 32) :=
  (idToU64 4 4 src).map (·.setWidth 32)

/-! ### Base stations -/

/-- `cp_macro_enb_id_to_bit_string` -/
def cpMacroEnbIdToBitString (val : BitVec 32) : Option BitString := idToBitString 20 4 3 val

/-- `cp_macro_enb_id_to_u32` -/
def cpMacroEnbIdToU32 (src : BitString) : Option (BitVec 32) :=
  (idToU64 4 3 src).map (·.setWidth 32)

/-- `cp_home_enb_id_to_bit_string` -/
def cpHomeEnbIdToBitString (val : BitVec 32) : Option BitString := idToBitString 28 4 4 val

/-- `cp_home_enb_id_to_u32` -/
def cpHomeEnbIdToU32 (src : BitString) : Option (BitVec 32) :=
  (idToU64 4 4 src).map (·.setWidth 32)

/-- `cp_short_macro_enb_id_to_bit_string` -/
def cpShortMacroEnbIdToBitString (val : BitVec 32) : Option BitString := idToBitString 18 6 3 val

/-- `cp_short_macro_enb_id_to_u32` -/
def cpShortMacroEnbIdToU32 (src : BitString) : Option (BitVec 32) :=
  (idToU64 6 3 src).map (·.setWidth 32)

/-- `cp_long_macro_enb_id_to_bit_string` -/
def cpLongMacroEnbIdToBitString (val : BitVec 32) : Option BitString := idToBitString 21 3 3 val

/-- `cp_long_macro_enb_id_to_u32` -/
def cpLongMacroEnbIdToU32 (src : BitString) : Option (BitVec 32) :=
  (idToU64 3 3 src).map (·.setWidth 32)

/-- `cp_macro_ng_enb_id_to_bit_string` -/
def cpMacroNgEnbIdToBitString (val : BitVec 32) : Option BitString := idToBitString 20 4 3 val

/-- `cp_macro_ng_enb_id_to_u32` -/
def cpMacroNgEnbIdToU32 (src : BitString) : Option (BitVec 32) :=
  (idToU64 4 3 src).map (·.setWidth 32)

/-- `cp_short_macro_ng_enb_id_to_bit_string` -/
def cpShortMacroNgEnbIdToBitString (val : BitVec 32) : Option BitString :=
  idToBitString 18 6 3 val

/-- `cp_short_macro_ng_enb_id_to_u32` -/
def cpShortMacroNgEnbIdToU32 (src : BitString) : Option (BitVec 32) :=
  (idToU64 6 3 src).map (·.setWidth 32)

/-- `cp_long_macro_ng_enb_id_to_bit_string` -/
def cpLongMacroNgEnbIdToBitString (val : BitVec 32) : Option BitString :=
  idToBitString 21 3 3 val

/-- `cp_long_macro_ng_enb_id_to_u32` -/
def cpLongMacroNgEnbIdToU32 (src : BitString) : Option (BitVec 32) :=
  (idToU64 3 3 src).map (·.setWidth 32)

/-- `e2ap_gnb_id_t`: a gNB id of 32 bits without the unused ones. -/
structure E2apGnbId where
  nbId : BitVec 32
  unused : ℕ
  deriving DecidableEq

/-- `cp_gnb_id_to_bit_string` -/
def cpGnbIdToBitString (src : E2apGnbId) : Option BitString :=
  if src.unused < 11 ∧ (src.nbId.setWidth 64 : BitVec 64) >>> (32 - src.unused) = 0 then
    if src.unused > 7 then
      let u := src.unused - 8
      let m := (0xFF : BitVec 32) >>> u
      some ⟨src.unused % 8, [(0xFF &&& src.nbId >>> (16 - u)).setWidth 8,
        (0xFF &&& src.nbId >>> (8 - u)).setWidth 8, ((src.nbId &&& m) <<< u).setWidth 8]⟩
    else
      let u := src.unused
      let m := (0xFF : BitVec 32) >>> u
      some ⟨src.unused % 8, [(0xFF &&& src.nbId >>> (24 - u)).setWidth 8,
        (0xFF &&& src.nbId >>> (16 - u)).setWidth 8, (0xFF &&& src.nbId >>> (8 - u)).setWidth 8,
        ((src.nbId &&& m) <<< u).setWidth 8]⟩
  else none

/-- `cp_bit_string_to_gnb_id` -/
def cpBitStringToGnbId (src : BitString) : Option E2apGnbId :=
  let u := src.bitsUnused
  let b := fun i => promote (src.buf.getD i 0)
  if src.buf.length = 3 then
    if u < 3 then
      some ⟨b 0 <<< (16 - u) ||| b 1 <<< (8 - u) ||| b 2 >>> u, u + 8⟩
    else none
  else if src.buf.length = 4 then
    if u < 8 then
      some ⟨b 0 <<< (24 - u) ||| b 1 <<< (16 - u) ||| b 2 <<< (8 - u) ||| b 3 >>> u, u⟩
    else none
  else none

/-! ### Low byte first -/

theorem or_eq_add {a b k : ℕ} (ha : 2 ^ k ∣ a) (hb : b < 2 ^ k) : a ||| b = a + b := by
  obtain ⟨q, rfl⟩ := ha
  exact (Nat.two_pow_add_eq_or_of_lt hb q).symm

/-- A sum that is built from the high end takes the next byte below. -/
theorem mod_two_pow_add_eight (v k : ℕ) :
    v % 2 ^ (k + 8) = v / 2 ^ k % 256 * 2 ^ k + v % 2 ^ k := by
  rw [Nat.pow_add, Nat.mod_mul, Nat.mul_comm (2 ^ k), Nat.add_comm]

theorem toNat_promote (b : BitVec 8) : (promote b).toNat = b.toNat :=
  BitVec.toNat_setWidth_of_le (by decide)

theorem toNat_promote_shiftLeft (b : BitVec 8) {k : ℕ} (hk : k ≤ 24) :
    (promote b <<< k).toNat = b.toNat * 2 ^ k := by
  rw [BitVec.toNat_shiftLeft, toNat_promote, Nat.shiftLeft_eq, Nat.mod_eq_of_lt]
  calc b.toNat * 2 ^ k
      < 2 ^ 8 * 2 ^ k := Nat.mul_lt_mul_of_pos_right b.isLt (Nat.two_pow_pos k)
    _ = 2 ^ (8 + k) := (Nat.pow_add 2 8 k).symm
    _ ≤ 2 ^ 32 := Nat.pow_le_pow_right (by decide) (by omega)

/-- An `int` that is not negative keeps its value. -/
theorem toNat_widen {x : BitVec 32} (h : x.toNat < 2 ^ 31) : (widen x).toNat = x.toNat := by
  have hmsb : x.msb = false := by
    rw [BitVec.msb_eq_decide]
    exact decide_eq_false (Nat.not_le.mpr h)
  rw [widen, BitVec.signExtend_eq_setWidth_of_msb_false hmsb]
  exact BitVec.toNat_setWidth_of_le (by decide)

/-- As long as no byte makes an `int` negative, the bytes below are added. -/
theorem toNat_orBytes {buf : List (BitVec 8)} {v k : ℕ} {dst : BitVec 64}
    (hbuf : ∀ i < k, (buf.getD i 0).toNat = v / 2 ^ (8 * i) % 256)
    (hsign : ∀ i < k, (buf.getD i 0).toNat * 2 ^ (8 * i) < 2 ^ 31)
    (hk : k ≤ 4) (hdst : 2 ^ (8 * k) ∣ dst.toNat) :
    (orBytes buf k dst).toNat = dst.toNat + v % 2 ^ (8 * k) := by
  induction k generalizing dst with
  | zero => simp [orBytes, Nat.mod_one]
  | succ k ih =>
    have hbyte :
        (promote (buf.getD k 0) <<< (8 * k)).toNat = v / 2 ^ (8 * k) % 256 * 2 ^ (8 * k) := by
      rw [toNat_promote_shiftLeft _ (by omega), hbuf k (Nat.lt_succ_self k)]
    have hwiden : (widen (promote (buf.getD k 0) <<< (8 * k))).toNat =
        v / 2 ^ (8 * k) % 256 * 2 ^ (8 * k) := by
      rw [toNat_widen, hbyte]
      rw [hbyte, ← hbuf k (Nat.lt_succ_self k)]
      exact hsign k (Nat.lt_succ_self k)
    have hlt : v / 2 ^ (8 * k) % 256 * 2 ^ (8 * k) < 2 ^ (8 * (k + 1)) := by
      rw [Nat.mul_succ, Nat.add_comm, Nat.pow_add]
      exact Nat.mul_lt_mul_of_pos_right (Nat.mod_lt _ (by decide)) (Nat.two_pow_pos _)
    have hor : (dst ||| widen (promote (buf.getD k 0) <<< (8 * k))).toNat =
        dst.toNat + v / 2 ^ (8 * k) % 256 * 2 ^ (8 * k) := by
      rw [BitVec.toNat_or, hwiden, or_eq_add hdst hlt]
    have hdvd : 2 ^ (8 * k) ∣ dst.toNat :=
      Nat.dvd_trans (Nat.pow_dvd_pow 2 (by omega)) hdst
    rw [orBytes, ih (fun i hi => hbuf i (by omega)) (fun i hi => hsign i (by omega)) (by omega),
      hor,
      Nat.mul_succ, mod_two_pow_add_eight, Nat.add_assoc]
    rw [hor]
    exact Nat.dvd_add hdvd (Nat.dvd_mul_left _ _)

section LowByteFirst

variable {w bits unused size : ℕ} {val : BitVec w} {s : BitString}

theorem getD_buf_idToBitString (h : idToBitString bits unused size val = some s) {i : ℕ}
    (hi : i < size - 1) : (s.buf.getD i 0).toNat = val.toNat / 2 ^ (8 * i) % 256 := by
  rw [idToBitString] at h
  split_ifs at h
  obtain rfl := Option.some.inj h
  simp only [List.getD_eq_getElem?_getD]
  rw [List.getElem?_append_left (by simpa using hi), List.getElem?_map,
    List.getElem?_range hi, Option.map_some, Option.getD_some, BitVec.toNat_setWidth,
    BitVec.toNat_ushiftRight, Nat.shiftRight_eq_div_pow]

theorem last_buf_idToBitString (h : idToBitString bits unused size val = some s) :
    (s.buf.getD (size - 1) 0).toNat =
        val.toNat / 2 ^ (8 * (size - 1)) * 2 ^ unused % 2 ^ w % 256 := by
  rw [idToBitString] at h
  split_ifs at h
  obtain rfl := Option.some.inj h
  simp only [List.getD_eq_getElem?_getD]
  rw [List.getElem?_append_right (by simp)]
  simp [Nat.shiftRight_eq_div_pow, Nat.shiftLeft_eq]

/-- The bits above those of the last byte are the unused ones. -/
theorem div_last_lt {v : ℕ} (hv : v < 2 ^ bits) (hbits : bits + unused = 8 * size)
    (hsize : 0 < size)
    (hunused : unused ≤ 8) : v / 2 ^ (8 * (size - 1)) < 2 ^ (8 - unused) := by
  rw [Nat.div_lt_iff_lt_mul (Nat.two_pow_pos _), ← Nat.pow_add]
  have hexp : 8 - unused + 8 * (size - 1) = bits := by omega
  rwa [hexp]

/-- What is decoded, unless the sign of an `int` gets into the way. -/
theorem idToU64_idToBitString (h : idToBitString bits unused size val = some s)
    (hbits : bits + unused = 8 * size) (hpos : 0 < size) (hsize : size ≤ 5) (hunused : unused < 8)
    (hw : bits + unused ≤ w) (hsign : size = 5 → val.toNat / 2 ^ 24 % 256 < 128) :
    ∃ dst, idToU64 unused size s = some dst ∧ dst.toNat = val.toNat := by
  have hval : val.toNat < 2 ^ bits ∧ s.bitsUnused = unused ∧ s.buf.length = size := by
    have h' := h
    rw [idToBitString] at h'
    split_ifs at h' with hlt
    obtain rfl := Option.some.inj h'
    refine ⟨hlt, rfl, ?_⟩
    simp only [List.length_append, List.length_map, List.length_range, List.length_singleton]
    omega
  obtain ⟨hlt, hbitsUnused, hlength⟩ := hval
  have htop := div_last_lt hlt hbits hpos (Nat.le_of_lt hunused)
  -- the last byte holds the upper bits and nothing is lost
  have hshift : val.toNat / 2 ^ (8 * (size - 1)) * 2 ^ unused < 256 := by
    calc val.toNat / 2 ^ (8 * (size - 1)) * 2 ^ unused
        < 2 ^ (8 - unused) * 2 ^ unused := Nat.mul_lt_mul_of_pos_right htop (Nat.two_pow_pos _)
      _ = 2 ^ 8 := by rw [← Nat.pow_add, Nat.sub_add_cancel (Nat.le_of_lt hunused)]
  have hlast : (s.buf.getD (size - 1) 0).toNat =
      val.toNat / 2 ^ (8 * (size - 1)) * 2 ^ unused := by
    have hpow : 2 ^ 8 ≤ 2 ^ w := Nat.pow_le_pow_right (by decide) (by omega)
    rw [last_buf_idToBitString h, Nat.mod_eq_of_lt (Nat.lt_of_lt_of_le hshift hpow),
      Nat.mod_eq_of_lt hshift]
  have hint : (promote (s.buf.getD (size - 1) 0) >>> unused).toNat =
      val.toNat / 2 ^ (8 * (size - 1)) := by
    rw [BitVec.toNat_ushiftRight, toNat_promote, hlast, Nat.shiftRight_eq_div_pow,
      Nat.mul_div_cancel _ (Nat.two_pow_pos _)]
  have hdst : (widen (promote (s.buf.getD (size - 1) 0) >>> unused) <<< (8 * (size - 1))).toNat =
      val.toNat / 2 ^ (8 * (size - 1)) * 2 ^ (8 * (size - 1)) := by
    have hsmall : val.toNat / 2 ^ (8 * (size - 1)) < 2 ^ 31 :=
      Nat.lt_trans htop (Nat.pow_lt_pow_right (by decide) (by omega))
    have hwiden := toNat_widen (x := promote (s.buf.getD (size - 1) 0) >>> unused)
      (by rw [hint]; exact hsmall)
    rw [BitVec.toNat_shiftLeft, hwiden, hint, Nat.shiftLeft_eq, Nat.mod_eq_of_lt]
    calc val.toNat / 2 ^ (8 * (size - 1)) * 2 ^ (8 * (size - 1))
        ≤ val.toNat := Nat.div_mul_le_self _ _
      _ < 2 ^ bits := hlt
      _ ≤ 2 ^ 64 := Nat.pow_le_pow_right (by decide) (by omega)
  have hbyte : ∀ i < size - 1,
      (s.buf.getD i 0).toNat = val.toNat / 2 ^ (8 * i) % 256 :=
    fun i hi => getD_buf_idToBitString h hi
  have hsigns : ∀ i < size - 1, (s.buf.getD i 0).toNat * 2 ^ (8 * i) < 2 ^ 31 := by
    intro i hi
    have hmod : val.toNat / 2 ^ (8 * i) % 256 < 256 := Nat.mod_lt _ (by decide)
    rw [hbyte i hi]
    -- only the fourth byte reaches the sign
    have hi' : i = 0 ∨ i = 1 ∨ i = 2 ∨ i = 3 ∧ size = 5 := by omega
    rcases hi' with rfl | rfl | rfl | ⟨rfl, h5⟩
    · omega
    · omega
    · omega
    · have := hsign h5
      omega
  have hdvd : 2 ^ (8 * (size - 1)) ∣
      (widen (promote (s.buf.getD (size - 1) 0) >>> unused) <<< (8 * (size - 1))).toNat := by
    rw [hdst]
    exact Nat.dvd_mul_left _ _
  refine ⟨_, if_pos ⟨hbitsUnused, hlength⟩, ?_⟩
  rw [toNat_orBytes hbyte hsigns (by omega) hdvd, hdst, Nat.div_add_mod']

/-- Bits that are set stay set. -/
theorem getLsbD_orBytes {buf : List (BitVec 8)} {k j : ℕ} {dst : BitVec 64}
    (h : dst.getLsbD j = true) : (orBytes buf k dst).getLsbD j = true := by
  induction k generalizing dst with
  | zero => exact h
  | succ k ih =>
    apply ih
    rw [BitVec.getLsbD_or, h, Bool.true_or]

/-- The upper half of a decoded NR cell id is filled with the bit 31. -/
theorem getLsbD_cpNrCellIdToU64 {id dst : BitVec 64} (h : cpNrCellIdToBitString id = some s)
    (hbit : id.getLsbD 31 = true) (hdst : cpNrCellIdToU64 s = some dst) :
    dst.getLsbD 63 = true := by
  rw [cpNrCellIdToBitString, idToBitString] at h
  split_ifs at h
  obtain rfl := Option.some.inj h
  rw [cpNrCellIdToU64, idToU64] at hdst
  split_ifs at hdst
  obtain rfl := Option.some.inj hdst
  change (orBytes _ (3 + 1) _).getLsbD 63 = true
  rw [orBytes]
  apply getLsbD_orBytes
  rw [BitVec.getLsbD_or, Bool.or_eq_true]
  right
  rw [widen, BitVec.getLsbD_signExtend]
  simpa [promote, BitVec.msb_eq_getLsbD_last] using hbit

theorem lt_of_idToBitString (h : idToBitString bits unused size val = some s) :
    val.toNat < 2 ^ bits := by
  rw [idToBitString] at h
  split_ifs at h with hlt
  exact hlt

/-- An NR cell id comes back exactly without bit 31. -/
theorem cpNrCellIdToU64_eq_iff {id : BitVec 64} (h : cpNrCellIdToBitString id = some s) :
    cpNrCellIdToU64 s = some id ↔ id.getLsbD 31 = false := by
  constructor
  · intro hdst
    cases hbit : id.getLsbD 31 with
    | false => rfl
    | true =>
      have htop := getLsbD_cpNrCellIdToU64 h hbit hdst
      have hlt := Nat.lt_of_lt_of_le (lt_of_idToBitString h)
        (Nat.pow_le_pow_right (by decide) (by decide : 36 ≤ 63))
      rw [BitVec.getLsbD, Nat.testBit_lt_two_pow hlt] at htop
      exact Bool.noConfusion htop
  · intro hbit
    have hsign : id.toNat / 2 ^ 24 % 256 < 128 := by
      rw [BitVec.getLsbD, Nat.testBit_eq_decide_div_mod_eq, decide_eq_false_iff_not] at hbit
      omega
    obtain ⟨dst, hdst, hval⟩ := idToU64_idToBitString h (by decide) (by decide) (by decide)
      (by decide) (by decide) fun _ => hsign
    rw [cpNrCellIdToU64, hdst, BitVec.eq_of_toNat_eq hval]

/-- The ids of less than 32 bits come back. -/
theorem idToU64_map_setWidth {id : BitVec 32} (h : idToBitString bits unused size id = some s)
    (hbits : bits + unused = 8 * size) (hpos : 0 < size) (hsize : size ≤ 4) (hunused : unused < 8) :
    (idToU64 unused size s).map (·.setWidth 32) = some id := by
  obtain ⟨dst, hdst, hval⟩ := idToU64_idToBitString h hbits hpos (by omega) hunused (by omega)
    (by omega)
  rw [hdst, Option.map_some, Option.some_inj]
  apply BitVec.eq_of_toNat_eq
  rw [BitVec.toNat_setWidth, hval, Nat.mod_eq_of_lt id.isLt]

end LowByteFirst

theorem cpAmfSetIdToU16_cpAmfSetIdToBitString {id : BitVec 16} {s : BitString}
    (h : cpAmfSetIdToBitString id = some s) : cpAmfSetIdToU16 s = some id := by
  rw [cpAmfSetIdToBitString] at h
  split_ifs at h with hlt
  obtain rfl := Option.some.inj h
  rw [cpAmfSetIdToU16, if_pos ⟨rfl, rfl⟩, Option.some_inj]
  apply BitVec.eq_of_toNat_eq
  have hint : ((id.setWidth 32 : BitVec 32) <<< 6).toNat = id.toNat * 64 := by
    rw [BitVec.toNat_shiftLeft, BitVec.toNat_setWidth, Nat.shiftLeft_eq]
    omega
  have hhigh : ((((id.setWidth 32 : BitVec 32) <<< 6) >>> 8).setWidth 8 : BitVec 8).toNat =
      id.toNat / 4 := by
    rw [BitVec.toNat_setWidth, BitVec.toNat_ushiftRight, hint, Nat.shiftRight_eq_div_pow]
    omega
  have hlow : (((id.setWidth 32 : BitVec 32) <<< 6).setWidth 8 : BitVec 8).toNat =
      id.toNat % 4 * 64 := by
    rw [BitVec.toNat_setWidth, hint]
    omega
  have hor : id.toNat / 4 * 4 ||| id.toNat % 4 = id.toNat / 4 * 4 + id.toNat % 4 :=
    or_eq_add (k := 2) (Nat.dvd_mul_left _ _) (Nat.mod_lt _ (by decide))
  simp only [List.getD_cons_zero, List.getD_cons_succ]
  rw [BitVec.toNat_setWidth, BitVec.toNat_or, BitVec.toNat_ushiftRight, BitVec.toNat_ushiftRight,
    toNat_promote_shiftLeft _ (by decide), toNat_promote, hhigh, hlow, Nat.shiftRight_eq_div_pow,
    Nat.shiftRight_eq_div_pow]
  have hfour : id.toNat / 4 * 2 ^ 8 / 2 ^ 6 = id.toNat / 4 * 4 := by omega
  have hone : id.toNat % 4 * 64 / 2 ^ 6 = id.toNat % 4 := by omega
  rw [hfour, hone, hor]
  omega

theorem cpAmfPtrToU8_cpAmfPtrToBitString {id : BitVec 8} {s : BitString}
    (h : cpAmfPtrToBitString id = some s) : cpAmfPtrToU8 s = some id := by
  rw [cpAmfPtrToBitString] at h
  split_ifs at h with hlt
  obtain rfl := Option.some.inj h
  rw [cpAmfPtrToU8, if_pos ⟨rfl, rfl⟩, Option.some_inj]
  apply BitVec.eq_of_toNat_eq
  have hbyte : ((promote id <<< 2).setWidth 8 : BitVec 8).toNat = id.toNat * 4 := by
    rw [BitVec.toNat_setWidth, toNat_promote_shiftLeft _ (by decide)]
    omega
  rw [List.getD_cons_zero, BitVec.toNat_setWidth, BitVec.toNat_ushiftRight, toNat_promote, hbyte,
    Nat.shiftRight_eq_div_pow]
  omega

/-! ### gNB ids -/

theorem toNat_mask (x : BitVec 32) :
    ((0xFF &&& x).setWidth 8 : BitVec 8).toNat = x.toNat % 256 := by
  rw [BitVec.toNat_setWidth, BitVec.toNat_and, Nat.and_comm]
  change (x.toNat &&& 2 ^ 8 - 1) % 2 ^ 8 = x.toNat % 256
  rw [Nat.and_two_pow_sub_one_eq_mod, Nat.mod_mod]

/-- A byte of a gNB id, and where it goes. -/
theorem toNat_gnbIdByte (x : BitVec 32) {k : ℕ} (hk : k ≤ 24) :
    (promote ((0xFF &&& x >>> k).setWidth 8) <<< k).toNat = x.toNat / 2 ^ k % 256 * 2 ^ k := by
  rw [toNat_promote_shiftLeft _ hk, toNat_mask, BitVec.toNat_ushiftRight,
    Nat.shiftRight_eq_div_pow]

/-- The last byte, with its unused bits. -/
theorem toNat_gnbIdLast (x : BitVec 32) {u : ℕ} (hu : u < 8) :
    (promote (((x &&& (0xFF : BitVec 32) >>> u) <<< u).setWidth 8) >>> u).toNat =
      x.toNat % 2 ^ (8 - u) := by
  have hmask : ((0xFF : BitVec 32) >>> u).toNat = 2 ^ (8 - u) - 1 := by
    revert u
    decide
  have hlt : x.toNat % 2 ^ (8 - u) * 2 ^ u < 2 ^ 8 := by
    calc x.toNat % 2 ^ (8 - u) * 2 ^ u
        < 2 ^ (8 - u) * 2 ^ u :=
          Nat.mul_lt_mul_of_pos_right (Nat.mod_lt _ (Nat.two_pow_pos _)) (Nat.two_pow_pos u)
      _ = 2 ^ 8 := by rw [← Nat.pow_add, Nat.sub_add_cancel (Nat.le_of_lt hu)]
  rw [BitVec.toNat_ushiftRight, toNat_promote, BitVec.toNat_setWidth, BitVec.toNat_shiftLeft,
    BitVec.toNat_and, hmask, Nat.and_two_pow_sub_one_eq_mod, Nat.shiftLeft_eq,
    Nat.mod_eq_of_lt (Nat.lt_trans hlt (by decide)), Nat.mod_eq_of_lt hlt,
    Nat.shiftRight_eq_div_pow, Nat.mul_div_cancel _ (Nat.two_pow_pos u)]

/-- The next byte below joins what is above it. -/
theorem or_byte {a k m : ℕ} (v : ℕ) (hm : k + 8 = m) (ha : 2 ^ m ∣ a) :
    a ||| v / 2 ^ k % 256 * 2 ^ k = a + v / 2 ^ k % 256 * 2 ^ k ∧
      2 ^ k ∣ a + v / 2 ^ k % 256 * 2 ^ k := by
  subst hm
  constructor
  · apply or_eq_add ha
    rw [Nat.add_comm k 8, Nat.pow_add]
    exact Nat.mul_lt_mul_of_pos_right (Nat.mod_lt _ (by decide)) (Nat.two_pow_pos k)
  · exact Nat.dvd_add (Nat.dvd_trans (Nat.pow_dvd_pow 2 (by omega)) ha) (Nat.dvd_mul_left _ _)

theorem mod_lt_two_pow_eight_sub (v u : ℕ) : v % 2 ^ (8 - u) < 2 ^ (8 - u) :=
  Nat.mod_lt _ (Nat.two_pow_pos _)

/-- Three bytes, the last one with `u` unused bits. -/
theorem gnbId_three_bytes (x : BitVec 32) {u : ℕ} (hu : u < 8) (hx : x.toNat < 2 ^ (24 - u)) :
    promote ((0xFF &&& x >>> (16 - u)).setWidth 8) <<< (16 - u) |||
      promote ((0xFF &&& x >>> (8 - u)).setWidth 8) <<< (8 - u) |||
        promote (((x &&& (0xFF : BitVec 32) >>> u) <<< u).setWidth 8) >>> u = x := by
  apply BitVec.eq_of_toNat_eq
  rw [BitVec.toNat_or, BitVec.toNat_or, toNat_gnbIdByte _ (by omega), toNat_gnbIdByte _ (by omega),
    toNat_gnbIdLast _ hu]
  have h16 : 8 - u + 8 = 16 - u := by omega
  have h24 : 16 - u + 8 = 24 - u := by omega
  have hfirst := or_byte x.toNat h16
    (Nat.dvd_mul_left (2 ^ (16 - u)) (x.toNat / 2 ^ (16 - u) % 256))
  rw [hfirst.1, or_eq_add hfirst.2 (mod_lt_two_pow_eight_sub _ u), Nat.add_assoc,
    ← mod_two_pow_add_eight, h16, ← mod_two_pow_add_eight, h24, Nat.mod_eq_of_lt hx]

/-- Four bytes, the last one with `u` unused bits. -/
theorem gnbId_four_bytes (x : BitVec 32) {u : ℕ} (hu : u < 8) (hx : x.toNat < 2 ^ (32 - u)) :
    promote ((0xFF &&& x >>> (24 - u)).setWidth 8) <<< (24 - u) |||
      promote ((0xFF &&& x >>> (16 - u)).setWidth 8) <<< (16 - u) |||
        promote ((0xFF &&& x >>> (8 - u)).setWidth 8) <<< (8 - u) |||
          promote (((x &&& (0xFF : BitVec 32) >>> u) <<< u).setWidth 8) >>> u = x := by
  apply BitVec.eq_of_toNat_eq
  rw [BitVec.toNat_or, BitVec.toNat_or, BitVec.toNat_or, toNat_gnbIdByte _ (by omega),
    toNat_gnbIdByte _ (by omega), toNat_gnbIdByte _ (by omega), toNat_gnbIdLast _ hu]
  have h16 : 8 - u + 8 = 16 - u := by omega
  have h24 : 16 - u + 8 = 24 - u := by omega
  have h32 : 24 - u + 8 = 32 - u := by omega
  have hfirst := or_byte x.toNat h24
    (Nat.dvd_mul_left (2 ^ (24 - u)) (x.toNat / 2 ^ (24 - u) % 256))
  have hsecond := or_byte x.toNat h16 hfirst.2
  rw [hfirst.1, hsecond.1, or_eq_add hsecond.2 (mod_lt_two_pow_eight_sub _ u), Nat.add_assoc,
    ← mod_two_pow_add_eight, h16, Nat.add_assoc, ← mod_two_pow_add_eight, h24,
    ← mod_two_pow_add_eight, h32, Nat.mod_eq_of_lt hx]

theorem toNat_lt_of_shiftRight_eq_zero {x : BitVec 32} {k : ℕ}
    (h : (x.setWidth 64 : BitVec 64) >>> k = 0) : x.toNat < 2 ^ k := by
  have hzero := congrArg BitVec.toNat h
  rw [BitVec.toNat_ushiftRight, BitVec.toNat_setWidth_of_le (by decide), Nat.shiftRight_eq_div_pow]
    at hzero
  exact (Nat.div_eq_zero_iff_lt (Nat.two_pow_pos k)).mp hzero

theorem cpBitStringToGnbId_cpGnbIdToBitString {id : E2apGnbId} {s : BitString}
    (h : cpGnbIdToBitString id = some s) : cpBitStringToGnbId s = some id := by
  rcases id with ⟨nbId, unused⟩
  rw [cpGnbIdToBitString] at h
  split_ifs at h with haccepted hbytes
  · obtain ⟨hunused, hzero⟩ := haccepted
    have hlt := toNat_lt_of_shiftRight_eq_zero hzero
    dsimp only at hunused hbytes hlt
    obtain ⟨u, rfl⟩ : ∃ u, unused = u + 8 := ⟨unused - 8, by omega⟩
    have hmod : (u + 8) % 8 = u := by omega
    have hexp : 32 - (u + 8) = 24 - u := by omega
    obtain rfl := Option.some.inj h
    simp only [cpBitStringToGnbId, Nat.add_sub_cancel, hmod, List.length_cons, List.length_nil,
      List.getD_cons_zero, List.getD_cons_succ]
    rw [if_pos trivial, if_pos (by omega), gnbId_three_bytes _ (by omega) (hexp ▸ hlt)]
  · obtain ⟨-, hzero⟩ := haccepted
    have hlt := toNat_lt_of_shiftRight_eq_zero hzero
    dsimp only at hbytes hlt
    have hu : unused < 8 := by omega
    obtain rfl := Option.some.inj h
    simp only [cpBitStringToGnbId, Nat.mod_eq_of_lt hu, List.length_cons, List.length_nil,
      List.getD_cons_zero, List.getD_cons_succ]
    rw [if_neg (by decide), if_pos trivial, if_pos hu, gnbId_four_bytes _ hu hlt]

/-! ### All kinds -/

/-- An identifier of some kind. -/
inductive Identifier
  | amfRegionId (id : BitVec 8)
  | amfSetId (id : BitVec 16)
  | amfPtr (id : BitVec 8)
  | nrCellId (id : BitVec 64)
  | eutraCellId (id : BitVec 32)
  | macroEnbId (id : BitVec 32)
  | homeEnbId (id : BitVec 32)
  | shortMacroEnbId (id : BitVec 32)
  | longMacroEnbId (id : BitVec 32)
  | macroNgEnbId (id : BitVec 32)
  | shortMacroNgEnbId (id : BitVec 32)
  | longMacroNgEnbId (id : BitVec 32)
  | gnbId (id : E2apGnbId)
  deriving DecidableEq

namespace Identifier

/-- The bit string that the encoder of its kind produces, if it accepts the identifier. -/
def encode : Identifier → Option BitString
  | amfRegionId id => some (cpAmfRegionIdToBitString id)
  | amfSetId id => cpAmfSetIdToBitString id
  | amfPtr id => cpAmfPtrToBitString id
  | nrCellId id => cpNrCellIdToBitString id
  | eutraCellId id => cpEutraCellIdToBitString id
  | macroEnbId id => cpMacroEnbIdToBitString id
  | homeEnbId id => cpHomeEnbIdToBitString id
  | shortMacroEnbId id => cpShortMacroEnbIdToBitString id
  | longMacroEnbId id => cpLongMacroEnbIdToBitString id
  | macroNgEnbId id => cpMacroNgEnbIdToBitString id
  | shortMacroNgEnbId id => cpShortMacroNgEnbIdToBitString id
  | longMacroNgEnbId id => cpLongMacroNgEnbIdToBitString id
  | gnbId id => cpGnbIdToBitString id

/-- The identifier that the decoder for the same kind reads from a bit string, if it accepts it. -/
def decode (src : BitString) : Identifier → Option Identifier
  | amfRegionId _ => (cpAmfRegionIdToU8 src).map amfRegionId
  | amfSetId _ => (cpAmfSetIdToU16 src).map amfSetId
  | amfPtr _ => (cpAmfPtrToU8 src).map amfPtr
  | nrCellId _ => (cpNrCellIdToU64 src).map nrCellId
  | eutraCellId _ => (cpEutraCellIdToU32 src).map eutraCellId
  | macroEnbId _ => (cpMacroEnbIdToU32 src).map macroEnbId
  | homeEnbId _ => (cpHomeEnbIdToU32 src).map homeEnbId
  | shortMacroEnbId _ => (cpShortMacroEnbIdToU32 src).map shortMacroEnbId
  | longMacroEnbId _ => (cpLongMacroEnbIdToU32 src).map longMacroEnbId
  | macroNgEnbId _ => (cpMacroNgEnbIdToU32 src).map macroNgEnbId
  | shortMacroNgEnbId _ => (cpShortMacroNgEnbIdToU32 src).map shortMacroNgEnbId
  | longMacroNgEnbId _ => (cpLongMacroNgEnbIdToU32 src).map longMacroNgEnbId
  | gnbId _ => (cpBitStringToGnbId src).map gnbId

end Identifier

def Identifier.LacksBit31 : Identifier → Prop
  | nrCellId id => id.getLsbD 31 = false
  | _ => True

theorem map_constructor_eq {α : Type} {f : α → Identifier} (hf : f.Injective) {x : Option α}
    {a : α} : x.map f = some (f a) ↔ x = some a := by
  rw [Option.map_eq_some_iff]
  constructor
  · rintro ⟨b, hb, heq⟩
    rw [hb, hf heq]
  · intro hx
    exact ⟨a, hx, rfl⟩

theorem map_idToU64 (f : BitVec 32 → Identifier) {bits unused size : ℕ} {id : BitVec 32}
    {s : BitString} (h : idToBitString bits unused size id = some s)
    (hfits : bits + unused = 8 * size ∧ 0 < size ∧ size ≤ 4 ∧ unused < 8) :
    ((idToU64 unused size s).map (·.setWidth 32)).map f = some (f id) := by
  obtain ⟨hbits, hpos, hsize, hunused⟩ := hfits
  rw [idToU64_map_setWidth h hbits hpos hsize hunused, Option.map_some]

/-- An identifier that its encoder accepts is decoded to itself exactly if it is not an NR cell id
with bit 31. -/
theorem decode_encode_iff {id : Identifier} {s : BitString} (h : id.encode = some s) :
    id.decode s = some id ↔ id.LacksBit31 := by
  cases id with
  | nrCellId id =>
    exact (map_constructor_eq fun _ _ => Identifier.nrCellId.inj).trans (cpNrCellIdToU64_eq_iff h)
  | amfRegionId id =>
    obtain rfl := Option.some.inj h
    exact iff_of_true rfl trivial
  | amfSetId id =>
    exact iff_of_true (congrArg (Option.map _) (cpAmfSetIdToU16_cpAmfSetIdToBitString h)) trivial
  | amfPtr id =>
    exact iff_of_true (congrArg (Option.map _) (cpAmfPtrToU8_cpAmfPtrToBitString h)) trivial
  | gnbId id =>
    exact iff_of_true (congrArg (Option.map _) (cpBitStringToGnbId_cpGnbIdToBitString h)) trivial
  | eutraCellId id =>
    exact iff_of_true (map_idToU64 _ h (by decide)) trivial
  | macroEnbId id =>
    exact iff_of_true (map_idToU64 _ h (by decide)) trivial
  | homeEnbId id =>
    exact iff_of_true (map_idToU64 _ h (by decide)) trivial
  | shortMacroEnbId id =>
    exact iff_of_true (map_idToU64 _ h (by decide)) trivial
  | longMacroEnbId id =>
    exact iff_of_true (map_idToU64 _ h (by decide)) trivial
  | macroNgEnbId id =>
    exact iff_of_true (map_idToU64 _ h (by decide)) trivial
  | shortMacroNgEnbId id =>
    exact iff_of_true (map_idToU64 _ h (by decide)) trivial
  | longMacroNgEnbId id =>
    exact iff_of_true (map_idToU64 _ h (by decide)) trivial

/-- A gNB id of 22 bits comes back with its length. -/
theorem decode_encode_gnbId :
    (Identifier.gnbId ⟨0x3ABCDE, 10⟩).decode ⟨2, [0xEA, 0xF3, 0x78]⟩ =
      some (.gnbId ⟨0x3ABCDE, 10⟩) := by
  have h : (Identifier.gnbId ⟨0x3ABCDE, 10⟩).encode = some ⟨2, [0xEA, 0xF3, 0x78]⟩ := rfl
  exact (decode_encode_iff h).mpr trivial

/-- Every identifier comes back. -/
def DecodesEncoded : Prop :=
  ∀ (id : Identifier) (s : BitString), id.encode = some s → id.decode s = some id

/-- The NR cell id with bit 31 alone comes back with 32 more bits. -/
theorem not_decodesEncoded : ¬ DecodesEncoded := by
  intro h
  have hdecode := h (.nrCellId 0x80000000) ⟨4, [0, 0, 0, 0x80, 0]⟩ (by decide)
  have hextended : (Identifier.nrCellId 0x80000000).decode ⟨4, [0, 0, 0, 0x80, 0]⟩ =
      some (.nrCellId 0xFFFFFFFF80000000) := by
    decide
  rw [hextended] at hdecode
  exact absurd hdecode (by decide)

end LlmHric.Flexric
