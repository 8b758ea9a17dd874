import Mathlib.Data.Int.Notation
import Mathlib.Data.List.Sort
import Mathlib.Tactic.Common
import LlmHric.Library.Rounding

/-! `nr_compute_tbs` computes the number of bits of a transport block from the resources and the
code rate. The sizes come from a table up to 3824 bits, above that a block is made such that its
code blocks have equal sizes.

The computation is on unsigned words of 32 bits. It is written once for both readings of a word: one
wraps around, as the program does, and one has no value when the exact one does not fit. -/

namespace LlmHric.Mac

/-- A reading of an unsigned word of 32 bits, in a monad for what it gives for a value that does
not fit. -/
structure Word (M : Type → Type) [Monad M] where
  put : ℤ → M ℕ
  put_natCast : ∀ x : ℕ, x < 2 ^ 32 → put x = pure x

def Word.wrapping : Word Id where
  put x := (x % 2 ^ 32).toNat
  put_natCast x h := by
    have hmod : (x : ℤ) % 2 ^ 32 = x := Int.emod_eq_of_lt (Int.natCast_nonneg x) (by omega)
    rw [hmod]
    rfl

theorem Word.wrapping_put_lt (x : ℤ) : Id.run (Word.wrapping.put x) < 2 ^ 32 := by
  change (x % 2 ^ 32).toNat < 2 ^ 32
  omega

/-- Words that have to hold the exact value. -/
def Word.checked : Word Option where
  put x := if 0 ≤ x ∧ x < 2 ^ 32 then some x.toNat else none
  put_natCast x h := if_pos ⟨Int.natCast_nonneg x, by omega⟩

/-! ### The computation -/

/-- `Tbstable_nr` -/
def tbsTableNr : List ℕ :=
  [24, 32, 40, 48, 56, 64, 72, 80, 88, 96, 104, 112, 120, 128, 136, 144, 152, 160, 168, 176, 184,
    192, 208, 224, 240, 256, 272, 288, 304, 320, 336, 352, 368, 384, 408, 432, 456, 480, 504, 528,
    552, 576, 608, 640, 672, 704, 736, 768, 808, 848, 888, 928, 984, 1032, 1064, 1128, 1160, 1192,
    1224, 1256, 1288, 1320, 1352, 1416, 1480, 1544, 1608, 1672, 1736, 1800, 1864, 1928, 2024, 2088,
    2152, 2216, 2280, 2408, 2472, 2536, 2600, 2664, 2728, 2792, 2856, 2976, 3104, 3240, 3368, 3496,
    3624, 3752, 3824]

/-- `NR_MAX_PDSCH_TBS` -/
def nrMaxPdschTbs : ℕ := 3824

section

variable {M : Type → Type} [Monad M] (w : Word M)

/-- `CEILIDIV` on words. -/
def ceilIDivIn (a b : ℕ) : M ℕ := do
  let sum ← w.put (a + b)
  let sum ← w.put (sum - 1)
  return sum / b

/-- The size for `C` code blocks of at most `size` bits. -/
def evenTbsIn (npInfo size : ℕ) : M ℕ := do
  let bits ← w.put (npInfo + 24)
  let c ← ceilIDivIn w bits size
  let c8 ← w.put (c * 8)
  let q ← ceilIDivIn w bits c8
  let tbs ← w.put (c8 * q)
  w.put (tbs - 24)

/-- The second part of `nr_compute_tbs`: the size for a number of information bits. The logarithms
are of integers, so their integer part is exact, and minus infinity for 0 is below every bound. -/
def tbsOfInfoIn (R nInfo : ℕ) : M ℕ := do
  if nInfo ≤ nrMaxPdschTbs then
    let n := max 3 (nInfo.log2 - 6)
    let npInfo := max 24 (nInfo >>> n <<< n)
    return (tbsTableNr.find? (npInfo ≤ ·)).getD 0
  else
    let x ← w.put (nInfo - 24)
    let n := x.log2 - 5
    let one ← w.put (1 <<< n : ℕ)
    let twice ← w.put (x <<< 1 : ℕ)
    let sum ← w.put (twice + one)
    let step ← w.put (one <<< 1 : ℕ)
    let rounded ← w.put ((sum / step) <<< n : ℕ)
    let npInfo := max 3840 rounded
    if R ≤ 2560 then evenTbsIn w npInfo 3816
    else if npInfo > 8424 then evenTbsIn w npInfo 8424
    else
      let bits ← w.put (npInfo + 24)
      let q ← ceilIDivIn w bits 8
      let tbs ← w.put (q <<< 3 : ℕ)
      w.put (tbs - 24)

/-- The first part of `nr_compute_tbs`: the number of information bits. The code rate is given as 10
times its 1024 fold. -/
def nInfoIn (Qm R nbRb nbSymbSch nbDmrsPrb nbRbOh tbScaling Nl : ℕ) : M ℕ := do
  let nbpRe ← w.put (12 * nbSymbSch - nbDmrsPrb - nbRbOh)
  let nbRe ← w.put (min 156 nbpRe * nbRb : ℕ)
  let bits ← w.put (nbRe * (R / 5) : ℕ)
  let bits ← w.put (bits * Qm : ℕ)
  let bits ← w.put (bits * Nl : ℕ)
  return bits >>> 11 >>> tbScaling

/-- `nr_compute_tbs`, on words. -/
def nrComputeTbsIn (Qm R nbRb nbSymbSch nbDmrsPrb nbRbOh tbScaling Nl : ℕ) : M ℕ := do
  if Qm = 0 ∨ R = 0 ∨ nbRb = 0 ∨ Nl = 0 then return 0
  else
    let nInfo ← nInfoIn w Qm R nbRb nbSymbSch nbDmrsPrb nbRbOh tbScaling Nl
    tbsOfInfoIn w R nInfo

end

/-- `nr_compute_tbs` -/
def nrComputeTbs (Qm R nbRb nbSymbSch nbDmrsPrb nbRbOh tbScaling Nl : ℕ) : ℕ :=
  Id.run (nrComputeTbsIn .wrapping Qm R nbRb nbSymbSch nbDmrsPrb nbRbOh tbScaling Nl)

/-- `get_BG`: the LDPC base graph for `A` bits. The bound 0.6667 for the code rate is between 6827
and 6828 parts of 10240. -/
def getBg (A R : ℕ) : ℕ :=
  if A ≤ 292 ∨ (A ≤ nrMaxPdschTbs ∧ R ≤ 6827) ∨ R ≤ 2560 then 2 else 1

/-- The number of code blocks that `nr_segmentation` makes of `B` bits. -/
def nrSegmentationBlocks (B bg : ℕ) : ℕ :=
  let kcb := if bg = 1 then 8448 else 3840
  if B ≤ kcb then 1
  else
    let C := B / (kcb - 24)
    if (kcb - 24) * C < B then C + 1 else C

/-! ### The size without words -/

open Rounding

/-- The least size of the table that is not below `x`. -/
def tableSize (x : ℕ) : ℕ := (tbsTableNr.find? (x ≤ ·)).getD 0

/-- The number of information bits above the table, quantized. -/
def npInfoOf (nInfo : ℕ) : ℕ := max 3840 (nearest ((nInfo - 24).log2 - 5) (nInfo - 24))

/-- The size for a number of information bits, on natural numbers. -/
def tbsOfInfo (R nInfo : ℕ) : ℕ :=
  if nInfo ≤ nrMaxPdschTbs then tableSize (max 24 (truncate (max 3 (nInfo.log2 - 6)) nInfo))
  else if R ≤ 2560 then evenSize 8 3816 (npInfoOf nInfo + 24) - 24
  else if npInfoOf nInfo > 8424 then evenSize 8 8424 (npInfoOf nInfo + 24) - 24
  else 8 * ((npInfoOf nInfo + 24) ⌈/⌉ 8) - 24

section

variable {M : Type → Type} [Monad M] [LawfulMonad M] (w : Word M) {R nInfo : ℕ}

omit [LawfulMonad M] in
theorem Word.put_sub {a b : ℕ} (hle : b ≤ a) (h : a < 2 ^ 32) : w.put (a - b) = pure (a - b) := by
  have hcast : (a : ℤ) - b = ((a - b : ℕ) : ℤ) := (Nat.cast_sub hle).symm
  rw [hcast]
  exact w.put_natCast _ (by omega)

theorem ceilIDivIn_eq {a b : ℕ} (hb : 0 < b) (h : a + b < 2 ^ 32) :
    ceilIDivIn w a b = pure (a ⌈/⌉ b) := by
  have hcast : (a : ℤ) + b = ((a + b : ℕ) : ℤ) := (Nat.cast_add a b).symm
  have hsub : w.put ((a + b : ℕ) - 1) = pure (a + b - 1) := w.put_sub (b := 1) (by omega) h
  rw [ceilIDivIn, hcast, w.put_natCast _ h, pure_bind, hsub, pure_bind,
    Nat.ceilDiv_eq_add_pred_div]

theorem evenTbsIn_eq {npInfo size : ℕ} (hnp : npInfo < 2 ^ 24) (hsize : 0 < size)
    (hlt : size < 2 ^ 24) (hdvd : 8 ∣ size) :
    evenTbsIn w npInfo size = pure (evenSize 8 size (npInfo + 24) - 24) := by
  have hbits : (npInfo : ℤ) + 24 = ((npInfo + 24 : ℕ) : ℤ) := rfl
  have hblocks : (npInfo + 24) ⌈/⌉ size ≤ npInfo + 24 := by
    refine (blocks_le_iff hsize).mpr ?_
    exact Nat.le_mul_of_pos_left _ hsize
  have hpos : 0 < (npInfo + 24) ⌈/⌉ size := blocks_pos hsize (by omega)
  obtain ⟨c, hc⟩ : ∃ c, c = (npInfo + 24) ⌈/⌉ size := ⟨_, rfl⟩
  have hc8 : (c : ℤ) * 8 = ((8 * c : ℕ) : ℤ) := by
    rw [Nat.mul_comm]
    rfl
  have heven : 8 * c * ((npInfo + 24) ⌈/⌉ (8 * c)) = evenSize 8 size (npInfo + 24) := by
    rw [hc]
    rfl
  have hge : npInfo + 24 ≤ evenSize 8 size (npInfo + 24) :=
    le_evenSize (by decide) hsize (by omega)
  have hle : evenSize 8 size (npInfo + 24) < npInfo + 24 + size := by
    refine (evenSize_le (by decide) hsize (by omega) hdvd).trans_lt ?_
    have hfull := Nat.div_mul_le_self (npInfo + 24 + size - 1) size
    rw [blocks, Nat.ceilDiv_eq_add_pred_div, Nat.mul_comm]
    omega
  rw [← hc] at hblocks hpos
  rw [evenTbsIn, hbits, w.put_natCast _ (by omega), pure_bind, ceilIDivIn_eq w hsize (by omega),
    pure_bind, ← hc, hc8, w.put_natCast _ (by omega), pure_bind,
    ceilIDivIn_eq w (by omega) (by omega), pure_bind, ← Nat.cast_mul, heven,
    w.put_natCast _ (by omega), pure_bind]
  exact w.put_sub (b := 24) (by omega) (by omega)

/-- The quantized number is below the next power of two. -/
theorem npInfoOf_le {k : ℕ} (hk : 12 ≤ k) (h : nInfo ≤ 2 ^ k) : npInfoOf nInfo ≤ 2 ^ k := by
  have hbase : 2 ^ 12 ≤ 2 ^ k := Nat.pow_le_pow_right (by decide) hk
  refine Nat.max_le.mpr ⟨by omega, ?_⟩
  refine rounds_nearest.round_le _ (Nat.pow_dvd_pow 2 ?_) (by omega)
  by_cases hzero : nInfo - 24 = 0
  · rw [hzero, Nat.log2_zero]
    exact Nat.zero_le k
  · have hlog : (nInfo - 24).log2 < k + 1 :=
      (Nat.log2_lt hzero).mpr (by rw [Nat.pow_succ]; omega)
    omega

/-- The quantization is computed without an overflow. -/
theorem nearest_lt {x : ℕ} (hx : x < 2 ^ 21) :
    1 <<< (x.log2 - 5) < 2 ^ 16 ∧ x <<< 1 + 1 <<< (x.log2 - 5) < 2 ^ 23 ∧
      1 <<< (x.log2 - 5) <<< 1 < 2 ^ 17 ∧ nearest (x.log2 - 5) x ≤ 2 ^ 21 := by
  have hlog : x.log2 ≤ 20 := by
    by_cases hzero : x = 0
    · rw [hzero, Nat.log2_zero]
      exact Nat.zero_le _
    · exact Nat.le_of_lt_succ ((Nat.log2_lt hzero).mpr hx)
  have hone : 1 <<< (x.log2 - 5) ≤ 2 ^ 15 := by
    rw [Nat.one_shiftLeft]
    exact Nat.pow_le_pow_right (by decide) (by omega)
  have htwice : x <<< 1 = x * 2 := Nat.shiftLeft_eq x 1
  have hstep : 1 <<< (x.log2 - 5) <<< 1 = 1 <<< (x.log2 - 5) * 2 := Nat.shiftLeft_eq _ 1
  refine ⟨by omega, by omega, by omega, ?_⟩
  exact rounds_nearest.round_le _ (Nat.pow_dvd_pow 2 (by omega)) hx.le

/-- The size is computed without an overflow. -/
theorem tbsOfInfoIn_eq (h : nInfo < 2 ^ 21) : tbsOfInfoIn w R nInfo = pure (tbsOfInfo R nInfo) := by
  rw [tbsOfInfoIn, tbsOfInfo]
  by_cases htable : nInfo ≤ nrMaxPdschTbs
  · rw [if_pos htable, if_pos htable]
    rfl
  rw [if_neg htable, if_neg htable]
  have hlarge : 3824 < nInfo := Nat.not_le.mp htable
  have hx : w.put (nInfo - 24) = pure (nInfo - 24) := w.put_sub (b := 24) (by omega) (by omega)
  have hnp : npInfoOf nInfo ≤ 2 ^ 21 := npInfoOf_le (by decide) h.le
  have hnpDef : max 3840 (nearest ((nInfo - 24).log2 - 5) (nInfo - 24)) = npInfoOf nInfo := rfl
  obtain ⟨hone, hsum, hstep, hnearest⟩ := nearest_lt (x := nInfo - 24) (by omega)
  have hadd : (((nInfo - 24) <<< 1 : ℕ) : ℤ) + (1 <<< ((nInfo - 24).log2 - 5) : ℕ) =
      (((nInfo - 24) <<< 1 + 1 <<< ((nInfo - 24).log2 - 5) : ℕ) : ℤ) := (Nat.cast_add _ _).symm
  rw [nearest] at hnearest hnpDef
  rw [hx, pure_bind]
  dsimp only
  rw [w.put_natCast _ (by omega), pure_bind, w.put_natCast _ (by omega), pure_bind, hadd,
    w.put_natCast _ (by omega), pure_bind, w.put_natCast _ (by omega), pure_bind,
    w.put_natCast _ (by omega), pure_bind, hnpDef]
  split_ifs
  · exact evenTbsIn_eq w (by omega) (by decide) (by decide) (by decide)
  · exact evenTbsIn_eq w (by omega) (by decide) (by decide) (by decide)
  · have hbits : (npInfoOf nInfo : ℤ) + 24 = ((npInfoOf nInfo + 24 : ℕ) : ℤ) := rfl
    have hceil : (npInfoOf nInfo + 24) ⌈/⌉ 8 ≤ npInfoOf nInfo + 24 :=
      (blocks_le_iff (by decide)).mpr (by omega)
    have hfull : npInfoOf nInfo + 24 ≤ 8 * ((npInfoOf nInfo + 24) ⌈/⌉ 8) :=
      (blocks_le_iff (by decide)).mp le_rfl
    have hshift : ((npInfoOf nInfo + 24) ⌈/⌉ 8) <<< 3 = 8 * ((npInfoOf nInfo + 24) ⌈/⌉ 8) := by
      rw [Nat.shiftLeft_eq, Nat.mul_comm]
    rw [hbits, w.put_natCast _ (by omega), pure_bind, ceilIDivIn_eq w (by decide) (by omega),
      pure_bind, hshift, w.put_natCast _ (by omega), pure_bind]
    exact w.put_sub (b := 24) (by omega) (by omega)

end

/-! ### Properties of the size -/

section

variable {R nInfo nInfo' x y : ℕ}

theorem mem_tbsTableNr : ∀ s ∈ tbsTableNr, 24 ≤ s ∧ 8 ∣ s ∧ s ≤ nrMaxPdschTbs := by
  decide

theorem pairwise_tbsTableNr : tbsTableNr.Pairwise (· ≤ ·) := by
  decide

theorem tableSize_spec (hx : x ≤ nrMaxPdschTbs) : tableSize x ∈ tbsTableNr ∧ x ≤ tableSize x := by
  rw [tableSize]
  cases hfind : tbsTableNr.find? (x ≤ ·) with
  | none =>
    have hlast := List.find?_eq_none.mp hfind nrMaxPdschTbs (by decide)
    exact absurd hx (by simpa using hlast)
  | some s => exact ⟨List.mem_of_find?_eq_some hfind, by simpa using List.find?_some hfind⟩

/-- It is the least of them. -/
theorem tableSize_le {s : ℕ} (hs : s ∈ tbsTableNr) (hx : x ≤ s) : tableSize x ≤ s := by
  rw [tableSize]
  cases hfind : tbsTableNr.find? (x ≤ ·) with
  | none => exact Nat.zero_le s
  | some t =>
    obtain ⟨-, before, after, hsplit, hbefore⟩ := List.find?_eq_some_iff_append.mp hfind
    have hpairs := pairwise_tbsTableNr
    rw [hsplit] at hs hpairs
    rcases List.mem_append.mp hs with hearly | hlate
    · exact absurd hx (by simpa using hbefore s hearly)
    · rcases List.mem_cons.mp hlate with rfl | hafter
      · exact Nat.le_refl s
      · exact List.rel_of_pairwise_cons (List.pairwise_append.mp hpairs).2.1 hafter

theorem tableSize_mono (hxy : x ≤ y) (hy : y ≤ nrMaxPdschTbs) : tableSize x ≤ tableSize y :=
  tableSize_le (tableSize_spec hy).1 (hxy.trans (tableSize_spec hy).2)

/-- The number that is looked up in the table. -/
theorem truncated_le (h : nInfo ≤ nrMaxPdschTbs) :
    max 24 (truncate (max 3 (nInfo.log2 - 6)) nInfo) ≤ nrMaxPdschTbs :=
  Nat.max_le.mpr ⟨by decide, (truncate_le _ _).trans h⟩

theorem tbsOfInfo_mem (h : nInfo ≤ nrMaxPdschTbs) : tbsOfInfo R nInfo ∈ tbsTableNr := by
  rw [tbsOfInfo, if_pos h]
  exact (tableSize_spec (truncated_le h)).1

/-- The number of bits that a code block takes at most, by which the blocks are counted. A single
one takes the bits of its own checksum in addition. -/
def blockLimit (R npInfo : ℕ) : ℕ :=
  if R ≤ 2560 then 3816 else if npInfo > 8424 then 8424 else 8448

theorem blockLimit_pos (R npInfo : ℕ) : 0 < blockLimit R npInfo := by
  rw [blockLimit]
  split_ifs <;> decide

theorem dvd_blockLimit (R npInfo : ℕ) : 8 ∣ blockLimit R npInfo := by
  rw [blockLimit]
  split_ifs <;> decide

theorem le_npInfoOf (nInfo : ℕ) : 3840 ≤ npInfoOf nInfo := Nat.le_max_left _ _

/-- The three rules above the table are one. -/
theorem tbsOfInfo_eq (h : nrMaxPdschTbs < nInfo) :
    tbsOfInfo R nInfo + 24 =
      evenSize 8 (blockLimit R (npInfoOf nInfo)) (npInfoOf nInfo + 24) := by
  have hge : npInfoOf nInfo + 24 ≤
      evenSize 8 (blockLimit R (npInfoOf nInfo)) (npInfoOf nInfo + 24) :=
    le_evenSize (by decide) (blockLimit_pos _ _) (by omega)
  rw [tbsOfInfo, if_neg (Nat.not_le.mpr h)]
  rw [blockLimit] at hge ⊢
  split_ifs at hge ⊢ with hrate hlong
  · omega
  · omega
  · have hone : blocks 8448 (npInfoOf nInfo + 24) = 1 := by
      refine Nat.le_antisymm ((blocks_le_iff (by decide)).mpr (by omega)) ?_
      exact blocks_pos (by decide) (by omega)
    rw [evenSize, hone, Nat.mul_one] at hge ⊢
    omega

theorem npInfoOf_le_tbsOfInfo (h : nrMaxPdschTbs < nInfo) :
    npInfoOf nInfo ≤ tbsOfInfo R nInfo := by
  have hge : npInfoOf nInfo + 24 ≤ tbsOfInfo R nInfo + 24 := by
    rw [tbsOfInfo_eq h]
    exact le_evenSize (by decide) (blockLimit_pos _ _) (by omega)
  omega

theorem lt_tbsOfInfo_iff : nrMaxPdschTbs < tbsOfInfo R nInfo ↔ nrMaxPdschTbs < nInfo := by
  constructor
  · intro h
    by_contra hle
    have hmem := mem_tbsTableNr _ (tbsOfInfo_mem (R := R) (Nat.not_lt.mp hle))
    omega
  · intro h
    have hle := npInfoOf_le_tbsOfInfo (R := R) h
    have hbase := le_npInfoOf nInfo
    rw [nrMaxPdschTbs]
    omega

/-- A size is at least 24 and consists of bytes. -/
theorem tbsOfInfo_bytes (R nInfo : ℕ) : 24 ≤ tbsOfInfo R nInfo ∧ 8 ∣ tbsOfInfo R nInfo := by
  rcases Nat.lt_or_ge nrMaxPdschTbs nInfo with h | h
  · have hle := npInfoOf_le_tbsOfInfo (R := R) h
    have hbase := le_npInfoOf nInfo
    have hdvd : 8 ∣ tbsOfInfo R nInfo + 24 := by
      rw [tbsOfInfo_eq h, evenSize, Nat.mul_assoc]
      exact Nat.dvd_mul_right 8 _
    omega
  · have hmem := mem_tbsTableNr _ (tbsOfInfo_mem (R := R) h)
    exact ⟨hmem.1, hmem.2.1⟩

theorem npInfoOf_mono (hle : nInfo ≤ nInfo') : npInfoOf nInfo ≤ npInfoOf nInfo' := by
  refine max_le_max le_rfl (rounds_nearest.leading_mono (e := (· - 5)) ?_ (by omega))
  intro k l hkl
  omega

theorem truncated_mono (hle : nInfo ≤ nInfo') :
    max 24 (truncate (max 3 (nInfo.log2 - 6)) nInfo) ≤
      max 24 (truncate (max 3 (nInfo'.log2 - 6)) nInfo') := by
  refine max_le_max le_rfl (rounds_truncate.leading_mono (e := fun k => max 3 (k - 6)) ?_ hle)
  intro k l hkl
  omega

/-- More information bits never make a smaller transport block. -/
theorem tbsOfInfo_mono (hle : nInfo ≤ nInfo') : tbsOfInfo R nInfo ≤ tbsOfInfo R nInfo' := by
  rcases Nat.lt_or_ge nrMaxPdschTbs nInfo with h | h
  · -- both are above the table
    have h' := h.trans_le hle
    have hnp := npInfoOf_mono hle
    have hsize : tbsOfInfo R nInfo + 24 ≤ tbsOfInfo R nInfo' + 24 := by
      rw [tbsOfInfo_eq h]
      by_cases hlimit : blockLimit R (npInfoOf nInfo) = blockLimit R (npInfoOf nInfo')
      · rw [tbsOfInfo_eq h', hlimit]
        exact evenSize_mono (by decide) (blockLimit_pos _ _) (by omega) (dvd_blockLimit _ _)
          (by omega)
      · -- one block at most, and at least two
        have hfit : npInfoOf nInfo ≤ 8424 ∧ 8424 < npInfoOf nInfo' ∧
            blockLimit R (npInfoOf nInfo) = 8448 := by
          rw [blockLimit, blockLimit] at *
          split_ifs at * <;> omega
        obtain ⟨hsmall, hlarge, hone⟩ := hfit
        have hblocks : blocks 8448 (npInfoOf nInfo + 24) ≤ 1 :=
          (blocks_le_iff (by decide)).mpr (by omega)
        have heven : evenSize 8 8448 (npInfoOf nInfo + 24) ≤ 8448 * 1 :=
          (evenSize_le (by decide) (by decide) (by omega) (by decide)).trans
            (Nat.mul_le_mul_left _ hblocks)
        have hge := npInfoOf_le_tbsOfInfo (R := R) h'
        rw [hone]
        omega
    omega
  · rcases Nat.lt_or_ge nrMaxPdschTbs nInfo' with h' | h'
    · have hmem := mem_tbsTableNr _ (tbsOfInfo_mem (R := R) h)
      exact hmem.2.2.trans (lt_tbsOfInfo_iff.mpr h').le
    · rw [tbsOfInfo, tbsOfInfo, if_pos h, if_pos h']
      exact tableSize_mono (truncated_mono hle) (truncated_le h')

theorem nrSegmentationBlocks_of_le {B bg : ℕ} (h : B ≤ if bg = 1 then 8448 else 3840) :
    nrSegmentationBlocks B bg = 1 := if_pos h

/-- A transport block that does not fit into one code block. -/
theorem nrSegmentationBlocks_of_lt {B bg m : ℕ} (hm : m + 24 = if bg = 1 then 8448 else 3840)
    (hlt : m + 24 < B) : nrSegmentationBlocks B bg = blocks m B := by
  have hpos : 0 < m := by
    split_ifs at hm <;> omega
  rw [nrSegmentationBlocks, ← hm]
  dsimp only
  rw [if_neg (Nat.not_le.mpr hlt), Nat.add_sub_cancel]
  have hle : m * (B / m) ≤ B := Nat.mul_div_le B m
  have hgt : B < m * (B / m + 1) := by
    rw [Nat.mul_comm]
    exact Nat.lt_mul_of_div_lt (Nat.lt_succ_self _) hpos
  split_ifs with hrest
  · refine Nat.le_antisymm (Nat.not_lt.mp fun hlt => ?_) ((blocks_le_iff hpos).mpr hgt.le)
    have hfit := (blocks_le_iff hpos).mp (Nat.le_of_lt_succ hlt)
    omega
  · refine Nat.le_antisymm (Nat.div_le_of_le_mul ?_) ((blocks_le_iff hpos).mpr (by omega))
    exact (blocks_le_iff hpos).mp le_rfl

/-- Above the table all code blocks of a transport block have the same number of bytes. -/
theorem dvd_of_segmentation (h : nrMaxPdschTbs < tbsOfInfo R nInfo) :
    8 * nrSegmentationBlocks (tbsOfInfo R nInfo + 24) (getBg (tbsOfInfo R nInfo) R) ∣
      tbsOfInfo R nInfo + 24 := by
  have hinfo := lt_tbsOfInfo_iff.mp h
  have hbase := le_npInfoOf nInfo
  have hge := npInfoOf_le_tbsOfInfo (R := R) hinfo
  have hbg : getBg (tbsOfInfo R nInfo) R = if R ≤ 2560 then 2 else 1 := by
    rw [nrMaxPdschTbs] at h
    rw [getBg, nrMaxPdschTbs]
    split_ifs <;> omega
  have hblocks : nrSegmentationBlocks (tbsOfInfo R nInfo + 24) (getBg (tbsOfInfo R nInfo) R) =
      blocks (blockLimit R (npInfoOf nInfo)) (npInfoOf nInfo + 24) := by
    rw [hbg, ← blocks_evenSize (u := 8) (by decide) (blockLimit_pos R (npInfoOf nInfo)) (by omega)
      (dvd_blockLimit R (npInfoOf nInfo)), ← tbsOfInfo_eq hinfo]
    have heq := tbsOfInfo_eq (R := R) hinfo
    rw [blockLimit] at heq ⊢
    split_ifs at heq ⊢ with hrate hlong
    · exact nrSegmentationBlocks_of_lt rfl (by omega)
    · exact nrSegmentationBlocks_of_lt rfl (by omega)
    · have hle : tbsOfInfo R nInfo + 24 ≤ 8448 := by
        have hone : blocks 8448 (npInfoOf nInfo + 24) ≤ 1 :=
          (blocks_le_iff (by decide)).mpr (by omega)
        rw [heq]
        exact (evenSize_le (by decide) (by decide) (by omega) (by decide)).trans
          (Nat.mul_le_mul_left 8448 hone)
      rw [nrSegmentationBlocks_of_le hle]
      exact Nat.le_antisymm (blocks_pos (by decide) (by omega))
        ((blocks_le_iff (by decide)).mpr (by omega))
  rw [hblocks, tbsOfInfo_eq hinfo, evenSize]
  exact Nat.dvd_mul_right _ _

end

/-! ### The number of information bits -/

/-- The information bits of `re` resource elements in each resource block, times 2048. -/
def infoBits (re nbRb R Qm Nl : ℕ) : ℕ := re * nbRb * (R / 5) * Qm * Nl

section

variable {Qm R nbRb nbRb' nbSymbSch nbDmrsPrb nbRbOh tbScaling Nl nbpRe re : ℕ}

theorem infoBits_le_infoBits (hle : nbRb' ≤ nbRb) :
    infoBits re nbRb' R Qm Nl ≤ infoBits re nbRb R Qm Nl :=
  Nat.mul_le_mul_right _ (Nat.mul_le_mul_right _ (Nat.mul_le_mul_right _
    (Nat.mul_le_mul_left _ hle)))

/-- The bits of the largest grant fit into a word up to a code rate of 15644. -/
theorem infoBits_lt (hre : re ≤ 156) (hRb : nbRb ≤ 275) (hR : R ≤ 15644) (hQm : Qm ≤ 8)
    (hNl : Nl ≤ 4) : infoBits re nbRb R Qm Nl < 2 ^ 32 := by
  have hrate : R / 5 ≤ 3128 := by omega
  calc infoBits re nbRb R Qm Nl ≤ 156 * 275 * 3128 * 8 * 4 :=
        Nat.mul_le_mul (Nat.mul_le_mul (Nat.mul_le_mul (Nat.mul_le_mul hre hRb) hrate) hQm) hNl
    _ < 2 ^ 32 := by decide

theorem shiftRight_lt {bits : ℕ} (h : bits < 2 ^ 32) (s : ℕ) : bits >>> 11 >>> s < 2 ^ 21 := by
  refine (Nat.shiftRight_le _ s).trans_lt ?_
  rw [Nat.shiftRight_eq_div_pow]
  omega

variable {M : Type → Type} [Monad M] [LawfulMonad M] (w : Word M)

/-- The number of information bits, when the product of the factors fits. -/
theorem nInfoIn_eq (hput : w.put (12 * nbSymbSch - nbDmrsPrb - nbRbOh) = pure nbpRe)
    (hRb : nbRb ≤ 275) (hQm : 0 < Qm) (hNl : 0 < Nl)
    (h : infoBits (min 156 nbpRe) nbRb R Qm Nl < 2 ^ 32) :
    nInfoIn w Qm R nbRb nbSymbSch nbDmrsPrb nbRbOh tbScaling Nl =
      pure (infoBits (min 156 nbpRe) nbRb R Qm Nl >>> 11 >>> tbScaling) := by
  have hre : min 156 nbpRe * nbRb ≤ 156 * 275 := Nat.mul_le_mul (Nat.min_le_left _ _) hRb
  have hlayers : min 156 nbpRe * nbRb * (R / 5) * Qm ≤ infoBits (min 156 nbpRe) nbRb R Qm Nl :=
    Nat.le_mul_of_pos_right _ hNl
  have horder : min 156 nbpRe * nbRb * (R / 5) ≤ min 156 nbpRe * nbRb * (R / 5) * Qm :=
    Nat.le_mul_of_pos_right _ hQm
  rw [infoBits] at h hlayers ⊢
  rw [nInfoIn, hput, pure_bind, w.put_natCast _ (by omega), pure_bind,
    w.put_natCast _ (by omega), pure_bind, w.put_natCast _ (by omega), pure_bind,
    w.put_natCast _ h, pure_bind]

/-- The size, when the product of the factors fits. -/
theorem nrComputeTbsIn_eq (hput : w.put (12 * nbSymbSch - nbDmrsPrb - nbRbOh) = pure nbpRe)
    (hRb : nbRb ≤ 275) (h : infoBits (min 156 nbpRe) nbRb R Qm Nl < 2 ^ 32) :
    nrComputeTbsIn w Qm R nbRb nbSymbSch nbDmrsPrb nbRbOh tbScaling Nl =
      pure (if Qm = 0 ∨ R = 0 ∨ nbRb = 0 ∨ Nl = 0 then 0
        else tbsOfInfo R (infoBits (min 156 nbpRe) nbRb R Qm Nl >>> 11 >>> tbScaling)) := by
  rw [nrComputeTbsIn]
  by_cases hzero : Qm = 0 ∨ R = 0 ∨ nbRb = 0 ∨ Nl = 0
  · rw [if_pos hzero, if_pos hzero]
  · rw [if_neg hzero, if_neg hzero, nInfoIn_eq w hput hRb (by omega) (by omega) h, pure_bind,
      tbsOfInfoIn_eq w (shiftRight_lt h _)]

omit [LawfulMonad M] in
theorem put_nbpRe (h : nbDmrsPrb + nbRbOh ≤ 12 * nbSymbSch) (hsymb : nbSymbSch ≤ 14) :
    w.put (12 * nbSymbSch - nbDmrsPrb - nbRbOh) =
      pure (12 * nbSymbSch - nbDmrsPrb - nbRbOh) := by
  have hcast : (12 * nbSymbSch - nbDmrsPrb - nbRbOh : ℤ) =
      ((12 * nbSymbSch - nbDmrsPrb - nbRbOh : ℕ) : ℤ) := by omega
  rw [hcast]
  exact w.put_natCast _ (by omega)

end

/-! ### The program -/

section

variable {Qm R nbRb nbRb' nbSymbSch nbDmrsPrb nbRbOh tbScaling Nl : ℕ}

/-- Without an overflow the exact computation has the value of the one on words. -/
theorem nrComputeTbsIn_checked (hQm : Qm ≤ 8) (hNl : Nl ≤ 4) (hRb : nbRb ≤ 275)
    (hR : R ≤ 15644) (hsymb : nbSymbSch ≤ 14) (hre : nbDmrsPrb + nbRbOh ≤ 12 * nbSymbSch) :
    nrComputeTbsIn .checked Qm R nbRb nbSymbSch nbDmrsPrb nbRbOh tbScaling Nl =
      some (nrComputeTbs Qm R nbRb nbSymbSch nbDmrsPrb nbRbOh tbScaling Nl) := by
  have hfit :=
    infoBits_lt (Nat.min_le_left 156 (12 * nbSymbSch - nbDmrsPrb - nbRbOh)) hRb hR hQm hNl
  rw [nrComputeTbs, nrComputeTbsIn_eq _ (put_nbpRe _ hre hsymb) hRb hfit,
    nrComputeTbsIn_eq _ (put_nbpRe _ hre hsymb) hRb hfit]
  rfl

/-- The size is that of some number of information bits, overflow or not. -/
theorem exists_nrComputeTbs (nbSymbSch nbDmrsPrb nbRbOh tbScaling : ℕ) (hQm : 0 < Qm) (hR : 0 < R)
    (hRb : 0 < nbRb) (hNl : 0 < Nl) :
    ∃ nInfo, nrComputeTbs Qm R nbRb nbSymbSch nbDmrsPrb nbRbOh tbScaling Nl =
      tbsOfInfo R nInfo := by
  obtain ⟨bits, hbits, hinfo⟩ : ∃ bits < 2 ^ 32,
      nInfoIn .wrapping Qm R nbRb nbSymbSch nbDmrsPrb nbRbOh tbScaling Nl =
        pure (bits >>> 11 >>> tbScaling) := by
    exact ⟨_, Word.wrapping_put_lt _, rfl⟩
  refine ⟨bits >>> 11 >>> tbScaling, ?_⟩
  rw [nrComputeTbs, nrComputeTbsIn, if_neg (by omega), hinfo, pure_bind,
    tbsOfInfoIn_eq _ (shiftRight_lt hbits _)]
  rfl

theorem nrComputeTbs_eq_zero (h : Qm = 0 ∨ R = 0 ∨ nbRb = 0 ∨ Nl = 0) :
    nrComputeTbs Qm R nbRb nbSymbSch nbDmrsPrb nbRbOh tbScaling Nl = 0 := by
  rw [nrComputeTbs, nrComputeTbsIn, if_pos h]
  rfl

/-- More resource blocks never make a smaller transport block. -/
theorem nrComputeTbs_mono (hQm : Qm ≤ 8) (hNl : Nl ≤ 4) (hRb : nbRb ≤ 275) (hR : R ≤ 15644)
    (hle : nbRb' ≤ nbRb) :
    nrComputeTbs Qm R nbRb' nbSymbSch nbDmrsPrb nbRbOh tbScaling Nl ≤
      nrComputeTbs Qm R nbRb nbSymbSch nbDmrsPrb nbRbOh tbScaling Nl := by
  by_cases hzero : Qm = 0 ∨ R = 0 ∨ nbRb' = 0 ∨ Nl = 0
  · rw [nrComputeTbs_eq_zero hzero]
    exact Nat.zero_le _
  · -- the number of resource elements may wrap around, but it does so for both
    obtain ⟨nbpRe, hput⟩ : ∃ nbpRe,
        Word.wrapping.put (12 * nbSymbSch - nbDmrsPrb - nbRbOh) = pure nbpRe := ⟨_, rfl⟩
    have hfit := infoBits_lt (Nat.min_le_left 156 nbpRe) hRb hR hQm hNl
    have hfit' := infoBits_lt (Nat.min_le_left 156 nbpRe) (hle.trans hRb) hR hQm hNl
    rw [nrComputeTbs, nrComputeTbs, nrComputeTbsIn_eq _ hput (hle.trans hRb) hfit',
      nrComputeTbsIn_eq _ hput hRb hfit, if_neg hzero, if_neg (by omega)]
    refine tbsOfInfo_mono ?_
    rw [Nat.shiftRight_eq_div_pow, Nat.shiftRight_eq_div_pow, Nat.shiftRight_eq_div_pow,
      Nat.shiftRight_eq_div_pow]
    exact Nat.div_le_div_right (Nat.div_le_div_right (infoBits_le_infoBits hle))

theorem dvd_nrComputeTbs : 8 ∣ nrComputeTbs Qm R nbRb nbSymbSch nbDmrsPrb nbRbOh tbScaling Nl := by
  by_cases hzero : Qm = 0 ∨ R = 0 ∨ nbRb = 0 ∨ Nl = 0
  · rw [nrComputeTbs_eq_zero hzero]
    exact Nat.dvd_zero 8
  · obtain ⟨nInfo, htbs⟩ := exists_nrComputeTbs nbSymbSch nbDmrsPrb nbRbOh
      tbScaling (by omega : 0 < Qm) (by omega : 0 < R)
      (by omega : 0 < nbRb) (by omega : 0 < Nl)
    rw [htbs]
    exact (tbsOfInfo_bytes R nInfo).2

/-- The code blocks of a large transport block have the same number of bytes. -/
theorem segmentation_dvd
    (h : nrMaxPdschTbs < nrComputeTbs Qm R nbRb nbSymbSch nbDmrsPrb nbRbOh tbScaling Nl) :
    8 * nrSegmentationBlocks
        (nrComputeTbs Qm R nbRb nbSymbSch nbDmrsPrb nbRbOh tbScaling Nl + 24)
        (getBg (nrComputeTbs Qm R nbRb nbSymbSch nbDmrsPrb nbRbOh tbScaling Nl) R) ∣
      nrComputeTbs Qm R nbRb nbSymbSch nbDmrsPrb nbRbOh tbScaling Nl + 24 := by
  by_cases hzero : Qm = 0 ∨ R = 0 ∨ nbRb = 0 ∨ Nl = 0
  · rw [nrComputeTbs_eq_zero hzero] at h
    exact absurd h (Nat.not_lt_zero _)
  · obtain ⟨nInfo, htbs⟩ := exists_nrComputeTbs nbSymbSch nbDmrsPrb nbRbOh
      tbScaling (by omega : 0 < Qm) (by omega : 0 < R)
      (by omega : 0 < nbRb) (by omega : 0 < Nl)
    rw [htbs] at h ⊢
    exact dvd_of_segmentation h

/-- The size that is computed for a grant. Without modulation, code rate or resource blocks it is
0. -/
theorem nrComputeTbs_spec (hQm : Qm ≤ 8) (hNl : 1 ≤ Nl) (hNl' : Nl ≤ 4) (hRb : nbRb ≤ 275)
    (hsymb : nbSymbSch ≤ 14) :
    (R ≤ 15644 → nbDmrsPrb + nbRbOh ≤ 12 * nbSymbSch →
      nrComputeTbsIn .checked Qm R nbRb nbSymbSch nbDmrsPrb nbRbOh tbScaling Nl =
        some (nrComputeTbs Qm R nbRb nbSymbSch nbDmrsPrb nbRbOh tbScaling Nl)) ∧
    (Qm = 0 ∨ R = 0 ∨ nbRb = 0 →
      nrComputeTbs Qm R nbRb nbSymbSch nbDmrsPrb nbRbOh tbScaling Nl = 0) ∧
    (0 < Qm → 0 < R → 0 < nbRb →
      24 ≤ nrComputeTbs Qm R nbRb nbSymbSch nbDmrsPrb nbRbOh tbScaling Nl) ∧
    8 ∣ nrComputeTbs Qm R nbRb nbSymbSch nbDmrsPrb nbRbOh tbScaling Nl ∧
    (R ≤ 15644 → ∀ nbRb' ≤ nbRb,
      nrComputeTbs Qm R nbRb' nbSymbSch nbDmrsPrb nbRbOh tbScaling Nl ≤
        nrComputeTbs Qm R nbRb nbSymbSch nbDmrsPrb nbRbOh tbScaling Nl) ∧
    (3824 < nrComputeTbs Qm R nbRb nbSymbSch nbDmrsPrb nbRbOh tbScaling Nl →
      8 * nrSegmentationBlocks
          (nrComputeTbs Qm R nbRb nbSymbSch nbDmrsPrb nbRbOh tbScaling Nl + 24)
          (getBg (nrComputeTbs Qm R nbRb nbSymbSch nbDmrsPrb nbRbOh tbScaling Nl) R) ∣
        nrComputeTbs Qm R nbRb nbSymbSch nbDmrsPrb nbRbOh tbScaling Nl + 24) := by
  refine ⟨fun hR hre => nrComputeTbsIn_checked hQm hNl' hRb hR hsymb hre, fun hzero => ?_,
    fun hQm' hR' hRb' => ?_, dvd_nrComputeTbs,
    fun hR nbRb' hle => nrComputeTbs_mono hQm hNl' hRb hR hle, segmentation_dvd⟩
  · exact nrComputeTbs_eq_zero (by omega)
  · obtain ⟨nInfo, htbs⟩ := exists_nrComputeTbs nbSymbSch nbDmrsPrb nbRbOh
      tbScaling hQm' hR' hRb' hNl
    rw [htbs]
    exact (tbsOfInfo_bytes R nInfo).1

end

/-- A grant of 106 resource blocks with two layers. -/
theorem nrComputeTbs_two_layers :
    nrComputeTbsIn .checked 6 9480 106 13 12 0 0 2 = some (nrComputeTbs 6 9480 106 13 12 0 0 2) ∧
      24 ≤ nrComputeTbs 6 9480 106 13 12 0 0 2 ∧ 8 ∣ nrComputeTbs 6 9480 106 13 12 0 0 2 ∧
      ∀ nbRb' ≤ 106,
        nrComputeTbs 6 9480 nbRb' 13 12 0 0 2 ≤ nrComputeTbs 6 9480 106 13 12 0 0 2 := by
  obtain ⟨hchecked, -, hpos, hbytes, hmono, -⟩ :=
    @nrComputeTbs_spec 6 9480 106 13 12 0 0 2 (by decide) (by decide) (by decide) (by decide)
      (by decide)
  exact ⟨hchecked (by decide) (by decide), hpos (by decide) (by decide) (by decide), hbytes,
    hmono (by decide)⟩

/-- Every size is computed without an overflow, has at least 24 bits, consists of bytes and of equal
code blocks, and grows with the number of resource blocks. -/
def TbsAlwaysSound : Prop :=
  ∀ Qm R nbRb nbSymbSch nbDmrsPrb nbRbOh tbScaling Nl, Qm ≤ 8 → R < 2 ^ 16 → nbRb ≤ 275 →
    1 ≤ nbSymbSch → nbSymbSch ≤ 14 → 1 ≤ Nl → Nl ≤ 4 →
    (nrComputeTbsIn .checked Qm R nbRb nbSymbSch nbDmrsPrb nbRbOh tbScaling Nl).isSome ∧
      24 ≤ nrComputeTbs Qm R nbRb nbSymbSch nbDmrsPrb nbRbOh tbScaling Nl ∧
      8 ∣ nrComputeTbs Qm R nbRb nbSymbSch nbDmrsPrb nbRbOh tbScaling Nl ∧
      (∀ nbRb' ≤ nbRb, nrComputeTbs Qm R nbRb' nbSymbSch nbDmrsPrb nbRbOh tbScaling Nl ≤
        nrComputeTbs Qm R nbRb nbSymbSch nbDmrsPrb nbRbOh tbScaling Nl) ∧
      (3824 < nrComputeTbs Qm R nbRb nbSymbSch nbDmrsPrb nbRbOh tbScaling Nl →
        8 * nrSegmentationBlocks
            (nrComputeTbs Qm R nbRb nbSymbSch nbDmrsPrb nbRbOh tbScaling Nl + 24)
            (getBg (nrComputeTbs Qm R nbRb nbSymbSch nbDmrsPrb nbRbOh tbScaling Nl) R) ∣
          nrComputeTbs Qm R nbRb nbSymbSch nbDmrsPrb nbRbOh tbScaling Nl + 24)

/-- There is no transport block without resource blocks. -/
theorem not_tbsAlwaysSound : ¬ TbsAlwaysSound := by
  intro hsound
  have hsize := (hsound 2 1200 0 14 12 0 0 1 (by decide) (by decide) (by decide) (by decide)
    (by decide) (by decide) (by decide)).2.1
  exact absurd hsize (by decide)

/-- More reference signals and overhead than resource elements. -/
example : nrComputeTbsIn .checked 2 1200 10 1 12 6 0 1 = none := by decide

/-- The next code rate above the bound. -/
example : nrComputeTbsIn .checked 8 15645 275 14 0 0 0 4 = none ∧
    nrComputeTbs 8 15645 275 14 0 0 0 4 < nrComputeTbs 8 15645 274 14 0 0 0 4 := by
  decide +kernel

end LlmHric.Mac
