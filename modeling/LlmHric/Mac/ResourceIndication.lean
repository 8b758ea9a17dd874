import LlmHric.Mac.ResourceBlocks
import Mathlib.Data.Int.Notation
import Mathlib.Tactic.Linarith
import Mathlib.Tactic.SplitIfs

/-! A contiguous allocation in a bandwidth part is sent as one number. The encoder chooses between
two forms by the size of the allocation, the decoders by the quotient and the remainder of the
number. -/

namespace LlmHric.Mac

/-- Which form the decoders take a value for. -/
def isDirectForm (locationAndBandwidth nRb : ℤ) : Prop :=
  locationAndBandwidth.tdiv nRb ≤ nRb / 2 + 1 ∧
    toInt (locationAndBandwidth.tdiv nRb + locationAndBandwidth.tmod nRb) < nRb

instance (locationAndBandwidth nRb : ℤ) : Decidable (isDirectForm locationAndBandwidth nRb) :=
  inferInstanceAs (Decidable (_ ∧ _))

/-- `NRRIV2BW` -/
def nrriv2bw (locationAndBandwidth nRb : ℤ) : ℤ :=
  let tmp := locationAndBandwidth.tdiv nRb
  if isDirectForm locationAndBandwidth nRb then toInt (tmp + 1) else toInt (nRb + 1 - tmp)

/-- `NRRIV2PRBOFFSET` -/
def nrriv2prbOffset (locationAndBandwidth nRb : ℤ) : ℤ :=
  let tmp2 := locationAndBandwidth.tmod nRb
  if isDirectForm locationAndBandwidth nRb then tmp2 else toInt (nRb - 1 - tmp2)

/-- `PRBalloc_to_locationandbandwidth0`; `none` if the assertion fails. -/
def prbAllocToLocationAndBandwidth0 (nPrb rbStart bwpSize : ℤ) : Option ℤ :=
  if nPrb > 0 ∧ nPrb + rbStart ≤ bwpSize then
    if nPrb ≤ 1 + bwpSize / 2 then some (toInt (bwpSize * (nPrb - 1) + rbStart))
    else some (toInt (bwpSize * (bwpSize + 1 - nPrb) + (bwpSize - 1 - rbStart)))
  else none

/-- Quotient and remainder of a value. -/
theorem tdiv_tmod_of_form {n q r : ℤ} (hq : 0 ≤ q) (hr : 0 ≤ r) (hlt : r < n) :
    (n * q + r).tdiv n = q ∧ (n * q + r).tmod n = r := by
  have hn : 0 < n := hr.trans_lt hlt
  have hnonneg : 0 ≤ n * q + r := Int.add_nonneg (Int.mul_nonneg hn.le hq) hr
  constructor
  · rw [Int.tdiv_eq_ediv_of_nonneg hnonneg, Int.mul_add_ediv_left _ _ hn.ne',
      Int.ediv_eq_zero_of_lt hr hlt, Int.add_zero]
  · rw [Int.tmod_eq_emod_of_nonneg hnonneg, Int.mul_add_emod_self_left, Int.emod_eq_of_lt hr hlt]

section Allocation

variable {n start size : ℤ}

/-- A value has 32 bits, since the number of rows is at most half of the bandwidth part. -/
theorem toInt_of_form {q r : ℤ} (hn : n < 2 ^ 16) (hq : 0 ≤ q) (hle : q ≤ n / 2) (hr : 0 ≤ r)
    (hlt : r < n) : toInt (n * q + r) = n * q + r := by
  have hpos : 0 ≤ n := hr.trans hlt.le
  have hprod : n * q ≤ n * (n / 2) := Int.mul_le_mul_of_nonneg_left hle hpos
  have htop : n * (n / 2) ≤ (2 ^ 16 - 1) * (2 ^ 15 - 1) :=
    Int.mul_le_mul (by omega) (by omega) (by omega) (by omega)
  have hnonneg : 0 ≤ n * q := Int.mul_nonneg hpos hq
  exact toInt_of_mem (by omega) (by omega)

/-- Small allocations are encoded directly, and are decoded so. -/
theorem nrriv_direct (hn : n < 2 ^ 16) (hstart : 0 ≤ start) (hsize : 1 ≤ size)
    (hfit : size + start ≤ n) (hsmall : size ≤ 1 + n / 2) :
    nrriv2bw (n * (size - 1) + start) n = size ∧
      nrriv2prbOffset (n * (size - 1) + start) n = start := by
  have hquot : 0 ≤ size - 1 := by omega
  have hlt : start < n := by omega
  obtain ⟨hdiv, hmod⟩ := tdiv_tmod_of_form hquot hstart hlt
  have hform : isDirectForm (n * (size - 1) + start) n := by
    rw [isDirectForm, hdiv, hmod, toInt_of_mem (by omega) (by omega)]
    omega
  rw [nrriv2bw, nrriv2prbOffset, if_pos hform, if_pos hform, hdiv, hmod,
    toInt_of_mem (by omega) (by omega)]
  omega

/-- Large allocations are encoded by what they leave out. The sum of quotient and remainder tells
them from the small ones. -/
theorem nrriv_mirrored (hn : n < 2 ^ 16) (hstart : 0 ≤ start) (hfit : size + start ≤ n)
    (hlarge : ¬ size ≤ 1 + n / 2) :
    nrriv2bw (n * (n + 1 - size) + (n - 1 - start)) n = size ∧
      nrriv2prbOffset (n * (n + 1 - size) + (n - 1 - start)) n = start := by
  have hquot : 0 ≤ n + 1 - size := by omega
  have hrem : 0 ≤ n - 1 - start := by omega
  have hlt : n - 1 - start < n := by omega
  obtain ⟨hdiv, hmod⟩ := tdiv_tmod_of_form hquot hrem hlt
  have hform : ¬ isDirectForm (n * (n + 1 - size) + (n - 1 - start)) n := by
    rw [isDirectForm, hdiv, hmod, toInt_of_mem (by omega) (by omega)]
    omega
  rw [nrriv2bw, nrriv2prbOffset, if_neg hform, if_neg hform, hdiv, hmod,
    toInt_of_mem (by omega) (by omega), toInt_of_mem (by omega) (by omega)]
  omega

theorem nrriv_of_prbAlloc {v : ℤ} (hn : n < 2 ^ 16) (hstart : 0 ≤ start)
    (h : prbAllocToLocationAndBandwidth0 size start n = some v) :
    nrriv2bw v n = size ∧ nrriv2prbOffset v n = start := by
  rw [prbAllocToLocationAndBandwidth0] at h
  split_ifs at h with hfit hsmall
  · obtain rfl := Option.some.inj h
    rw [toInt_of_form hn (by omega) (by omega) hstart (by omega)]
    exact nrriv_direct hn hstart hfit.1 hfit.2 hsmall
  · obtain rfl := Option.some.inj h
    rw [toInt_of_form hn (by omega) (by omega) (by omega) (by omega)]
    exact nrriv_mirrored hn hstart hfit.2 hsmall

end Allocation

/-- Every allocation of a bandwidth part below `2 ^ 16` resource blocks has a value, the value is
decoded to the size and the first resource block of the allocation, and no other allocation has
it. -/
theorem nrriv_prbAlloc (bwpSize rbStart nPrb : ℤ) (hn : bwpSize < 2 ^ 16) (hstart : 0 ≤ rbStart)
    (hsize : 1 ≤ nPrb) (hfit : rbStart + nPrb ≤ bwpSize) :
    ∃ v, prbAllocToLocationAndBandwidth0 nPrb rbStart bwpSize = some v ∧
      nrriv2bw v bwpSize = nPrb ∧ nrriv2prbOffset v bwpSize = rbStart ∧
      ∀ rbStart' nPrb', 0 ≤ rbStart' →
        prbAllocToLocationAndBandwidth0 nPrb' rbStart' bwpSize = some v →
          rbStart' = rbStart ∧ nPrb' = nPrb := by
  have hsome : ∃ v, prbAllocToLocationAndBandwidth0 nPrb rbStart bwpSize = some v := by
    rw [prbAllocToLocationAndBandwidth0, if_pos ⟨hsize, by omega⟩]
    split_ifs
    · exact ⟨_, rfl⟩
    · exact ⟨_, rfl⟩
  obtain ⟨v, hv⟩ := hsome
  obtain ⟨hbw, hoffset⟩ := nrriv_of_prbAlloc hn hstart hv
  refine ⟨v, hv, hbw, hoffset, ?_⟩
  intro rbStart' nPrb' hstart' hv'
  obtain ⟨hbw', hoffset'⟩ := nrriv_of_prbAlloc hn hstart' hv'
  exact ⟨hoffset'.symm.trans hoffset, hbw'.symm.trans hbw⟩

/-- The largest allocation at the boundary between the forms, in the largest bandwidth part. -/
theorem nrriv_prbAlloc_half :
    ∃ v, prbAllocToLocationAndBandwidth0 138 137 275 = some v ∧
      nrriv2bw v 275 = 138 ∧ nrriv2prbOffset v 275 = 137 ∧
      ∀ rbStart' nPrb', 0 ≤ rbStart' →
        prbAllocToLocationAndBandwidth0 nPrb' rbStart' 275 = some v →
          rbStart' = 137 ∧ nPrb' = 138 :=
  nrriv_prbAlloc 275 137 138 (by decide) (by decide) (by decide) (by decide)

/-- From `2 ^ 16` resource blocks on the product of two `int`s goes round. -/
theorem not_nrriv_prbAlloc :
    ¬ ∃ v, prbAllocToLocationAndBandwidth0 32769 0 65536 = some v ∧ nrriv2bw v 65536 = 32769 ∧
      nrriv2prbOffset v 65536 = 0 := by
  rintro ⟨v, hv, hbw, -⟩
  obtain rfl : -2147483648 = v := Option.some.inj hv
  revert hbw
  decide

end LlmHric.Mac
