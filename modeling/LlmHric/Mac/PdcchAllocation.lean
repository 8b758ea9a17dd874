import LlmHric.Mac.UlPreprocessor
import Mathlib.Data.Finset.Card
import Mathlib.Data.Nat.ModEq
import Mathlib.Order.Interval.Finset.Nat
import Mathlib.Tactic.Ring

/-! A grant on the PDCCH takes some CCEs of a CORESET. A CCE is six REGs, in bundles that an
interleaver spreads over the CORESET, and a bundle takes some resource blocks on all symbols of the
CORESET. The search for a candidate and the marking of the one that is found go through the bundles
separately. -/

namespace LlmHric.Mac

/-! ### Search and marking -/

/-- The fields of `NR_sched_pdcch_t` that describe a CORESET. -/
structure SchedPdcch where
  bwpStart : ℕ
  startSymbolIndex : ℕ
  regBundleSize : ℕ
  interleaverSize : ℕ
  shiftIndex : ℕ
  durationSymbols : ℕ
  nRb : ℕ
  deriving DecidableEq

/-- `cce_to_reg_interleaving`. -/
def cceToRegInterleaving (R k nShift C L nRegs : ℕ) : ℕ :=
  if R = 0 then k
  else
    let c := k / R
    let r := k % R
    (r * C + c + nShift) % (nRegs / L)

/-- The first CCE of candidate `m`. The sum is a `uint32_t`. -/
def firstCce (aggregation nrOfCandidates nCces : ℕ) (y : UInt32) (m : ℕ) : ℕ :=
  aggregation *
    ((y + UInt32.ofNat (m * nCces / (aggregation * nrOfCandidates))).toNat % (nCces / aggregation))

/-- `find_pdcch_candidate`, with the duration of the CORESET; `none` is the result -1. -/
def findPdcchCandidate (vrbMap : VrbMap) (aggregation nrOfCandidates : ℕ) (pdcch : SchedPdcch)
    (duration : ℕ) (y : UInt32) : Option ℕ :=
  let nSymb := duration
  let nRegs := pdcch.nRb * nSymb
  let nCces := nRegs / nrNbRegPerCce
  let R := pdcch.interleaverSize
  let L := pdcch.regBundleSize
  let C := if R > 0 then nRegs / (L * R) else 0
  let bRb := L / nSymb
  let taken := fun first =>
    (List.range' first aggregation).any fun j =>
      (List.range' (6 * j / L) (6 / L)).any fun k =>
        let f := cceToRegInterleaving R k pdcch.shiftIndex C L nRegs
        (List.range bRb).any fun rb =>
          !vrbMap.isFree (slToBitmap pdcch.startSymbolIndex nSymb) (pdcch.bwpStart + f * bRb + rb)
  ((List.range nrOfCandidates).map (firstCce aggregation nrOfCandidates nCces y)).find?
    fun first => !taken first

/-- `fill_pdcch_vrb_map`. -/
def fillPdcchVrbMap (vrbMap : VrbMap) (pdcch : SchedPdcch) (first aggregation : ℕ) : VrbMap :=
  let L := pdcch.regBundleSize
  let R := pdcch.interleaverSize
  let nShift := pdcch.shiftIndex
  let nSymb := pdcch.durationSymbols
  let nRegs := pdcch.nRb * nSymb
  let bRb := L / nSymb
  let C := if R > 0 then nRegs / (L * R) else 0
  (List.range' first aggregation).foldl
    (fun vrbMap j => (List.range' (6 * j / L) (6 / L)).foldl
      (fun vrbMap k =>
        let f := cceToRegInterleaving R k nShift C L nRegs
        (List.range bRb).foldl
          (fun vrbMap rb =>
            vrbMap.mark (slToBitmap pdcch.startSymbolIndex nSymb) (pdcch.bwpStart + f * bRb + rb) 1)
          vrbMap)
      vrbMap)
    vrbMap

/-- A request for some CCEs. -/
structure PdcchRequest where
  aggregation : ℕ
  nrOfCandidates : ℕ
  y : UInt32
  deriving DecidableEq

/-- The CCEs of a grant. -/
structure PdcchGrant where
  firstCce : ℕ
  aggregation : ℕ
  deriving DecidableEq

/-- The map of a beam, and the grants that were made in it. -/
structure PdcchState where
  vrbMap : VrbMap
  grants : List PdcchGrant

/-- Search for a candidate, and mark it if there is one. -/
def PdcchState.allocate (pdcch : SchedPdcch) (duration : ℕ) (s : PdcchState) (req : PdcchRequest) :
    PdcchState :=
  match findPdcchCandidate s.vrbMap req.aggregation req.nrOfCandidates pdcch duration req.y with
  | none => s
  | some first =>
    { vrbMap := fillPdcchVrbMap s.vrbMap pdcch first req.aggregation
      grants := s.grants ++ [⟨first, req.aggregation⟩] }

/-- The sizes of a CORESET fit together: the duration divides the size of a bundle, the size of a
bundle divides a CCE, an interleaver fills its rows, and the symbols are in the slot. -/
structure SchedPdcch.WellFormed (pdcch : SchedPdcch) (duration : ℕ) : Prop where
  durationSymbols : pdcch.durationSymbols = duration
  pos : 0 < duration
  bundle : duration ∣ pdcch.regBundleSize
  cce : pdcch.regBundleSize ∣ 6
  rows : 0 < pdcch.interleaverSize →
    pdcch.regBundleSize * pdcch.interleaverSize ∣ pdcch.nRb * duration
  start : pdcch.startSymbolIndex < 16

/-- A number in a grid that is written by rows and read by columns. -/
theorem mod_mul_add_div_lt {R C k : ℕ} (hk : k < R * C) : k % R * C + k / R < R * C := by
  have hpos : 0 < R := Nat.pos_of_mul_pos_right (Nat.zero_lt_of_lt hk)
  have hrow : k % R < R := Nat.mod_lt k hpos
  have hcol : k / R < C := Nat.div_lt_of_lt_mul hk
  calc k % R * C + k / R < k % R * C + C := Nat.add_lt_add_left hcol _
    _ = (k % R + 1) * C := (Nat.succ_mul _ _).symm
    _ ≤ R * C := Nat.mul_le_mul_right C hrow

theorem mod_mul_add_div_inj {R C k k' : ℕ} (hk : k < R * C) (hk' : k' < R * C)
    (h : k % R * C + k / R = k' % R * C + k' / R) : k = k' := by
  have hcol : k / R < C := Nat.div_lt_of_lt_mul hk
  have hcol' : k' / R < C := Nat.div_lt_of_lt_mul hk'
  have hpos : 0 < C := Nat.zero_lt_of_lt hcol
  have hrow : k % R = k' % R := by
    have hdiv := congrArg (· / C) h
    simpa [Nat.mul_comm _ C, Nat.mul_add_div hpos, Nat.div_eq_of_lt hcol, Nat.div_eq_of_lt hcol']
      using hdiv
  have hquot : k / R = k' / R := by
    rw [hrow] at h
    exact Nat.add_left_cancel h
  rw [← Nat.div_add_mod k R, ← Nat.div_add_mod k' R, hrow, hquot]

/-- The interleaver is a permutation of the bundles. -/
theorem cceToRegInterleaving_injOn {R C L nRegs nShift : ℕ} (hC : 0 < R → nRegs / L = R * C)
    {k k' : ℕ} (hk : k < nRegs / L) (hk' : k' < nRegs / L)
    (h : cceToRegInterleaving R k nShift C L nRegs = cceToRegInterleaving R k' nShift C L nRegs) :
    k = k' := by
  unfold cceToRegInterleaving at h
  split_ifs at h with hR
  · exact h
  · have hsize := hC (Nat.pos_of_ne_zero hR)
    rw [hsize] at hk hk' h
    apply mod_mul_add_div_inj hk hk'
    -- the shift goes round once, so it can be taken back
    have hmod := Nat.ModEq.add_right_cancel' nShift h
    exact hmod.eq_of_lt_of_lt (mod_mul_add_div_lt hk) (mod_mul_add_div_lt hk')

/-! ### The resource blocks of a grant -/

namespace SchedPdcch

/-- The resource blocks of a bundle. -/
def bundleRbs (pdcch : SchedPdcch) (duration k : ℕ) : List ℕ :=
  let nRegs := pdcch.nRb * duration
  let R := pdcch.interleaverSize
  let L := pdcch.regBundleSize
  let C := if R > 0 then nRegs / (L * R) else 0
  let f := cceToRegInterleaving R k pdcch.shiftIndex C L nRegs
  (List.range (L / duration)).map fun rb => pdcch.bwpStart + f * (L / duration) + rb

/-- The resource blocks of some CCEs, by their bundles. -/
def grantRbs (pdcch : SchedPdcch) (duration first aggregation : ℕ) : List ℕ :=
  (List.range' (first * (6 / pdcch.regBundleSize))
    (aggregation * (6 / pdcch.regBundleSize))).flatMap (pdcch.bundleRbs duration)

/-- The number of CCEs of a CORESET. -/
def nCces (pdcch : SchedPdcch) (duration : ℕ) : ℕ := pdcch.nRb * duration / nrNbRegPerCce

/-- The symbols of a CORESET. -/
def slbitmap (pdcch : SchedPdcch) (duration : ℕ) : BitVec 16 :=
  slToBitmap pdcch.startSymbolIndex duration

end SchedPdcch

/-- The bundles of some CCEs follow one another. -/
theorem bundles_flatMap {L : ℕ} (hL : L ∣ 6) (first aggregation : ℕ) :
    (List.range' first aggregation).flatMap (fun j => List.range' (6 * j / L) (6 / L)) =
      List.range' (first * (6 / L)) (aggregation * (6 / L)) := by
  induction aggregation with
  | zero => simp
  | succ aggregation ih =>
    have hlast : 6 * (first + aggregation) / L = first * (6 / L) + aggregation * (6 / L) := by
      rw [Nat.mul_comm, Nat.mul_div_assoc _ hL, Nat.add_mul]
    rw [List.range'_1_concat, List.flatMap_append, ih, List.flatMap_singleton, hlast,
      List.range'_append_1, Nat.succ_mul]

/-- Mark some resource blocks one after the other. -/
theorem foldl_mark_apply (slbitmap : BitVec 16) (rbs : List ℕ) (vrbMap : VrbMap) (rb : ℕ) :
    rbs.foldl (fun vrbMap rb => vrbMap.mark slbitmap rb 1) vrbMap rb =
      if rb ∈ rbs then vrbMap rb ||| slbitmap else vrbMap rb := by
  induction rbs generalizing vrbMap with
  | nil => rfl
  | cons first rbs ih =>
    rw [List.foldl_cons, ih]
    by_cases hhere : rb = first
    · have hmark : vrbMap.mark slbitmap first 1 rb = vrbMap rb ||| slbitmap :=
        if_pos ⟨hhere.ge, by omega⟩
      rw [hmark, if_pos (List.mem_cons.mpr (.inl hhere))]
      split_ifs
      · rw [BitVec.or_assoc, BitVec.or_self]
      · rfl
    · have hmark : vrbMap.mark slbitmap first 1 rb = vrbMap rb := if_neg (by omega)
      rw [hmark]
      simp only [List.mem_cons, hhere, false_or]

section Grant

variable {pdcch : SchedPdcch} {duration first aggregation nrOfCandidates : ℕ} {y : UInt32}
  {vrbMap : VrbMap}

/-- The loops of the marking pass the bundles one after the other. -/
theorem fillPdcchVrbMap_eq (h : pdcch.WellFormed duration) (vrbMap : VrbMap)
    (first aggregation : ℕ) :
    fillPdcchVrbMap vrbMap pdcch first aggregation =
      (pdcch.grantRbs duration first aggregation).foldl
        (fun vrbMap rb => vrbMap.mark (pdcch.slbitmap duration) rb 1) vrbMap := by
  rw [SchedPdcch.grantRbs, ← bundles_flatMap h.cce, List.flatMap_assoc, List.foldl_flatMap]
  simp only [List.foldl_flatMap, SchedPdcch.bundleRbs, List.foldl_map]
  rw [fillPdcchVrbMap, h.durationSymbols]
  rfl

theorem fillPdcchVrbMap_apply (h : pdcch.WellFormed duration) (vrbMap : VrbMap)
    (first aggregation rb : ℕ) :
    fillPdcchVrbMap vrbMap pdcch first aggregation rb =
      if rb ∈ pdcch.grantRbs duration first aggregation then vrbMap rb ||| pdcch.slbitmap duration
      else vrbMap rb := by
  rw [fillPdcchVrbMap_eq h, foldl_mark_apply]

/-- A candidate that is found is one of those on offer, and its resource blocks are free. -/
theorem exists_of_findPdcchCandidate (h : pdcch.WellFormed duration)
    (hfind : findPdcchCandidate vrbMap aggregation nrOfCandidates pdcch duration y = some first) :
    (∃ m, first = firstCce aggregation nrOfCandidates (pdcch.nCces duration) y m) ∧
      ∀ rb ∈ pdcch.grantRbs duration first aggregation,
        vrbMap.isFree (pdcch.slbitmap duration) rb = true := by
  have hmem := List.mem_of_find?_eq_some hfind
  have hfree := List.find?_some hfind
  obtain ⟨m, -, hm⟩ := List.mem_map.mp hmem
  refine ⟨⟨m, hm.symm⟩, ?_⟩
  intro rb hrb
  rw [SchedPdcch.grantRbs, ← bundles_flatMap h.cce, List.flatMap_assoc] at hrb
  obtain ⟨j, hj, hrb⟩ := List.mem_flatMap.mp hrb
  obtain ⟨k, hk, hrb⟩ := List.mem_flatMap.mp hrb
  obtain ⟨i, hi, rfl⟩ := List.mem_map.mp hrb
  by_contra hbusy
  rw [Bool.not_eq_true'] at hfree
  refine Bool.false_ne_true (hfree.symm.trans ?_)
  refine List.any_eq_true.mpr ⟨j, hj, ?_⟩
  refine List.any_eq_true.mpr ⟨k, hk, ?_⟩
  refine List.any_eq_true.mpr ⟨i, hi, ?_⟩
  rw [Bool.not_eq_true']
  exact Bool.eq_false_of_not_eq_true hbusy

/-- A candidate lies in the CORESET. -/
theorem firstCce_add_le {nCces : ℕ} (hpos : 0 < aggregation) (hle : aggregation ≤ nCces) (m : ℕ) :
    firstCce aggregation nrOfCandidates nCces y m + aggregation ≤ nCces := by
  have hcount : 0 < nCces / aggregation := Nat.div_pos hle hpos
  unfold firstCce
  generalize (y + UInt32.ofNat (m * nCces / (aggregation * nrOfCandidates))).toNat = sum
  have hlt : sum % (nCces / aggregation) < nCces / aggregation := Nat.mod_lt sum hcount
  calc aggregation * (sum % (nCces / aggregation)) + aggregation
      = aggregation * (sum % (nCces / aggregation) + 1) := (Nat.mul_succ ..).symm
    _ ≤ aggregation * (nCces / aggregation) := Nat.mul_le_mul_left _ hlt
    _ ≤ nCces := Nat.mul_div_le ..

/-- The bundles of CCEs in the CORESET are bundles of the CORESET. -/
theorem bundle_lt (h : pdcch.WellFormed duration)
    (hin : first + aggregation ≤ pdcch.nCces duration) {k : ℕ}
    (hk : k ∈ List.range' (first * (6 / pdcch.regBundleSize))
      (aggregation * (6 / pdcch.regBundleSize))) :
    k < pdcch.nRb * duration / pdcch.regBundleSize := by
  obtain ⟨q, hq⟩ := h.cce
  have hL : 0 < pdcch.regBundleSize := Nat.pos_of_dvd_of_pos h.cce (by decide)
  have hdiv : 6 / pdcch.regBundleSize = q := by
    rw [hq, Nat.mul_div_cancel_left q hL]
  rw [hdiv, List.mem_range'_1, ← Nat.add_mul] at hk
  have hregs : pdcch.nCces duration = pdcch.nRb * duration / pdcch.regBundleSize / q := by
    rw [SchedPdcch.nCces, nrNbRegPerCce, hq, Nat.div_div_eq_div_mul]
  calc k < (first + aggregation) * q := hk.2
    _ ≤ pdcch.nCces duration * q := Nat.mul_le_mul_right q hin
    _ ≤ pdcch.nRb * duration / pdcch.regBundleSize := hregs ▸ Nat.div_mul_le_self _ q

theorem length_bundleRbs (pdcch : SchedPdcch) (duration k : ℕ) :
    (pdcch.bundleRbs duration k).length = pdcch.regBundleSize / duration := by
  rw [SchedPdcch.bundleRbs, List.length_map, List.length_range]

theorem length_grantRbs (h : pdcch.WellFormed duration) (first aggregation : ℕ) :
    (pdcch.grantRbs duration first aggregation).length = 6 * aggregation / duration := by
  obtain ⟨b, hb⟩ := h.bundle
  obtain ⟨q, hq⟩ := h.cce
  have hL : 0 < pdcch.regBundleSize := Nat.pos_of_dvd_of_pos h.cce (by decide)
  have hbundles : 6 / pdcch.regBundleSize = q := by
    rw [hq, Nat.mul_div_cancel_left q hL]
  have hrbs : pdcch.regBundleSize / duration = b := by
    rw [hb, Nat.mul_div_cancel_left b h.pos]
  have hall : 6 * aggregation / duration = aggregation * q * b := by
    have hprod : 6 * aggregation = duration * (aggregation * q * b) := by
      rw [hq, hb]
      ring
    rw [hprod, Nat.mul_div_cancel_left _ h.pos]
  rw [SchedPdcch.grantRbs, List.length_flatMap]
  simp only [length_bundleRbs, List.map_const', List.length_range', List.sum_replicate_nat,
    hbundles, hrbs, hall]

/-- No resource block is passed twice. -/
theorem nodup_grantRbs (h : pdcch.WellFormed duration)
    (hin : first + aggregation ≤ pdcch.nCces duration) :
    (pdcch.grantRbs duration first aggregation).Nodup := by
  refine List.nodup_flatMap.mpr ⟨?_, ?_⟩
  · intro k _
    apply List.nodup_range.map
    intro rb rb' heq
    exact Nat.add_left_cancel heq
  · refine List.Pairwise.imp_of_mem ?_ List.nodup_range'
    intro k k' hk hk' hne
    refine List.disjoint_left.mpr ?_
    intro x hx hx'
    obtain ⟨rb, hrb, rfl⟩ := List.mem_map.mp hx
    obtain ⟨rb', hrb', heq⟩ := List.mem_map.mp hx'
    rw [List.mem_range] at hrb hrb'
    apply hne
    -- the position of a bundle is the quotient by the number of its resource blocks
    have hpos : 0 < pdcch.regBundleSize / duration := Nat.zero_lt_of_lt hrb
    rw [Nat.add_assoc, Nat.add_assoc] at heq
    have hdiv := congrArg (· / (pdcch.regBundleSize / duration)) (Nat.add_left_cancel heq)
    simp only [Nat.mul_comm _ (pdcch.regBundleSize / duration), Nat.mul_add_div hpos,
      Nat.div_eq_of_lt hrb, Nat.div_eq_of_lt hrb', Nat.add_zero] at hdiv
    refine (cceToRegInterleaving_injOn ?_ (bundle_lt h hin hk') (bundle_lt h hin hk) hdiv).symm
    intro hR
    obtain ⟨C, hC⟩ := h.rows hR
    have hL : 0 < pdcch.regBundleSize := Nat.pos_of_dvd_of_pos h.cce (by decide)
    rw [if_pos hR, hC, Nat.mul_div_cancel_left C (Nat.mul_pos hL hR), Nat.mul_assoc,
      Nat.mul_div_cancel_left _ hL]

end Grant

/-- Resource blocks are marked in some symbols, in which they were free, and no others are. -/
structure VrbMap.Marks (before after : VrbMap) (slbitmap : BitVec 16) (rbs : Finset ℕ) : Prop where
  free : ∀ rb ∈ rbs, before.isFree slbitmap rb = true
  marked : ∀ rb ∈ rbs, after rb = before rb ||| slbitmap
  other : ∀ rb ∉ rbs, after rb = before rb

/-- A grant marks six REGs for each of its CCEs, and all of them were free. -/
theorem findPdcchCandidate_marks {pdcch : SchedPdcch}
    {duration first aggregation nrOfCandidates : ℕ} {y : UInt32} {vrbMap : VrbMap}
    (h : pdcch.WellFormed duration) (hpos : 0 < aggregation)
    (hle : aggregation ≤ pdcch.nCces duration)
    (hfind : findPdcchCandidate vrbMap aggregation nrOfCandidates pdcch duration y = some first) :
    first + aggregation ≤ pdcch.nCces duration ∧
      (pdcch.grantRbs duration first aggregation).toFinset.card = 6 * aggregation / duration ∧
      vrbMap.Marks (fillPdcchVrbMap vrbMap pdcch first aggregation) (pdcch.slbitmap duration)
        (pdcch.grantRbs duration first aggregation).toFinset := by
  obtain ⟨⟨m, hm⟩, hfree⟩ := exists_of_findPdcchCandidate h hfind
  have hin : first + aggregation ≤ pdcch.nCces duration := by
    rw [hm]
    exact firstCce_add_le hpos hle m
  refine ⟨hin, ?_, ?_, ?_, ?_⟩
  · rw [List.toFinset_card_of_nodup (nodup_grantRbs h hin), length_grantRbs h]
  · intro rb hrb
    exact hfree rb (List.mem_toFinset.mp hrb)
  · intro rb hrb
    rw [fillPdcchVrbMap_apply h, if_pos (List.mem_toFinset.mp hrb)]
  · intro rb hrb
    rw [fillPdcchVrbMap_apply h, if_neg (mt List.mem_toFinset.mpr hrb)]

/-! ### A sequence of requests -/

def PdcchGrant.cces (g : PdcchGrant) : Finset ℕ :=
  Finset.Ico g.firstCce (g.firstCce + g.aggregation)

/-- The grants are in the CORESET and disjoint, and their resource blocks are marked. -/
structure PdcchState.Exclusive (pdcch : SchedPdcch) (duration : ℕ) (s : PdcchState) : Prop where
  inside : ∀ g ∈ s.grants, g.firstCce + g.aggregation ≤ pdcch.nCces duration
  apart : s.grants.Pairwise fun g g' => Disjoint g.cces g'.cces
  marked : ∀ g ∈ s.grants, ∀ rb ∈ pdcch.grantRbs duration g.firstCce g.aggregation,
    s.vrbMap rb &&& pdcch.slbitmap duration = pdcch.slbitmap duration

section Requests

variable {pdcch : SchedPdcch} {duration : ℕ}

/-- A CORESET has symbols. -/
theorem slbitmap_ne_zero (h : pdcch.WellFormed duration) : pdcch.slbitmap duration ≠ 0#16 := by
  have hbit : (pdcch.slbitmap duration).getLsbD pdcch.startSymbolIndex = true := by
    rw [SchedPdcch.slbitmap, slToBitmap, BitVec.getLsbD_ofNat, Nat.testBit_mul_two_pow]
    simp [h.start, h.pos]
  intro hzero
  rw [hzero, BitVec.getLsbD_zero] at hbit
  exact Bool.false_ne_true hbit

/-- Every CCE of a grant has a resource block in it. -/
theorem exists_mem_grantRbs (h : pdcch.WellFormed duration) (j : ℕ) :
    ∃ rb, ∀ first aggregation, first ≤ j → j < first + aggregation →
      rb ∈ pdcch.grantRbs duration first aggregation := by
  obtain ⟨b, hb⟩ := h.bundle
  have hL : 0 < pdcch.regBundleSize := Nat.pos_of_dvd_of_pos h.cce (by decide)
  have hq : 0 < 6 / pdcch.regBundleSize :=
    Nat.div_pos (Nat.le_of_dvd (by decide) h.cce) hL
  have hrbs : 0 < pdcch.regBundleSize / duration :=
    Nat.div_pos (Nat.le_of_dvd hL h.bundle) h.pos
  have hlength := length_bundleRbs pdcch duration (j * (6 / pdcch.regBundleSize))
  obtain ⟨rb, hrb⟩ := List.exists_mem_of_length_pos (hlength ▸ hrbs)
  refine ⟨rb, ?_⟩
  intro first aggregation hfirst hlast
  refine List.mem_flatMap.mpr ⟨j * (6 / pdcch.regBundleSize), ?_, hrb⟩
  rw [List.mem_range'_1, ← Nat.add_mul]
  exact ⟨Nat.mul_le_mul_right _ hfirst, Nat.mul_lt_mul_of_pos_right hlast hq⟩

theorem or_and_eq_right (a b : BitVec 16) : (a ||| b) &&& b = b := by
  ext i
  rw [BitVec.getElem_and, BitVec.getElem_or]
  cases a[i] <;> cases b[i] <;> rfl

theorem PdcchState.Exclusive.disjoint {s : PdcchState} (h : pdcch.WellFormed duration)
    (hs : s.Exclusive pdcch duration) {first aggregation : ℕ}
    (hfree : ∀ rb ∈ pdcch.grantRbs duration first aggregation,
      s.vrbMap.isFree (pdcch.slbitmap duration) rb = true) {g : PdcchGrant} (hg : g ∈ s.grants) :
    Disjoint g.cces (PdcchGrant.cces ⟨first, aggregation⟩) := by
  refine Finset.disjoint_left.mpr ?_
  intro j hj hj'
  obtain ⟨hfirst, hlast⟩ := Finset.mem_Ico.mp hj
  obtain ⟨hfirst', hlast'⟩ := Finset.mem_Ico.mp hj'
  obtain ⟨rb, hrb⟩ := exists_mem_grantRbs h j
  -- a resource block of the common CCE is marked and free
  have hmarked := hs.marked g hg rb (hrb _ _ hfirst hlast)
  have hzero := hfree rb (hrb _ _ hfirst' hlast')
  rw [VrbMap.isFree, beq_iff_eq, hmarked] at hzero
  exact slbitmap_ne_zero h hzero

theorem PdcchState.Exclusive.allocate {s : PdcchState} {req : PdcchRequest}
    (h : pdcch.WellFormed duration) (hs : s.Exclusive pdcch duration) (hpos : 0 < req.aggregation)
    (hle : req.aggregation ≤ pdcch.nCces duration) :
    (s.allocate pdcch duration req).Exclusive pdcch duration := by
  cases hfind : findPdcchCandidate s.vrbMap req.aggregation req.nrOfCandidates pdcch duration
      req.y with
  | none =>
    have heq : s.allocate pdcch duration req = s := by rw [PdcchState.allocate, hfind]
    rw [heq]
    exact hs
  | some first =>
    have heq : s.allocate pdcch duration req =
        { vrbMap := fillPdcchVrbMap s.vrbMap pdcch first req.aggregation
          grants := s.grants ++ [⟨first, req.aggregation⟩] } := by
      rw [PdcchState.allocate, hfind]
    have hfree := (exists_of_findPdcchCandidate h hfind).2
    rw [heq]
    refine ⟨?_, ?_, ?_⟩
    · intro g hg
      rcases List.mem_append.mp hg with hg | hg
      · exact hs.inside g hg
      · rw [List.mem_singleton.mp hg]
        exact (findPdcchCandidate_marks h hpos hle hfind).1
    · refine List.pairwise_append.mpr ⟨hs.apart, List.pairwise_singleton _ _, ?_⟩
      intro g hg g' hg'
      rw [List.mem_singleton.mp hg']
      exact hs.disjoint h hfree hg
    · intro g hg rb hrb
      dsimp only
      rw [fillPdcchVrbMap_apply h]
      split_ifs with hnew
      · exact or_and_eq_right _ _
      · rcases List.mem_append.mp hg with hg | hg
        · exact hs.marked g hg rb hrb
        · rw [List.mem_singleton.mp hg] at hrb
          exact absurd hrb hnew

theorem PdcchState.Exclusive.foldl {s : PdcchState} {reqs : List PdcchRequest}
    (h : pdcch.WellFormed duration) (hs : s.Exclusive pdcch duration)
    (hreqs : ∀ req ∈ reqs, 0 < req.aggregation ∧ req.aggregation ≤ pdcch.nCces duration) :
    (reqs.foldl (PdcchState.allocate pdcch duration) s).Exclusive pdcch duration := by
  induction reqs generalizing s with
  | nil => exact hs
  | cons req reqs ih =>
    obtain ⟨hpos, hle⟩ := hreqs req List.mem_cons_self
    apply ih (hs.allocate h hpos hle)
    intro req' hreq'
    exact hreqs req' (List.mem_cons_of_mem _ hreq')

end Requests

/-- Whatever is requested in a CORESET, in whatever map, the grants that are made are in the CORESET
and disjoint. Each of them marks six REGs for each of its CCEs on the symbols of the CORESET, in
resource blocks that were free there, and leaves the others as they are. -/
theorem pdcch_allocation {pdcch : SchedPdcch} {duration : ℕ} (h : pdcch.WellFormed duration)
    (vrbMap : VrbMap) (reqs : List PdcchRequest)
    (hreqs : ∀ req ∈ reqs, 0 < req.aggregation ∧ req.aggregation ≤ pdcch.nCces duration) :
    (∀ g ∈ (reqs.foldl (PdcchState.allocate pdcch duration) ⟨vrbMap, []⟩).grants,
      g.firstCce + g.aggregation ≤ pdcch.nCces duration) ∧
    ((reqs.foldl (PdcchState.allocate pdcch duration) ⟨vrbMap, []⟩).grants.Pairwise
      fun g g' => Disjoint g.cces g'.cces) ∧
    ∀ pre req first, pre ++ [req] <+: reqs →
      findPdcchCandidate (pre.foldl (PdcchState.allocate pdcch duration) ⟨vrbMap, []⟩).vrbMap
        req.aggregation req.nrOfCandidates pdcch duration req.y = some first →
      ∃ rbs : Finset ℕ, rbs.card = 6 * req.aggregation / duration ∧
        (pre.foldl (PdcchState.allocate pdcch duration) ⟨vrbMap, []⟩).vrbMap.Marks
          ((pre ++ [req]).foldl (PdcchState.allocate pdcch duration) ⟨vrbMap, []⟩).vrbMap
          (pdcch.slbitmap duration) rbs := by
  have hempty : PdcchState.Exclusive pdcch duration ⟨vrbMap, []⟩ :=
    ⟨List.forall_mem_nil _, List.Pairwise.nil, List.forall_mem_nil _⟩
  have hall := hempty.foldl h hreqs
  refine ⟨hall.inside, hall.apart, ?_⟩
  intro pre req first hpre hfind
  obtain ⟨hpos, hle⟩ := hreqs req (hpre.subset List.mem_concat_self)
  obtain ⟨-, hcard, hmarks⟩ := findPdcchCandidate_marks h hpos hle hfind
  refine ⟨_, hcard, ?_⟩
  rw [List.foldl_append, List.foldl_cons, List.foldl_nil, PdcchState.allocate, hfind]
  exact hmarks

/-- A CORESET of four CCEs on two symbols, with an interleaver of two rows. -/
def fourCces : SchedPdcch := ⟨0, 0, 6, 2, 1, 2, 12⟩

theorem wellFormed_fourCces : fourCces.WellFormed 2 :=
  ⟨rfl, by decide, by decide, by decide, by decide, by decide⟩

/-- Two requests in that CORESET. -/
theorem pdcch_allocation_fourCces :
    (∀ g ∈ ([⟨1, 2, 5⟩, ⟨2, 1, 7⟩].foldl (PdcchState.allocate fourCces 2) ⟨fun _ => 0, []⟩).grants,
      g.firstCce + g.aggregation ≤ fourCces.nCces 2) ∧
    (([⟨1, 2, 5⟩, ⟨2, 1, 7⟩].foldl (PdcchState.allocate fourCces 2)
      ⟨fun _ => 0, []⟩).grants.Pairwise fun g g' => Disjoint g.cces g'.cces) ∧
    ∀ pre req first, pre ++ [req] <+: [⟨1, 2, 5⟩, ⟨2, 1, 7⟩] →
      findPdcchCandidate (pre.foldl (PdcchState.allocate fourCces 2) ⟨fun _ => 0, []⟩).vrbMap
        req.aggregation req.nrOfCandidates fourCces 2 req.y = some first →
      ∃ rbs : Finset ℕ, rbs.card = 6 * req.aggregation / 2 ∧
        (pre.foldl (PdcchState.allocate fourCces 2) ⟨fun _ => 0, []⟩).vrbMap.Marks
          ((pre ++ [req]).foldl (PdcchState.allocate fourCces 2) ⟨fun _ => 0, []⟩).vrbMap
          (fourCces.slbitmap 2) rbs :=
  pdcch_allocation wellFormed_fourCces (fun _ => 0) [⟨1, 2, 5⟩, ⟨2, 1, 7⟩] (by decide)

end LlmHric.Mac
