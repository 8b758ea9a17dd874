import Mathlib.Algebra.Group.Int.Defs
import Mathlib.Algebra.Group.Nat.Defs
import Mathlib.Data.List.Sort
import Mathlib.Tactic.Common

/-! The VRB map of a beam holds, for every resource block, a mask of the symbols that are taken.
This file models the searches of the schedulers in that map and the search for the number of
resource blocks that carry a number of bytes. -/

namespace LlmHric.Mac

/-- A number as an `int`. -/
def toInt (x : ℤ) : ℤ := x.bmod (2 ^ 32)

theorem toInt_of_mem {x : ℤ} (hlow : -2 ^ 31 ≤ x) (hhigh : x < 2 ^ 31) : toInt x = x := by
  rw [toInt]
  exact Int.bmod_eq_of_le_mul_two (by omega) (by omega)

/-- The taken symbols of every resource block of one beam. -/
abbrev VrbMap := ℕ → BitVec 16

namespace VrbMap

/-- The resource block is free in the symbols of the mask. -/
def isFree (vrbMap : VrbMap) (slbitmap : BitVec 16) (rb : ℕ) : Bool :=
  vrbMap rb &&& slbitmap == 0

/-- Take `rbSize` resource blocks from `first` on in the symbols of the mask. -/
def mark (vrbMap : VrbMap) (slbitmap : BitVec 16) (first rbSize : ℕ) : VrbMap :=
  fun rb => if first ≤ rb ∧ rb < first + rbSize then vrbMap rb ||| slbitmap else vrbMap rb

end VrbMap

/-! ### Largest free block -/

/-- The variables of the loop of `find_largest_free_block`. -/
structure BlockScan where
  bestStart : ℕ
  bestLen : ℕ
  curStart : ℕ
  curLen : ℕ
  deriving DecidableEq

namespace BlockScan

/-- Keep the current run when it is longer than the best one. -/
def close (scan : BlockScan) : BlockScan :=
  if scan.curLen > scan.bestLen then
    { scan with bestStart := scan.curStart, bestLen := scan.curLen }
  else scan

/-- One round of the loop. -/
def next (free : ℕ → Bool) (scan : BlockScan) (rb : ℕ) : BlockScan :=
  if free rb then
    { scan with
      curStart := if scan.curLen = 0 then rb else scan.curStart
      curLen := scan.curLen + 1 }
  else { scan.close with curLen := 0 }

end BlockScan

/-- Size and first resource block of the largest free block of a bandwidth part, relative to its
start. -/
def findLargestFreeBlock (vrbMap : VrbMap) (slbitmap : BitVec 16) (bwpStart bwpSize : ℕ) : ℕ × ℕ :=
  let scan := (List.range bwpSize).foldl
    (BlockScan.next fun rb => vrbMap.isFree slbitmap (rb + bwpStart)) ⟨0, 0, 0, 0⟩
  (scan.close.bestLen, scan.close.bestStart)

theorem BlockScan.foldl_next_of_free {free : ℕ → Bool} {n : ℕ} (h : ∀ rb < n, free rb = true) :
    (List.range n).foldl (BlockScan.next free) ⟨0, 0, 0, 0⟩ = ⟨0, 0, 0, n⟩ := by
  induction n with
  | zero => rfl
  | succ n ih =>
    rw [List.range_succ, List.foldl_append, ih fun rb hrb => h rb (by omega)]
    have hfree : free n = true := h n (Nat.lt_succ_self n)
    by_cases hn : n = 0
    · subst hn
      simp [BlockScan.next, hfree]
    · simp [BlockScan.next, hfree, hn]

/-- An untouched bandwidth part is one free block. -/
theorem findLargestFreeBlock_of_free {vrbMap : VrbMap} {slbitmap : BitVec 16}
    {bwpStart bwpSize : ℕ}
    (h : ∀ rb < bwpSize, vrbMap.isFree slbitmap (rb + bwpStart) = true) :
    findLargestFreeBlock vrbMap slbitmap bwpStart bwpSize = (bwpSize, 0) := by
  simp only [findLargestFreeBlock, BlockScan.foldl_next_of_free h, BlockScan.close]
  by_cases hzero : bwpSize = 0
  · simp [hzero]
  · simp [Nat.pos_of_ne_zero hzero]

/-- The positions from `first` on, `size` of them, are free. -/
def FreeRun (free : ℕ → Bool) (first size : ℕ) : Prop :=
  ∀ rb, first ≤ rb → rb < first + size → free rb = true

theorem FreeRun.empty (free : ℕ → Bool) (first : ℕ) : FreeRun free first 0 :=
  fun _ hfirst hlast => absurd hlast (by omega)

theorem FreeRun.mono {free : ℕ → Bool} {first size size' : ℕ} (h : FreeRun free first size)
    (hle : size' ≤ size) : FreeRun free first size' :=
  fun rb hfirst hlast => h rb hfirst (by omega)

theorem FreeRun.concat {free : ℕ → Bool} {first size : ℕ} (h : FreeRun free first size)
    (hnext : free (first + size) = true) : FreeRun free first (size + 1) := by
  intro rb hfirst hlast
  rcases Nat.lt_succ_iff_lt_or_eq.mp hlast with hlt | heq
  · exact h rb hfirst hlt
  · rw [heq]
    exact hnext

namespace BlockScan

/-- After `n` rounds the best run lies below `n`, the current one ends at `n`, and both are free. -/
structure Sound (free : ℕ → Bool) (n : ℕ) (scan : BlockScan) : Prop where
  best_le : scan.bestStart + scan.bestLen ≤ n
  best_free : FreeRun free scan.bestStart scan.bestLen
  cur_eq : scan.curLen ≠ 0 → scan.curStart + scan.curLen = n
  cur_free : FreeRun free scan.curStart scan.curLen

variable {free : ℕ → Bool} {n : ℕ} {scan : BlockScan}

theorem Sound.start (free : ℕ → Bool) : Sound free 0 ⟨0, 0, 0, 0⟩ :=
  ⟨le_rfl, .empty free 0, fun h => absurd rfl h, .empty free 0⟩

theorem Sound.close (h : Sound free n scan) : Sound free n scan.close := by
  unfold BlockScan.close
  split_ifs with hlonger
  · have hcur := h.cur_eq (by omega)
    exact ⟨hcur.le, h.cur_free, h.cur_eq, h.cur_free⟩
  · exact h

theorem Sound.next (h : Sound free n scan) : Sound free (n + 1) (scan.next free n) := by
  unfold BlockScan.next
  by_cases hfree : free n = true
  · -- the run that ends at `n`, or an empty one there, gets `n` as its last position
    rw [if_pos hfree]
    have hbest : scan.bestStart + scan.bestLen ≤ n + 1 := h.best_le.trans (Nat.le_succ n)
    by_cases hzero : scan.curLen = 0
    · rw [if_pos hzero, hzero]
      exact ⟨hbest, h.best_free, fun _ => rfl, (FreeRun.empty free n).concat hfree⟩
    · have hcur := h.cur_eq hzero
      rw [if_neg hzero]
      exact ⟨hbest, h.best_free, fun _ => congrArg (· + 1) hcur,
        h.cur_free.concat (by rw [hcur]; exact hfree)⟩
  · rw [if_neg hfree]
    have hclose := h.close
    exact ⟨hclose.best_le.trans (Nat.le_succ n), hclose.best_free, fun h => absurd rfl h,
      .empty free _⟩

theorem Sound.foldl (free : ℕ → Bool) (n : ℕ) :
    Sound free n ((List.range n).foldl (BlockScan.next free) ⟨0, 0, 0, 0⟩) := by
  induction n with
  | zero => exact .start free
  | succ n ih =>
    rw [List.range_succ, List.foldl_append]
    exact ih.next

end BlockScan

/-- The largest free block is free and lies inside the bandwidth part. -/
theorem findLargestFreeBlock_free (vrbMap : VrbMap) (slbitmap : BitVec 16)
    (bwpStart bwpSize : ℕ) :
    (findLargestFreeBlock vrbMap slbitmap bwpStart bwpSize).2 +
        (findLargestFreeBlock vrbMap slbitmap bwpStart bwpSize).1 ≤ bwpSize ∧
      FreeRun (fun rb => vrbMap.isFree slbitmap (rb + bwpStart))
        (findLargestFreeBlock vrbMap slbitmap bwpStart bwpSize).2
        (findLargestFreeBlock vrbMap slbitmap bwpStart bwpSize).1 := by
  have h := (BlockScan.Sound.foldl (fun rb => vrbMap.isFree slbitmap (rb + bwpStart)) bwpSize).close
  exact ⟨h.best_le, h.best_free⟩

/-! ### First block of a given size -/

/-- The end of the free run that starts before `rbEnd`, at most `limit`. -/
def freeRunEnd (free : ℕ → Bool) (limit : ℕ) : ℕ → ℕ → ℕ
  | 0, rbEnd => rbEnd
  | fuel + 1, rbEnd =>
    if rbEnd < limit && free rbEnd then freeRunEnd free limit fuel (rbEnd + 1) else rbEnd

/-- `current_limit` of `get_rb_alloc`. The sum of two `int`s goes round, and no position is below a
limit that is negative. -/
def currentLimit (rbStart rbSizeMax bwpSize : ℕ) : ℕ :=
  (min (toInt (rbStart + rbSizeMax)) bwpSize).toNat

theorem currentLimit_eq {rbStart rbSizeMax : ℕ} (h : rbStart + rbSizeMax < 2 ^ 31) (bwpSize : ℕ) :
    currentLimit rbStart rbSizeMax bwpSize = min (rbStart + rbSizeMax) bwpSize := by
  rw [currentLimit, toInt_of_mem (by omega) (by omega)]
  omega

/-- The loop of `get_rb_alloc`; the position grows in every round. -/
def getRbAllocFrom (free : ℕ → Bool) (rbSizeMin rbSizeMax bwpSize : ℕ) : ℕ → ℕ → Option (ℕ × ℕ)
  | 0, _ => none
  | fuel + 1, rbStart =>
    if rbStart + rbSizeMin ≤ bwpSize then
      if !free rbStart then getRbAllocFrom free rbSizeMin rbSizeMax bwpSize fuel (rbStart + 1)
      else
        let limit := currentLimit rbStart rbSizeMax bwpSize
        let rbEnd := freeRunEnd free limit (limit - (rbStart + 1)) (rbStart + 1)
        if rbSizeMin ≤ rbEnd - rbStart then some (rbStart, rbEnd - rbStart)
        -- skip the block and the occupied one that ended it
        else getRbAllocFrom free rbSizeMin rbSizeMax bwpSize fuel (rbEnd + 1)
    else none

theorem freeRunEnd_fuel {free : ℕ → Bool} {limit fuel rbEnd : ℕ} (h : limit ≤ rbEnd + fuel) :
    freeRunEnd free limit (fuel + 1) rbEnd = freeRunEnd free limit fuel rbEnd := by
  induction fuel generalizing rbEnd with
  | zero =>
    have hstop : ¬ rbEnd < limit := by omega
    simp [freeRunEnd, hstop]
  | succ fuel ih =>
    conv_lhs => rw [freeRunEnd]
    conv_rhs => rw [freeRunEnd]
    rw [ih (by omega)]

theorem le_freeRunEnd (free : ℕ → Bool) (limit fuel rbEnd : ℕ) :
    rbEnd ≤ freeRunEnd free limit fuel rbEnd := by
  induction fuel generalizing rbEnd with
  | zero => exact le_rfl
  | succ fuel ih =>
    rw [freeRunEnd]
    split_ifs
    · exact (Nat.le_succ rbEnd).trans (ih (rbEnd + 1))
    · exact le_rfl

theorem freeRunEnd_free {free : ℕ → Bool} {limit fuel first rbEnd : ℕ}
    (h : FreeRun free first (rbEnd - first)) (hle : first ≤ rbEnd) :
    FreeRun free first (freeRunEnd free limit fuel rbEnd - first) := by
  induction fuel generalizing rbEnd with
  | zero => exact h
  | succ fuel ih =>
    rw [freeRunEnd]
    split_ifs with hgo
    · have hfree : free rbEnd = true := (Bool.and_eq_true_iff.mp hgo).2
      refine ih ?_ (hle.trans (Nat.le_succ rbEnd))
      rw [Nat.succ_sub hle]
      exact h.concat (by rw [Nat.add_sub_cancel' hle]; exact hfree)
    · exact h

/-- The block that the search returns is free, large enough, and its first `rbSizeMin` resource
blocks lie inside the bandwidth part. -/
theorem getRbAllocFrom_free {free : ℕ → Bool} {rbSizeMin rbSizeMax bwpSize fuel pos : ℕ}
    {block : ℕ × ℕ}
    (h : getRbAllocFrom free rbSizeMin rbSizeMax bwpSize fuel pos = some block) :
    rbSizeMin ≤ block.2 ∧ block.1 + rbSizeMin ≤ bwpSize ∧ FreeRun free block.1 block.2 := by
  induction fuel generalizing pos with
  | zero => exact absurd h (by simp [getRbAllocFrom])
  | succ fuel ih =>
    simp only [getRbAllocFrom] at h
    split_ifs at h with hfits hbusy hlarge
    · exact ih h
    · obtain rfl := Option.some_inj.mp h
      have hfirst : free pos = true := by simpa using hbusy
      refine ⟨hlarge, hfits, freeRunEnd_free ?_ (Nat.le_succ pos)⟩
      intro rb hlow hhigh
      obtain rfl : rb = pos := by omega
      exact hfirst
    · exact ih h

/-- More rounds than resource blocks to search change nothing. -/
theorem getRbAllocFrom_fuel {free : ℕ → Bool} {rbSizeMin rbSizeMax bwpSize fuel rbStart : ℕ}
    (h : bwpSize < rbStart + fuel) :
    getRbAllocFrom free rbSizeMin rbSizeMax bwpSize (fuel + 1) rbStart =
      getRbAllocFrom free rbSizeMin rbSizeMax bwpSize fuel rbStart := by
  induction fuel generalizing rbStart with
  | zero =>
    have hstop : ¬ rbStart + rbSizeMin ≤ bwpSize := by omega
    simp [getRbAllocFrom, hstop]
  | succ fuel ih =>
    conv_lhs => rw [getRbAllocFrom]
    conv_rhs => rw [getRbAllocFrom]
    dsimp only
    generalize currentLimit rbStart rbSizeMax bwpSize = limit
    have hend := le_freeRunEnd free limit (limit - (rbStart + 1)) (rbStart + 1)
    rw [ih (by omega), ih (by omega)]

/-- Start and size of the first free block with at least `rbSizeMin` resource blocks. -/
def getRbAlloc (rbSizeMin rbSizeMax bwpStart bwpSize : ℕ) (vrbMap : VrbMap)
    (symMask : BitVec 16) : Option (ℕ × ℕ) :=
  getRbAllocFrom (fun rb => vrbMap.isFree symMask (bwpStart + rb)) rbSizeMin rbSizeMax bwpSize
    (bwpSize + 1) 0

/-- A block found for `rbSizeMin` resource blocks is free and lies inside the bandwidth part. -/
theorem getRbAlloc_free {rbSizeMin rbSizeMax bwpStart bwpSize : ℕ} {vrbMap : VrbMap}
    {symMask : BitVec 16} {block : ℕ × ℕ}
    (h : getRbAlloc rbSizeMin rbSizeMax bwpStart bwpSize vrbMap symMask = some block) :
    block.1 + rbSizeMin ≤ bwpSize ∧
      FreeRun (fun rb => vrbMap.isFree symMask (rb + bwpStart)) block.1 rbSizeMin := by
  obtain ⟨hsize, hfits, hfree⟩ := getRbAllocFrom_free h
  simp only [Nat.add_comm bwpStart] at hfree
  exact ⟨hfits, hfree.mono hsize⟩

/-! ### Resource blocks for a number of bytes -/

/-- The binary search of `nr_find_nb_rb` between `lo` and `hi`. -/
def searchNbRb (tbs : ℕ → ℕ) (bytes : ℕ) : ℕ → ℕ → ℕ → ℕ
  | 0, _, hi => hi
  | fuel + 1, lo, hi =>
    if lo + 1 < hi then
      let p := (hi + lo) / 2
      if bytes = tbs p then p
      else if bytes < tbs p then searchNbRb tbs bytes fuel lo p
      else searchNbRb tbs bytes fuel p hi
    else hi

/-- `nr_find_nb_rb` without transform precoding, which the downlink never uses: whether the bytes
fit, the transport block size and the number of resource blocks. `tbs` is the transport block
size in bytes for a number of resource blocks. -/
def nrFindNbRb (tbs : ℕ → ℕ) (bytes nbRbMin nbRbMax : ℕ) : Bool × ℕ × ℕ :=
  if bytes > tbs nbRbMax then (false, tbs nbRbMax, nbRbMax)
  else if bytes = tbs nbRbMax then (true, tbs nbRbMax, nbRbMax)
  else if bytes ≤ tbs nbRbMin then (true, tbs nbRbMin, nbRbMin)
  else
    let hi := searchNbRb tbs bytes nbRbMax nbRbMin nbRbMax
    (decide (tbs hi ≥ bytes) && decide (hi ≤ nbRbMax), tbs hi, hi)

/-- More rounds than resource blocks between the bounds change nothing. -/
theorem searchNbRb_fuel {tbs : ℕ → ℕ} {bytes fuel lo hi : ℕ} (h : hi ≤ lo + fuel) :
    searchNbRb tbs bytes (fuel + 1) lo hi = searchNbRb tbs bytes fuel lo hi := by
  induction fuel generalizing lo hi with
  | zero =>
    have hstop : ¬ lo + 1 < hi := by omega
    simp [searchNbRb, hstop]
  | succ fuel ih =>
    conv_lhs => rw [searchNbRb]
    conv_rhs => rw [searchNbRb]
    by_cases hgo : lo + 1 < hi
    · -- the midpoint is strictly between the bounds, so each half is shorter
      rw [if_pos hgo, if_pos hgo]
      dsimp only
      rw [ih (by omega), ih (by omega)]
    · rw [if_neg hgo, if_neg hgo]

theorem searchNbRb_mem (tbs : ℕ → ℕ) (bytes : ℕ) {fuel lo hi : ℕ} (h : lo ≤ hi) :
    lo ≤ searchNbRb tbs bytes fuel lo hi ∧ searchNbRb tbs bytes fuel lo hi ≤ hi := by
  induction fuel generalizing lo hi with
  | zero => exact ⟨h, le_rfl⟩
  | succ fuel ih =>
    simp only [searchNbRb]
    split_ifs
    · omega
    · have hlow : lo ≤ (hi + lo) / 2 := by omega
      obtain ⟨h₁, h₂⟩ := ih hlow
      omega
    · have hhigh : (hi + lo) / 2 ≤ hi := by omega
      obtain ⟨h₁, h₂⟩ := ih hhigh
      omega
    · exact ⟨h, le_rfl⟩

/-- The search for a size stays within the given bounds. -/
theorem nrFindNbRb_mem (tbs : ℕ → ℕ) (bytes : ℕ) {nbRbMin nbRbMax : ℕ} (h : nbRbMin ≤ nbRbMax) :
    nbRbMin ≤ (nrFindNbRb tbs bytes nbRbMin nbRbMax).2.2 ∧
      (nrFindNbRb tbs bytes nbRbMin nbRbMax).2.2 ≤ nbRbMax := by
  rw [nrFindNbRb]
  split_ifs
  · exact ⟨h, le_rfl⟩
  · exact ⟨h, le_rfl⟩
  · exact ⟨le_rfl, h⟩
  · exact searchNbRb_mem tbs bytes h

/-- A buffer that does not fit takes all the resource blocks on offer. -/
theorem nrFindNbRb_of_lt {tbs : ℕ → ℕ} {bytes nbRbMin nbRbMax : ℕ} (h : tbs nbRbMax < bytes) :
    (nrFindNbRb tbs bytes nbRbMin nbRbMax).2.2 = nbRbMax := by
  rw [nrFindNbRb, if_pos h]

/-! ### Sizes with transform precoding -/

/-- Division by a factor as often as it divides. -/
def divideOut (q : ℕ) : ℕ → ℕ → ℕ
  | 0, rb => rb
  | fuel + 1, rb => if rb % q = 0 then divideOut q fuel (rb / q) else rb

/-- `multiple_2_3_5`, for a number that is not 0: the loops of the source do not end for 0. -/
def multiple235 (rb : ℕ) : Bool := divideOut 5 rb (divideOut 3 rb (divideOut 2 rb rb)) == 1

/-- The first loop of `nr_find_nb_rb`; it does not end when it gets to 0. -/
def multiple235Below : ℕ → Option ℕ
  | 0 => none
  | n + 1 => if multiple235 (n + 1) then some (n + 1) else multiple235Below n

/-- The inner loop of the binary search. -/
def nextMultiple235 : ℕ → ℕ → ℕ
  | 0, p => p
  | fuel + 1, p => if multiple235 p then p else nextMultiple235 fuel (p + 1)

/-- The binary search between `lo` and `hi`, which is a size that is allowed. -/
def searchNbRbPrecoded (tbs : ℕ → ℕ) (bytes : ℕ) : ℕ → ℕ → ℕ → ℕ
  | 0, _, hi => hi
  | fuel + 1, lo, hi =>
    if lo + 1 < hi then
      let p := nextMultiple235 (hi - (hi + lo) / 2) ((hi + lo) / 2)
      if p = hi then hi
      else if bytes = tbs p then p
      else if bytes < tbs p then searchNbRbPrecoded tbs bytes fuel lo p
      else searchNbRbPrecoded tbs bytes fuel p hi
    else hi

/-- `nr_find_nb_rb` with transform precoding; `none` when it does not return. -/
def nrFindNbRbPrecoded (tbs : ℕ → ℕ) (bytes nbRbMin nbRbMax : ℕ) : Option (Bool × ℕ × ℕ) := do
  let nbRbMax ← multiple235Below nbRbMax
  if bytes > tbs nbRbMax then some (false, tbs nbRbMax, nbRbMax)
  else if bytes = tbs nbRbMax then some (true, tbs nbRbMax, nbRbMax)
  else if bytes ≤ tbs nbRbMin then some (true, tbs nbRbMin, nbRbMin)
  else
    let hi := searchNbRbPrecoded tbs bytes nbRbMax nbRbMin nbRbMax
    some (decide (tbs hi ≥ bytes) && decide (hi ≤ nbRbMax), tbs hi, hi)

/-- `nr_find_nb_rb`, as the uplink calls it. -/
def nrFindNbRbUl (transformPrecoding : Bool) (tbs : ℕ → ℕ) (bytes nbRbMin nbRbMax : ℕ) :
    Option (Bool × ℕ × ℕ) :=
  if transformPrecoding then nrFindNbRbPrecoded tbs bytes nbRbMin nbRbMax
  else some (nrFindNbRb tbs bytes nbRbMin nbRbMax)

/-- The division ends within as many rounds as the number has units. -/
theorem divideOut_fuel {q fuel rb : ℕ} (hq : 2 ≤ q) (hpos : 0 < rb) (h : rb ≤ fuel) :
    divideOut q (fuel + 1) rb = divideOut q fuel rb := by
  induction fuel generalizing rb with
  | zero => omega
  | succ fuel ih =>
    conv_lhs => rw [divideOut]
    conv_rhs => rw [divideOut]
    by_cases hdvd : rb % q = 0
    · rw [if_pos hdvd, if_pos hdvd]
      have hle : q ≤ rb := Nat.le_of_dvd hpos (Nat.dvd_of_mod_eq_zero hdvd)
      have hlt : rb / q < rb := Nat.div_lt_self hpos (by omega)
      exact ih (Nat.div_pos hle (by omega)) (by omega)
    · rw [if_neg hdvd, if_neg hdvd]

theorem multiple235Below_le {n m : ℕ} (h : multiple235Below n = some m) : m ≤ n := by
  induction n with
  | zero => cases h
  | succ n ih =>
    rw [multiple235Below] at h
    split_ifs at h
    · exact (Option.some.inj h).ge
    · exact (ih h).trans (Nat.le_succ n)

theorem multiple235_of_below {n m : ℕ} (h : multiple235Below n = some m) :
    multiple235 m = true := by
  induction n with
  | zero => cases h
  | succ n ih =>
    rw [multiple235Below] at h
    split_ifs at h with hn
    · exact Option.some.inj h ▸ hn
    · exact ih h

/-- The first loop ends at 1 at the latest. -/
theorem multiple235Below_isSome {n : ℕ} (h : 0 < n) : (multiple235Below n).isSome = true := by
  induction n with
  | zero => omega
  | succ n ih =>
    rw [multiple235Below]
    split_ifs with hn
    · rfl
    · refine ih (Nat.pos_of_ne_zero fun hzero => hn ?_)
      subst hzero
      rfl

theorem le_nextMultiple235 (fuel p : ℕ) : p ≤ nextMultiple235 fuel p := by
  induction fuel generalizing p with
  | zero => exact le_rfl
  | succ fuel ih =>
    rw [nextMultiple235]
    split_ifs
    · exact le_rfl
    · exact (Nat.le_succ p).trans (ih (p + 1))

theorem nextMultiple235_le (fuel p : ℕ) : nextMultiple235 fuel p ≤ p + fuel := by
  induction fuel generalizing p with
  | zero => exact le_rfl
  | succ fuel ih =>
    rw [nextMultiple235]
    split_ifs
    · exact Nat.le_add_right p _
    · exact (ih (p + 1)).trans (by omega)

/-- The inner loop ends at the upper bound at the latest. -/
theorem multiple235_nextMultiple235 {p hi : ℕ} (hhi : multiple235 hi = true) (hle : p ≤ hi) :
    multiple235 (nextMultiple235 (hi - p) p) = true := by
  obtain ⟨fuel, rfl⟩ := Nat.exists_eq_add_of_le hle
  rw [Nat.add_sub_cancel_left]
  clear hle
  induction fuel generalizing p with
  | zero => exact hhi
  | succ fuel ih =>
    rw [nextMultiple235]
    split_ifs with hp
    · exact hp
    · exact ih (by rwa [Nat.add_right_comm])

theorem searchNbRbPrecoded_le (tbs : ℕ → ℕ) (bytes fuel lo hi : ℕ) :
    searchNbRbPrecoded tbs bytes fuel lo hi ≤ hi := by
  induction fuel generalizing lo hi with
  | zero => exact le_rfl
  | succ fuel ih =>
    rw [searchNbRbPrecoded]
    by_cases hgo : lo + 1 < hi
    · rw [if_pos hgo]
      dsimp only
      have hp := nextMultiple235_le (hi - (hi + lo) / 2) ((hi + lo) / 2)
      generalize nextMultiple235 (hi - (hi + lo) / 2) ((hi + lo) / 2) = p at hp
      split_ifs
      · exact le_rfl
      · omega
      · have hrest := ih lo p
        omega
      · exact ih p hi
    · rw [if_neg hgo]

/-- More rounds than resource blocks between the bounds change nothing. -/
theorem searchNbRbPrecoded_fuel {tbs : ℕ → ℕ} {bytes fuel lo hi : ℕ} (h : hi ≤ lo + fuel) :
    searchNbRbPrecoded tbs bytes (fuel + 1) lo hi = searchNbRbPrecoded tbs bytes fuel lo hi := by
  induction fuel generalizing lo hi with
  | zero =>
    have hstop : ¬ lo + 1 < hi := by omega
    simp [searchNbRbPrecoded, hstop]
  | succ fuel ih =>
    conv_lhs => rw [searchNbRbPrecoded]
    conv_rhs => rw [searchNbRbPrecoded]
    by_cases hgo : lo + 1 < hi
    · rw [if_pos hgo, if_pos hgo]
      dsimp only
      have hlow := le_nextMultiple235 (hi - (hi + lo) / 2) ((hi + lo) / 2)
      have hhigh := nextMultiple235_le (hi - (hi + lo) / 2) ((hi + lo) / 2)
      generalize nextMultiple235 (hi - (hi + lo) / 2) ((hi + lo) / 2) = p at hlow hhigh
      by_cases hp : p = hi
      · rw [if_pos hp, if_pos hp]
      · rw [if_neg hp, if_neg hp, ih (by omega), ih (by omega)]
    · rw [if_neg hgo, if_neg hgo]

/-- The size that is found is not above the upper bound. -/
theorem nrFindNbRbUl_le {transformPrecoding : Bool} {tbs : ℕ → ℕ} {bytes nbRbMin nbRbMax : ℕ}
    {found : Bool × ℕ × ℕ} (hle : nbRbMin ≤ nbRbMax)
    (h : nrFindNbRbUl transformPrecoding tbs bytes nbRbMin nbRbMax = some found) :
    found.2.2 ≤ nbRbMax := by
  cases transformPrecoding with
  | false =>
    obtain rfl := Option.some.inj h
    exact (nrFindNbRb_mem tbs bytes hle).2
  | true =>
    obtain ⟨top, htop, h⟩ := Option.bind_eq_some_iff.mp h
    have htop_le := multiple235Below_le htop
    split_ifs at h
    · exact Option.some.inj h ▸ htop_le
    · exact Option.some.inj h ▸ htop_le
    · exact Option.some.inj h ▸ hle
    · exact Option.some.inj h ▸ (searchNbRbPrecoded_le tbs bytes top nbRbMin top).trans htop_le

/-- The search ends when there is a resource block on offer. -/
theorem nrFindNbRbUl_isSome (transformPrecoding : Bool) (tbs : ℕ → ℕ) (bytes nbRbMin : ℕ)
    {nbRbMax : ℕ} (h : 0 < nbRbMax) :
    (nrFindNbRbUl transformPrecoding tbs bytes nbRbMin nbRbMax).isSome = true := by
  cases transformPrecoding with
  | false => rfl
  | true =>
    obtain ⟨top, htop⟩ := Option.isSome_iff_exists.mp (multiple235Below_isSome h)
    rw [nrFindNbRbUl, if_pos rfl, nrFindNbRbPrecoded, htop, Option.bind_eq_bind, Option.bind_some]
    split_ifs
    · rfl
    · rfl
    · rfl
    · rfl

end LlmHric.Mac
