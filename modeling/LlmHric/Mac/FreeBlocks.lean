import LlmHric.Mac.ResourceBlocks
import Mathlib.Order.Bounds.Defs

/-! The schedulers search a bandwidth part in two ways: for the largest free block, and for the
first block with room for a number of resource blocks. Both searches are exact, and they agree on
whether there is room. -/

namespace LlmHric.Mac

/-- The sizes of the free runs in the first `n` positions. -/
def runSizes (free : ℕ → Bool) (n : ℕ) : Set ℕ :=
  {size | ∃ first, first + size ≤ n ∧ FreeRun free first size}

/-- Where the free runs of a size start in the first `n` positions. -/
def runStarts (free : ℕ → Bool) (n size : ℕ) : Set ℕ :=
  {first | first + size ≤ n ∧ FreeRun free first size}

/-! ### The largest free block -/

namespace BlockScan

/-- After `n` rounds every free run is beaten by the best one, or lies in the current one, and those
that end at `n` lie in the current one. The best run ends before the current one. -/
structure Exact (free : ℕ → Bool) (n : ℕ) (scan : BlockScan) : Prop where
  sound : Sound free n scan
  before : scan.curLen ≠ 0 → scan.bestStart + scan.bestLen ≤ scan.curStart
  ends : ∀ first < n, FreeRun free first (n - first) → scan.curLen ≠ 0 ∧ scan.curStart ≤ first
  covers : ∀ first size, 0 < size → first + size ≤ n → FreeRun free first size →
    (size ≤ scan.bestLen ∧ (size = scan.bestLen → scan.bestStart ≤ first)) ∨
      (scan.curLen ≠ 0 ∧ scan.curStart ≤ first)
  start : scan.bestLen = 0 → scan.bestStart = 0

variable {free : ℕ → Bool} {n : ℕ} {scan : BlockScan}

theorem Exact.zero (free : ℕ → Bool) : Exact free 0 ⟨0, 0, 0, 0⟩ where
  sound := .start free
  before := fun h => absurd rfl h
  ends := fun _ h => absurd h (Nat.not_lt_zero _)
  covers := fun _ _ hpos hle => absurd hle (by omega)
  start := fun _ => rfl

/-- Once the current run is closed, no free run beats the best one. -/
theorem Exact.close_covers (h : Exact free n scan) {first size : ℕ} (hpos : 0 < size)
    (hle : first + size ≤ n) (hrun : FreeRun free first size) :
    size ≤ scan.close.bestLen ∧ (size = scan.close.bestLen → scan.close.bestStart ≤ first) := by
  have hcovers := h.covers first size hpos hle hrun
  have hbefore := h.before
  have hend := h.sound.cur_eq
  unfold BlockScan.close
  split_ifs with hlonger
  · have hcur := hend (by omega)
    dsimp only
    omega
  · by_cases hzero : scan.curLen = 0
    · omega
    · have hcur := hend hzero
      have hbest := hbefore hzero
      omega

theorem Exact.close_start (h : Exact free n scan) (hzero : scan.close.bestLen = 0) :
    scan.close.bestStart = 0 := by
  unfold BlockScan.close at hzero ⊢
  split_ifs at hzero ⊢ with hlonger
  · dsimp only at hzero
    omega
  · exact h.start hzero

/-- A run does not go past a position that is not free. -/
theorem end_le_of_not_free (hbusy : ¬ free n = true) {first size : ℕ} (hpos : 0 < size)
    (hle : first + size ≤ n + 1) (hrun : FreeRun free first size) : first + size ≤ n := by
  by_contra hlt
  exact hbusy (hrun n (by omega) (by omega))

/-- A free position goes on with the current run, or begins a new one. -/
theorem Exact.next_free (h : Exact free n scan) (hfree : free n = true) :
    Exact free (n + 1) (scan.next free n) := by
  have hsound := h.sound.next
  have hcur : (scan.next free n).curLen = scan.curLen + 1 := by rw [BlockScan.next, if_pos hfree]
  have hbest : (scan.next free n).bestLen = scan.bestLen ∧
      (scan.next free n).bestStart = scan.bestStart := by
    rw [BlockScan.next, if_pos hfree]
    exact ⟨rfl, rfl⟩
  have hstart : (scan.next free n).curStart = if scan.curLen = 0 then n else scan.curStart := by
    rw [BlockScan.next, if_pos hfree]
  obtain ⟨hlen, hfirst⟩ := hbest
  have hends : ∀ first < n + 1, FreeRun free first (n + 1 - first) →
      (scan.next free n).curStart ≤ first := by
    intro first hlt hrun
    rw [hstart]
    rcases Nat.lt_succ_iff_lt_or_eq.mp hlt with hold | rfl
    · obtain ⟨hne, hle⟩ := h.ends first hold (hrun.mono (by omega))
      rwa [if_neg hne]
    · split_ifs with hzero
      · exact le_rfl
      · have hend := h.sound.cur_eq hzero
        omega
  refine ⟨hsound, ?_, ?_, ?_, ?_⟩
  · intro _
    have hle := h.sound.best_le
    rw [hlen, hfirst, hstart]
    split_ifs with hzero
    · exact hle
    · exact h.before hzero
  · intro first hlt hrun
    exact ⟨by omega, hends first hlt hrun⟩
  · intro first size hpos hle hrun
    by_cases hold : first + size ≤ n
    · rcases h.covers first size hpos hold hrun with hbeaten | ⟨hne, hin⟩
      · left
        rwa [hlen, hfirst]
      · right
        rw [hstart, if_neg hne]
        exact ⟨by omega, hin⟩
    · have hsize : size = n + 1 - first := by omega
      rw [hsize] at hrun
      exact .inr ⟨by omega, hends first (by omega) hrun⟩
  · rw [hlen, hfirst]
    exact h.start

theorem Exact.next (h : Exact free n scan) : Exact free (n + 1) (scan.next free n) := by
  by_cases hfree : free n = true
  · exact h.next_free hfree
  · -- the current run is closed, and no run ends here
    have hsound := h.sound.next
    have hnext : scan.next free n = { scan.close with curLen := 0 } := if_neg hfree
    rw [hnext] at hsound ⊢
    refine ⟨hsound, fun hne => absurd rfl hne, ?_, ?_, h.close_start⟩
    · intro first hlt hrun
      have hend := end_le_of_not_free hfree (by omega) (by omega) hrun
      omega
    · intro first size hpos hle hrun
      left
      exact h.close_covers hpos (end_le_of_not_free hfree hpos hle hrun) hrun

theorem Exact.foldl (free : ℕ → Bool) (n : ℕ) :
    Exact free n ((List.range n).foldl (BlockScan.next free) ⟨0, 0, 0, 0⟩) := by
  induction n with
  | zero => exact .zero free
  | succ n ih =>
    rw [List.range_succ, List.foldl_append]
    exact ih.next

/-- At the end the best run is the leftmost of the longest ones. -/
theorem Exact.isLeast_close (h : Exact free n scan) :
    IsGreatest (runSizes free n) scan.close.bestLen ∧
      IsLeast (runStarts free n scan.close.bestLen) scan.close.bestStart := by
  have hclose := h.sound.close
  refine ⟨⟨⟨_, hclose.best_le, hclose.best_free⟩, ?_⟩, ⟨hclose.best_le, hclose.best_free⟩, ?_⟩
  · intro size hsize
    obtain ⟨first, hle, hrun⟩ := hsize
    rcases Nat.eq_zero_or_pos size with rfl | hpos
    · exact Nat.zero_le _
    · exact (h.close_covers hpos hle hrun).1
  · intro first hfirst
    obtain ⟨hle, hrun⟩ := hfirst
    rcases Nat.eq_zero_or_pos scan.close.bestLen with hzero | hpos
    · rw [h.close_start hzero]
      exact Nat.zero_le _
    · exact (h.close_covers hpos hle hrun).2 rfl

end BlockScan

/-- The leftmost of the longest free runs is found. -/
theorem findLargestFreeBlock_isLeast (vrbMap : VrbMap) (slbitmap : BitVec 16)
    (bwpStart bwpSize : ℕ) :
    IsGreatest (runSizes (fun rb => vrbMap.isFree slbitmap (rb + bwpStart)) bwpSize)
        (findLargestFreeBlock vrbMap slbitmap bwpStart bwpSize).1 ∧
      IsLeast (runStarts (fun rb => vrbMap.isFree slbitmap (rb + bwpStart)) bwpSize
          (findLargestFreeBlock vrbMap slbitmap bwpStart bwpSize).1)
        (findLargestFreeBlock vrbMap slbitmap bwpStart bwpSize).2 :=
  (BlockScan.Exact.foldl _ bwpSize).isLeast_close

/-! ### The first block with room -/

section FirstBlock

variable {free : ℕ → Bool} {limit fuel rbEnd rbSizeMin rbSizeMax bwpSize rbStart : ℕ}

theorem freeRunEnd_le (h : rbEnd ≤ limit) : freeRunEnd free limit fuel rbEnd ≤ limit := by
  induction fuel generalizing rbEnd with
  | zero => exact h
  | succ fuel ih =>
    rw [freeRunEnd]
    split_ifs with hgo
    · rw [Bool.and_eq_true, decide_eq_true_eq] at hgo
      exact ih hgo.1
    · exact h

theorem freeRunEnd_eq_or (hle : rbEnd ≤ limit) (hfuel : limit ≤ rbEnd + fuel) :
    freeRunEnd free limit fuel rbEnd = limit ∨
      free (freeRunEnd free limit fuel rbEnd) = false := by
  induction fuel generalizing rbEnd with
  | zero =>
    left
    rw [freeRunEnd]
    omega
  | succ fuel ih =>
    rw [freeRunEnd]
    split_ifs with hgo
    · rw [Bool.and_eq_true, decide_eq_true_eq] at hgo
      exact ih hgo.1 (by omega)
    · by_cases hlt : rbEnd < limit
      · right
        by_contra hfree
        rw [Bool.not_eq_false] at hfree
        exact hgo (by rw [hfree, decide_eq_true hlt]; rfl)
      · left
        omega

/-- What the search returns from a position before which there is no place. -/
def FirstPlace (free : ℕ → Bool) (rbSizeMin rbSizeMax bwpSize : ℕ) : Option (ℕ × ℕ) → Prop
  | none => runStarts free bwpSize rbSizeMin = ∅
  | some (first, size) =>
    IsLeast (runStarts free bwpSize rbSizeMin) first ∧ FreeRun free first size ∧
      first + size ≤ bwpSize ∧ rbSizeMin ≤ size ∧ size ≤ rbSizeMax

/-- No place starts before a position at which no place starts. -/
theorem notMem_runStarts_succ {n : ℕ} (h : ∀ first < rbStart, first ∉ runStarts free n rbSizeMin)
    (hhere : rbStart ∉ runStarts free n rbSizeMin) :
    ∀ first < rbStart + 1, first ∉ runStarts free n rbSizeMin := by
  intro first hlt
  rcases Nat.lt_succ_iff_lt_or_eq.mp hlt with hold | rfl
  · exact h first hold
  · exact hhere

theorem getRbAllocFrom_firstPlace (hmin : 1 ≤ rbSizeMin) (hmax : rbSizeMin ≤ rbSizeMax)
    (hint : rbSizeMax + bwpSize ≤ 2 ^ 31) (hfuel : bwpSize < rbStart + fuel)
    (hbefore : ∀ first < rbStart, first ∉ runStarts free bwpSize rbSizeMin) :
    FirstPlace free rbSizeMin rbSizeMax bwpSize
      (getRbAllocFrom free rbSizeMin rbSizeMax bwpSize fuel rbStart) := by
  induction fuel generalizing rbStart with
  | zero =>
    rw [getRbAllocFrom]
    refine Set.eq_empty_of_forall_notMem ?_
    intro first hfirst
    have hle : first + rbSizeMin ≤ bwpSize := hfirst.1
    exact hbefore first (by omega) hfirst
  | succ fuel ih =>
    rw [getRbAllocFrom]
    by_cases hfits : rbStart + rbSizeMin ≤ bwpSize
    · rw [if_pos hfits]
      by_cases hbusy : (!free rbStart) = true
      · rw [if_pos hbusy]
        apply ih (by omega)
        apply notMem_runStarts_succ hbefore
        intro hhere
        have hfree := hhere.2 rbStart le_rfl (by omega)
        rw [hfree] at hbusy
        cases hbusy
      · rw [if_neg hbusy]
        have hfirst : free rbStart = true := by simpa using hbusy
        have hone : FreeRun free rbStart (rbStart + 1 - rbStart) := by
          rw [Nat.add_sub_cancel_left]
          exact (FreeRun.empty free rbStart).concat hfirst
        dsimp only
        rw [currentLimit_eq (by omega)]
        have hlimit : rbStart + rbSizeMin ≤ min (rbStart + rbSizeMax) bwpSize := by omega
        have hlimit' : min (rbStart + rbSizeMax) bwpSize ≤ bwpSize := by omega
        have hlimit'' : min (rbStart + rbSizeMax) bwpSize ≤ rbStart + rbSizeMax := by omega
        generalize min (rbStart + rbSizeMax) bwpSize = limit at hlimit hlimit' hlimit''
        have hrun := @freeRunEnd_free free limit (limit - (rbStart + 1)) rbStart (rbStart + 1) hone
          (Nat.le_succ rbStart)
        have hend := @freeRunEnd_le free limit (limit - (rbStart + 1)) (rbStart + 1) (by omega)
        have hstop := @freeRunEnd_eq_or free limit (limit - (rbStart + 1)) (rbStart + 1) (by omega)
          (by omega)
        have hlow := le_freeRunEnd free limit (limit - (rbStart + 1)) (rbStart + 1)
        generalize freeRunEnd free limit (limit - (rbStart + 1)) (rbStart + 1) = rbEnd
          at hrun hend hstop hlow
        by_cases hlarge : rbSizeMin ≤ rbEnd - rbStart
        · rw [if_pos hlarge]
          refine ⟨⟨⟨hfits, hrun.mono hlarge⟩, ?_⟩, hrun, by omega, hlarge, by omega⟩
          intro first hmem
          by_contra hlt
          exact hbefore first (by omega) hmem
        · -- a block that is too small ends at a position that is taken, which no place may cover
          rw [if_neg hlarge]
          have htaken : free rbEnd = false := by
            rcases hstop with heq | hbusy'
            · omega
            · exact hbusy'
          apply ih (by omega)
          intro first hlt hmem
          by_cases hold : first < rbStart
          · exact hbefore first hold hmem
          · have hfree := hmem.2 rbEnd (by omega) (by omega)
            rw [htaken] at hfree
            cases hfree
    · rw [if_neg hfits]
      refine Set.eq_empty_of_forall_notMem ?_
      intro first hfirst
      have hle : first + rbSizeMin ≤ bwpSize := hfirst.1
      exact hbefore first (by omega) hfirst

end FirstBlock

section Searches

variable (vrbMap : VrbMap) (symMask : BitVec 16) (bwpStart bwpSize : ℕ) {rbSizeMin rbSizeMax : ℕ}

theorem getRbAlloc_firstPlace (hmin : 1 ≤ rbSizeMin) (hmax : rbSizeMin ≤ rbSizeMax)
    (hint : rbSizeMax + bwpSize ≤ 2 ^ 31) :
    FirstPlace (fun rb => vrbMap.isFree symMask (rb + bwpStart)) rbSizeMin rbSizeMax bwpSize
      (getRbAlloc rbSizeMin rbSizeMax bwpStart bwpSize vrbMap symMask) := by
  have hcomm : (fun rb => vrbMap.isFree symMask (bwpStart + rb)) =
      fun rb => vrbMap.isFree symMask (rb + bwpStart) := by
    funext rb
    rw [Nat.add_comm]
  rw [getRbAlloc, hcomm]
  apply getRbAllocFrom_firstPlace hmin hmax hint (by omega)
  exact fun first hlt => absurd hlt (Nat.not_lt_zero first)

/-- There is a place for a number of resource blocks exactly if the largest free block has so
many. -/
theorem runStarts_nonempty_iff {free : ℕ → Bool} {n len size : ℕ}
    (h : IsGreatest (runSizes free n) len) : (runStarts free n size).Nonempty ↔ size ≤ len := by
  constructor
  · intro hplace
    obtain ⟨first, hle, hrun⟩ := hplace
    exact h.2 ⟨first, hle, hrun⟩
  · intro hsize
    obtain ⟨first, hle, hrun⟩ := h.1
    exact ⟨first, by omega, hrun.mono hsize⟩

theorem getRbAlloc_isSome_iff_le (hmin : 1 ≤ rbSizeMin) (hmax : rbSizeMin ≤ rbSizeMax)
    (hint : rbSizeMax + bwpSize ≤ 2 ^ 31) :
    (getRbAlloc rbSizeMin rbSizeMax bwpStart bwpSize vrbMap symMask).isSome = true ↔
      rbSizeMin ≤ (findLargestFreeBlock vrbMap symMask bwpStart bwpSize).1 := by
  have hlargest := (findLargestFreeBlock_isLeast vrbMap symMask bwpStart bwpSize).1
  have hplace := getRbAlloc_firstPlace vrbMap symMask bwpStart bwpSize hmin hmax hint
  rw [← runStarts_nonempty_iff hlargest]
  cases hfound : getRbAlloc rbSizeMin rbSizeMax bwpStart bwpSize vrbMap symMask with
  | none =>
    rw [hfound] at hplace
    have hempty : runStarts (fun rb => vrbMap.isFree symMask (rb + bwpStart)) bwpSize rbSizeMin =
        ∅ := hplace
    rw [hempty]
    exact iff_of_false Bool.false_ne_true Set.not_nonempty_empty
  | some block =>
    rw [hfound] at hplace
    exact iff_of_true rfl ⟨block.1, hplace.1.1⟩

end Searches

/-- The two searches are exact. There is a block with room for `rbSizeMin` resource blocks exactly
if the largest free block has so many. The block that is found is free, lies inside the bandwidth
part, has between `rbSizeMin` and `rbSizeMax` resource blocks and starts at the leftmost place with
room. No position of the bandwidth part and `rbSizeMax` together exceed an `int`. -/
theorem getRbAlloc_spec (vrbMap : VrbMap) (symMask : BitVec 16)
    (bwpStart bwpSize rbSizeMin rbSizeMax : ℕ) (hmin : 1 ≤ rbSizeMin)
    (hmax : rbSizeMin ≤ rbSizeMax) (hint : rbSizeMax + bwpSize ≤ 2 ^ 31) :
    ((getRbAlloc rbSizeMin rbSizeMax bwpStart bwpSize vrbMap symMask).isSome = true ↔
        rbSizeMin ≤ (findLargestFreeBlock vrbMap symMask bwpStart bwpSize).1) ∧
      (∀ first size,
        getRbAlloc rbSizeMin rbSizeMax bwpStart bwpSize vrbMap symMask = some (first, size) →
          IsLeast (runStarts (fun rb => vrbMap.isFree symMask (rb + bwpStart)) bwpSize rbSizeMin)
              first ∧
            FreeRun (fun rb => vrbMap.isFree symMask (rb + bwpStart)) first size ∧
            first + size ≤ bwpSize ∧ rbSizeMin ≤ size ∧ size ≤ rbSizeMax) ∧
      IsGreatest (runSizes (fun rb => vrbMap.isFree symMask (rb + bwpStart)) bwpSize)
        (findLargestFreeBlock vrbMap symMask bwpStart bwpSize).1 ∧
      IsLeast (runStarts (fun rb => vrbMap.isFree symMask (rb + bwpStart)) bwpSize
          (findLargestFreeBlock vrbMap symMask bwpStart bwpSize).1)
        (findLargestFreeBlock vrbMap symMask bwpStart bwpSize).2 := by
  have hlargest := findLargestFreeBlock_isLeast vrbMap symMask bwpStart bwpSize
  refine ⟨getRbAlloc_isSome_iff_le vrbMap symMask bwpStart bwpSize hmin hmax hint, ?_, hlargest⟩
  intro first size hfound
  have hplace := getRbAlloc_firstPlace vrbMap symMask bwpStart bwpSize hmin hmax hint
  rwa [hfound] at hplace

/-- One resource block is taken. -/
def oneTaken : VrbMap := fun rb => if rb = 1 then 3 else 0

/-- The searches in a bandwidth part of five resource blocks, one of which is taken. -/
theorem getRbAlloc_spec_oneTaken :
    ((getRbAlloc 2 3 0 5 oneTaken 1).isSome = true ↔ 2 ≤ (findLargestFreeBlock oneTaken 1 0 5).1) ∧
      (∀ first size, getRbAlloc 2 3 0 5 oneTaken 1 = some (first, size) →
        IsLeast (runStarts (fun rb => oneTaken.isFree 1 (rb + 0)) 5 2) first ∧
          FreeRun (fun rb => oneTaken.isFree 1 (rb + 0)) first size ∧
          first + size ≤ 5 ∧ 2 ≤ size ∧ size ≤ 3) ∧
      IsGreatest (runSizes (fun rb => oneTaken.isFree 1 (rb + 0)) 5)
        (findLargestFreeBlock oneTaken 1 0 5).1 ∧
      IsLeast
        (runStarts (fun rb => oneTaken.isFree 1 (rb + 0)) 5 (findLargestFreeBlock oneTaken 1 0 5).1)
        (findLargestFreeBlock oneTaken 1 0 5).2 :=
  getRbAlloc_spec oneTaken 1 0 5 2 3 (by decide) (by decide) (by decide)

/-- The first resource block is taken. -/
def firstTaken : VrbMap := fun rb => if rb = 0 then 1 else 0

/-- Without a bound on `rbSizeMax` the sum goes round: four free resource blocks are there, and none
are found for two. -/
theorem not_getRbAlloc_isSome_iff :
    ¬ ((getRbAlloc 2 2147483647 0 5 firstTaken 1).isSome = true ↔
      2 ≤ (findLargestFreeBlock firstTaken 1 0 5).1) := by
  decide

end LlmHric.Mac
