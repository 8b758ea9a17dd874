import LlmHric.Flexric.SeqArr
import Mathlib.Tactic.IntervalCases

/-! The number of elements of an array decides its capacity and its block. An array that had `2 ^ k`
elements and then less than half of them lies in a block of `4 ^ k` bytes until it grows again, and
larger elements leave it before that.

Where the elements of an array are kept as a list, its extent is followed beside the list. It tells
whether the elements have been in the block at all times, and this depends on nothing but the
numbers of elements that the array had. -/

namespace LlmHric.Flexric

open Refinement SeqArr

/-- The size and the capacity of an array and the bytes of its block, and whether its elements have
been in the block at all times. -/
structure Extent where
  size : ℕ
  cap : ℕ
  bytes : ℕ
  intact : Bool
  deriving DecidableEq

/-- What is done to an array: an element is pushed, or one is erased. -/
inductive ArrayStep where
  | push
  | pop
  deriving DecidableEq

namespace Extent

/-- The elements are in the block. A `float` counts them and an `int` their bytes when some are
erased, which is exact below these bounds. -/
def Fits (w : ℕ) (e : Extent) : Prop := e.size * w ≤ e.bytes ∧ e.size < 2 ^ 24 ∧ e.size * w < 2 ^ 31

instance (w : ℕ) : DecidablePred (Fits w) := fun _ => inferInstanceAs (Decidable (_ ∧ _))

/-- An array of elements of this size after `seq_arr_init`. -/
def init (w : ℕ) : Extent := ⟨0, minSize, minSize * w, true⟩

/-- The extent is no longer intact when the elements are not in the block. -/
def check (w : ℕ) (e : Extent) : Extent := { e with intact := e.intact && decide (e.Fits w) }

/-- `maybe_expand`. -/
def grow (w : ℕ) (e : Extent) : Extent :=
  if e.size + 1 = e.cap then { e with cap := e.cap * 2, bytes := 2 * e.cap * w } else e

/-- `maybe_shrink`. -/
def shrink (e : Extent) : Extent :=
  if shrinks e.size e.cap then { e with cap := e.cap / 2, bytes := e.cap / 2 * (e.cap / 2) } else e

/-- `seq_arr_push_back` and `seq_arr_erase`, for elements of this size. -/
def step (w : ℕ) (e : Extent) : ArrayStep → Extent
  | .push => check w { e.grow w with size := e.size + 1 }
  | .pop => check w (shrink { e with size := e.size - 1 })

end Extent

def extentAfter (w : ℕ) (steps : List ArrayStep) : Extent := steps.foldl (Extent.step w) (.init w)

/-! ### The numbers of elements -/

/-- The number of elements after a step. -/
def ArrayStep.count (n : ℕ) : ArrayStep → ℕ
  | .push => n + 1
  | .pop => n - 1

/-- The numbers of elements that an array had, the last one first. -/
def sizes (steps : List ArrayStep) : List ℕ :=
  steps.foldl (fun ns a => a.count (ns.headD 0) :: ns) [0]

/-- The array had `2 ^ k` elements. -/
def Tall (k : ℕ) (ns : List ℕ) : Prop := ∃ n ∈ ns, 2 ^ k ≤ n

/-- The array had `2 ^ k` elements, and then less than half of them. -/
def Fallen (k : ℕ) : List ℕ → Prop
  | [] => False
  | n :: ns => Fallen k ns ∨ 2 * n < 2 ^ k ∧ Tall k ns

/-- The array had `2 ^ k` elements, then less than half of them, and then more than there are in
`4 ^ k` bytes. -/
def Cramped (w k : ℕ) : List ℕ → Prop
  | [] => False
  | n :: ns => Cramped w k ns ∨ 4 ^ k < n * w ∧ Fallen k (n :: ns)

/-- The numbers of elements are such that an array of elements of `w` bytes does not leave its
block. -/
structure KeepsBlock (w : ℕ) (ns : List ℕ) : Prop where
  small : ∀ n ∈ ns, n < 2 ^ 24 ∧ n * w < 2 ^ 31
  notCramped : ∀ k, 5 ≤ k → 2 ^ k < w → ¬ Cramped w k ns

/-- The elements are so large that an array that has shrunk leaves its block before it grows again,
and when it is made smaller once more. -/
def LargeElements (w : ℕ) : Prop :=
  ∀ k, 5 ≤ k → 2 ^ k < w →
    4 ^ k < (2 ^ k - 1) * w ∧ (6 ≤ k → 4 ^ (k - 1) < (2 ^ (k - 2) - 1) * w)

section Numbers

variable {k w n : ℕ} {ns : List ℕ}

theorem Fallen.cons (h : Fallen k ns) (n : ℕ) : Fallen k (n :: ns) := .inl h

theorem Tall.cons (h : Tall k ns) (n : ℕ) : Tall k (n :: ns) := by
  obtain ⟨m, hm, hle⟩ := h
  exact ⟨m, List.mem_cons_of_mem _ hm, hle⟩

theorem Tall.mono {j : ℕ} (h : Tall k ns) (hjk : j ≤ k) : Tall j ns := by
  obtain ⟨m, hm, hle⟩ := h
  exact ⟨m, hm, (Nat.pow_le_pow_right (by decide) hjk).trans hle⟩

/-- A number that is not larger than the last one makes the array no taller. -/
theorem Tall.of_cons_le (h : Tall k (n :: ns)) (hn : n ≤ ns.headD 0) : Tall k ns := by
  obtain ⟨m, hm, hle⟩ := h
  rcases List.mem_cons.mp hm with rfl | hm
  · cases ns with
    | nil =>
      have hpos : 0 < 2 ^ k := Nat.two_pow_pos k
      rw [List.headD_nil] at hn
      omega
    | cons l ns => exact ⟨l, List.mem_cons_self, hle.trans hn⟩
  · exact ⟨m, hm, hle⟩

theorem keepsBlock_cons : KeepsBlock w (n :: ns) ↔ KeepsBlock w ns ∧
    (n < 2 ^ 24 ∧ n * w < 2 ^ 31) ∧
      ∀ k, 5 ≤ k → 2 ^ k < w → Fallen k (n :: ns) → n * w ≤ 4 ^ k := by
  constructor
  · intro h
    have hsmall := List.forall_mem_cons.mp h.small
    refine ⟨⟨hsmall.2, fun k hk hkw hc => h.notCramped k hk hkw (.inl hc)⟩, hsmall.1, ?_⟩
    intro k hk hkw hf
    by_contra hlt
    exact h.notCramped k hk hkw (.inr ⟨Nat.lt_of_not_le hlt, hf⟩)
  · rintro ⟨h, hn, hle⟩
    refine ⟨List.forall_mem_cons.mpr ⟨hn, h.small⟩, ?_⟩
    rintro k hk hkw (hc | ⟨hlt, hf⟩)
    · exact h.notCramped k hk hkw hc
    · exact Nat.not_le_of_lt hlt (hle k hk hkw hf)

theorem largeElements_of_le (h : w ∈ [40, 48, 72, 80, 144]) : LargeElements w := by
  intro k hk hkw
  simp only [List.mem_cons, List.not_mem_nil, or_false] at h
  have hlt : k < 8 := by
    have hpow : 2 ^ k < 2 ^ 8 := by omega
    exact (Nat.pow_lt_pow_iff_right (by decide)).mp hpow
  rcases h with rfl | rfl | rfl | rfl | rfl <;> interval_cases k <;> omega

end Numbers

/-! ### The extent and the numbers of elements -/

namespace Extent

variable {w n : ℕ} {ns : List ℕ} {e : Extent}

/-- What the numbers of elements say about the capacity and the block. -/
structure Shape (w : ℕ) (ns : List ℕ) (e : Extent) : Prop where
  size : e.size = ns.headD 0
  isCap : ∃ m, 3 ≤ m ∧ e.cap = 2 ^ m
  lt : e.size < e.cap
  tall : ∀ m, 3 ≤ m → e.cap = 2 ^ (m + 1) → Tall m ns
  block : e.bytes = e.cap * w ∨ ∃ k, 5 ≤ k ∧ e.cap = 2 ^ k ∧ e.bytes = 4 ^ k ∧ Fallen k ns
  standing : ∀ k, 5 ≤ k → Tall k ns → ¬ Fallen k ns → 2 ^ (k + 1) ≤ e.cap

/-- What they say about an extent that is intact. -/
structure Lies (w : ℕ) (ns : List ℕ) (e : Extent) : Prop where
  fits : e.Fits w
  le : e.cap ≤ 32 ∨ e.cap ≤ 4 * e.size
  fallen : ∀ k, 5 ≤ k → 2 ^ k < w → Fallen k ns → e.cap = 2 ^ k ∧ e.bytes = 4 ^ k

theorem two_pow_lt {j m : ℕ} (h : 2 ^ j < 2 ^ m) : 2 ^ (j + 1) ≤ 2 ^ m :=
  Nat.pow_le_pow_right (by decide) ((Nat.pow_lt_pow_iff_right (by decide)).mp h)

theorem four_pow (k : ℕ) : 4 ^ k = 2 ^ k * 2 ^ k := by
  rw [← Nat.mul_pow]

theorem shape_init (w : ℕ) : Shape w [0] (init w) where
  size := rfl
  isCap := ⟨3, le_rfl, rfl⟩
  lt := by
    change 0 < 8
    decide
  tall := by
    intro m hm hcap
    have hpow : 2 ^ 4 ≤ 2 ^ (m + 1) := Nat.pow_le_pow_right (by decide) (by omega)
    change 8 = _ at hcap
    omega
  block := .inl rfl
  standing := by
    intro k _ htall _
    obtain ⟨n, hn, hle⟩ := htall
    have hpos : 0 < 2 ^ k := Nat.two_pow_pos k
    rw [List.mem_singleton.mp hn] at hle
    omega

theorem lies_init (w : ℕ) : Lies w [0] (init w) where
  fits := by
    refine ⟨?_, ?_, ?_⟩ <;> simp [init]
  le := .inl (by change 8 ≤ 32; decide)
  fallen := by
    rintro k _ _ (h | ⟨-, n, hn, -⟩)
    · exact h.elim
    · cases hn

/-- The array grows before it is full. -/
theorem Shape.push (h : Shape w ns e) :
    Shape w ((e.size + 1) :: ns) { e.grow w with size := e.size + 1 } := by
  obtain ⟨m, hm, hcap⟩ := h.isCap
  have hlt := h.lt
  unfold grow
  split_ifs with hfull
  -- the new block has room for the whole capacity
  · refine ⟨rfl, ⟨m + 1, by omega, by rw [hcap, Nat.pow_succ]⟩, by dsimp only; omega, ?_, ?_, ?_⟩
    · intro j _ hj
      dsimp only at hj
      refine ⟨e.size + 1, List.mem_cons_self, ?_⟩
      rw [Nat.pow_succ] at hj
      omega
    · exact .inl (by dsimp only; rw [Nat.mul_comm 2])
    · intro k hk htall hfallen
      dsimp only
      obtain ⟨n, hn, hle⟩ := htall
      rcases List.mem_cons.mp hn with rfl | hn
      · rw [Nat.pow_succ]
        omega
      · have hold := h.standing k hk ⟨n, hn, hle⟩ (mt (Fallen.cons · _) hfallen)
        omega
  -- a number of elements that the array did not have before is below the capacity
  · refine ⟨rfl, h.isCap, by dsimp only; omega, ?_, ?_, ?_⟩
    · exact fun j hj hcap => (h.tall j hj hcap).cons _
    · rcases h.block with hblock | ⟨k, hk, hcapk, hbytes, hfallen⟩
      · exact .inl hblock
      · exact .inr ⟨k, hk, hcapk, hbytes, hfallen.cons _⟩
    · intro k hk htall hfallen
      dsimp only
      obtain ⟨n, hn, hle⟩ := htall
      rcases List.mem_cons.mp hn with rfl | hn
      · rw [hcap]
        apply two_pow_lt
        omega
      · exact h.standing k hk ⟨n, hn, hle⟩ (mt (Fallen.cons · _) hfallen)

theorem Lies.push (hw : LargeElements w) (hs : Shape w ns e) (h : Lies w ns e)
    (hfits : Fits w { e.grow w with size := e.size + 1 }) :
    Lies w ((e.size + 1) :: ns) { e.grow w with size := e.size + 1 } := by
  refine ⟨hfits, ?_, ?_⟩
  · have hle := h.le
    have hlt := hs.lt
    unfold grow
    split_ifs with hfull <;> dsimp only <;> omega
  · intro k hk hkw hfallen
    have hle := h.le
    have hold : Fallen k ns → ({ e.grow w with size := e.size + 1 } : Extent).cap = 2 ^ k ∧
        ({ e.grow w with size := e.size + 1 } : Extent).bytes = 4 ^ k := by
      intro hf
      obtain ⟨hcap, hbytes⟩ := h.fallen k hk hkw hf
      -- the array would have left its block before it grows
      have hnot : ¬ e.size + 1 = e.cap := by
        intro hfull
        have hfit := h.fits.1
        have hlarge := (hw k hk hkw).1
        rw [hbytes, Nat.eq_sub_of_add_eq hfull, hcap] at hfit
        omega
      rw [grow, if_neg hnot]
      exact ⟨hcap, hbytes⟩
    rcases hfallen with hf | ⟨hlow, htall⟩
    · exact hold hf
    · by_contra hne
      have hstanding := hs.standing k hk htall (mt hold hne)
      have hpow : 2 ^ 5 ≤ 2 ^ k := Nat.pow_le_pow_right (by decide) hk
      rw [Nat.pow_succ] at hstanding
      omega

/-- A `float` has all numbers below `2 ^ 24`. -/
theorem shrinks_iff {size m : ℕ} (hsize : size < 2 ^ 24) :
    shrinks size (2 ^ m) = true ↔ minSize < size ∧ 4 * size < 2 ^ m := by
  refine ⟨lt_of_shrinks, fun h => ?_⟩
  rw [shrinks, Bool.and_eq_true, decide_eq_true_eq, decide_eq_true_eq, toFloat, toFloat,
    Rounding.leadingBits_two_pow (by decide), Rounding.leadingBits_of_lt (by decide) hsize]
  exact h

/-- Less than a quarter of the capacity is left in a block of half of it. -/
theorem Shape.pop (h : Shape w ns e) :
    Shape w ((e.size - 1) :: ns) (shrink { e with size := e.size - 1 }) := by
  obtain ⟨m, hm, hcap⟩ := h.isCap
  have hlt := h.lt
  have htall : ∀ {k}, Tall k ((e.size - 1) :: ns) → Tall k ns := fun ht =>
    ht.of_cons_le (h.size ▸ Nat.sub_le _ _)
  unfold shrink
  split_ifs with hs
  · dsimp only at hs
    rw [hcap] at hs
    obtain ⟨hmin, hquarter⟩ := lt_of_shrinks hs
    have hmin' : 8 < e.size - 1 := hmin
    obtain ⟨j, rfl⟩ : ∃ j, m = j + 1 := ⟨m - 1, by omega⟩
    have hj : 5 ≤ j := by
      by_contra hsmall
      have hpow : 2 ^ (j + 1) ≤ 2 ^ 5 := Nat.pow_le_pow_right (by decide) (by omega)
      omega
    have hhalf : e.cap / 2 = 2 ^ j := by
      rw [hcap, Nat.pow_succ]
      omega
    have hpow : 2 ^ (j + 1) = 2 * 2 ^ j := by
      rw [Nat.pow_succ, Nat.mul_comm]
    -- the capacity is only this large because the array had half as many elements
    have hj' : Tall j ns := h.tall j (by omega) hcap
    refine ⟨rfl, ⟨j, by omega, hhalf⟩, by dsimp only; omega, ?_, ?_, ?_⟩
    · intro i _ hi
      dsimp only at hi
      have hij : i + 1 = j := Nat.pow_right_injective le_rfl (hi.symm.trans hhalf)
      exact (hj'.mono (by omega)).cons _
    · refine .inr ⟨j, hj, hhalf, ?_, .inr ⟨by omega, hj'⟩⟩
      dsimp only
      rw [hhalf, four_pow]
    · intro k hk ht hfallen
      dsimp only
      rw [hhalf]
      apply two_pow_lt
      have hnot : ¬ 2 * (e.size - 1) < 2 ^ k := fun hlow => hfallen (.inr ⟨hlow, htall ht⟩)
      omega
  · refine ⟨rfl, h.isCap, by dsimp only; omega, ?_, ?_, ?_⟩
    · exact fun j hj hcap => (h.tall j hj hcap).cons _
    · rcases h.block with hblock | ⟨k, hk, hcapk, hbytes, hfallen⟩
      · exact .inl hblock
      · exact .inr ⟨k, hk, hcapk, hbytes, hfallen.cons _⟩
    · exact fun k hk ht hfallen => h.standing k hk (htall ht) (mt (Fallen.cons · _) hfallen)

theorem Lies.pop (hw : LargeElements w) (hs : Shape w ns e) (h : Lies w ns e)
    (hfits : Fits w (shrink { e with size := e.size - 1 })) :
    Lies w ((e.size - 1) :: ns) (shrink { e with size := e.size - 1 }) := by
  obtain ⟨m, hm, hcap⟩ := hs.isCap
  have hle := h.le
  have hsmall := h.fits.2.1
  refine ⟨hfits, ?_, ?_⟩
  · by_cases hshrinks : shrinks (e.size - 1) e.cap = true
    · have hmin : 8 < e.size - 1 := (lt_of_shrinks (hcap ▸ hshrinks)).1
      rw [shrink, if_pos hshrinks]
      dsimp only
      omega
    · have hmin : ¬ (8 < e.size - 1 ∧ 4 * (e.size - 1) < e.cap) := by
        rw [hcap] at hshrinks ⊢
        exact mt (shrinks_iff (by omega)).mpr hshrinks
      rw [shrink, if_neg hshrinks]
      dsimp only
      by_contra hbig
      -- the capacity is a power of two, so it is not between 32 and 36
      have hsix : 6 ≤ m := by
        by_contra hlt
        have hpow : 2 ^ m ≤ 2 ^ 5 := Nat.pow_le_pow_right (by decide) (by omega)
        omega
      have hpow : 2 ^ 6 ≤ 2 ^ m := Nat.pow_le_pow_right (by decide) hsix
      omega
  · intro k hk hkw hfallen
    have hpow : 2 ^ 5 ≤ 2 ^ k := Nat.pow_le_pow_right (by decide) hk
    by_cases hf : Fallen k ns
    · obtain ⟨hcapk, hbytes⟩ := h.fallen k hk hkw hf
      by_cases hshrinks : shrinks (e.size - 1) e.cap = true
      · -- the array would leave the smaller block at once
        exfalso
        rw [hcapk] at hshrinks
        obtain ⟨hmin, hquarter⟩ := lt_of_shrinks hshrinks
        have hmin' : 8 < e.size - 1 := hmin
        have hfits' := hfits.1
        rw [shrink, if_pos (hcapk ▸ hshrinks)] at hfits'
        dsimp only at hfits'
        obtain ⟨l, rfl⟩ : ∃ l, k = l + 2 := ⟨k - 2, by omega⟩
        have hl : 2 ^ (l + 2) = 4 * 2 ^ l := by rw [Nat.pow_add, Nat.mul_comm]
        have hl' : 2 ^ (l + 1) = 2 * 2 ^ l := by rw [Nat.pow_succ, Nat.mul_comm]
        have hsix : 6 ≤ l + 2 := by
          by_contra hlt
          have hpow' : 2 ^ (l + 2) ≤ 2 ^ 5 := Nat.pow_le_pow_right (by decide) (by omega)
          omega
        have hlarge := (hw (l + 2) hk hkw).2 hsix
        have hsize : e.size - 1 = 2 ^ l - 1 := by omega
        have hhalf : e.cap / 2 = 2 ^ (l + 1) := by omega
        rw [hsize, hhalf, ← four_pow] at hfits'
        exact Nat.not_le_of_lt hlarge hfits'
      · rw [shrink, if_neg hshrinks]
        exact ⟨hcapk, hbytes⟩
    · obtain ⟨hlow, htall⟩ := hfallen.resolve_left hf
      have hstanding := hs.standing k hk htall hf
      have hk' : 2 ^ (k + 1) = 2 * 2 ^ k := by rw [Nat.pow_succ, Nat.mul_comm]
      -- this is the removal that makes the array smaller
      have hmk : m = k + 1 := by
        have hlt : 2 ^ m < 2 ^ (k + 2) := by
          rw [Nat.pow_add 2 k 2]
          omega
        have hge : 2 ^ (k + 1) ≤ 2 ^ m := hcap ▸ hstanding
        have hm1 := (Nat.pow_lt_pow_iff_right (by decide)).mp hlt
        have hm2 := (Nat.pow_le_pow_iff_right (by decide)).mp hge
        omega
      have hshrinks : shrinks (e.size - 1) e.cap = true := by
        rw [hcap]
        refine (shrinks_iff (by omega)).mpr ⟨?_, ?_⟩
        · change 8 < e.size - 1
          omega
        · rw [hmk]
          omega
      have hhalf : e.cap / 2 = 2 ^ k := by
        rw [hcap, hmk]
        omega
      rw [shrink, if_pos hshrinks]
      dsimp only
      rw [hhalf, four_pow]
      exact ⟨rfl, rfl⟩

/-- The elements are in the block as long as no element comes too late. -/
theorem fits_iff {e' : Extent} (hs : Shape w ns e') (h : e'.Fits w → Lies w ns e') :
    e'.Fits w ↔ (e'.size < 2 ^ 24 ∧ e'.size * w < 2 ^ 31) ∧
      ∀ k, 5 ≤ k → 2 ^ k < w → Fallen k ns → e'.size * w ≤ 4 ^ k := by
  constructor
  · intro hfits
    refine ⟨hfits.2, fun k hk hkw hf => ?_⟩
    rw [← ((h hfits).fallen k hk hkw hf).2]
    exact hfits.1
  · rintro ⟨hsmall, hle⟩
    refine ⟨?_, hsmall⟩
    rcases hs.block with hblock | ⟨k, hk, hcap, hbytes, hf⟩
    · rw [hblock]
      exact Nat.mul_le_mul_right _ hs.lt.le
    · rw [hbytes]
      by_cases hkw : 2 ^ k < w
      · exact hle k hk hkw hf
      · rw [four_pow]
        exact Nat.mul_le_mul (hcap ▸ hs.lt.le) (Nat.le_of_not_lt hkw)

/-- An extent goes along with the numbers of elements. -/
structure Follows (w : ℕ) (ns : List ℕ) (e : Extent) : Prop extends Shape w ns e where
  lies : e.intact = true → Lies w ns e
  intact : e.intact = true ↔ KeepsBlock w ns

theorem follows_init (w : ℕ) : Follows w [0] (init w) := by
  refine ⟨shape_init w, fun _ => lies_init w, iff_of_true rfl ⟨?_, ?_⟩⟩
  · intro n hn
    rw [List.mem_singleton.mp hn]
    simp
  · rintro k _ _ (h | ⟨hlt, -⟩)
    · exact h
    · rw [Nat.zero_mul] at hlt
      exact Nat.not_lt_zero _ hlt

theorem Follows.check {e' : Extent} (h : Follows w ns e) (hint : e'.intact = e.intact)
    (hs : Shape w (n :: ns) e') (hl : Lies w ns e → e'.Fits w → Lies w (n :: ns) e') :
    Follows w (n :: ns) (e'.check w) := by
  obtain rfl : e'.size = n := hs.size
  have hiff : (e'.check w).intact = true ↔ e.intact = true ∧ e'.Fits w := by
    rw [Extent.check, Bool.and_eq_true, decide_eq_true_eq, hint]
  refine ⟨⟨hs.size, hs.isCap, hs.lt, hs.tall, hs.block, hs.standing⟩, fun hi => ?_, ?_⟩
  · obtain ⟨hold, hfits⟩ := hiff.mp hi
    have hlies := hl (h.lies hold) hfits
    exact ⟨hlies.fits, hlies.le, hlies.fallen⟩
  · rw [hiff, keepsBlock_cons, ← h.intact]
    exact and_congr_right fun hold => fits_iff hs (hl (h.lies hold))

theorem Follows.step (hw : LargeElements w) (h : Follows w ns e) (a : ArrayStep) :
    Follows w (a.count (ns.headD 0) :: ns) (e.step w a) := by
  rw [← h.size]
  cases a with
  | push =>
    refine h.check ?_ h.toShape.push (Lies.push hw h.toShape)
    unfold grow
    split_ifs <;> rfl
  | pop =>
    refine h.check ?_ h.toShape.pop (Lies.pop hw h.toShape)
    unfold shrink
    split_ifs <;> rfl

end Extent

theorem follows_extentAfter {w : ℕ} (hw : LargeElements w) (steps : List ArrayStep) :
    Extent.Follows w (sizes steps) (extentAfter w steps) := by
  induction steps using List.reverseRecOn with
  | nil => exact Extent.follows_init w
  | append_singleton steps a ih =>
    rw [extentAfter, sizes, List.foldl_append, List.foldl_append]
    exact ih.step hw a

/-- What has left the block does not come back. -/
theorem Extent.intact_of_step {w : ℕ} {e : Extent} {a : ArrayStep}
    (h : (e.step w a).intact = true) : e.intact = true := by
  cases a with
  | push =>
    have hintact : ({ e.grow w with size := e.size + 1 } : Extent).intact = true :=
      (Bool.and_eq_true_iff.mp h).1
    revert hintact
    simp only [Extent.grow]
    split_ifs <;> exact id
  | pop =>
    have hintact : (shrink { e with size := e.size - 1 }).intact = true :=
      (Bool.and_eq_true_iff.mp h).1
    revert hintact
    simp only [shrink]
    split_ifs <;> exact id

theorem intact_of_append {w : ℕ} (steps : List ArrayStep) {rest : List ArrayStep}
    (h : (extentAfter w (steps ++ rest)).intact = true) :
    (extentAfter w steps).intact = true := by
  induction rest using List.reverseRecOn with
  | nil => rwa [List.append_nil] at h
  | append_singleton rest a ih =>
    rw [← List.append_assoc, extentAfter, List.foldl_append] at h
    exact ih (Extent.intact_of_step h)

/-- Whether the elements of an array have been in its block is a matter of their numbers. -/
theorem intact_extentAfter_iff {w : ℕ} (hw : LargeElements w) (steps : List ArrayStep) :
    (extentAfter w steps).intact = true ↔ KeepsBlock w (sizes steps) :=
  (follows_extentAfter hw steps).intact

/-! ### The array in its block -/

/-- The array has these elements and this extent. -/
structure SeqArr.HasExtent (w : ℕ) (xs : List (List UInt8)) (e : Extent) (arr : SeqArr) : Prop
    extends arr.Stores xs where
  eltSize : arr.eltSize = w
  capEq : arr.cap = e.cap
  bytes : arr.data.length = e.bytes
  sizeEq : arr.size = e.size
  fits : e.Fits w

section Refinement

variable {w : ℕ} {xs : List (List UInt8)} {e : Extent} {arr : SeqArr}

theorem SeqArr.HasExtent.push (h : arr.HasExtent w xs e) (fresh : ℕ → UInt8) {x : List UInt8}
    (hx : x.length = w) (hfits : (e.step w .push).Fits w) :
    ∃ arr', arr.pushBack fresh x = some arr' ∧ arr'.HasExtent w (xs ++ [x]) (e.step w .push) := by
  obtain ⟨-, -, -, -, hcap, hlength⟩ := h.maybeExpand fresh
  rw [h.sizeEq, h.capEq, h.eltSize, h.bytes] at hlength
  rw [h.sizeEq, h.capEq] at hcap
  have hgrow : (e.step w .push).cap = (arr.maybeExpand fresh).cap ∧
      (e.step w .push).bytes = (arr.maybeExpand fresh).data.length := by
    rw [hcap, hlength]
    simp only [Extent.step, Extent.check, Extent.grow]
    split_ifs <;> exact ⟨rfl, rfl⟩
  obtain ⟨arr', hpush, hstores, hcap', hlength', helt⟩ :=
    h.toStores.pushBack (hx.trans h.eltSize.symm) fresh (by
      rw [← hgrow.2, h.sizeEq, h.eltSize]
      exact hfits.1)
  have hsize : arr'.size = e.size + 1 := by
    rw [hstores.size, List.length_append, ← h.size, h.sizeEq]
    rfl
  exact ⟨arr', hpush, hstores, helt.trans h.eltSize, hcap'.trans hgrow.1.symm,
    hlength'.trans hgrow.2.symm, hsize, hfits⟩

theorem SeqArr.HasExtent.pop (h : arr.HasExtent w xs e) {i : ℕ} (hi : i < xs.length)
    (hfits : (e.step w .pop).Fits w) :
    ∃ arr', arr.erase (arr.iter i) (arr.iter (i + 1)) = some arr' ∧
      arr'.HasExtent w (xs.take i ++ xs.drop (i + 1)) (e.step w .pop) := by
  have hsplit : xs.take i ++ ([xs[i]] ++ xs.drop (i + 1)) = xs := by
    rw [List.singleton_append, List.getElem_cons_drop, List.take_append_drop]
  have hsmall := h.fits.2.2
  have hone : 1 * w ≤ e.size * w := Nat.mul_le_mul_right _ (by rw [← h.sizeEq, h.size]; omega)
  have hbehind : (xs.drop (i + 1)).length * w ≤ e.size * w :=
    Nat.mul_le_mul_right _ (by rw [← h.sizeEq, h.size, List.length_drop]; omega)
  obtain ⟨arr', heq, hstores, hcap, helt, hlength⟩ := Stores.erase_eq (hsplit.symm ▸ h.toStores)
    (List.cons_ne_nil _ _) (by rw [h.eltSize]; omega)
    (by rw [h.eltSize, List.length_singleton]; omega)
  rw [List.length_take_of_le hi.le, List.length_singleton] at heq
  have hsize : arr'.size = e.size - 1 := by
    rw [hstores.size, List.length_append, List.length_take_of_le hi.le, List.length_drop,
      ← h.sizeEq, h.size]
    omega
  rw [heq]
  simp only [Extent.step, Extent.check, Extent.shrink] at hfits ⊢
  by_cases hs : SeqArr.shrinks (e.size - 1) e.cap = true
  · rw [if_pos hs] at hfits ⊢
    obtain ⟨data, hshrink, hdata, hstores'⟩ := hstores.maybeShrink_of_shrinks
      (by rw [hsize, hcap, h.capEq]; exact hs)
      (by rw [hsize, helt, hcap, h.capEq, h.eltSize]; exact hfits.1)
    exact ⟨_, hshrink, hstores', helt.trans h.eltSize, by dsimp only; rw [hcap, h.capEq],
      by dsimp only; rw [hdata, hcap, h.capEq], hsize, hfits⟩
  · rw [if_neg hs] at hfits ⊢
    refine ⟨arr', ?_, hstores, helt.trans h.eltSize, hcap.trans h.capEq, hlength.trans h.bytes,
      hsize, hfits⟩
    rw [SeqArr.maybeShrink, if_neg (by rw [hsize, hcap, h.capEq]; exact hs)]

def Extent.specStep (w : ℕ) (s : List (List UInt8) × Extent) :
    SeqArrOp → Option (Unit × List (List UInt8) × Extent)
  | .push x => some ((), s.1 ++ [x], s.2.step w .push)
  | .erase start stop => some ((), s.1.take start ++ s.1.drop stop, s.2.step w .pop)

/-- One element is pushed or erased, and leaves the extent intact. -/
def Extent.Allows (w : ℕ) (s : List (List UInt8) × Extent) (_ : SeqArr) : SeqArrOp → Prop
  | .push x => x.length = w ∧ (s.2.step w .push).Fits w
  | .erase start stop => start < s.1.length ∧ stop = start + 1 ∧ (s.2.step w .pop).Fits w

/-- A list with its extent is what an array is as long as the extent is intact: no byte is written
outside the block. -/
theorem extent_refines (w : ℕ) (fresh : ℕ → UInt8) :
    Refines (Extent.specStep w) (SeqArrOp.step fresh) (Extent.Allows w)
      (fun s arr => arr.HasExtent w s.1 s.2) := by
  intro s arr op h hop
  cases op with
  | push x =>
    obtain ⟨arr', hpush, harr'⟩ := h.push fresh hop.1 hop.2
    rw [SeqArrOp.step, hpush]
    exact ⟨rfl, harr'⟩
  | erase start stop =>
    obtain ⟨hlt, rfl, hfits⟩ := hop
    obtain ⟨arr', herase, harr'⟩ := h.pop hlt hfits
    rw [SeqArrOp.step, herase]
    exact ⟨rfl, harr'⟩

end Refinement

end LlmHric.Flexric
