import Mathlib.Algebra.Order.BigOperators.Group.Finset
import Mathlib.Algebra.Order.Ring.Int
import Mathlib.Data.List.Count
import Mathlib.Data.List.Perm.Subperm
import Mathlib.Tactic.SplitIfs

/-! Several handles refer to the data of one owner, and the data is freed with the last of them. The
books hold how many handles of an owner were made and how many were given back. A handle that is
dropped without being given back is lost: the data of its owner is never freed. -/

namespace RefCount

variable {ι : Type*}

/-- How many handles of an owner were made and given back, and the size of its data. -/
@[ext]
structure Books (ι : Type*) where
  refs : ι → ℕ
  freed : ι → ℕ
  size : ι → ℕ

namespace Books

/-- The size of the data of an owner, as long as it is not freed. -/
def held (b : Books ι) (i : ι) : ℤ := if b.freed i < b.refs i then b.size i else 0

variable [DecidableEq ι]

/-- Another handle is made. -/
def share (b : Books ι) (i : ι) : Books ι :=
  { b with refs := Function.update b.refs i (b.refs i + 1) }

/-- A handle is given back. -/
def release (b : Books ι) (i : ι) : Books ι :=
  { b with freed := Function.update b.freed i (b.freed i + 1) }

/-- An owner gets data, and one handle is made. -/
def alloc (b : Books ι) (i : ι) (size : ℕ) : Books ι :=
  ⟨Function.update b.refs i 1, Function.update b.freed i 0, Function.update b.size i size⟩

/-- Some handles are given back. -/
def releaseAll (b : Books ι) (l : List ι) : Books ι := l.foldl release b

theorem held_release_self (b : Books ι) (i : ι) :
    (b.release i).held i = if b.freed i + 1 < b.refs i then (b.size i : ℤ) else 0 := by
  rw [held, release]
  simp

theorem held_release_of_ne (b : Books ι) {i j : ι} (h : j ≠ i) :
    (b.release i).held j = b.held j := by
  rw [held, held, release]
  simp [h]

theorem freed_releaseAll (b : Books ι) (l : List ι) (i : ι) :
    (b.releaseAll l).freed i = l.count i + b.freed i := by
  induction l generalizing b with
  | nil => simp [releaseAll]
  | cons j l ih =>
    rw [releaseAll, List.foldl_cons, ← releaseAll, ih, List.count_cons]
    by_cases hj : j = i
    · subst hj
      simp [release]
      omega
    · simp [release, hj, Ne.symm hj]

theorem refs_releaseAll (b : Books ι) (l : List ι) : (b.releaseAll l).refs = b.refs := by
  induction l generalizing b with
  | nil => rfl
  | cons j l ih => exact ih (b.release j)

theorem size_releaseAll (b : Books ι) (l : List ι) : (b.releaseAll l).size = b.size := by
  induction l generalizing b with
  | nil => rfl
  | cons j l ih => exact ih (b.release j)

end Books

/-- The handles that exist are not more than the books say, only owners have data, and the data that
is not freed has a total size. -/
structure Ledger [DecidableEq ι] (b : Books ι) (owners : Finset ι) (total : ℤ) (handles : List ι) :
    Prop where
  count_le (i : ι) : handles.count i + b.freed i ≤ b.refs i
  refs_eq_zero (i : ι) : i ∉ owners → b.refs i = 0
  total_eq : total = ∑ i ∈ owners, b.held i

namespace Ledger

variable [DecidableEq ι] {b : Books ι} {owners : Finset ι} {total : ℤ} {l l' : List ι} {i : ι}

theorem mem_owners (h : Ledger b owners total l) (hi : i ∈ l) : i ∈ owners := by
  by_contra hnot
  have hcount := h.count_le i
  have hpos := List.count_pos_iff.mpr hi
  rw [h.refs_eq_zero i hnot] at hcount
  omega

/-- Handles may get lost. -/
theorem subperm (h : Ledger b owners total l) (hl : l'.Subperm l) : Ledger b owners total l' :=
  ⟨fun i => (Nat.add_le_add_right (hl.count_le i) _).trans (h.count_le i), h.refs_eq_zero,
    h.total_eq⟩

theorem perm (h : Ledger b owners total l) (hl : l'.Perm l) : Ledger b owners total l' :=
  h.subperm hl.subperm

/-- A handle of an owner that has one is made. -/
theorem share (h : Ledger b owners total l) (hi : i ∈ l) :
    Ledger (b.share i) owners total (i :: l) := by
  have hlive : b.freed i < b.refs i := by
    have hcount := h.count_le i
    have hpos := List.count_pos_iff.mpr hi
    omega
  refine ⟨fun j => ?_, fun j hj => ?_, ?_⟩
  · have hcount := h.count_le j
    rw [List.count_cons]
    by_cases hj : j = i
    · subst hj
      simp [Books.share]
      omega
    · simpa [Books.share, hj, Ne.symm hj] using hcount
  · have hne : j ≠ i := fun heq => hj (heq ▸ h.mem_owners hi)
    simpa [Books.share, hne] using h.refs_eq_zero j hj
  · rw [h.total_eq]
    refine Finset.sum_congr rfl fun j _ => ?_
    by_cases hj : j = i
    · subst hj
      simp [Books.held, Books.share, hlive, Nat.lt_succ_of_lt hlive]
    · simp [Books.held, Books.share, hj]

/-- A handle is given back; with the last one the data is freed. -/
theorem release (h : Ledger b owners total (i :: l)) :
    Ledger (b.release i) owners
      (if b.freed i + 1 = b.refs i then total - b.size i else total) l := by
  have hcount := h.count_le i
  rw [List.count_cons_self] at hcount
  refine ⟨fun j => ?_, h.refs_eq_zero, ?_⟩
  · by_cases hj : j = i
    · subst hj
      simp only [Books.release, Function.update_self]
      omega
    · have hcount' := h.count_le j
      simpa [Books.release, hj, List.count_cons, Ne.symm hj] using hcount'
  · have hi : i ∈ owners := h.mem_owners List.mem_cons_self
    have hrest : ∑ j ∈ owners.erase i, (b.release i).held j = ∑ j ∈ owners.erase i, b.held j :=
      Finset.sum_congr rfl fun j hj => b.held_release_of_ne (Finset.ne_of_mem_erase hj)
    have hlive : b.held i = b.size i := if_pos (by omega)
    rw [h.total_eq, ← Finset.add_sum_erase _ _ hi, ← Finset.add_sum_erase _ _ hi, hrest, hlive,
      b.held_release_self]
    split_ifs <;> omega

/-- A new owner gets data. -/
theorem alloc (h : Ledger b owners total l) (hi : i ∉ owners) (size : ℕ) :
    Ledger (b.alloc i size) (insert i owners) (total + size) (i :: l) := by
  have hnone : l.count i = 0 := by
    have hcount := h.count_le i
    rw [h.refs_eq_zero i hi] at hcount
    omega
  have hrest : ∑ j ∈ owners, (b.alloc i size).held j = ∑ j ∈ owners, b.held j := by
    refine Finset.sum_congr rfl fun j hj => ?_
    have hne : j ≠ i := fun heq => hi (heq ▸ hj)
    simp [Books.held, Books.alloc, hne]
  refine ⟨fun j => ?_, fun j hj => ?_, ?_⟩
  · have hcount := h.count_le j
    rw [List.count_cons]
    by_cases hj : j = i
    · subst hj
      simp [Books.alloc, hnone]
    · simpa [Books.alloc, hj, Ne.symm hj] using hcount
  · obtain ⟨hne, hj⟩ := not_or.mp (fun hor => hj (Finset.mem_insert.mpr hor))
    simpa [Books.alloc, hne] using h.refs_eq_zero j hj
  · rw [Finset.sum_insert hi, hrest, h.total_eq]
    simp [Books.held, Books.alloc]
    omega

end Ledger

/-- When all handles are given back, nothing is held unless a handle was lost. -/
theorem sum_held_releaseAll_eq_zero_iff [DecidableEq ι] {b : Books ι} {owners : Finset ι}
    {total : ℤ} {l : List ι} (h : Ledger b owners total l) :
    ∑ i ∈ owners, (b.releaseAll l).held i = 0 ↔
      ∀ i, l.count i + b.freed i = b.refs i ∨ b.size i = 0 := by
  have hheld (i : ι) : (b.releaseAll l).held i =
      if l.count i + b.freed i < b.refs i then (b.size i : ℤ) else 0 := by
    rw [Books.held, b.freed_releaseAll, b.refs_releaseAll, b.size_releaseAll]
  have hnonneg : ∀ i ∈ owners, 0 ≤ (b.releaseAll l).held i := by
    intro i _
    rw [hheld]
    split_ifs <;> omega
  rw [Finset.sum_eq_zero_iff_of_nonneg hnonneg]
  constructor
  · intro hzero i
    by_cases hi : i ∈ owners
    · have hcount := h.count_le i
      have hi' := hzero i hi
      rw [hheld] at hi'
      split_ifs at hi' <;> omega
    · have hcount := h.count_le i
      rw [h.refs_eq_zero i hi] at hcount ⊢
      omega
  · intro hall i _
    rw [hheld]
    rcases hall i with heq | hsize
    · exact if_neg heq.not_lt
    · simp [hsize]

end RefCount
