import Mathlib.Data.List.Sort
import Mathlib.Data.Nat.ModEq
import Mathlib.Tactic.Common
import Mathlib.Tactic.SplitIfs

/-! Sequence numbers count modulo some `m`, and are compared by their distance from a base that
moves forward. -/

namespace Window

variable {m base a b : ℕ}

/-- The distance of a sequence number from the base. -/
def offset (m base a : ℕ) : ℕ := if a < base then a + m - base else a - base

@[simp] theorem offset_self : offset m base base = 0 := by
  simp [offset]

theorem offset_lt (ha : a < m) (hbase : base < m) : offset m base a < m := by
  rw [offset]
  split_ifs <;> omega

theorem add_offset_mod (ha : a < m) (hbase : base < m) : (base + offset m base a) % m = a := by
  rw [offset]
  split_ifs with h
  · have hsum : base + (a + m - base) = a + m := by omega
    rw [hsum, Nat.add_mod_right, Nat.mod_eq_of_lt ha]
  · have hsum : base + (a - base) = a := by omega
    rw [hsum, Nat.mod_eq_of_lt ha]

theorem offset_add_mod {k : ℕ} (hbase : base < m) (hk : k < m) :
    offset m base ((base + k) % m) = k := by
  by_cases h : base + k < m
  · rw [Nat.mod_eq_of_lt h, offset, if_neg (by omega)]
    omega
  · have hmod : (base + k) % m = base + k - m := by
      rw [Nat.mod_eq_sub_mod (by omega), Nat.mod_eq_of_lt (by omega)]
    rw [hmod, offset, if_pos (by omega)]
    omega

/-- The next sequence number is one further, unless the numbers come round. -/
theorem offset_succ_mod (ha : a < m) (hbase : base < m) (h : offset m base a + 1 < m) :
    offset m base ((a + 1) % m) = offset m base a + 1 := by
  rcases Nat.lt_or_ge (a + 1) m with hlt | hge
  · rw [Nat.mod_eq_of_lt hlt]
    simp only [offset] at h ⊢
    split_ifs at h ⊢ <;> omega
  · obtain rfl : a + 1 = m := by omega
    rw [Nat.mod_self]
    simp only [offset] at h ⊢
    split_ifs at h ⊢ <;> omega

/-- A base that moved forward to `b` is nearer to what lies behind it. -/
theorem offset_rebase (ha : a < m) (hb : b < m) (hbase : base < m)
    (h : offset m base b ≤ offset m base a) :
    offset m b a = offset m base a - offset m base b := by
  simp only [offset] at h ⊢
  split_ifs at h ⊢ <;> omega

/-- Numbers that are congruent and less than the modulus apart are equal. -/
theorem eq_of_mod_eq (hmod : a % m = b % m) (hab : a < b + m) (hba : b < a + m) :
    a = b := by
  have ha := Nat.div_add_mod a m
  have hb := Nat.div_add_mod b m
  rcases Nat.lt_trichotomy (a / m) (b / m) with hlt | heq | hlt
  · have := Nat.mul_le_mul_left m hlt
    rw [Nat.mul_succ] at this
    omega
  · rw [heq] at ha
    omega
  · have := Nat.mul_le_mul_left m hlt
    rw [Nat.mul_succ] at this
    omega

/-- Increasing numbers below a bound are some of all numbers below it, in order. -/
theorem sublist_range_of_increasing {l : List ℕ} {n : ℕ} (h : l.Pairwise (· < ·))
    (hlt : ∀ i ∈ l, i < n) : l.Sublist (List.range n) := by
  refine List.sublist_of_subperm_of_pairwise (r := (· ≤ ·)) ?_ (h.imp Nat.le_of_lt) ?_
  · exact List.subperm_of_subset (h.imp Nat.ne_of_lt) fun i hi => List.mem_range.mpr (hlt i hi)
  · exact List.pairwise_le_range

end Window
