import Mathlib.Data.List.Nodup
import Mathlib.Order.Defs.LinearOrder
import Mathlib.Order.Lattice
import Mathlib.Tactic.Common

/-! A list serves as a table when no two of its elements have the same key. Then a search finds the
element with a key, removing the first one with a key removes all of them, and writing through a
pointer to what a search has found changes that element only. -/

namespace KeyedList

variable {α κ : Type*} [DecidableEq κ] {key : α → κ} {l : List α} {k : κ} {x : α}

theorem find?_key_eq_some_iff (h : (l.map key).Nodup) :
    (l.find? fun y => key y = k) = some x ↔ x ∈ l ∧ key x = k := by
  constructor
  · intro hfind
    exact ⟨List.mem_of_find?_eq_some hfind, of_decide_eq_true (List.find?_some hfind :)⟩
  · rintro ⟨hx, rfl⟩
    cases hfind : l.find? fun y => key y = key x with
    | none =>
      have hnone := List.find?_eq_none.mp hfind x hx
      simp at hnone
    | some y =>
      have hy := List.mem_of_find?_eq_some hfind
      have hkey : key y = key x := of_decide_eq_true (List.find?_some hfind :)
      rw [List.inj_on_of_nodup_map h hy hx hkey]

theorem find?_key_eq_none_iff : (l.find? fun y => key y = k) = none ↔ k ∉ l.map key := by
  simp

/-- Removing the first element with a key removes all of them. -/
theorem eraseP_key_eq_filter (h : (l.map key).Nodup) :
    (l.eraseP fun y => key y = k) = l.filter fun y => key y ≠ k := by
  induction l with
  | nil => rfl
  | cons y l ih =>
    rw [List.map_cons, List.nodup_cons] at h
    by_cases hy : key y = k
    · rw [List.eraseP_cons_of_pos (by simpa using hy), List.filter_cons_of_neg (by simpa using hy)]
      symm
      rw [List.filter_eq_self]
      intro z hz
      refine decide_eq_true fun hzk => h.1 ?_
      rw [hy, ← hzk]
      exact List.mem_map_of_mem hz
    · rw [List.eraseP_cons_of_neg (by simpa using hy), List.filter_cons_of_pos (by simpa using hy),
        ih h.2]

omit [DecidableEq κ] in
/-- Distinct keys stay distinct under a filter. -/
theorem nodup_map_filter (h : (l.map key).Nodup) (p : α → Bool) :
    ((l.filter p).map key).Nodup := h.sublist (List.filter_sublist.map _)

/-- Writing what a search finds. -/
theorem modify_findIdx {p : α → Bool} (h : l.find? p = some x) (f : α → α) :
    ∃ pre post, l = pre ++ x :: post ∧ l.modify (l.findIdx p) f = pre ++ f x :: post := by
  induction l with
  | nil => cases h
  | cons y l ih =>
    rw [List.findIdx_cons]
    rw [List.find?_cons] at h
    cases hy : p y with
    | true =>
      rw [hy] at h
      obtain rfl := Option.some.inj h
      exact ⟨[], l, rfl, rfl⟩
    | false =>
      rw [hy] at h
      obtain ⟨pre, post, rfl, hmod⟩ := ih h
      refine ⟨y :: pre, post, rfl, ?_⟩
      rw [cond_false, List.modify_succ_cons, hmod]
      rfl

/-! ### Sorted tables -/

section Sorted

variable {α κ : Type*} [LinearOrder κ] {key : α → κ} {l : List α} {x y : α}

/-- Insert an element at its place; where the key is taken the list stays as it is. -/
def insertSorted (key : α → κ) (x : α) : List α → List α
  | [] => [x]
  | y :: l =>
    if key x < key y then x :: y :: l
    else if key x = key y then y :: l
    else y :: insertSorted key x l

theorem insertSorted_of_mem (h : l.Pairwise fun y z => key y < key z) (hx : key x ∈ l.map key) :
    insertSorted key x l = l := by
  induction l with
  | nil => cases hx
  | cons y l ih =>
    obtain ⟨hy, hl⟩ := List.pairwise_cons.mp h
    rw [insertSorted]
    rcases List.mem_cons.mp hx with heq | hx
    · rw [if_neg (heq ▸ lt_irrefl _), if_pos heq]
    · obtain ⟨z, hz, hzx⟩ := List.mem_map.mp hx
      have hlt : key y < key x := hzx ▸ hy z hz
      rw [if_neg hlt.not_gt, if_neg hlt.ne', ih hl hx]

theorem perm_insertSorted (hx : key x ∉ l.map key) : (insertSorted key x l).Perm (x :: l) := by
  induction l with
  | nil => exact List.Perm.refl _
  | cons y l ih =>
    obtain ⟨hne, hx⟩ := not_or.mp (mt List.mem_cons.mpr hx)
    rw [insertSorted]
    by_cases hlt : key x < key y
    · rw [if_pos hlt]
    · rw [if_neg hlt, if_neg hne]
      exact ((ih hx).cons y).trans (List.Perm.swap x y l)

theorem pairwise_insertSorted (h : l.Pairwise fun y z => key y < key z) (hx : key x ∉ l.map key) :
    (insertSorted key x l).Pairwise fun y z => key y < key z := by
  induction l with
  | nil => exact List.pairwise_singleton _ x
  | cons y l ih =>
    obtain ⟨hne, hx⟩ := not_or.mp (mt List.mem_cons.mpr hx)
    obtain ⟨hy, hl⟩ := List.pairwise_cons.mp h
    rw [insertSorted]
    by_cases hlt : key x < key y
    · rw [if_pos hlt]
      refine List.pairwise_cons.mpr ⟨fun z hz => ?_, h⟩
      rcases List.mem_cons.mp hz with rfl | hz
      · exact hlt
      · exact hlt.trans (hy z hz)
    · rw [if_neg hlt, if_neg hne]
      refine List.pairwise_cons.mpr ⟨fun z hz => ?_, ih hl hx⟩
      rcases List.mem_cons.mp ((perm_insertSorted hx).mem_iff.mp hz) with rfl | hz
      · exact lt_of_le_of_ne (not_lt.mp hlt) (Ne.symm hne)
      · exact hy z hz

theorem nodup_of_pairwise (h : l.Pairwise fun y z => key y < key z) : (l.map key).Nodup :=
  List.pairwise_map.mpr (h.imp ne_of_lt)

/-- An element stands where as many keys are smaller. -/
theorem countP_key_lt (h : l.Pairwise fun y z => key y < key z) {n : ℕ} (hn : l[n]? = some x) :
    (l.countP fun y => key y < key x) = n := by
  induction l generalizing n with
  | nil => cases hn
  | cons y l ih =>
    obtain ⟨hy, hl⟩ := List.pairwise_cons.mp h
    cases n with
    | zero =>
      obtain rfl := Option.some.inj hn
      rw [List.countP_eq_zero]
      intro z hz
      rcases List.mem_cons.mp hz with rfl | hz
      · simp
      · simpa using (hy z hz).le
    | succ n =>
      have hmem := List.mem_of_getElem? hn
      have hlt : key y < key x := by
        rw [List.getElem?_cons_succ] at hn
        exact hy x (List.mem_of_getElem? hn)
      rw [List.countP_cons_of_pos (by simpa using hlt),
        ih hl (by rwa [List.getElem?_cons_succ] at hn)]

end Sorted

end KeyedList
