import Mathlib.Data.List.Basic
import Mathlib.Data.List.Nodup
import Mathlib.Logic.Function.Basic
import Mathlib.Tactic.Common

/-! Every element has a cell that holds the element after it, or nothing. A segment starts at what a
cell holds, passes through a list of elements, and ends with what the cell of the last one holds. -/

namespace LinkedCells

variable {α : Type*} {next next' : α → Option α} {c d e : Option α} {x y : α} {xs ys : List α}

/-- From the link `c` the cells lead through the elements, and then to the link `d`. -/
def Segment (next : α → Option α) : Option α → List α → Option α → Prop
  | c, [], d => c = d
  | c, x :: xs, d => c = some x ∧ Segment next (next x) xs d

@[simp] theorem segment_nil : Segment next c [] d ↔ c = d := Iff.rfl

@[simp] theorem segment_cons :
    Segment next c (x :: xs) d ↔ c = some x ∧ Segment next (next x) xs d := Iff.rfl

theorem segment_append :
    Segment next c (xs ++ ys) d ↔ ∃ e, Segment next c xs e ∧ Segment next e ys d := by
  induction xs generalizing c with
  | nil => simp
  | cons x xs ih => simp [ih, and_assoc]

/-- The last element of a segment links to its end. -/
theorem Segment.end_eq (h : Segment next c (xs ++ [x]) d) : d = next x := by
  obtain ⟨e, -, he⟩ := segment_append.mp h
  exact (segment_nil.mp he.2).symm

/-- Only the cells of its elements matter to a segment. -/
theorem Segment.congr (h : Segment next c xs d) (heq : ∀ x ∈ xs, next' x = next x) :
    Segment next' c xs d := by
  induction xs generalizing c with
  | nil => exact h
  | cons x xs ih =>
    refine ⟨h.1, ?_⟩
    rw [heq x (List.mem_cons_self ..)]
    exact ih h.2 fun y hy => heq y (List.mem_cons_of_mem _ hy)

/-- From one start two segments that end with nothing pass through the same elements. -/
theorem Segment.unique (h : Segment next c xs none) (h' : Segment next c ys none) : xs = ys := by
  induction xs generalizing c ys with
  | nil =>
    obtain rfl := segment_nil.mp h
    cases ys with
    | nil => rfl
    | cons y ys => simp at h'
  | cons x xs ih =>
    obtain ⟨rfl, hx⟩ := h
    cases ys with
    | nil => simp at h'
    | cons y ys =>
      obtain ⟨hxy, hy⟩ := h'
      obtain rfl := Option.some.inj hxy
      rw [ih hx hy]

section Update

variable [DecidableEq α]

/-- The cell of another element is written. -/
theorem Segment.update (h : Segment next c xs d) (hy : y ∉ xs) (e : Option α) :
    Segment (Function.update next y e) c xs d := by
  refine h.congr fun x hx => ?_
  have hxy : x ≠ y := fun hxy => hy (hxy ▸ hx)
  exact Function.update_of_ne hxy ..

/-- The cell of the last element is written. -/
theorem Segment.update_last (h : Segment next c (xs ++ [x]) d) (hx : x ∉ xs) (e : Option α) :
    Segment (Function.update next x e) c (xs ++ [x]) e := by
  obtain ⟨d', hxs, hd⟩ := segment_append.mp h
  refine segment_append.mpr ⟨d', hxs.update hx e, hd.1, ?_⟩
  exact Function.update_self ..

end Update

end LinkedCells
