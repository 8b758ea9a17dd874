import LlmHric.Library.Outcome
import LlmHric.Library.RedBlack

/-! A comparison of the caller that checks its arguments can abort the process in the middle of an
operation on the tree. The operations ask it about the elements they pass, in the order in which
they pass them. Where the comparison answers about every element of the tree, they do what the
operations with a total comparison do. -/

namespace RedBlack

open Checked

variable {α : Type}

/-- The way of an insertion from a node to a leaf. -/
def descendChecked (goLeft : α → Outcome Bool) :
    Tree α → List (Frame α) → Outcome (List (Frame α))
  | .nil, path => .done path
  | .node c l a r, path => do
    if ← goLeft a then
      descendChecked goLeft l (.left c a r :: path)
    else
      descendChecked goLeft r (.right c l a :: path)

/-- Search down from a node; the probe says where to go. -/
def locateChecked (probe : α → Outcome Ordering) :
    Tree α → List (Frame α) → Outcome (Option (Located α))
  | .nil, _ => .done none
  | .node c l a r, path => do
    match ← probe a with
    | .lt => locateChecked probe l (.left c a r :: path)
    | .gt => locateChecked probe r (.right c l a :: path)
    | .eq => .done (some ⟨c, l, a, r, path⟩)

/-- The first node in order that satisfies a predicate, located. -/
def firstChecked (p : α → Outcome Bool) :
    Tree α → List (Frame α) → Outcome (Option (Located α))
  | .nil, _ => .done none
  | .node c l a r, path => do
    match ← firstChecked p l (.left c a r :: path) with
    | some z => .done (some z)
    | none =>
      if ← p a then
        .done (some ⟨c, l, a, r, path⟩)
      else
        firstChecked p r (.right c l a :: path)

theorem descendChecked_eq {goLeft : α → Outcome Bool} {g : α → Bool} {t : Tree α}
    (h : ∀ a ∈ t.toList, goLeft a = .done (g a)) (path : List (Frame α)) :
    descendChecked goLeft t path = .done (descend g t path) := by
  induction t generalizing path with
  | nil => rfl
  | node c l a r ihl ihr =>
    simp only [Tree.toList_node, List.forall_mem_append, List.forall_mem_cons] at h
    obtain ⟨hl, ha, hr⟩ := h
    rw [descendChecked, ha, Outcome.done_bind, descend]
    split
    · apply ihl hl
    · apply ihr hr

theorem locateChecked_eq {probe : α → Outcome Ordering} {q : α → Ordering} {t : Tree α}
    (h : ∀ a ∈ t.toList, probe a = .done (q a)) (path : List (Frame α)) :
    locateChecked probe t path = .done (locateFrom q t path) := by
  induction t generalizing path with
  | nil => rfl
  | node c l a r ihl ihr =>
    simp only [Tree.toList_node, List.forall_mem_append, List.forall_mem_cons] at h
    obtain ⟨hl, ha, hr⟩ := h
    rw [locateChecked, ha, Outcome.done_bind, locateFrom]
    cases q a with
    | lt => apply ihl hl
    | gt => apply ihr hr
    | eq => rfl

theorem firstChecked_eq {p : α → Outcome Bool} {q : α → Bool} {t : Tree α}
    (h : ∀ a ∈ t.toList, p a = .done (q a)) (path : List (Frame α)) :
    firstChecked p t path = .done (firstFrom q t path) := by
  induction t generalizing path with
  | nil => rfl
  | node c l a r ihl ihr =>
    simp only [Tree.toList_node, List.forall_mem_append, List.forall_mem_cons] at h
    obtain ⟨hl, ha, hr⟩ := h
    rw [firstChecked, ihl hl, Outcome.done_bind, firstFrom]
    cases firstFrom q l (.left c a r :: path) with
    | some z => rfl
    | none =>
      rw [ha, Outcome.done_bind]
      dsimp only
      split
      · rfl
      · apply ihr hr

end RedBlack
