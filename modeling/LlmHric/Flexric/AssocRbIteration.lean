import LlmHric.Flexric.AssocRbExtract

/-! The front of an associative tree is its leftmost node. The next node is the first one of the
right subtree, or the first one above that is come to from the left, so that the elements of the
red-black tree are met in their order. -/

namespace LlmHric.Flexric

open OwnedMemory RedBlack

namespace AssocRbTree

variable {K V : Type} {t : AssocRbTree K V} {d : AssocNode K V}
  {tree x l r : RedBlack.Tree (TreeEntry K V)} {path : List (Frame (TreeEntry K V))}
  {rest : Multiset (ℕ × AssocNode K V)} {e : TreeEntry K V} {c : Color}

/-- The iterator at the start of a list of nodes; the dummy node is behind the last one. -/
def itOf (dummy : ℕ) (entries : List (TreeEntry K V)) : ℕ :=
  (entries.head?.map TreeEntry.it).getD dummy

/-- The minimum of a tree is the first of its nodes. -/
theorem Stands.minimum_eq (h : Stands t d (plug x path) rest) (hsize : x.toList.length ≤ t.size) :
    t.minimum ((linking t.dummy).ptr x) = some (itOf t.dummy x.toList) := by
  by_cases hx : x = .nil
  · subst hx
    exact if_pos rfl
  · obtain ⟨y, hy⟩ := Option.isSome_iff_exists.mp (minimumFrom_isSome hx [])
    rw [h.minimum hy hsize, itOf, head?_of_minimumFrom hy]
    rfl

theorem Stands.front (h : Stands t d tree rest) (hsize : tree.toList.length ≤ t.size) :
    t.front = some (itOf t.dummy tree.toList) := by
  rw [AssocRbTree.front, h.root]
  exact h.at_root.minimum_eq hsize

/-- The way up ends at the first node that is come to from the left. -/
theorem Stands.climb {fuel : ℕ} (h : Stands t d (plug x path) rest) (hx : x ≠ .nil)
    (hfuel : path.length < fuel) :
    t.climb fuel ((linking t.dummy).ptr x) = some (itOf t.dummy (after path)) := by
  induction path generalizing x fuel with
  | nil =>
    obtain ⟨fuel, rfl⟩ := Nat.exists_eq_succ_of_ne_zero (Nat.ne_zero_of_lt hfuel)
    obtain ⟨n, hn, -, hparent⟩ := h.ptr
    rw [AssocRbTree.climb, hn, Option.bind_eq_bind, Option.bind_some, hparent hx]
    exact if_pos rfl
  | cons f path ih =>
    obtain ⟨fuel, rfl⟩ := Nat.exists_eq_succ_of_ne_zero (Nat.ne_zero_of_lt hfuel)
    rw [List.length_cons] at hfuel
    obtain ⟨n, hn, -, hparent⟩ := h.ptr
    have habove := h.above_ne_dummy (List.cons_ne_nil f path)
    obtain ⟨side, c, p, far, rfl⟩ := f.exists_side
    rw [plug_frame] at h
    have hne := h.ptr_ne_ptr (.inl hx)
    rw [AssocRbTree.climb, hn, Option.bind_eq_bind, Option.bind_some, hparent hx, if_neg habove,
      Linking.above_frame, addr_linking, h.node, Option.bind_some]
    cases side with
    | left => exact if_neg (not_not.mpr rfl)
    | right =>
      have hrest := ih h (Side.node_ne_nil _ _ _ _ _) (Nat.lt_of_succ_lt_succ hfuel)
      rw [Linking.ptr_node, addr_linking] at hrest
      exact (if_pos hne.symm).trans hrest

/-- Behind a node come the nodes of its right subtree, and then those behind the path. -/
theorem Stands.next (h : Stands t d (plug (.node c l e r) path) rest)
    (hsize : (plug (.node c l e r) path).toList.length ≤ t.size) :
    t.next e.it = some (itOf t.dummy (r.toList ++ after path)) := by
  have hnode := Stands.at_node h
  rw [AssocRbTree.next, if_neg hnode.it_ne_dummy, hnode.node, Option.bind_eq_bind, Option.bind_some]
  by_cases hr : r = .nil
  · subst hr
    have hlength := length_path_add_le (.node c l e .nil) path
    rw [Tree.toList_node, List.length_append, List.length_cons] at hlength
    exact (if_neg (not_not.mpr rfl)).trans
      (h.climb (Side.node_ne_nil .left c e l .nil) (Nat.lt_succ_of_le (by omega)))
  · have hright := h.at_right.ptr_ne_dummy hr
    have hlength := length_path_add_le r (.right c l e :: path)
    have hmin := h.at_right.minimum_eq ((Nat.le_add_left ..).trans (hlength.trans hsize))
    refine (if_pos hright).trans (hmin.trans ?_)
    cases hlist : r.toList with
    | nil => cases r with
      | nil => exact absurd rfl hr
      | node _ _ _ _ => simp at hlist
    | cons a as => rfl

/-- From an iterator on the loop meets the nodes from there. -/
theorem Stands.visitLoop {pre post : List (TreeEntry K V)} {fuel : ℕ} (h : Stands t d tree rest)
    (hsize : tree.toList.length ≤ t.size) (hlist : tree.toList = pre ++ post)
    (hfuel : post.length < fuel) :
    t.visitLoop fuel (itOf t.dummy post) = some post := by
  induction post generalizing pre fuel with
  | nil =>
    obtain ⟨fuel, rfl⟩ := Nat.exists_eq_succ_of_ne_zero (Nat.ne_zero_of_lt hfuel)
    exact if_pos rfl
  | cons e post ih =>
    obtain ⟨fuel, rfl⟩ := Nat.exists_eq_succ_of_ne_zero (Nat.ne_zero_of_lt hfuel)
    rw [List.length_cons] at hfuel
    have hrest := @ih (pre ++ [e]) fuel (by rw [hlist, List.append_assoc]; rfl)
      (Nat.lt_of_succ_lt_succ hfuel)
    obtain ⟨⟨c, l, e', r, path⟩, rfl, htree, hafter⟩ := exists_located hlist []
    rw [plug_nil] at htree
    rw [after, List.append_nil] at hafter
    subst htree
    have hnext := Stands.next h hsize
    dsimp only at hafter
    rw [hafter] at hnext
    have hnode := Stands.at_node h
    have hne := hnode.it_ne_dummy
    change t.visitLoop (fuel + 1) e'.it = _
    rw [AssocRbTree.visitLoop, endIt, if_neg hne, AssocRbTree.key, AssocRbTree.value, if_neg hne,
      if_neg hne, hnode.node]
    simp only [key_sideCell, value_sideCell, hnext, hrest, Option.bind_eq_bind, Option.bind_some]

/-- The loop meets all nodes in order. -/
theorem Stands.visit (h : Stands t d tree rest) (hsize : tree.toList.length ≤ t.size) :
    t.visit = some tree.toList := by
  rw [AssocRbTree.visit, h.front hsize, Option.bind_eq_bind, Option.bind_some]
  exact h.visitLoop hsize (List.nil_append _).symm (Nat.lt_succ_of_le hsize)

end AssocRbTree

end LlmHric.Flexric
