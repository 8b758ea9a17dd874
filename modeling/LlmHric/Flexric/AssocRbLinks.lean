import LlmHric.Flexric.AssocRbTree

/-! The nodes of an associative tree stand for a red-black tree if the memory has its cells at
different addresses, beside the cell of the dummy node and whatever else is there. A colour that is
written, a rotation and a replacement below a parent change the red-black tree where they take
place, and leave everything else alone. -/

namespace LlmHric.Flexric

open OwnedMemory RedBlack

variable {K V : Type}

/-- The cell of an entry; the dummy node stands for the missing ones. -/
def linking (dummy : ℕ) : Linking ℕ (TreeEntry K V) (AssocNode K V) where
  addr := TreeEntry.it
  cell e parent left right c := ⟨some e.key, some e.value, parent, left, right, c⟩
  missing := dummy

section Cells

variable (side : Side) (dummy : ℕ) (e : TreeEntry K V) (parent near far p : ℕ) (c d : Color)

@[simp] theorem addr_linking : (linking dummy).addr e = e.it := rfl

@[simp] theorem missing_linking : (linking dummy : Linking ℕ (TreeEntry K V) _).missing = dummy :=
  rfl

@[simp] theorem key_sideCell :
    ((linking dummy).sideCell side e parent near far c).key = some e.key := by cases side <;> rfl

@[simp] theorem value_sideCell :
    ((linking dummy).sideCell side e parent near far c).value = some e.value := by
  cases side <;> rfl

@[simp] theorem parent_sideCell :
    ((linking dummy).sideCell side e parent near far c).parent = parent := by cases side <;> rfl

@[simp] theorem color_sideCell :
    ((linking dummy).sideCell side e parent near far c).color = c := by cases side <;> rfl

@[simp] theorem child_sideCell :
    ((linking dummy).sideCell side e parent near far c).child side = near := by cases side <;> rfl

@[simp] theorem child_other_sideCell :
    ((linking dummy).sideCell side e parent near far c).child side.other = far := by
  cases side <;> rfl

@[simp] theorem setColor_sideCell :
    ((linking dummy).sideCell side e parent near far c).setColor d =
      (linking dummy).sideCell side e parent near far d := by
  cases side <;> rfl

@[simp] theorem setParent_sideCell :
    ((linking dummy).sideCell side e parent near far c).setParent p =
      (linking dummy).sideCell side e p near far c := by
  cases side <;> rfl

@[simp] theorem setChild_sideCell :
    ((linking dummy).sideCell side e parent near far c).setChild side p =
      (linking dummy).sideCell side e parent p far c := by
  cases side <;> rfl

@[simp] theorem setChild_other_sideCell :
    ((linking dummy).sideCell side e parent near far c).setChild side.other p =
      (linking dummy).sideCell side e parent near p c := by
  cases side <;> rfl

/-- The side of a child is seen from the left child of its parent. -/
theorem side_sideCell (h : near ≠ far) :
    (if near = ((linking dummy).sideCell side e parent near far c).left then Side.left
      else Side.right) = side := by
  cases side with
  | left => exact if_pos rfl
  | right => exact if_neg h

end Cells

namespace AssocRbTree

variable {t : AssocRbTree K V} {d : AssocNode K V} {tree x : RedBlack.Tree (TreeEntry K V)}
  {path : List (Frame (TreeEntry K V))} {rest : Multiset (ℕ × AssocNode K V)}

/-- The nodes stand for a red-black tree, beside other ones. -/
structure Stands (t : AssocRbTree K V) (d : AssocNode K V) (tree : RedBlack.Tree (TreeEntry K V))
    (rest : Multiset (ℕ × AssocNode K V)) : Prop where
  black : d.color = .black
  owns : Owns t.mem ({(t.dummy, d)} + ((linking t.dummy).nodes t.dummy tree + rest))
  root : t.root = (linking t.dummy).ptr tree

theorem stands_plug : Stands t d (plug x path) rest ↔ d.color = .black ∧
    Owns t.mem ({(t.dummy, d)} + ((linking t.dummy).nodes ((linking t.dummy).above t.dummy path) x +
      (linking t.dummy).pathNodes t.dummy ((linking t.dummy).ptr x) path + rest)) ∧
    t.root = (linking t.dummy).top ((linking t.dummy).ptr x) path := by
  rw [← Linking.nodes_plug, ← Linking.ptr_plug]
  exact ⟨fun h => ⟨h.black, h.owns, h.root⟩, fun h => ⟨h.1, h.2.1, h.2.2⟩⟩

section Reading

variable {side : Side} {c c' : Color} {e f : TreeEntry K V}
  {near far b l r : RedBlack.Tree (TreeEntry K V)}

theorem Stands.at_root (h : Stands t d tree rest) : Stands t d (plug tree []) rest := h

theorem Stands.at_left (h : Stands t d (plug (.node c l e r) path) rest) :
    Stands t d (plug l (.left c e r :: path)) rest := h

theorem Stands.at_right (h : Stands t d (plug (.node c l e r) path) rest) :
    Stands t d (plug r (.right c l e :: path)) rest := h

theorem Stands.at_node (h : Stands t d (plug (.node c l e r) path) rest) :
    Stands t d (plug (Side.left.node c l e r) path) rest := h

theorem Stands.at_near (h : Stands t d (plug (side.node c near e far) path) rest) :
    Stands t d (plug near (side.frame c e far :: path)) rest := by
  rwa [plug_frame]

theorem Stands.at_far (h : Stands t d (plug (side.node c near e far) path) rest) :
    Stands t d (plug far (side.other.frame c e near :: path)) rest := by
  rwa [plug_frame, Side.node_other]

theorem Stands.at_sibling (h : Stands t d (plug x (side.frame c e far :: path)) rest) :
    Stands t d (plug far (side.other.frame c e x :: path)) rest := by
  rw [plug_frame] at h
  exact h.at_far

theorem Stands.dummy (h : Stands t d tree rest) : t.mem t.dummy = some d := h.owns.get

/-- The cell of a node, before all others. -/
theorem Stands.owns_node (h : Stands t d (plug (side.node c near e far) path) rest) :
    Owns t.mem ({(e.it, (linking t.dummy).sideCell side e ((linking t.dummy).above t.dummy path)
        ((linking t.dummy).ptr near) ((linking t.dummy).ptr far) c)} +
      ({(t.dummy, d)} + ((linking t.dummy).nodes e.it near + (linking t.dummy).nodes e.it far +
        (linking t.dummy).pathNodes t.dummy e.it path + rest))) := by
  apply (stands_plug.mp h).2.1.of_eq
  rw [Linking.nodes_node, Linking.ptr_node, addr_linking]
  abel

theorem Stands.node (h : Stands t d (plug (side.node c near e far) path) rest) :
    t.mem e.it = some ((linking t.dummy).sideCell side e ((linking t.dummy).above t.dummy path)
      ((linking t.dummy).ptr near) ((linking t.dummy).ptr far) c) :=
  h.owns_node.get

theorem Stands.it_ne_dummy (h : Stands t d (plug (side.node c near e far) path) rest) :
    e.it ≠ t.dummy := by
  have hne := h.owns_node.ne (Multiset.mem_add.mpr (.inl (Multiset.mem_singleton_self _)))
  exact hne.symm

/-- Every subtree has a cell with its colour; the dummy node has it for a missing one. -/
theorem Stands.ptr (h : Stands t d (plug x path) rest) :
    ∃ n, t.mem ((linking t.dummy).ptr x) = some n ∧ n.color = x.color ∧
      (x ≠ .nil → n.parent = (linking t.dummy).above t.dummy path) := by
  by_cases hx : x = .nil
  · subst hx
    exact ⟨d, h.dummy, h.black, fun hne => absurd rfl hne⟩
  · obtain ⟨near, e, far, heq⟩ := x.exists_side hx .left
    rw [heq] at h ⊢
    rw [Linking.ptr_node]
    exact ⟨_, h.node, by rw [color_sideCell, Side.color_node], fun _ => parent_sideCell ..⟩

/-- Only a missing tree has the address of the dummy node. -/
theorem Stands.ptr_ne_dummy (h : Stands t d (plug x path) rest) (hx : x ≠ .nil) :
    (linking t.dummy).ptr x ≠ t.dummy := by
  obtain ⟨near, e, far, heq⟩ := x.exists_side hx .left
  rw [heq] at h ⊢
  rw [Linking.ptr_node]
  exact h.it_ne_dummy

theorem Stands.above_ne_dummy (h : Stands t d (plug x path) rest) (hpath : path ≠ []) :
    (linking t.dummy).above t.dummy path ≠ t.dummy := by
  cases path with
  | nil => exact absurd rfl hpath
  | cons f path =>
    obtain ⟨side, c, e, far, rfl⟩ := f.exists_side
    rw [plug_frame] at h
    rw [Linking.above_frame]
    exact h.it_ne_dummy

/-- The root is at the address of a node only if nothing is above it. -/
theorem Stands.ptr_ne_root (h : Stands t d (plug x path) rest) (hpath : path ≠ []) :
    (linking t.dummy).ptr x ≠ t.root := by
  obtain ⟨-, howns, hroot⟩ := stands_plug.mp h
  obtain ⟨n, hn⟩ := Linking.exists_top_mem_pathNodes t.dummy ((linking t.dummy).ptr x) hpath
    (L := linking t.dummy)
  rw [hroot]
  by_cases hx : x = .nil
  · subst hx
    have hne := howns.ne (Multiset.mem_add.mpr (.inl (Multiset.mem_add.mpr (.inr hn))))
    exact hne.symm
  · obtain ⟨near, e, far, heq⟩ := x.exists_side hx .left
    rw [heq] at h hn ⊢
    rw [Linking.ptr_node] at hn ⊢
    have hne := h.owns_node.ne
      (Multiset.mem_add.mpr (.inr (Multiset.mem_add.mpr (.inl (Multiset.mem_add.mpr (.inr hn))))))
    exact hne.symm

/-- Two children are at different addresses, unless both are missing. -/
theorem Stands.ptr_ne_ptr (h : Stands t d (plug (side.node c near e far) path) rest)
    (hne : near ≠ .nil ∨ far ≠ .nil) :
    (linking t.dummy).ptr near ≠ (linking t.dummy).ptr far := by
  have hfar := h.at_far
  rw [← plug_frame] at h
  by_cases hnear : near = .nil
  · rw [hnear]
    exact (hfar.ptr_ne_dummy (hne.resolve_left (not_not.mpr hnear))).symm
  · by_cases hmissing : far = .nil
    · rw [hmissing]
      exact h.ptr_ne_dummy hnear
    · obtain ⟨l, a, r, heq⟩ := near.exists_side hnear .left
      obtain ⟨n, hn⟩ := Linking.exists_mem_nodes e.it hmissing (L := linking t.dummy)
      rw [heq] at h ⊢
      rw [Linking.ptr_node]
      have howns := h.owns_node
      rw [Linking.pathNodes_frame, addr_linking] at howns
      have hne' := howns.ne (x := ((linking t.dummy).ptr far, n)) (by
        simp only [Multiset.mem_add]
        exact .inr (.inl (.inr (.inr (.inl hn)))))
      exact hne'.symm

end Reading

section Writing

variable {side : Side} {c c' : Color} {e x y : TreeEntry K V}
  {near far a b : RedBlack.Tree (TreeEntry K V)}
  {mem : Memory ℕ (AssocNode K V)} {dummy outer u v : ℕ} {n : AssocNode K V}

theorem Stands.setColor (h : Stands t d (plug (side.node c near e far) path) rest) (c' : Color) :
    ∃ mem, write t.mem e.it (·.setColor c') = some mem ∧
      Stands { t with mem } d (plug (side.node c' near e far) path) rest := by
  obtain ⟨mem, hwrite, howns⟩ := h.owns_node.write (·.setColor c')
  refine ⟨mem, hwrite, stands_plug.mpr ⟨h.black, howns.of_eq ?_, ?_⟩⟩
  · rw [setColor_sideCell, Linking.nodes_node, Linking.ptr_node, addr_linking]
    abel
  · rw [Linking.ptr_node]
    have hroot := (stands_plug.mp h).2.2
    rwa [Linking.ptr_node] at hroot

/-- A subtree that is there gets another parent. -/
theorem owns_setParent (p : ℕ) (htree : tree ≠ .nil)
    (h : Owns mem ({(dummy, d)} + ((linking dummy).nodes outer tree + rest))) :
    ∃ mem', write mem ((linking dummy).ptr tree) (·.setParent p) = some mem' ∧
      (linking dummy).ptr tree ≠ dummy ∧
      Owns mem' ({(dummy, d)} + ((linking dummy).nodes p tree + rest)) := by
  obtain ⟨near, e, far, heq⟩ := tree.exists_side htree .left
  rw [heq] at h ⊢
  rw [Linking.nodes_node, addr_linking] at h
  have howns := h.of_eq (show _ = {(e.it, (linking dummy).sideCell .left e outer
      ((linking dummy).ptr near) ((linking dummy).ptr far) tree.color)} +
    ({(dummy, d)} + ((linking dummy).nodes e.it near + (linking dummy).nodes e.it far + rest)) by
      abel)
  have hne : e.it ≠ dummy := by
    have hdummy := howns.ne (Multiset.mem_add.mpr (.inl (Multiset.mem_singleton_self _)))
    exact hdummy.symm
  obtain ⟨mem', hwrite, howns'⟩ := howns.write (·.setParent p)
  rw [Linking.ptr_node, addr_linking]
  refine ⟨mem', hwrite, hne, howns'.of_eq ?_⟩
  rw [setParent_sideCell, Linking.nodes_node, addr_linking]
  abel

/-- A subtree gets another parent; the dummy node is left alone. -/
theorem setParentOf_eq (p : ℕ)
    (h : Owns mem ({(t.dummy, d)} + ((linking t.dummy).nodes outer tree + rest))) :
    ∃ mem', t.setParentOf mem ((linking t.dummy).ptr tree) p = some mem' ∧
      Owns mem' ({(t.dummy, d)} + ((linking t.dummy).nodes p tree + rest)) := by
  by_cases htree : tree = .nil
  · subst htree
    exact ⟨mem, if_pos rfl, h⟩
  · obtain ⟨mem', hwrite, hne, howns⟩ := owns_setParent p htree h
    exact ⟨mem', (if_neg hne).trans hwrite, howns⟩

/-- The cell above a place has the address of another tree in it. -/
theorem owns_setChild (v : ℕ) (h : Owns mem ((linking dummy).pathNodes outer u
      (side.frame c e far :: path) + rest)) :
    ∃ mem', write mem e.it (·.setChild side v) = some mem' ∧
      Owns mem' ((linking dummy).pathNodes outer v (side.frame c e far :: path) + rest) := by
  rw [Linking.pathNodes_frame, add_assoc, addr_linking] at h
  obtain ⟨mem', hwrite, howns⟩ := h.write (·.setChild side v)
  refine ⟨mem', hwrite, ?_⟩
  rw [Linking.pathNodes_frame, add_assoc, addr_linking]
  rwa [setChild_sideCell] at howns

/-- Below its parent, or as the root, a node is replaced by another one. -/
theorem replaceChild_eq (v : ℕ)
    (h : Owns t.mem ({(u, n)} + ({(t.dummy, d)} +
      ((linking t.dummy).pathNodes t.dummy u path + rest))))
    (hparent : n.parent = (linking t.dummy).above t.dummy path)
    (hroot : t.root = (linking t.dummy).top u path) :
    ∃ mem, t.replaceChild u v =
        some { t with mem, root := (linking t.dummy).top v path } ∧
      Owns mem ({(u, n)} + ({(t.dummy, d)} +
        ((linking t.dummy).pathNodes t.dummy v path + rest))) := by
  have hread := h.get
  cases path with
  | nil =>
    refine ⟨t.mem, ?_, h⟩
    rw [replaceChild, hread]
    exact if_pos hparent
  | cons f path =>
    obtain ⟨side, c, e, far, rfl⟩ := f.exists_side
    rw [Linking.above_frame, addr_linking] at hparent
    have howns := h.of_eq (show _ = (linking t.dummy).pathNodes t.dummy u
      (side.frame c e far :: path) + ({(u, n)} + ({(t.dummy, d)} + rest)) by abel)
    have hcell := howns
    rw [Linking.pathNodes_frame, add_assoc, addr_linking] at hcell
    have hne : e.it ≠ t.dummy := by
      have hdummy := hcell.ne (x := (t.dummy, d)) (by simp)
      exact hdummy.symm
    have hfar : u ≠ (linking t.dummy).ptr far := by
      by_cases hmissing : far = .nil
      · rw [hmissing]
        have hdummy := h.ne (x := (t.dummy, d)) (by simp)
        exact hdummy.symm
      · obtain ⟨m, hm⟩ := Linking.exists_mem_nodes e.it hmissing (L := linking t.dummy)
        rw [Linking.pathNodes_frame] at h
        have hother := h.ne (x := ((linking t.dummy).ptr far, m)) (by simp [hm])
        exact hother.symm
    obtain ⟨mem, hwrite, howns'⟩ := owns_setChild v howns
    refine ⟨mem, ?_, howns'.of_eq (by abel)⟩
    rw [replaceChild, hread, Option.bind_eq_bind, Option.bind_some, hparent, if_neg hne, hcell.get]
    simp only [Option.bind_eq_bind, Option.bind_some, side_sideCell _ _ _ _ _ _ _ hfar, hwrite]
    rw [Linking.top] at hroot ⊢
    rw [← hroot]

/-- A rotation changes the links of two nodes, the parent of the subtree between them, and what is
below the parent of the upper one. -/
theorem rotate_eq {xNode yNode : AssocNode K V}
    (h : Owns t.mem ({(u, xNode)} + ({(v, yNode)} + ({(t.dummy, d)} +
      ((linking t.dummy).nodes v b + ((linking t.dummy).pathNodes t.dummy u path + rest))))))
    (hchild : xNode.child side.other = v) (hinner : yNode.child side = (linking t.dummy).ptr b)
    (hparent : xNode.parent = (linking t.dummy).above t.dummy path)
    (hroot : t.root = (linking t.dummy).top u path) :
    ∃ mem, t.rotate side u = some { t with mem, root := (linking t.dummy).top v path } ∧
      Owns mem ({(u, (xNode.setChild side.other ((linking t.dummy).ptr b)).setParent v)} +
        ({(v, (yNode.setParent xNode.parent).setChild side u)} + ({(t.dummy, d)} +
          ((linking t.dummy).nodes u b +
            ((linking t.dummy).pathNodes t.dummy v path + rest))))) := by
  have hne : v ≠ t.dummy := by
    have hdummy := h.tail.ne (x := (t.dummy, d)) (by simp)
    exact hdummy.symm
  -- the subtree between the two nodes gets the upper one as its parent
  obtain ⟨mem₁, hwrite₁, h₁⟩ := h.write (·.setChild side.other ((linking t.dummy).ptr b))
  set xNode₁ := xNode.setChild side.other ((linking t.dummy).ptr b) with hx₁
  have h₁' : Owns mem₁ ({(t.dummy, d)} + ((linking t.dummy).nodes v b + ({(u, xNode₁)} +
      ({(v, yNode)} + ((linking t.dummy).pathNodes t.dummy u path + rest))))) :=
    h₁.of_eq (by abel)
  obtain ⟨mem₂, hwrite₂, h₂⟩ := setParentOf_eq u h₁'
  -- the lower node gets the place of the upper one
  have h₂' : Owns mem₂ ({(v, yNode)} + ({(u, xNode₁)} + ({(t.dummy, d)} +
      ((linking t.dummy).nodes u b + ((linking t.dummy).pathNodes t.dummy u path + rest))))) :=
    h₂.of_eq (by abel)
  obtain ⟨mem₃, hwrite₃, h₃⟩ := h₂'.write (·.setParent xNode.parent)
  have h₃' : Owns mem₃ ({(u, xNode₁)} + ({(t.dummy, d)} +
      ((linking t.dummy).pathNodes t.dummy u path + ({(v, yNode.setParent xNode.parent)} +
        ((linking t.dummy).nodes u b + rest))))) :=
    h₃.of_eq (by abel)
  obtain ⟨mem₄, hreplace, h₄⟩ := replaceChild_eq (t := { t with mem := mem₃ }) v h₃'
    (by rw [hx₁, AssocNode.parent_setChild, hparent]) hroot
  -- the upper node goes below the lower one
  have h₄' : Owns mem₄ ({(v, yNode.setParent xNode.parent)} + ({(u, xNode₁)} + ({(t.dummy, d)} +
      ((linking t.dummy).nodes u b + ((linking t.dummy).pathNodes t.dummy v path + rest))))) :=
    h₄.of_eq (by abel)
  obtain ⟨mem₅, hwrite₅, h₅⟩ := h₄'.write (·.setChild side u)
  rw [add_left_comm] at h₅
  obtain ⟨mem₆, hwrite₆, h₆⟩ := h₅.write (·.setParent v)
  refine ⟨mem₆, ?_, h₆⟩
  have hparent₁ : xNode₁.parent = xNode.parent := AssocNode.parent_setChild ..
  rw [rotate, h.get, Option.bind_eq_bind, Option.bind_some]
  simp only [hchild, if_neg hne, h.tail.get, hinner, hwrite₁, h₁.tail.get, hwrite₂,
    h₂'.tail.get, hparent₁, hwrite₃, hreplace, hwrite₅, hwrite₆, Option.bind_eq_bind,
    Option.bind_some]

/-- A rotation lets a node down on a side, and the one below it on the other side up. -/
theorem Stands.rotate
    (h : Stands t d (plug (side.node c a x (side.node c' b y far)) path) rest) :
    ∃ mem root, t.rotate side x.it = some { t with mem, root } ∧
      Stands { t with mem, root } d (plug (side.node c' (side.node c a x b) y far) path) rest := by
  have hroot := (stands_plug.mp h).2.2
  have howns := h.owns_node
  rw [Linking.nodes_node, Linking.ptr_node, addr_linking] at howns
  rw [Linking.ptr_node, addr_linking] at hroot
  have hcells : Owns t.mem ({(x.it, (linking t.dummy).sideCell side x
        ((linking t.dummy).above t.dummy path) ((linking t.dummy).ptr a) y.it c)} +
      ({(y.it, (linking t.dummy).sideCell side y x.it ((linking t.dummy).ptr b)
          ((linking t.dummy).ptr far) c')} + ({(t.dummy, d)} + ((linking t.dummy).nodes y.it b +
        ((linking t.dummy).pathNodes t.dummy x.it path +
          ((linking t.dummy).nodes x.it a + (linking t.dummy).nodes y.it far + rest)))))) :=
    howns.of_eq (by abel)
  obtain ⟨mem, hrotate, howns'⟩ := rotate_eq hcells (child_other_sideCell ..) (child_sideCell ..)
    (parent_sideCell ..) hroot
  refine ⟨mem, _, hrotate, stands_plug.mpr ⟨h.black, howns'.of_eq ?_, ?_⟩⟩
  · rw [setChild_other_sideCell, setParent_sideCell, setParent_sideCell, setChild_sideCell,
      parent_sideCell, Linking.nodes_node, Linking.nodes_node, Linking.ptr_node,
      Linking.ptr_node, addr_linking, addr_linking]
    abel
  · rw [Linking.ptr_node, addr_linking]

end Writing

end AssocRbTree

end LlmHric.Flexric
