import LlmHric.Flexric.AssocRbLinks

/-! The nodes of an associative tree follow the insertion into the red-black tree that they stand
for: the way down ends above the place of the new leaf, and every round of the repair does there
what the zipper does. The root is black, so that a red parent has a parent of its own and no round
reads the links of the dummy node. -/

namespace LlmHric.Flexric

open OwnedMemory RedBlack

namespace AssocRbTree

variable {K V : Type} {t : AssocRbTree K V} {d : AssocNode K V}
  {tree z far uncle : RedBlack.Tree (TreeEntry K V)} {path : List (Frame (TreeEntry K V))}
  {f : Frame (TreeEntry K V)} {rest : Multiset (ℕ × AssocNode K V)} {p g : TreeEntry K V}
  {side : Side} {c c' : Color}

theorem Stands.paint (h : Stands t d tree rest) (hne : tree ≠ .nil) (c : Color) :
    ∃ mem, write t.mem t.root (·.setColor c) = some mem ∧
      Stands { t with mem } d (tree.paint c) rest := by
  obtain ⟨near, e, far, heq⟩ := tree.exists_side hne .left
  rw [heq, ← plug_nil (Side.node ..)] at h
  obtain ⟨mem, hwrite, hstands⟩ := h.setColor c
  have hroot := h.root
  rw [plug_nil, Linking.ptr_node, addr_linking] at hroot
  refine ⟨mem, ?_, ?_⟩
  · rw [hroot]
    exact hwrite
  · rw [heq, Side.paint_node]
    exact hstands

/-- The loop ends below a black node, or at the root. -/
theorem Stands.insertFixup_done (h : Stands t d (plug z path) rest) (hz : z ≠ .nil)
    (hblack : ∀ f ∈ path.head?, f.color = .black) (fuel : ℕ) :
    ∃ mem, AssocRbTree.insertFixup (fuel + 1) t ((linking t.dummy).ptr z) = some { t with mem } ∧
      Stands { t with mem } d ((plug z path).paint .black) rest := by
  obtain ⟨n, hn, -, hparent⟩ := h.ptr
  obtain ⟨m, hm, hcolor⟩ : ∃ m, t.mem ((linking t.dummy).above t.dummy path) = some m ∧
      m.color = .black := by
    cases path with
    | nil => exact ⟨d, h.dummy, h.black⟩
    | cons f path =>
      have hf := hblack f rfl
      obtain ⟨side, c, e, far, rfl⟩ := f.exists_side
      rw [plug_frame] at h
      rw [Linking.above_frame, addr_linking]
      refine ⟨_, h.node, ?_⟩
      rwa [color_sideCell, ← Side.color_frame side c e far]
  obtain ⟨mem, hwrite, hstands⟩ := h.paint (plug_ne_nil hz _) .black
  refine ⟨mem, ?_, hstands⟩
  have hred : ¬ m.color = .red := by
    rw [hcolor]
    exact Color.noConfusion
  rw [AssocRbTree.insertFixup, hn]
  simp only [hparent hz, hm, if_neg hred, hwrite, Option.bind_eq_bind, Option.bind_some]

/-- Case 1: the colours of three nodes change. -/
theorem Stands.insertFixupRound_flip
    (h : Stands t d (plug z (f :: side.frame c g uncle :: path)) rest)
    (huncle : uncle.color = .red) (zPtr : ℕ) :
    ∃ mem, insertFixupRound side t zPtr f.elem.it g.it = some ({ t with mem }, g.it) ∧
      Stands { t with mem } d (plug (flipColors z f (side.frame c g uncle)) path) rest := by
  rw [plug_cons, plug_frame] at h
  have hg := h.node
  obtain ⟨u, hu, hucolor, -⟩ := h.at_far.ptr
  -- the parent
  obtain ⟨ps, pc, p, psib, rfl⟩ := f.exists_side
  rw [Side.fill_frame] at h hg
  rw [← plug_frame] at h
  obtain ⟨mem₁, hwrite₁, h₁⟩ := h.setColor .black
  -- the uncle
  obtain ⟨near, u', far, heq⟩ := uncle.exists_side (Tree.ne_nil_of_red huncle) .left
  rw [plug_frame, ← Side.node_other, ← plug_frame, heq] at h₁
  obtain ⟨mem₂, hwrite₂, h₂⟩ := h₁.setColor .black
  -- the grandparent
  rw [plug_frame, Side.node_other] at h₂
  obtain ⟨mem₃, hwrite₃, h₃⟩ := h₂.setColor .red
  have hptr : (linking t.dummy).ptr uncle = u'.it := by
    rw [heq, Linking.ptr_node, addr_linking]
  refine ⟨mem₃, ?_, ?_⟩
  · rw [hptr] at hu
    rw [insertFixupRound, hg, Side.elem_frame]
    simp only [child_other_sideCell, hptr, hu, if_pos (hucolor.trans huncle), hwrite₁, hwrite₂,
      hwrite₃, Option.bind_eq_bind, Option.bind_some]
  · rw [flipColors_frame, Side.fill_frame, Side.paint_node, heq, Side.paint_node]
    exact h₃

/-- Case 3: the parent goes up. -/
theorem Stands.rotateOuter
    (h : Stands t d (plug z (side.frame c p far :: side.frame c' g uncle :: path)) rest) :
    ∃ mem root, AssocRbTree.rotateOuter side t p.it g.it = some { t with mem, root } ∧
      Stands { t with mem, root } d
        (plug (side.node .black z p (side.node .red far g uncle)) path) rest := by
  rw [plug_frame] at h
  obtain ⟨mem₁, hwrite₁, h₁⟩ := h.setColor .black
  rw [plug_frame] at h₁
  obtain ⟨mem₂, hwrite₂, h₂⟩ := h₁.setColor .red
  rw [← Side.node_other side, ← Side.node_other side .black] at h₂
  obtain ⟨mem₃, root, hrotate, h₃⟩ := h₂.rotate
  rw [Side.node_other, Side.node_other] at h₃
  refine ⟨mem₃, root, ?_, h₃⟩
  rw [AssocRbTree.rotateOuter, hwrite₁, Option.bind_eq_bind, Option.bind_some, hwrite₂,
    Option.bind_some]
  exact hrotate

/-- An outer grandchild stays where it is. -/
theorem Stands.rotateInner_outer
    (h : Stands t d (plug z (side.frame c p far :: path)) rest) (hz : z ≠ .nil) :
    AssocRbTree.rotateInner side t ((linking t.dummy).ptr z) p.it =
      some (t, (linking t.dummy).ptr z, p.it) := by
  rw [plug_frame] at h
  have hne := h.ptr_ne_ptr (.inl hz)
  rw [AssocRbTree.rotateInner, h.node, Option.bind_eq_bind, Option.bind_some, child_other_sideCell]
  exact if_neg hne

/-- Case 2: an inner grandchild goes above its parent. -/
theorem Stands.rotateInner_inner {near b : RedBlack.Tree (TreeEntry K V)} {e : TreeEntry K V}
    (h : Stands t d (plug (side.node c' near e b) (side.other.frame c p far :: path)) rest) :
    ∃ mem root, AssocRbTree.rotateInner side t e.it p.it =
        some ({ t with mem, root }, p.it, e.it) ∧
      Stands { t with mem, root } d (plug (side.node c far p near) (side.frame c' e b :: path))
        rest := by
  rw [plug_frame, Side.node_other] at h
  obtain ⟨mem, root, hrotate, h₁⟩ := h.rotate
  rw [← plug_frame] at h₁
  have hp := h₁.node
  dsimp only at hp
  refine ⟨mem, root, ?_, h₁⟩
  rw [AssocRbTree.rotateInner, h.node, Option.bind_eq_bind, Option.bind_some, child_other_sideCell,
    Linking.ptr_node, addr_linking, if_pos rfl, hrotate]
  simp only [hp, parent_sideCell, Linking.above_frame, addr_linking, Option.bind_eq_bind,
    Option.bind_some]

/-- Cases 2 and 3: the node ends below a black node that has gone up. -/
theorem Stands.insertFixupRound_rotate
    (h : Stands t d (plug z (f :: side.frame c g uncle :: path)) rest) (hz : z ≠ .nil)
    (hred : f.color = .red) (huncle : uncle.color = .black) :
    ∃ mem root z' side' p' far', insertFixupRound side t ((linking t.dummy).ptr z) f.elem.it g.it =
        some ({ t with mem, root }, (linking t.dummy).ptr z') ∧ z' ≠ .nil ∧
      Stands { t with mem, root } d (plug z' (Side.frame side' .black p' far' :: path)) rest ∧
      (side'.node .black z' p' far') = rotateUp z f (side.frame c g uncle) := by
  have hg := h
  rw [plug_cons, plug_frame] at hg
  obtain ⟨u, hu, hucolor, -⟩ := hg.at_far.ptr
  have hnotRed : ¬ u.color = .red := by
    rw [hucolor, huncle]
    exact Color.noConfusion
  have hsides : ∃ c p far, f = side.frame c p far ∨ f = side.other.frame c p far := by
    obtain ⟨s, c, p, far, rfl⟩ := f.exists_side
    refine ⟨c, p, far, ?_⟩
    cases s <;> cases side
    · exact .inl rfl
    · exact .inr rfl
    · exact .inr rfl
    · exact .inl rfl
  obtain ⟨pc, p, far, rfl | rfl⟩ := hsides
  · have hinner := h.rotateInner_outer hz
    obtain ⟨mem, root, houter, hstands⟩ := h.rotateOuter
    refine ⟨mem, root, z, side, p, side.node .red far g uncle, ?_, hz, ?_, ?_⟩
    · rw [insertFixupRound, hg.node, Side.elem_frame]
      simp only [child_other_sideCell, hu, if_neg hnotRed, hinner, houter, Option.bind_eq_bind,
        Option.bind_some]
    · rwa [plug_frame]
    · rw [rotateUp_frame]
  · obtain rfl : pc = .red := (Side.color_frame ..).symm.trans hred
    obtain ⟨near, e, b, heq⟩ := z.exists_side hz side
    rw [heq] at h
    obtain ⟨mem₁, root₁, hinner, h₁⟩ := h.rotateInner_inner
    obtain ⟨mem, root, houter, hstands⟩ := h₁.rotateOuter
    refine ⟨mem, root, side.node .red far p near, side, e, side.node .red b g uncle, ?_,
      Side.node_ne_nil _ _ _ _ _, ?_, ?_⟩
    · rw [insertFixupRound, hg.node, Side.elem_frame, heq, Linking.ptr_node, addr_linking]
      simp only [child_other_sideCell, hu, if_neg hnotRed, hinner, houter, Option.bind_eq_bind,
        Option.bind_some, Linking.ptr_node, addr_linking]
    · rwa [plug_frame]
    · rw [heq, rotateUp_frame_other]

/-- A red parent has a parent of its own, and the loop makes a round on its side. -/
theorem Stands.insertFixup_succ
    (h : Stands t d (plug z (f :: side.frame c g uncle :: path)) rest) (hz : z ≠ .nil)
    (hred : f.color = .red) (fuel : ℕ) :
    AssocRbTree.insertFixup (fuel + 1) t ((linking t.dummy).ptr z) =
      (insertFixupRound side t ((linking t.dummy).ptr z) f.elem.it g.it).bind fun next =>
        AssocRbTree.insertFixup fuel next.1 next.2 := by
  obtain ⟨n, hn, -, hparent⟩ := h.ptr
  have hg := h
  rw [plug_cons, plug_frame] at hg
  obtain ⟨s, pc, p, far, rfl⟩ := f.exists_side
  obtain rfl : pc = .red := (Side.color_frame ..).symm.trans hred
  rw [plug_frame] at h
  rw [Side.fill_frame] at hg
  have hne := hg.ptr_ne_ptr (.inl (Side.node_ne_nil _ _ _ _ _))
  have hside := side_sideCell side t.dummy g ((linking t.dummy).above t.dummy path) _ _ c hne
  rw [Linking.ptr_node, addr_linking] at hside
  have hp := h.node
  have hgNode := hg.node
  rw [Linking.ptr_node, addr_linking] at hgNode
  rw [AssocRbTree.insertFixup, hn, Side.elem_frame]
  simp only [hparent hz, Linking.above_frame, addr_linking, hp, color_sideCell, if_true,
    parent_sideCell, hgNode, hside, Option.bind_eq_bind, Option.bind_some]

/-- The repair above a red node does what it does to the red-black tree. -/
theorem Stands.insertFixup {n fuel : ℕ} (h : Stands t d (plug z path) rest)
    (hz : Balanced z .red n) (hpath : PathBalanced path .black n) (hfuel : path.length < fuel) :
    ∃ mem root, AssocRbTree.insertFixup fuel t ((linking t.dummy).ptr z) =
        some { t with mem, root } ∧
      Stands { t with mem, root } d (RedBlack.insertFixup z path) rest := by
  have hnil : z ≠ .nil := Tree.ne_nil_of_red hz.color_eq
  obtain ⟨fuel, rfl⟩ := Nat.exists_eq_succ_of_ne_zero (Nat.ne_zero_of_lt hfuel)
  fun_induction RedBlack.insertFixup z path generalizing t n fuel with
  | case1 z parent grand path hblack =>
    obtain ⟨mem, hfixup, hstands⟩ := h.insertFixup_done hnil
      (fun f hf => Option.some.inj hf ▸ hblack) fuel
    exact ⟨mem, t.root, hfixup, hstands⟩
  | case2 z parent grand path hred huncle ih =>
    -- the loop goes on with the grandparent
    obtain ⟨hflip, hrest⟩ := balanced_flipColors hz hpath hred huncle
    obtain ⟨side, c, g, uncle, rfl⟩ := grand.exists_side
    rw [Side.sibling_frame] at huncle
    obtain ⟨mem₁, hround, h₁⟩ := h.insertFixupRound_flip huncle ((linking t.dummy).ptr z)
    rw [List.length_cons, List.length_cons] at hfuel
    obtain ⟨fuel, rfl⟩ : ∃ l, fuel = l + 1 := ⟨fuel - 1, by omega⟩
    obtain ⟨mem, root, hfixup, hstands⟩ := ih h₁ hflip hrest
      (Tree.ne_nil_of_red hflip.color_eq) fuel (by omega)
    refine ⟨mem, root, ?_, hstands⟩
    rw [h.insertFixup_succ hnil hred, hround, Option.bind_some]
    rwa [flipColors_frame, Linking.ptr_node, addr_linking] at hfixup
  | case3 z parent grand path hred huncle =>
    -- the loop ends below the node that has gone up
    obtain ⟨side, c, g, uncle, rfl⟩ := grand.exists_side
    rw [Side.sibling_frame] at huncle
    obtain ⟨mem₁, root, z', side', p', far', hround, hz', h₁, heq⟩ :=
      h.insertFixupRound_rotate hnil hred huncle
    rw [List.length_cons, List.length_cons] at hfuel
    obtain ⟨fuel, rfl⟩ : ∃ l, fuel = l + 1 := ⟨fuel - 1, by omega⟩
    obtain ⟨mem, hfixup, hstands⟩ := h₁.insertFixup_done hz'
      (fun f hf => Option.some.inj hf ▸ Side.color_frame ..) fuel
    rw [plug_frame, heq] at hstands
    refine ⟨mem, root, ?_, hstands⟩
    rw [h.insertFixup_succ hnil hred, hround, Option.bind_some]
    exact hfixup
  | case4 z path hshort =>
    -- a node without a parent of its own is black
    have hblack : ∀ f ∈ path.head?, f.color = .black := by
      intro f hf
      rcases path with _ | ⟨f', _ | ⟨g, path⟩⟩
      · cases hf
      · obtain rfl := Option.some.inj hf
        cases hpath with
        | redLeft _ hroot => cases hroot
        | redRight _ hroot => cases hroot
        | blackLeft => rfl
        | blackRight => rfl
      · exact absurd rfl (hshort f' g path)
    obtain ⟨mem, hfixup, hstands⟩ := h.insertFixup_done hnil hblack fuel
    exact ⟨mem, t.root, hfixup, hstands⟩

/-! ### The new node -/

theorem createNode_eq {cells : Multiset (ℕ × AssocNode K V)} {e : TreeEntry K V}
    (h : Owns t.mem cells) (hnull : e.it ≠ null) (hfree : t.mem e.it = none) :
    ∃ mem, t.createNode e.it e.key e.value = some { t with mem } ∧
      Owns mem ({(e.it, (linking t.dummy).sideCell .left e t.dummy t.dummy t.dummy .red)} +
        cells) := by
  obtain ⟨mem₁, halloc, h₁⟩ := h.alloc hfree
    ⟨some e.key, some e.value, null, null, null, .red⟩
  obtain ⟨mem₂, hwrite₂, h₂⟩ := h₁.write (·.setParent t.dummy)
  obtain ⟨mem₃, hwrite₃, h₃⟩ := h₂.write (·.setChild .left t.dummy)
  obtain ⟨mem₄, hwrite₄, h₄⟩ := h₃.write (·.setChild .right t.dummy)
  refine ⟨mem₄, ?_, h₄⟩
  rw [createNode, initNode, if_neg hnull, halloc]
  simp only [hwrite₂, hwrite₃, hwrite₄, Option.bind_eq_bind, Option.bind_some]

section Keys

variable {cmp : K → K → Ordering} {e : TreeEntry K V} {x : RedBlack.Tree (TreeEntry K V)}

/-- The way down ends above the place of the new leaf. -/
theorem Stands.findLeaf {key : K} {fuel : ℕ} (h : Stands t d (plug x path) rest)
    (hfuel : x.toList.length < fuel) :
    AssocRbTree.findLeaf cmp t key fuel ((linking t.dummy).ptr x)
        ((linking t.dummy).above t.dummy path) =
      some ((linking t.dummy).above t.dummy (descend (cmp key ·.key == .lt) x path)) := by
  induction x generalizing path fuel with
  | nil =>
    obtain ⟨fuel, rfl⟩ := Nat.exists_eq_succ_of_ne_zero (Nat.ne_zero_of_lt hfuel)
    exact if_pos rfl
  | node c l a r ihl ihr =>
    obtain ⟨fuel, rfl⟩ := Nat.exists_eq_succ_of_ne_zero (Nat.ne_zero_of_lt hfuel)
    rw [Tree.toList_node, List.length_append, List.length_cons] at hfuel
    have hroot := Stands.at_node h
    have hnode := hroot.node
    change AssocRbTree.findLeaf cmp t key (fuel + 1) a.it _ = _
    rw [AssocRbTree.findLeaf, if_neg hroot.it_ne_dummy, hnode, Option.bind_eq_bind,
      Option.bind_some, key_sideCell, Option.bind_eq_bind, Option.bind_some, descend]
    by_cases hless : cmp key a.key = .lt
    · rw [if_pos hless, if_pos (beq_iff_eq.mpr hless)]
      exact @ihl (.left c a r :: path) fuel h (by omega)
    · rw [if_neg hless, if_neg (mt beq_iff_eq.mp hless)]
      exact @ihr (.right c l a :: path) fuel h (by omega)

/-- The new leaf gets its place below the node that was found, on the side of its key. -/
theorem linkLeaf_eq
    (h : Owns t.mem ({(e.it, (linking t.dummy).sideCell .left e t.dummy t.dummy t.dummy .red)} +
      ({(t.dummy, d)} + ((linking t.dummy).pathNodes t.dummy t.dummy path + rest))))
    (hblack : d.color = .black) (hroot : t.root = (linking t.dummy).top t.dummy path)
    (hside : ∀ f ∈ path.head?, (if cmp e.key f.elem.key = .lt then Side.left else .right) =
      f.side) :
    ∃ mem root, t.linkLeaf cmp e.it e.key ((linking t.dummy).above t.dummy path) =
        some { t with mem, root } ∧
      Stands { t with mem, root } d (plug (.node .red .nil e .nil) path) rest := by
  obtain ⟨mem₁, hwrite₁, h₁⟩ := h.write (·.setParent ((linking t.dummy).above t.dummy path))
  rw [setParent_sideCell] at h₁
  have hleaf : ∀ mem root, Owns mem ({(e.it, (linking t.dummy).sideCell .left e
        ((linking t.dummy).above t.dummy path) t.dummy t.dummy .red)} +
      ({(t.dummy, d)} + ((linking t.dummy).pathNodes t.dummy e.it path + rest))) →
      root = (linking t.dummy).top e.it path →
      Stands { t with mem, root } d (plug (Side.left.node .red .nil e .nil) path) rest := by
    intro mem root howns htop
    refine stands_plug.mpr ⟨hblack, howns.of_eq ?_, ?_⟩
    · rw [Linking.nodes_node, Linking.ptr_node, addr_linking, Linking.ptr_nil, Linking.nodes,
        missing_linking]
      abel
    · rw [Linking.ptr_node]
      exact htop
  cases path with
  | nil =>
    refine ⟨mem₁, e.it, ?_, hleaf mem₁ e.it h₁ rfl⟩
    rw [linkLeaf, hwrite₁, Option.bind_eq_bind, Option.bind_some]
    exact if_pos rfl
  | cons f path =>
    have hf := hside f rfl
    obtain ⟨side, c, p, far, rfl⟩ := f.exists_side
    rw [Side.elem_frame, Side.side_frame] at hf
    have hcells := h₁.of_eq (show _ = (linking t.dummy).pathNodes t.dummy t.dummy
      (side.frame c p far :: path) + ({(e.it, (linking t.dummy).sideCell .left e
        ((linking t.dummy).above t.dummy (side.frame c p far :: path)) t.dummy t.dummy .red)} +
        ({(t.dummy, d)} + rest)) by abel)
    have hp := hcells
    rw [Linking.pathNodes_frame, add_assoc, addr_linking] at hp
    have hne : p.it ≠ t.dummy := by
      have hdummy := hp.ne (x := (t.dummy, d)) (by simp)
      exact hdummy.symm
    obtain ⟨mem₂, hwrite₂, h₂⟩ := owns_setChild e.it hcells
    refine ⟨mem₂, t.root, ?_, hleaf mem₂ t.root (h₂.of_eq (by abel)) hroot⟩
    rw [Linking.above_frame, addr_linking] at hwrite₁
    rw [linkLeaf, Linking.above_frame, addr_linking, hwrite₁, Option.bind_eq_bind,
      Option.bind_some, if_neg hne, hp.get]
    simp only [key_sideCell, hf, hwrite₂, Option.bind_eq_bind, Option.bind_some]

theorem Stands.insert (h : Stands t d tree rest) (hbal : tree.IsRedBlack)
    (hsize : t.size = tree.toList.length) (hnull : e.it ≠ null) (hfree : t.mem e.it = none) :
    ∃ mem root, t.insert cmp e.it e.key e.value = some { t with mem, root, size := t.size + 1 } ∧
      Stands { t with mem, root, size := t.size + 1 } d (tree.insert (cmp e.key ·.key == .lt) e)
        rest := by
  obtain ⟨n, hn⟩ := hbal
  set goLeft : TreeEntry K V → Bool := (cmp e.key ·.key == .lt)
  set path := descend goLeft tree [] with hpath
  obtain ⟨mem₁, hcreate, h₁⟩ := createNode_eq h.owns hnull hfree
  have hnew : Stands { t with mem := mem₁ } d (plug tree []) ({(e.it, (linking t.dummy).sideCell
      .left e t.dummy t.dummy t.dummy .red)} + rest) :=
    ⟨h.black, h₁.of_eq (by dsimp only; rw [plug_nil]; abel), h.root⟩
  have hfind := @Stands.findLeaf _ _ _ _ _ _ cmp _ e.key _ hnew
    (Nat.lt_succ_self tree.toList.length)
  rw [← plug_descend goLeft] at hnew
  obtain ⟨-, hplace, hroot⟩ := stands_plug.mp hnew
  have hleaf : Owns mem₁ ({(e.it, (linking t.dummy).sideCell .left e t.dummy t.dummy t.dummy
      .red)} + ({(t.dummy, d)} + ((linking t.dummy).pathNodes t.dummy t.dummy path + rest))) := by
    apply hplace.of_eq
    rw [Linking.nodes, Linking.ptr_nil, missing_linking]
    abel
  have hside : ∀ f ∈ path.head?, (if cmp e.key f.elem.key = .lt then Side.left else .right) =
      f.side := by
    intro f hf
    have hstart : ∀ f ∈ ([] : List (Frame (TreeEntry K V))).head?,
        (if goLeft f.elem then Side.left else Side.right) = f.side :=
      fun f hf => absurd hf (Option.not_mem_none f)
    rw [← side_descend hstart tree f hf]
    exact if_congr beq_iff_eq.symm rfl rfl
  obtain ⟨mem₂, root₂, hlink, h₂⟩ := linkLeaf_eq (t := { t with mem := mem₁ }) hleaf h.black hroot
    hside
  have hlength := length_path_add_le .nil path
  rw [hpath, plug_descend, plug_nil, ← hpath] at hlength
  obtain ⟨mem, root, hfixup, hstands⟩ := h₂.insertFixup (.red .nil .nil)
    (PathBalanced.descend hn .nil) (show path.length < t.size + 1 by omega)
  refine ⟨mem, root, ?_, hstands.black, hstands.owns, hstands.root⟩
  dsimp only at hfind
  rw [← h.root, ← hsize] at hfind
  change AssocRbTree.findLeaf cmp { t with mem := mem₁ } e.key (t.size + 1) t.root t.dummy =
    some ((linking t.dummy).above t.dummy path) at hfind
  change AssocRbTree.insertFixup _ _ e.it = _ at hfixup
  dsimp only at hlink hfixup
  rw [AssocRbTree.insert, hcreate]
  simp only [hfind, hlink, hfixup, Option.bind_eq_bind, Option.bind_some]

end Keys

end AssocRbTree

end LlmHric.Flexric
