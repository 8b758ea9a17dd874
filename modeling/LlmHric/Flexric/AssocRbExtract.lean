import LlmHric.Flexric.AssocRbRepair

/-! A node leaves an associative tree as it leaves the red-black tree that the nodes stand for: its
only subtree moves up, or the first node of its right subtree takes its place, with its colour. Its
own cell is left alone until it is freed, so that its key and its value can still be read. -/

namespace LlmHric.Flexric

open OwnedMemory RedBlack

namespace AssocRbTree

variable {K V : Type} {t : AssocRbTree K V} {d : AssocNode K V} {x : RedBlack.Tree (TreeEntry K V)}
  {path : List (Frame (TreeEntry K V))} {rest : Multiset (ℕ × AssocNode K V)}
  {mem : Memory ℕ (AssocNode K V)} {dummy outer u v : ℕ} {n m : AssocNode K V}

/-! ### Transplants -/

/-- The parent of a subtree is written, and that of the dummy node if there is none. -/
theorem owns_setParent_hole (p : ℕ)
    (h : Owns mem ({(dummy, d)} + ((linking dummy).nodes outer x + rest))) :
    ∃ mem' d', write mem ((linking dummy).ptr x) (·.setParent p) = some mem' ∧
      d'.color = d.color ∧ (x = .nil → d'.parent = p) ∧
      Owns mem' ({(dummy, d')} + ((linking dummy).nodes p x + rest)) := by
  by_cases hx : x = .nil
  · subst hx
    obtain ⟨mem', hwrite, howns⟩ := h.write (·.setParent p)
    exact ⟨mem', d.setParent p, hwrite, rfl, fun _ => rfl, howns⟩
  · obtain ⟨mem', hwrite, -, howns⟩ := owns_setParent p hx h
    exact ⟨mem', d, hwrite, rfl, fun hnil => absurd hnil hx, howns⟩

/-- A subtree moves up in place of a node. -/
theorem transplant_eq
    (h : Owns t.mem ({(u, n)} + ({(t.dummy, d)} + ((linking t.dummy).nodes outer x +
      ((linking t.dummy).pathNodes t.dummy u path + rest)))))
    (hparent : n.parent = (linking t.dummy).above t.dummy path)
    (hroot : t.root = (linking t.dummy).top u path) :
    ∃ mem d', t.transplant u ((linking t.dummy).ptr x) =
        some { t with mem, root := (linking t.dummy).top ((linking t.dummy).ptr x) path } ∧
      d'.color = d.color ∧ IsHole t.dummy d' x path ∧
      Owns mem ({(u, n)} + ({(t.dummy, d')} +
        ((linking t.dummy).nodes ((linking t.dummy).above t.dummy path) x +
          ((linking t.dummy).pathNodes t.dummy ((linking t.dummy).ptr x) path + rest)))) := by
  have hne : u ≠ t.dummy := by
    have hdummy := h.ne (x := (t.dummy, d)) (by simp)
    exact hdummy.symm
  have hcells : Owns t.mem ({(u, n)} + ({(t.dummy, d)} +
      ((linking t.dummy).pathNodes t.dummy u path + ((linking t.dummy).nodes outer x + rest)))) :=
    h.of_eq (by abel)
  obtain ⟨mem₁, hreplace, h₁⟩ := replaceChild_eq ((linking t.dummy).ptr x) hcells hparent hroot
  have hread := h₁.get
  have h₁' : Owns mem₁ ({(t.dummy, d)} + ((linking t.dummy).nodes outer x + ({(u, n)} +
      ((linking t.dummy).pathNodes t.dummy ((linking t.dummy).ptr x) path + rest)))) :=
    h₁.of_eq (by abel)
  obtain ⟨mem, d', hwrite, hcolor, hhole, h₂⟩ :=
    owns_setParent_hole ((linking t.dummy).above t.dummy path) h₁'
  refine ⟨mem, d', ?_, hcolor, hhole, h₂.of_eq (by abel)⟩
  rw [transplant, if_neg hne, hreplace]
  simp only [hread, hparent, hwrite, Option.bind_eq_bind, Option.bind_some]

/-- Another node takes the place of a node. -/
theorem transplant_node
    (h : Owns t.mem ({(u, n)} + ({(v, m)} + ({(t.dummy, d)} +
      ((linking t.dummy).pathNodes t.dummy u path + rest)))))
    (hparent : n.parent = (linking t.dummy).above t.dummy path)
    (hroot : t.root = (linking t.dummy).top u path) :
    ∃ mem, t.transplant u v = some { t with mem, root := (linking t.dummy).top v path } ∧
      Owns mem ({(u, n)} + ({(v, m.setParent ((linking t.dummy).above t.dummy path))} +
        ({(t.dummy, d)} + ((linking t.dummy).pathNodes t.dummy v path + rest)))) := by
  have hne : u ≠ t.dummy := by
    have hdummy := h.ne (x := (t.dummy, d)) (by simp)
    exact hdummy.symm
  have hcells : Owns t.mem ({(u, n)} + ({(t.dummy, d)} +
      ((linking t.dummy).pathNodes t.dummy u path + ({(v, m)} + rest)))) := h.of_eq (by abel)
  obtain ⟨mem₁, hreplace, h₁⟩ := replaceChild_eq v hcells hparent hroot
  have h₁' : Owns mem₁ ({(v, m)} + ({(u, n)} + ({(t.dummy, d)} +
      ((linking t.dummy).pathNodes t.dummy v path + rest)))) := h₁.of_eq (by abel)
  obtain ⟨mem, hwrite, h₂⟩ := h₁'.write (·.setParent ((linking t.dummy).above t.dummy path))
  refine ⟨mem, ?_, h₂.of_eq (by abel)⟩
  rw [transplant, if_neg hne, hreplace]
  simp only [h₁.get, hparent, hwrite, Option.bind_eq_bind, Option.bind_some]

/-- The loop goes down to the first node of a tree. -/
theorem Stands.minimumLoop {path outer : List (Frame (TreeEntry K V))}
    {y : Located (TreeEntry K V)} {fuel : ℕ} (h : Stands t d (plug x (path ++ outer)) rest)
    (hy : minimumFrom x path = some y) (hfuel : x.toList.length ≤ fuel) :
    t.minimumLoop fuel ((linking t.dummy).ptr x) = some y.elem.it := by
  fun_induction minimumFrom x path generalizing fuel with
  | case1 => cases hy
  | case2 c a r path =>
    obtain rfl := Option.some.inj hy
    rw [Tree.toList_node, Tree.toList_nil, List.nil_append, List.length_cons] at hfuel
    obtain ⟨fuel, rfl⟩ : ∃ l, fuel = l + 1 := ⟨fuel - 1, by omega⟩
    have hnode := Stands.at_node h
    change t.minimumLoop (fuel + 1) a.it = _
    rw [AssocRbTree.minimumLoop, hnode.node, Option.bind_eq_bind, Option.bind_some]
    exact if_pos rfl
  | case3 c l a r path hl ih =>
    rw [Tree.toList_node, List.length_append, List.length_cons] at hfuel
    obtain ⟨fuel, rfl⟩ : ∃ l, fuel = l + 1 := ⟨fuel - 1, by omega⟩
    have hnode := Stands.at_node h
    have hleft := h.at_left.ptr_ne_dummy hl
    have hrest : t.minimumLoop fuel ((linking t.dummy).ptr l) = some y.elem.it :=
      ih h hy (by omega)
    change t.minimumLoop (fuel + 1) a.it = _
    rw [AssocRbTree.minimumLoop, hnode.node, Option.bind_eq_bind, Option.bind_some]
    exact (if_neg hleft).trans hrest

theorem Stands.minimum {outer : List (Frame (TreeEntry K V))} {y : Located (TreeEntry K V)}
    (h : Stands t d (plug x outer) rest) (hy : minimumFrom x [] = some y)
    (hsize : x.toList.length ≤ t.size) : t.minimum ((linking t.dummy).ptr x) = some y.elem.it := by
  have hx : x ≠ .nil := by
    rintro rfl
    cases hy
  rw [AssocRbTree.minimum, if_neg (h.ptr_ne_dummy hx)]
  exact @Stands.minimumLoop _ _ _ _ _ _ [] _ _ _ h hy (Nat.le_succ_of_le hsize)

/-! ### Unlinking -/

section Unlink

variable {side : Side} {c c' : Color} {e f : TreeEntry K V}
  {l b far : RedBlack.Tree (TreeEntry K V)}
  {p q : List (Frame (TreeEntry K V))}

/-- The only subtree of a node moves up. -/
theorem Stands.transplant_child (h : Stands t d (plug (side.node c .nil e far) path) rest) :
    ∃ mem root d' n, t.transplant e.it ((linking t.dummy).ptr far) = some { t with mem, root } ∧
      IsHole t.dummy d' far path ∧ n.key = some e.key ∧ n.value = some e.value ∧
      Stands { t with mem, root } d' (plug far path) ({(e.it, n)} + rest) := by
  have hroot := (stands_plug.mp h).2.2
  rw [Linking.ptr_node, addr_linking] at hroot
  have hcells : Owns t.mem ({(e.it, (linking t.dummy).sideCell side e
      ((linking t.dummy).above t.dummy path) t.dummy ((linking t.dummy).ptr far) c)} +
    ({(t.dummy, d)} + ((linking t.dummy).nodes e.it far +
      ((linking t.dummy).pathNodes t.dummy e.it path + rest)))) := by
    apply h.owns_node.of_eq
    rw [Linking.nodes, Linking.ptr_nil, missing_linking]
    abel
  obtain ⟨n, hn⟩ : ∃ n, n = (linking t.dummy).sideCell side e
    ((linking t.dummy).above t.dummy path) t.dummy ((linking t.dummy).ptr far) c := ⟨_, rfl⟩
  rw [← hn] at hcells
  obtain ⟨mem, d', htransplant, hcolor, hhole, howns⟩ := transplant_eq hcells
    (by rw [hn, parent_sideCell]) hroot
  refine ⟨mem, _, d', n, htransplant, hhole, by rw [hn, key_sideCell], by rw [hn, value_sideCell],
    stands_plug.mpr ⟨hcolor.trans h.black, howns.of_eq ?_, rfl⟩⟩
  abel

/-- The first node of the right subtree is taken out of it. -/
theorem detachSuccessor_eq
    (h : Owns t.mem ({(e.it, (linking t.dummy).sideCell .right e
        ((linking t.dummy).above t.dummy q) ((linking t.dummy).top f.it p)
        ((linking t.dummy).ptr l) c)} +
      ({(f.it, (linking t.dummy).sideCell .left f ((linking t.dummy).above e.it p) t.dummy
        ((linking t.dummy).ptr b) c')} + ({(t.dummy, d)} + ((linking t.dummy).nodes e.it l +
          (((linking t.dummy).nodes f.it b + (linking t.dummy).pathNodes e.it f.it p) +
            ((linking t.dummy).pathNodes t.dummy e.it q + rest)))))))
    (hroot : t.root = (linking t.dummy).top e.it q) :
    ∃ mem d' outer, t.detachSuccessor e.it f.it = some { t with mem } ∧ d'.color = d.color ∧
      (b = .nil → d'.parent = (linking t.dummy).above f.it p) ∧
      Owns mem ({(e.it, (linking t.dummy).sideCell .right e
          ((linking t.dummy).above t.dummy q) ((linking t.dummy).top f.it p)
          ((linking t.dummy).ptr l) c)} +
        ({(f.it, (linking t.dummy).sideCell .left f outer t.dummy
          ((linking t.dummy).ptr (plug b p)) c')} + ({(t.dummy, d')} +
            ((linking t.dummy).nodes e.it l + ((linking t.dummy).nodes f.it (plug b p) +
              ((linking t.dummy).pathNodes t.dummy e.it q + rest)))))) := by
  have hy := h.tail.get
  obtain ⟨n, hn⟩ : ∃ n, n = (linking t.dummy).sideCell .right e
    ((linking t.dummy).above t.dummy q) ((linking t.dummy).top f.it p) ((linking t.dummy).ptr l)
      c := ⟨_, rfl⟩
  rw [detachSuccessor, hy, Option.bind_eq_bind, Option.bind_some, parent_sideCell]
  by_cases hp : p = []
  · -- the successor is the right child
    subst hp
    rw [← hn] at h ⊢
    have hcells : Owns t.mem ({(t.dummy, d)} + ((linking t.dummy).nodes f.it b + ({(e.it, n)} +
        ({(f.it, (linking t.dummy).sideCell .left f e.it t.dummy ((linking t.dummy).ptr b) c')} +
          ((linking t.dummy).nodes e.it l +
            ((linking t.dummy).pathNodes t.dummy e.it q + rest)))))) := by
      apply h.of_eq
      rw [Linking.pathNodes, Linking.above]
      abel
    obtain ⟨mem, d', hwrite, hcolor, hhole, howns⟩ := owns_setParent_hole f.it hcells
    refine ⟨mem, d', e.it, ?_, hcolor, hhole, howns.of_eq ?_⟩
    · refine (if_pos rfl).trans ?_
      change (write t.mem ((linking t.dummy).ptr b) _).bind _ = _
      rw [hwrite]
      rfl
    · rw [plug_nil]
      abel
  · -- the successor is further down, and its right subtree moves up
    have hne : (linking t.dummy).above e.it p ≠ e.it := by
      obtain ⟨m, hm⟩ := Linking.exists_mem_pathNodes e.it f.it hp (L := linking t.dummy)
      exact h.ne (x := ((linking t.dummy).above e.it p, m)) (by simp [hm])
    have htop : (linking t.dummy).top ((linking t.dummy).ptr b) p =
        (linking t.dummy).top f.it p := by
      cases p with
      | nil => exact absurd rfl hp
      | cons g p => rfl
    obtain ⟨yNode, hyn⟩ : ∃ m, m = (linking t.dummy).sideCell .left f
      ((linking t.dummy).above e.it p) t.dummy ((linking t.dummy).ptr b) c' := ⟨_, rfl⟩
    have hcells : Owns t.mem ({(f.it, yNode)} + ({(t.dummy, d)} + ((linking t.dummy).nodes f.it b +
        ((linking t.dummy).pathNodes t.dummy f.it (p ++ Side.right.frame c e l :: q) +
          rest)))) := by
      apply h.of_eq
      rw [Linking.pathNodes_append, Linking.pathNodes_frame, Linking.above_frame, hyn, addr_linking]
      abel
    have hparent : yNode.parent =
        (linking t.dummy).above t.dummy (p ++ Side.right.frame c e l :: q) := by
      rw [hyn, parent_sideCell, Linking.above_append, Linking.above_frame, addr_linking]
    have hroot' : ∀ v, t.root = (linking t.dummy).top v (p ++ Side.right.frame c e l :: q) := by
      intro v
      rw [Linking.top_append, Linking.top, Side.elem_frame, addr_linking]
      exact hroot
    obtain ⟨mem₁, d', htransplant, hcolor, hhole, h₁⟩ := transplant_eq hcells hparent (hroot' _)
    rw [← hroot'] at htransplant
    -- the right subtree of the node becomes that of the successor
    have h₁' : Owns mem₁ ({(f.it, yNode)} + ({(e.it, n)} + ({(t.dummy, d')} +
        ((linking t.dummy).nodes e.it (plug b p) + ((linking t.dummy).nodes e.it l +
          ((linking t.dummy).pathNodes t.dummy e.it q + rest)))))) := by
      apply h₁.of_eq
      rw [Linking.pathNodes_append, Linking.pathNodes_frame, Linking.above_append,
        Linking.above_frame, htop, hn, addr_linking, Linking.nodes_plug]
      abel
    have hright : n.right = (linking t.dummy).ptr (plug b p) := by
      rw [hn, Linking.ptr_plug, htop]
      rfl
    have hy' : yNode.setChild .right n.right = (linking t.dummy).sideCell .left f
        ((linking t.dummy).above e.it p) t.dummy ((linking t.dummy).ptr (plug b p)) c' := by
      rw [hright, hyn]
      rfl
    obtain ⟨mem₂, hwrite₂, h₂⟩ := h₁'.write (·.setChild .right n.right)
    have h₂' : Owns mem₂ ({(t.dummy, d')} + ((linking t.dummy).nodes e.it (plug b p) +
        ({(f.it, yNode.setChild .right n.right)} + ({(e.it, n)} + ((linking t.dummy).nodes e.it l +
          ((linking t.dummy).pathNodes t.dummy e.it q + rest)))))) := h₂.of_eq (by abel)
    have hrest : plug b p ≠ .nil := by
      cases p with
      | nil => exact absurd rfl hp
      | cons g p =>
        obtain ⟨side, c, a, far, rfl⟩ := g.exists_side
        rw [plug_frame]
        exact plug_ne_nil (Side.node_ne_nil _ _ _ _ _) p
    obtain ⟨mem, hwrite, -, howns⟩ := owns_setParent f.it hrest h₂'
    refine ⟨mem, d', (linking t.dummy).above e.it p, ?_, hcolor, ?_, howns.of_eq ?_⟩
    · refine (if_neg hne).trans ?_
      rw [← hright] at hwrite
      change (t.transplant f.it ((linking t.dummy).ptr b)).bind _ = _
      rw [htransplant, Option.bind_some]
      dsimp only
      rw [h₁'.tail.get, Option.bind_eq_bind, Option.bind_some, hwrite₂, Option.bind_some, hwrite]
      rfl
    · intro hb
      rw [hhole hb, Linking.above_append, Linking.above_frame, addr_linking]
      cases p with
      | nil => exact absurd rfl hp
      | cons g p => rfl
    · rw [hy', hn]
      abel

/-- A node with two subtrees is replaced by the first node of the right one, which gets its colour.
-/
theorem Stands.replaceBySuccessor
    (h : Stands t d (plug (.node c l e (plug (.node c' .nil f b) p)) q) rest) (hl : l ≠ .nil) :
    ∃ mem root d' n, t.replaceBySuccessor e.it f.it = some { t with mem, root } ∧
      IsHole t.dummy d' b (p ++ .right c l f :: q) ∧ n.key = some e.key ∧ n.value = some e.value ∧
      Stands { t with mem, root } d' (plug b (p ++ .right c l f :: q)) ({(e.it, n)} + rest) := by
  have hnode : Stands t d (plug (Side.right.node c (plug (Side.left.node c' .nil f b) p) e l) q)
    rest := h
  have hroot := (stands_plug.mp hnode).2.2
  rw [Linking.ptr_node, addr_linking] at hroot
  have hcells : Owns t.mem ({(e.it, (linking t.dummy).sideCell .right e
        ((linking t.dummy).above t.dummy q) ((linking t.dummy).top f.it p)
        ((linking t.dummy).ptr l) c)} +
      ({(f.it, (linking t.dummy).sideCell .left f ((linking t.dummy).above e.it p) t.dummy
        ((linking t.dummy).ptr b) c')} + ({(t.dummy, d)} + ((linking t.dummy).nodes e.it l +
          (((linking t.dummy).nodes f.it b + (linking t.dummy).pathNodes e.it f.it p) +
            ((linking t.dummy).pathNodes t.dummy e.it q + rest)))))) := by
    apply hnode.owns_node.of_eq
    rw [Linking.nodes_plug, Linking.nodes_node, Linking.ptr_plug, Linking.ptr_node, addr_linking,
      Linking.nodes, Linking.ptr_nil, missing_linking]
    abel
  obtain ⟨mem₁, d', outer, hdetach, hcolor, hhole, h₁⟩ := detachSuccessor_eq hcells hroot
  obtain ⟨n, hn⟩ : ∃ n, n = (linking t.dummy).sideCell .right e
    ((linking t.dummy).above t.dummy q) ((linking t.dummy).top f.it p) ((linking t.dummy).ptr l)
      c := ⟨_, rfl⟩
  rw [← hn] at h₁
  -- the successor takes the place of the node
  have h₁' : Owns mem₁ ({(e.it, n)} + ({(f.it, (linking t.dummy).sideCell .left f outer t.dummy
      ((linking t.dummy).ptr (plug b p)) c')} + ({(t.dummy, d')} +
        ((linking t.dummy).pathNodes t.dummy e.it q + ((linking t.dummy).nodes e.it l +
          ((linking t.dummy).nodes f.it (plug b p) + rest)))))) := h₁.of_eq (by abel)
  obtain ⟨mem₂, htransplant, h₂⟩ := transplant_node (t := { t with mem := mem₁ }) h₁'
    (by rw [hn, parent_sideCell]) hroot
  -- and its left subtree
  dsimp only at h₂
  have h₂' : Owns mem₂ ({(f.it, (linking t.dummy).sideCell .left f
      ((linking t.dummy).above t.dummy q) t.dummy ((linking t.dummy).ptr (plug b p)) c')} +
        ({(e.it, n)} + ({(t.dummy, d')} + ((linking t.dummy).nodes e.it l +
          ((linking t.dummy).pathNodes t.dummy f.it q +
            ((linking t.dummy).nodes f.it (plug b p) + rest)))))) := by
    apply h₂.of_eq
    rw [setParent_sideCell]
    abel
  have hleft : n.left = (linking t.dummy).ptr l := by
    rw [hn]
    rfl
  obtain ⟨mem₃, hwrite₃, h₃⟩ := h₂'.write (·.setChild .left n.left)
  rw [hleft, setChild_sideCell] at h₃
  have h₃' : Owns mem₃ ({(t.dummy, d')} + ((linking t.dummy).nodes e.it l +
      ({(f.it, (linking t.dummy).sideCell .left f ((linking t.dummy).above t.dummy q)
        ((linking t.dummy).ptr l) ((linking t.dummy).ptr (plug b p)) c')} + ({(e.it, n)} +
          ((linking t.dummy).pathNodes t.dummy f.it q +
            ((linking t.dummy).nodes f.it (plug b p) + rest)))))) := h₃.of_eq (by abel)
  obtain ⟨mem₄, hwrite₄, -, h₄⟩ := owns_setParent f.it hl h₃'
  have h₄' : Owns mem₄ ({(f.it, (linking t.dummy).sideCell .left f
      ((linking t.dummy).above t.dummy q) ((linking t.dummy).ptr l)
      ((linking t.dummy).ptr (plug b p)) c')} + ({(e.it, n)} + ({(t.dummy, d')} +
        ((linking t.dummy).nodes f.it l + ((linking t.dummy).pathNodes t.dummy f.it q +
          ((linking t.dummy).nodes f.it (plug b p) + rest)))))) := h₄.of_eq (by abel)
  obtain ⟨mem₅, hwrite₅, h₅⟩ := h₄'.write (·.setColor n.color)
  have hncolor : n.color = c := by rw [hn, color_sideCell]
  rw [setColor_sideCell, hncolor] at h₅
  have hplug : plug b (p ++ .right c l f :: q) = plug (Side.left.node c l f (plug b p)) q := by
    rw [plug_append]
    rfl
  refine ⟨mem₅, (linking t.dummy).top f.it q, d', n, ?_, ?_, by rw [hn, key_sideCell],
    by rw [hn, value_sideCell], ?_⟩
  · dsimp only at htransplant
    rw [AssocRbTree.replaceBySuccessor, hdetach, Option.bind_eq_bind, Option.bind_some,
      htransplant, Option.bind_eq_bind, Option.bind_some]
    rw [hleft] at hwrite₃
    simp only [h₂'.tail.get, hleft, hwrite₃, hwrite₄, hwrite₅, Option.bind_eq_bind,
      Option.bind_some]
  · intro hb
    rw [hhole hb, Linking.above_append]
    rfl
  · rw [hplug]
    refine stands_plug.mpr ⟨hcolor.trans h.black, h₅.of_eq ?_, ?_⟩
    · rw [Linking.nodes_node, Linking.ptr_node, addr_linking]
      abel
    · rw [Linking.ptr_node, addr_linking]

/-- The node is out of the tree. In its place, or in that of its successor, a subtree has moved up,
and the colour that was there is missing if it is black. -/
theorem Stands.unlink {z : Located (TreeEntry K V)} (h : Stands t d z.tree rest)
    (hbal : z.tree.IsRedBlack) (hsize : z.tree.toList.length ≤ t.size) :
    ∃ mem root d' n c x path, t.unlink z.elem.it =
        some ({ t with mem, root }, (linking t.dummy).ptr x, c) ∧
      z.extract = replace c x path ∧ IsHole t.dummy d' x path ∧
      n.key = some z.elem.key ∧ n.value = some z.elem.value ∧
      Stands { t with mem, root } d' (plug x path) ({(z.elem.it, n)} + rest) ∧
      ∃ side a, (plug (Side.node side c .nil a x) path).IsRedBlack := by
  obtain ⟨zc, l, e, r, q⟩ := z
  have hnode := Stands.at_node h
  have hz := hnode.node
  by_cases hl : l = .nil
  · -- the right subtree moves up
    subst hl
    obtain ⟨mem, root, d', n, htransplant, hhole, hkey, hvalue, hstands⟩ :=
      hnode.transplant_child
    refine ⟨mem, root, d', n, zc, r, q, ?_, rfl, hhole, hkey, hvalue, hstands, .left, e, hbal⟩
    rw [AssocRbTree.unlink, hz, Option.bind_eq_bind, Option.bind_some]
    refine (if_pos rfl).trans ?_
    change (t.transplant e.it ((linking t.dummy).ptr r)).bind _ = _
    rw [htransplant]
    rfl
  · have hleft := (Stands.at_left h).ptr_ne_dummy hl
    by_cases hr : r = .nil
    · -- the left subtree moves up
      subst hr
      have hright : Stands t d (plug (Side.right.node zc .nil e l) q) rest := h
      obtain ⟨mem, root, d', n, htransplant, hhole, hkey, hvalue, hstands⟩ :=
        hright.transplant_child
      refine ⟨mem, root, d', n, zc, l, q, ?_, ?_, hhole, hkey, hvalue, hstands, .right, e, hbal⟩
      · rw [AssocRbTree.unlink, hz, Option.bind_eq_bind, Option.bind_some]
        refine (if_neg hleft).trans ((if_pos rfl).trans ?_)
        change (t.transplant e.it ((linking t.dummy).ptr l)).bind _ = _
        rw [htransplant]
        rfl
      · cases l with
        | nil => exact absurd rfl hl
        | node => rfl
    · -- the successor takes the place of the node
      have hright := (Stands.at_right h).ptr_ne_dummy hr
      obtain ⟨y, hy⟩ := Option.isSome_iff_exists.mp (minimumFrom_isSome hr [])
      obtain ⟨hynil, hytree, -⟩ := minimumFrom_spec hy
      have hsucc := hbal.of_successor hy
      have hlength := length_path_add_le r (.right zc l e :: q)
      have hmin := (Stands.at_right h).minimum hy ((Nat.le_add_left ..).trans (hlength.trans hsize))
      obtain ⟨yc, yl, f, b, p⟩ := y
      dsimp only at hynil hytree hsucc hmin
      subst hynil
      rw [plug_nil] at hytree
      subst hytree
      obtain ⟨mem, root, d', n, hreplace, hhole, hkey, hvalue, hstands⟩ :=
        Stands.replaceBySuccessor (q := q) h hl
      have hyNode : Stands t d (plug (Side.left.node yc .nil f b) (p ++ .right zc l e :: q))
          rest := by
        rw [plug_append]
        exact h
      refine ⟨mem, root, d', n, yc, b, _, ?_, ?_, hhole, hkey, hvalue, hstands, .left, f, hsucc⟩
      · rw [AssocRbTree.unlink, hz, Option.bind_eq_bind, Option.bind_some]
        refine (if_neg hleft).trans ((if_neg hright).trans ?_)
        change (t.minimum ((linking t.dummy).ptr _)).bind _ = _
        rw [hmin, Option.bind_some, hyNode.node, Option.bind_eq_bind, Option.bind_some, hreplace]
        rfl
      · exact @Located.extract_of_successor _ ⟨zc, l, e, _, q⟩ _ hl hy

end Unlink

/-! ### Extraction -/

/-- Below the path from which a black node is missing the subtree that has moved up is balanced. -/
theorem exists_balanced_of_missing {side : Side} {a : TreeEntry K V}
    (h : (plug (Side.node side .black .nil a x) path).IsRedBlack) :
    ∃ c n, Balanced x c n ∧ PathBalanced path .black (n + 1) := by
  obtain ⟨c, n, hnode, hpath⟩ := PathBalanced.of_plug h
  cases side with
  | left =>
    cases hnode with
    | black _ hx => exact ⟨_, _, hx, hpath⟩
  | right =>
    cases hnode with
    | black hx _ => exact ⟨_, _, hx, hpath⟩

theorem Stands.extractNode {z : Located (TreeEntry K V)} (h : Stands t d z.tree rest)
    (hbal : z.tree.IsRedBlack) (hsize : z.tree.toList.length ≤ t.size) :
    ∃ mem root d' n tree, t.extractNode z.elem.it = some { t with mem, root } ∧
      z.extract = some tree ∧ n.key = some z.elem.key ∧ n.value = some z.elem.value ∧
      Stands { t with mem, root } d' tree ({(z.elem.it, n)} + rest) := by
  have hnode := Stands.at_node h
  obtain ⟨mem₁, root₁, d₁, n, c, x, path, hunlink, hextract, hhole, hkey, hvalue, hstands, side, a,
    hmissing⟩ := h.unlink hbal hsize
  obtain ⟨tree, htree, -⟩ := Located.extract_isRedBlack hbal
  rw [AssocRbTree.extractNode, if_neg hnode.it_ne_dummy, hunlink, Option.bind_eq_bind,
    Option.bind_some]
  dsimp only
  cases c with
  | red =>
    refine ⟨mem₁, root₁, d₁, n, _, if_neg Color.noConfusion, hextract, hkey, hvalue, hstands⟩
  | black =>
    obtain ⟨c, m, hx, hpath⟩ := exists_balanced_of_missing hmissing
    -- the path is not longer than there are nodes
    have hlist := toList_replace (hextract.symm.trans htree)
    obtain ⟨pre, post, hbefore, hafter⟩ := Located.toList_extract htree
    have hlength := length_path_add_le x path
    rw [← hlist, hafter, List.length_append] at hlength
    rw [hbefore, List.length_append, List.length_cons] at hsize
    obtain ⟨mem, root, d', tree', hfixup, hresult, hstands'⟩ :=
      hstands.deleteFixup hhole hx hpath (show path.length < t.size + 1 by omega)
    exact ⟨mem, root, d', n, tree', (if_pos rfl).trans hfixup, hextract.trans hresult, hkey, hvalue,
      hstands'⟩

/-- The node is out of the tree, its key and its value are read, and it is freed. -/
theorem Stands.takeOut {z : Located (TreeEntry K V)} (h : Stands t d z.tree rest)
    (hbal : z.tree.IsRedBlack) (hsize : t.size = z.tree.toList.length) :
    ∃ mem root d' tree, t.takeOut z.elem.it =
        some (z.elem, { t with mem, root, size := t.size - 1 }) ∧
      z.extract = some tree ∧
      Stands { t with mem, root, size := t.size - 1 } d' tree rest := by
  obtain ⟨mem₁, root, d', n, tree, hextract, htree, hkey, hvalue, hstands⟩ :=
    h.extractNode hbal hsize.ge
  have howns := hstands.owns.of_eq (show _ = {(z.elem.it, n)} + ({(t.dummy, d')} +
    ((linking t.dummy).nodes t.dummy tree + rest)) by dsimp only; abel)
  obtain ⟨mem, hfree, hrest⟩ := howns.free
  obtain ⟨pre, post, hbefore, -⟩ := Located.toList_extract htree
  have hpos : ¬ t.size = 0 := by
    rw [hsize, hbefore, List.length_append, List.length_cons]
    omega
  refine ⟨mem, root, d', tree, ?_, htree, hstands.black, hrest, hstands.root⟩
  have hget := howns.get
  dsimp only at hget hfree
  rw [AssocRbTree.takeOut, hextract]
  simp only [hget, hkey, hvalue, hfree, if_neg hpos, Option.bind_eq_bind, Option.bind_some]

section Keys

variable {cmp : K → K → Ordering} {key : K}

/-- The search goes where the probe of the red-black tree goes. -/
theorem Stands.findRbTree {fuel : ℕ} (h : Stands t d (plug x path) rest)
    (hfuel : x.toList.length < fuel) :
    AssocRbTree.findRbTree cmp t key fuel ((linking t.dummy).ptr x) =
      some (((locateFrom (cmp key ·.key) x path).map (·.elem.it)).getD t.dummy) := by
  obtain ⟨fuel, rfl⟩ := Nat.exists_eq_succ_of_ne_zero (Nat.ne_zero_of_lt hfuel)
  induction x generalizing path fuel with
  | nil => exact if_pos rfl
  | node c l a r ihl ihr =>
    rw [Tree.toList_node, List.length_append, List.length_cons] at hfuel
    obtain ⟨fuel, rfl⟩ : ∃ m, fuel = m + 1 := ⟨fuel - 1, by omega⟩
    have hnode := Stands.at_node h
    change AssocRbTree.findRbTree cmp t key (fuel + 2) a.it = _
    rw [AssocRbTree.findRbTree, if_neg hnode.it_ne_dummy, hnode.node, Option.bind_eq_bind,
      Option.bind_some, key_sideCell, Option.bind_eq_bind, Option.bind_some, locateFrom]
    cases cmp key a.key with
    | lt => exact @ihl (.left c a r :: path) h fuel (by omega)
    | gt => exact @ihr (.right c l a :: path) h fuel (by omega)
    | eq => rfl

end Keys

end AssocRbTree

end LlmHric.Flexric
