import LlmHric.Flexric.AssocRbInsert

/-! A node that has moved up in place of a black one may be the dummy node; its parent has been
written then, and the repair starts from it. Every round does to the red-black tree what the zipper
does, as long as the node has a sibling, which the black heights give it. -/

namespace LlmHric.Flexric

open OwnedMemory RedBlack

namespace AssocRbTree

variable {K V : Type} {t : AssocRbTree K V} {d : AssocNode K V}
  {tree x near far : RedBlack.Tree (TreeEntry K V)} {path : List (Frame (TreeEntry K V))}
  {rest : Multiset (ℕ × AssocNode K V)} {p w : TreeEntry K V} {side : Side} {c : Color}

/-- In place of a missing node the dummy one has its parent. -/
def IsHole (dummy : ℕ) (d : AssocNode K V) (x : RedBlack.Tree (TreeEntry K V))
    (path : List (Frame (TreeEntry K V))) : Prop :=
  x = .nil → d.parent = (linking dummy : Linking ℕ (TreeEntry K V) (AssocNode K V)).above dummy path

/-- The node that has moved up has the parent that is above it. -/
theorem Stands.hole (h : Stands t d (plug x path) rest) (hhole : IsHole t.dummy d x path) :
    ∃ n, t.mem ((linking t.dummy).ptr x) = some n ∧ n.color = x.color ∧
      n.parent = (linking t.dummy).above t.dummy path := by
  by_cases hx : x = .nil
  · have hparent := hhole hx
    subst hx
    exact ⟨d, h.dummy, h.black, hparent⟩
  · obtain ⟨n, hn, hcolor, hparent⟩ := h.ptr
    exact ⟨n, hn, hcolor, hparent hx⟩

theorem isHole_frame {dummy : ℕ} : IsHole dummy d x (side.frame c p far :: path) ↔
    (x = .nil → d.parent = p.it) := by
  rw [IsHole, Linking.above_frame, addr_linking]

/-- The parent of the dummy node does not depend on what else is above it. -/
theorem IsHole.frame {dummy : ℕ} {side' : Side} {c' : Color} {far' : RedBlack.Tree (TreeEntry K V)}
    {path' : List (Frame (TreeEntry K V))} (h : IsHole dummy d x (side.frame c p far :: path)) :
    IsHole dummy d x (side'.frame c' p far' :: path') :=
  isHole_frame.mpr (isHole_frame.mp h)

theorem Stands.hole_frame (h : Stands t d (plug x (side.frame c p far :: path)) rest)
    (hhole : IsHole t.dummy d x (side.frame c p far :: path)) :
    ∃ n, t.mem ((linking t.dummy).ptr x) = some n ∧ n.color = x.color ∧ n.parent = p.it := by
  obtain ⟨n, hn, hcolor, hparent⟩ := h.hole hhole
  rw [Linking.above_frame, addr_linking] at hparent
  exact ⟨n, hn, hcolor, hparent⟩

/-- What a round leaves: a node that the loop goes on with, one that has taken the deficit and ends
it, or the root. -/
def RoundResult (t : AssocRbTree K V) (d : AssocNode K V) (next : ℕ) (c : Color)
    (path : List (Frame (TreeEntry K V))) (rest : Multiset (ℕ × AssocNode K V)) :
    Repair (TreeEntry K V) → Prop
  | .up u => u ≠ .nil ∧ u.color = c ∧ Stands t d (plug u path) rest ∧
      next = (linking t.dummy).ptr u
  | .complete u => Stands t d (plug u path) rest ∧ next = t.root
  | .absorbed u => ∃ v path', v.color = .red ∧ Stands t d (plug v path') rest ∧
      next = (linking t.dummy).ptr v ∧ plug (v.paint .black) path' = plug u path

section Rounds

theorem Stands.recolorSibling_black (h : Stands t d (plug x (side.frame c p far :: path)) rest)
    (hblack : far.color = .black) (xPtr : ℕ) :
    recolorSibling side t xPtr ((linking t.dummy).ptr far) =
      some (t, (linking t.dummy).ptr far) := by
  obtain ⟨n, hn, hcolor, -⟩ := h.at_sibling.ptr
  have hnotRed : ¬ n.color = .red := by
    rw [hcolor, hblack]
    exact Color.noConfusion
  rw [recolorSibling, hn, Option.bind_eq_bind, Option.bind_some]
  exact if_neg hnotRed

/-- Case 1: a red sibling goes up, and the node gets its near child as the sibling. -/
theorem Stands.recolorSibling_red
    (h : Stands t d (plug x (side.frame c p (side.node .red near w far) :: path)) rest)
    (hhole : IsHole t.dummy d x (side.frame c p (side.node .red near w far) :: path)) :
    ∃ mem root, recolorSibling side t ((linking t.dummy).ptr x) w.it =
        some ({ t with mem, root }, (linking t.dummy).ptr near) ∧
      Stands { t with mem, root } d
        (plug x (side.frame .red p near :: side.frame .black w far :: path)) rest := by
  have hw := h.at_sibling
  obtain ⟨mem₁, hwrite₁, h₁⟩ := hw.setColor .black
  rw [plug_frame, Side.node_other, ← plug_frame] at h₁
  obtain ⟨n₁, hn₁, -, hparent₁⟩ := h₁.hole_frame hhole.frame
  rw [plug_frame] at h₁
  obtain ⟨mem₂, hwrite₂, h₂⟩ := h₁.setColor .red
  obtain ⟨mem, root, hrotate, h₃⟩ := h₂.rotate
  rw [← plug_frame, ← plug_frame] at h₃
  obtain ⟨n₃, hn₃, -, hparent₃⟩ := h₃.hole_frame hhole.frame
  refine ⟨mem, root, ?_, h₃⟩
  rw [plug_frame] at h₃
  have hp := h₃.node
  dsimp only at hn₁ hwrite₂ hrotate hn₃ hp
  rw [recolorSibling, hw.node]
  simp only [color_sideCell, if_true, hwrite₁, hn₁, hparent₁, hwrite₂, hrotate, hn₃, hparent₃, hp,
    child_other_sideCell, Option.bind_eq_bind, Option.bind_some]

/-- Both children are read. -/
theorem Stands.bothBlack (h : Stands t d (plug (side.node c near w far) path) rest) :
    t.bothBlack w.it = some (near.color == .black && far.color == .black) := by
  obtain ⟨n, hn, hncolor, -⟩ := h.at_near.ptr
  obtain ⟨m, hm, hmcolor, -⟩ := h.at_far.ptr
  rw [AssocRbTree.bothBlack, h.node, Option.bind_eq_bind, Option.bind_some, ← hncolor, ← hmcolor]
  cases side with
  | left =>
    change (t.mem ((linking t.dummy).ptr near)).bind _ = _
    rw [hn, Option.bind_some]
    change (if n.color = .black then
      (t.mem ((linking t.dummy).ptr far)).bind fun r => some (r.color == .black) else _) = _
    rw [hm, Option.bind_some]
    cases n.color <;> rfl
  | right =>
    change (t.mem ((linking t.dummy).ptr far)).bind _ = _
    rw [hm, Option.bind_some]
    change (if m.color = .black then
      (t.mem ((linking t.dummy).ptr near)).bind fun r => some (r.color == .black) else _) = _
    rw [hn, Option.bind_some, Bool.and_comm]
    cases m.color <;> rfl

/-- A sibling whose far child is red stays. -/
theorem Stands.turnSibling_far
    (h : Stands t d (plug (side.node c near w far) path) rest) (hfar : far.color = .red)
    (xPtr : ℕ) : turnSibling side t xPtr w.it = some (t, w.it) := by
  have hw := h.node
  obtain ⟨n, hn, hcolor, -⟩ := h.at_far.ptr
  have hnotBlack : ¬ n.color = .black := by
    rw [hcolor, hfar]
    exact Color.noConfusion
  rw [turnSibling, hw, Option.bind_eq_bind, Option.bind_some, child_other_sideCell, hn,
    Option.bind_some]
  exact if_neg hnotBlack

/-- Case 3: the near child of the sibling goes up. -/
theorem Stands.turnSibling_near {b b' : RedBlack.Tree (TreeEntry K V)} {u : TreeEntry K V}
    (h : Stands t d (plug x (side.frame c p
      (side.node .black (side.node .red b u b') w far) :: path)) rest)
    (hhole : IsHole t.dummy d x (side.frame c p
      (side.node .black (side.node .red b u b') w far) :: path))
    (hfar : far.color = .black) :
    ∃ mem root, turnSibling side t ((linking t.dummy).ptr x) w.it =
        some ({ t with mem, root }, u.it) ∧
      Stands { t with mem, root } d (plug x
        (side.frame c p (side.node .black b u (side.node .red b' w far)) :: path)) rest := by
  -- what is read of the sibling and its children
  have hw := h.at_sibling
  have hread := hw.node
  have hnear := hw.at_near
  obtain ⟨m, hm, hmcolor, -⟩ := hw.at_far.ptr
  -- the colours change, and the near child goes up
  have hnode := hnear.node
  obtain ⟨mem₁, hwrite₁, h₁⟩ := hnear.setColor .black
  rw [plug_frame] at h₁
  obtain ⟨mem₂, hwrite₂, h₂⟩ := h₁.setColor .red
  rw [← Side.node_other side .red, ← Side.node_other side .black] at h₂
  obtain ⟨mem, root, hrotate, h₃⟩ := h₂.rotate
  rw [Side.node_other, Side.node_other, plug_frame, Side.node_other, ← plug_frame] at h₃
  obtain ⟨n, hn, -, hparent⟩ := h₃.hole_frame hhole.frame
  refine ⟨mem, root, ?_, h₃⟩
  rw [plug_frame] at h₃
  have hp := h₃.node
  rw [Linking.ptr_node, addr_linking] at hread
  dsimp only at hwrite₂ hrotate hn hp
  rw [turnSibling, hread]
  simp only [child_other_sideCell, hm, hmcolor, hfar, if_true, child_sideCell, hnode,
    color_sideCell, and_self, hwrite₁, hwrite₂, hrotate, hn, hparent, hp, Linking.ptr_node,
    addr_linking, Option.bind_eq_bind, Option.bind_some]

/-- Case 4: the sibling goes up, and its far child becomes black. -/
theorem Stands.absorbInSibling
    (h : Stands t d (plug x (side.frame c p (side.node .black near w far) :: path)) rest)
    (hhole : IsHole t.dummy d x (side.frame c p (side.node .black near w far) :: path))
    (hfar : far.color = .red) :
    ∃ mem root, AssocRbTree.absorbInSibling side t ((linking t.dummy).ptr x) w.it =
        some { t with mem, root } ∧
      Stands { t with mem, root } d
        (plug (side.node c (side.node .black x p near) w (far.paint .black)) path) rest := by
  obtain ⟨n, hn, -, hparent⟩ := h.hole_frame hhole
  have hw := h.at_sibling
  have hp := h
  rw [plug_frame] at hp
  obtain ⟨b, u, b', heq⟩ := far.exists_side (Tree.ne_nil_of_red hfar) side
  rw [hfar] at heq
  have hu := hw.at_far
  rw [heq] at hu
  have hread := hw.node
  rw [heq, Linking.ptr_node, addr_linking] at hread
  -- the colours change
  obtain ⟨mem₁, hwrite₁, h₁⟩ := hw.setColor c
  rw [plug_frame, Side.node_other] at h₁
  obtain ⟨mem₂, hwrite₂, h₂⟩ := h₁.setColor .black
  rw [← Side.node_other, ← plug_frame, ← Side.node_other side, ← plug_frame, heq] at h₂
  obtain ⟨mem₃, hwrite₃, h₃⟩ := h₂.setColor .black
  rw [plug_frame, Side.node_other, plug_frame, Side.node_other] at h₃
  obtain ⟨mem, root, hrotate, h₄⟩ := h₃.rotate
  refine ⟨mem, root, ?_, ?_⟩
  · dsimp only at hwrite₂ hwrite₃ hrotate
    rw [AssocRbTree.absorbInSibling, hread]
    simp only [child_other_sideCell, hu.node, color_sideCell, and_self, if_true, hn, hparent,
      hp.node, hwrite₁, hwrite₂, hwrite₃, hrotate, Option.bind_eq_bind, Option.bind_some]
  · rw [heq, Side.paint_node]
    exact h₄

/-- Cases 2 to 4: with a black sibling, the round does what it does to the red-black tree. -/
theorem Stands.repairAtSibling
    (h : Stands t d (plug x (side.frame c p (side.node .black near w far) :: path)) rest)
    (hhole : IsHole t.dummy d x (side.frame c p (side.node .black near w far) :: path)) :
    ∃ s mem root next, repairRound x (side.frame c p (side.node .black near w far)) = some s ∧
      AssocRbTree.repairAtSibling side t ((linking t.dummy).ptr x) w.it =
        some ({ t with mem, root }, next) ∧
      RoundResult { t with mem, root } d next c path rest s := by
  have hw := h.at_sibling
  have hboth := hw.bothBlack
  rw [AssocRbTree.repairAtSibling, hw.node]
  simp only [color_sideCell, if_true, hboth, Option.bind_eq_bind, Option.bind_some]
  cases hfar : far.color with
  | red =>
    -- case 4
    obtain ⟨mem, root, habsorb, hstands⟩ := h.absorbInSibling hhole hfar
    refine ⟨_, mem, root, root, repairRound_frame_far side hfar, ?_, hstands, rfl⟩
    rw [if_neg (by simp), hw.turnSibling_far hfar]
    simp only [habsorb, Option.bind_some]
  | black =>
    cases hnear : near.color with
    | red =>
      -- cases 3 and 4
      obtain ⟨b, u, b', heq⟩ := near.exists_side (Tree.ne_nil_of_red hnear) side
      rw [hnear] at heq
      subst heq
      obtain ⟨mem₁, root₁, hturn, h₁⟩ := h.turnSibling_near hhole hfar
      obtain ⟨mem, root, habsorb, hstands⟩ := h₁.absorbInSibling hhole.frame (Side.color_node ..)
      rw [Side.paint_node] at hstands
      refine ⟨_, mem, root, root, repairRound_frame_near side hfar, ?_, hstands, rfl⟩
      dsimp only at habsorb
      rw [if_neg (by simp), hturn]
      simp only [habsorb, Option.bind_some]
    | black =>
      -- case 2
      obtain ⟨mem, hwrite, hstands⟩ := hw.setColor .red
      rw [plug_frame, Side.node_other, ← plug_frame] at hstands
      obtain ⟨n, hn, -, hparent⟩ := hstands.hole_frame hhole.frame
      rw [plug_frame] at hstands
      refine ⟨_, mem, t.root, p.it, repairRound_frame_both side hnear hfar, ?_,
        Side.node_ne_nil _ _ _ _ _, Side.color_node .., hstands, ?_⟩
      · dsimp only at hn
        rw [if_pos (by simp), hwrite]
        simp only [hn, hparent, Option.bind_some]
      · rw [Linking.ptr_node, addr_linking]

/-- The sibling of a node above which a black node is missing is there; if it is red, its near child
is black, and there as well. -/
theorem sibling_cases {n : ℕ} (hpath : PathBalanced (side.frame c p far :: path) .black (n + 1)) :
    ∃ near w b, far = side.node .black near w b ∨
      ∃ b₁ u b₂, far = side.node .red near w b ∧ near = side.node .black b₁ u b₂ := by
  obtain ⟨c', hfar⟩ : ∃ c', Balanced far c' (n + 1) := by
    cases side with
    | left =>
      cases hpath with
      | redLeft hr _ => exact ⟨_, hr⟩
      | blackLeft hr _ => exact ⟨_, hr⟩
    | right =>
      cases hpath with
      | redRight hl _ => exact ⟨_, hl⟩
      | blackRight hl _ => exact ⟨_, hl⟩
  have hblack : ∀ {b : RedBlack.Tree (TreeEntry K V)}, Balanced b .black (n + 1) →
      ∃ near w far, b = side.node .black near w far := by
    intro b hb
    obtain ⟨near, w, far, heq⟩ := b.exists_side (by rintro rfl; cases hb) side
    rw [hb.color_eq] at heq
    exact ⟨near, w, far, heq⟩
  cases hfar with
  | black hl hr =>
    obtain ⟨near, w, b, heq⟩ := hblack (.black hl hr)
    exact ⟨near, w, b, .inl heq⟩
  | @red l r a _ hl hr =>
    cases side with
    | left =>
      obtain ⟨b₁, u, b₂, heq⟩ := hblack hl
      exact ⟨l, a, r, .inr ⟨b₁, u, b₂, rfl, heq⟩⟩
    | right =>
      obtain ⟨b₁, u, b₂, heq⟩ := hblack hr
      exact ⟨r, a, l, .inr ⟨b₁, u, b₂, rfl, heq⟩⟩

/-- Below the frame that case 1 adds, the deficit that goes on is taken by the red parent. -/
theorem RoundResult.below {next : ℕ} {f : Frame (TreeEntry K V)} {s : Repair (TreeEntry K V)}
    (h : RoundResult t d next .red (f :: path) rest s) :
    RoundResult t d next c path rest (s.below f) := by
  cases s with
  | up u =>
    obtain ⟨-, hred, hstands, hnext⟩ := h
    exact ⟨u, f :: path, hred, hstands, hnext, rfl⟩
  | complete u => exact h
  | absorbed u => exact h

theorem Stands.deleteFixupRound {n : ℕ} (h : Stands t d (plug x (side.frame c p far :: path)) rest)
    (hhole : IsHole t.dummy d x (side.frame c p far :: path))
    (hpath : PathBalanced (side.frame c p far :: path) .black (n + 1)) :
    ∃ s mem root next, repairRound x (side.frame c p far) = some s ∧
      AssocRbTree.deleteFixupRound side t ((linking t.dummy).ptr x) =
        some ({ t with mem, root }, next) ∧
      RoundResult { t with mem, root } d next c path rest s := by
  obtain ⟨m, hm, -, hparent⟩ := h.hole_frame hhole
  have hp := h
  rw [plug_frame] at hp
  rw [AssocRbTree.deleteFixupRound, hm]
  simp only [hparent, hp.node, child_other_sideCell, Option.bind_eq_bind, Option.bind_some]
  obtain ⟨near, w, b, rfl | ⟨b₁, u, b₂, rfl, rfl⟩⟩ := sibling_cases hpath
  · obtain ⟨s, mem, root, next, hs, hround, hresult⟩ := h.repairAtSibling hhole
    refine ⟨s, mem, root, next, hs, ?_, hresult⟩
    rw [h.recolorSibling_black (Side.color_node ..), Option.bind_some, Linking.ptr_node,
      addr_linking]
    exact hround
  · obtain ⟨mem₁, root₁, hrecolor, h₁⟩ := h.recolorSibling_red hhole
    obtain ⟨s, mem, root, next, hs, hround, hresult⟩ := h₁.repairAtSibling hhole.frame
    refine ⟨s.below (side.frame .black w b), mem, root, next, ?_, ?_, hresult.below⟩
    · rw [repairRound_frame_red side (Side.color_node ..), hs, Option.map_some]
    · rw [Linking.ptr_node, addr_linking, hrecolor, Option.bind_some]
      dsimp only
      rw [Linking.ptr_node, addr_linking]
      exact hround

end Rounds

section Loop

/-- The loop ends at a red node, which is painted. -/
theorem Stands.deleteFixup_red (h : Stands t d (plug x path) rest) (hred : x.color = .red)
    (fuel : ℕ) :
    ∃ mem, AssocRbTree.deleteFixup (fuel + 1) t ((linking t.dummy).ptr x) =
        some { t with mem } ∧
      Stands { t with mem } d (plug (x.paint .black) path) rest := by
  obtain ⟨near, e, far, heq⟩ := x.exists_side (Tree.ne_nil_of_red hred) .left
  rw [hred] at heq
  subst heq
  obtain ⟨mem, hwrite, hstands⟩ := h.setColor .black
  rw [Side.paint_node]
  refine ⟨mem, ?_, hstands⟩
  rw [AssocRbTree.deleteFixup, Linking.ptr_node, addr_linking, h.node]
  simp only [color_sideCell, reduceCtorEq, and_false, if_false, hwrite, Option.bind_eq_bind,
    Option.bind_some]

/-- The loop ends at the root, which is painted; it may be the dummy node. -/
theorem Stands.deleteFixup_root (h : Stands t d tree rest) (fuel : ℕ) :
    ∃ mem d', AssocRbTree.deleteFixup (fuel + 1) t t.root = some { t with mem } ∧
      Stands { t with mem } d' (tree.paint .black) rest := by
  obtain ⟨n, hn, -, -⟩ := h.at_root.ptr
  rw [← h.root] at hn
  have hexit : ∀ mem, write t.mem t.root (·.setColor .black) = some mem →
      AssocRbTree.deleteFixup (fuel + 1) t t.root = some { t with mem } := by
    intro mem hwrite
    rw [AssocRbTree.deleteFixup, hn]
    simp only [ne_eq, not_true_eq_false, false_and, if_false, hwrite, Option.bind_eq_bind,
      Option.bind_some]
  by_cases htree : tree = .nil
  · subst htree
    obtain ⟨mem, hwrite, howns⟩ := h.owns.write (·.setColor .black)
    have hroot := h.root
    rw [Linking.ptr_nil, missing_linking] at hroot
    refine ⟨mem, d.setColor .black, hexit mem ?_, rfl, howns, h.root⟩
    rw [hroot]
    exact hwrite
  · obtain ⟨mem, hwrite, hstands⟩ := h.paint htree .black
    exact ⟨mem, d, hexit mem hwrite, hstands⟩

/-- A black node below another one gets a round on its side. -/
theorem Stands.deleteFixup_succ {n : ℕ} (h : Stands t d (plug x (side.frame c p far :: path)) rest)
    (hhole : IsHole t.dummy d x (side.frame c p far :: path)) (hblack : x.color = .black)
    (hpath : PathBalanced (side.frame c p far :: path) .black (n + 1)) (fuel : ℕ) :
    AssocRbTree.deleteFixup (fuel + 1) t ((linking t.dummy).ptr x) =
      (AssocRbTree.deleteFixupRound side t ((linking t.dummy).ptr x)).bind fun next =>
        AssocRbTree.deleteFixup fuel next.1 next.2 := by
  obtain ⟨m, hm, hcolor, hparent⟩ := h.hole_frame hhole
  have hroot := h.ptr_ne_root (List.cons_ne_nil _ _)
  have hfar : far ≠ .nil := by
    obtain ⟨near, w, b, rfl | ⟨-, -, -, rfl, -⟩⟩ := sibling_cases hpath
    · exact Side.node_ne_nil _ _ _ _ _
    · exact Side.node_ne_nil _ _ _ _ _
  rw [plug_frame] at h
  have hside := side_sideCell side t.dummy p ((linking t.dummy).above t.dummy path) _ _ c
    (h.ptr_ne_ptr (.inr hfar))
  rw [AssocRbTree.deleteFixup, hm]
  simp only [hroot, hcolor, hblack, ne_eq, not_false_eq_true, and_self, if_true, hparent, h.node,
    hside, Option.bind_eq_bind, Option.bind_some]

theorem Stands.deleteFixup {c : Color} {n fuel : ℕ} (h : Stands t d (plug x path) rest)
    (hhole : IsHole t.dummy d x path) (hx : Balanced x c n)
    (hpath : PathBalanced path .black (n + 1)) (hfuel : path.length < fuel) :
    ∃ mem root d' tree, AssocRbTree.deleteFixup fuel t ((linking t.dummy).ptr x) =
        some { t with mem, root } ∧
      RedBlack.deleteFixup x path = some tree ∧ Stands { t with mem, root } d' tree rest := by
  obtain ⟨fuel, rfl⟩ := Nat.exists_eq_succ_of_ne_zero (Nat.ne_zero_of_lt hfuel)
  induction path generalizing x c n t fuel with
  | nil =>
    obtain ⟨mem, d', hfixup, hstands⟩ := h.deleteFixup_root fuel
    have hroot := h.root
    rw [plug_nil] at hroot
    rw [← hroot]
    exact ⟨mem, t.root, d', _, hfixup, rfl, hstands⟩
  | cons f path ih =>
    cases c with
    | red =>
      obtain ⟨mem, hfixup, hstands⟩ := h.deleteFixup_red hx.color_eq fuel
      exact ⟨mem, t.root, d, _, hfixup, deleteFixup_of_red hx.color_eq _, hstands⟩
    | black =>
      have hcolor : ¬ x.color = .red := by
        rw [hx.color_eq]
        exact Color.noConfusion
      obtain ⟨s, hs, hfits⟩ := repairRound_fits hx hpath
      obtain ⟨side, c, p, far, rfl⟩ := f.exists_side
      obtain ⟨s', mem₁, root₁, next, hs', hround, hresult⟩ := h.deleteFixupRound hhole hpath
      obtain rfl := Option.some.inj (hs.symm.trans hs')
      rw [List.length_cons] at hfuel
      obtain ⟨fuel, rfl⟩ : ∃ l, fuel = l + 1 := ⟨fuel - 1, by omega⟩
      rw [h.deleteFixup_succ hhole hx.color_eq hpath, hround, Option.bind_some,
        RedBlack.deleteFixup, if_neg hcolor, hs]
      dsimp only
      cases s with
      | up u =>
        obtain ⟨hne, -, hstands, hnext⟩ := hresult
        rw [hnext]
        rcases hfits with ⟨hbal, hrest⟩ | ⟨hred, -⟩
        · -- the deficit goes on
          exact ih hstands (fun hnil => absurd hnil hne) hbal hrest fuel (by omega)
        · obtain ⟨mem, hfixup, hstands⟩ := hstands.deleteFixup_red hred fuel
          exact ⟨mem, root₁, d, _, hfixup, deleteFixup_of_red hred _, hstands⟩
      | complete u =>
        obtain ⟨hstands, hnext⟩ := hresult
        rw [hnext]
        obtain ⟨mem, d', hfixup, hstands⟩ := hstands.deleteFixup_root fuel
        exact ⟨mem, root₁, d', _, hfixup, rfl, hstands⟩
      | absorbed u =>
        obtain ⟨v, path', hred, hstands, hnext, heq⟩ := hresult
        rw [hnext]
        obtain ⟨mem, hfixup, hstands⟩ := hstands.deleteFixup_red hred fuel
        rw [heq] at hstands
        exact ⟨mem, root₁, d, _, hfixup, rfl, hstands⟩

end Loop

end AssocRbTree

end LlmHric.Flexric
