import LlmHric.Library.OwnedMemory
import LlmHric.Library.RedBlack
import Mathlib.Tactic.Abel

/-! A node of a tree is a cell with the addresses of its parent and of its children. An address
stands for the nodes that are missing. The cells of a tree are a collection, and so are those of the
path above a node, whose nearest cell has the address of the node in it. What is true of the left
child is true of the right one with the sides exchanged, so that both are one side and the other. -/

namespace RedBlack

variable {α : Type*}

/-! ### Sides -/

/-- A side of a node. -/
inductive Side
  | left
  | right
  deriving DecidableEq

namespace Side

def other : Side → Side
  | left => right
  | right => left

@[simp] theorem other_other (side : Side) : side.other.other = side := by cases side <;> rfl

def node : Side → Color → Tree α → α → Tree α → Tree α
  | left, c, near, a, far => .node c near a far
  | right, c, near, a, far => .node c far a near

/-- The frame above a node on the side. -/
def frame : Side → Color → α → Tree α → Frame α
  | left, c, a, sibling => .left c a sibling
  | right, c, a, sibling => .right c sibling a

variable (side : Side) (c d : Color) (a b : α) (t near far : Tree α)

@[simp] theorem node_other : side.other.node c far a near = side.node c near a far := by
  cases side <;> rfl

@[simp] theorem color_node : (side.node c near a far).color = c := by cases side <;> rfl

theorem node_ne_nil : side.node c near a far ≠ .nil := by
  intro h
  cases side with
  | left => cases h
  | right => cases h

@[simp] theorem paint_node : (side.node c near a far).paint d = side.node d near a far := by
  cases side <;> rfl

@[simp] theorem fill_frame : (side.frame c a far).fill t = side.node c t a far := by
  cases side <;> rfl

@[simp] theorem color_frame : (side.frame c a far).color = c := by cases side <;> rfl

@[simp] theorem sibling_frame : (side.frame c a far).sibling = far := by cases side <;> rfl

end Side

theorem Frame.exists_side (f : Frame α) : ∃ side c a t, f = Side.frame side c a t := by
  cases f with
  | left c a r => exact ⟨.left, c, a, r, rfl⟩
  | right c l a => exact ⟨.right, c, a, l, rfl⟩

theorem Tree.exists_side {t : Tree α} (h : t ≠ .nil) (side : Side) :
    ∃ near a far, t = side.node t.color near a far := by
  cases t with
  | nil => exact absurd rfl h
  | node c l a r =>
    cases side with
    | left => exact ⟨l, a, r, rfl⟩
    | right => exact ⟨r, a, l, rfl⟩

theorem Tree.ne_nil_of_red {t : Tree α} (h : t.color = .red) : t ≠ .nil := by
  rintro rfl
  cases h

/-- Around a node that is there the tree is not empty. -/
theorem plug_ne_nil {t : Tree α} (h : t ≠ .nil) (path : List (Frame α)) : plug t path ≠ .nil := by
  induction path generalizing t with
  | nil => exact h
  | cons f path ih =>
    obtain ⟨side, c, a, far, rfl⟩ := f.exists_side
    rw [plug_cons, Side.fill_frame]
    exact ih (Side.node_ne_nil _ _ _ _ _)

section Repairs

variable (side : Side) {c d d' : Color} {a b e : α} {t near far near' far' : Tree α}

theorem plug_frame (path : List (Frame α)) :
    plug t (side.frame c a far :: path) = plug (side.node c t a far) path := by
  rw [plug_cons, Side.fill_frame]

theorem flipColors_frame (z : Tree α) (f : Frame α) :
    flipColors z f (side.frame d a far) =
      side.node .red ((f.fill z).paint .black) a (far.paint .black) := by
  cases side <;> rfl

/-- The outer grandchild stays below its parent. -/
theorem rotateUp_frame :
    rotateUp t (side.frame c a near) (side.frame d b far) =
      side.node .black t a (side.node .red near b far) := by
  cases side <;> rfl

/-- The inner grandchild goes up. -/
theorem rotateUp_frame_other :
    rotateUp (side.node d' near e far) (side.other.frame c a near') (side.frame d b far') =
      side.node .black (side.node .red near' a near) e (side.node .red far b far') := by
  cases side <;> rfl

/-- The far child of the sibling is red. -/
theorem repairRound_frame_far (h : far.color = .red) :
    repairRound t (side.frame c a (side.node .black near b far)) =
      some (.complete (side.node c (side.node .black t a near) b (far.paint .black))) := by
  cases far with
  | nil => cases h
  | node c' l f r =>
    obtain rfl : c' = .red := h
    cases near with
    | nil => cases side <;> rfl
    | node c' _ _ _ => cases c' <;> cases side <;> rfl

/-- The near child of the sibling is red, and the far one is not. -/
theorem repairRound_frame_near (h : far.color = .black) :
    repairRound t (side.frame c a (side.node .black (side.node .red near' e far') b far)) =
      some (.complete
        (side.node c (side.node .black t a near') e (side.node .black far' b far))) := by
  cases far with
  | nil => cases side <;> rfl
  | node c' l f r =>
    obtain rfl : c' = .black := h
    cases side <;> rfl

/-- Both children of the sibling are black. -/
theorem repairRound_frame_both (h : near.color = .black) (h' : far.color = .black) :
    repairRound t (side.frame c a (side.node .black near b far)) =
      some (.up (side.node c t a (side.node .red near b far))) := by
  cases near with
  | nil =>
    cases far with
    | nil => cases side <;> rfl
    | node c' l f r =>
      obtain rfl : c' = .black := h'
      cases side <;> rfl
  | node c' l f r =>
    obtain rfl : c' = .black := h
    cases far with
    | nil => cases side <;> rfl
    | node c'' l' f' r' =>
      obtain rfl : c'' = .black := h'
      cases side <;> rfl

/-- The sibling is red: the round goes on with its near child as the sibling. -/
theorem repairRound_frame_red (h : near.color = .black) :
    repairRound t (side.frame c a (side.node .red near b far)) =
      (repairRound t (side.frame .red a near)).map (.below (side.frame .black b far)) := by
  cases near with
  | nil => cases side <;> rfl
  | node c' l f r =>
    obtain rfl : c' = .black := h
    cases side <;> rfl

end Repairs

/-! ### Frames -/

/-- The element of the parent. -/
def Frame.elem : Frame α → α
  | .left _ a _ => a
  | .right _ _ a => a

/-- The side of the parent that the node is on. -/
def Frame.side : Frame α → Side
  | .left _ _ _ => .left
  | .right _ _ _ => .right

@[simp] theorem Side.elem_frame (side : Side) (c : Color) (a : α) (t : Tree α) :
    (side.frame c a t).elem = a := by cases side <;> rfl

@[simp] theorem Side.side_frame (side : Side) (c : Color) (a : α) (t : Tree α) :
    (side.frame c a t).side = side := by cases side <;> rfl

/-- Every frame above a node has an element of its own. -/
theorem length_path_add_le (t : Tree α) (path : List (Frame α)) :
    path.length + t.toList.length ≤ (plug t path).toList.length := by
  induction path generalizing t with
  | nil => exact (Nat.zero_add _).le
  | cons f path ih =>
    have hfill : t.toList.length + 1 ≤ (f.fill t).toList.length := by
      cases f with
      | left c a r =>
        rw [Frame.fill, Tree.toList_node, List.length_append, List.length_cons]
        omega
      | right c l a =>
        rw [Frame.fill, Tree.toList_node, List.length_append, List.length_cons]
        omega
    have hrest := ih (f.fill t)
    rw [plug_cons, List.length_cons]
    omega

/-- The way down ends where the tree has nothing. -/
theorem plug_descend (goLeft : α → Bool) (t : Tree α) (path : List (Frame α)) :
    plug .nil (descend goLeft t path) = plug t path := by
  induction t generalizing path with
  | nil => rfl
  | node c l a r ihl ihr =>
    rw [descend]
    split
    · exact ihl (.left c a r :: path)
    · exact ihr (.right c l a :: path)

/-- The way down goes to the side that it is sent to. -/
theorem side_descend {goLeft : α → Bool} {path : List (Frame α)}
    (h : ∀ f ∈ path.head?, (if goLeft f.elem then Side.left else Side.right) = f.side)
    (t : Tree α) :
    ∀ f ∈ (descend goLeft t path).head?,
      (if goLeft f.elem then Side.left else Side.right) = f.side := by
  induction t generalizing path with
  | nil => exact h
  | node c l a r ihl ihr =>
    rw [descend]
    split
    · next ha =>
      apply ihl
      intro f hf
      obtain rfl := Option.some.inj hf
      exact if_pos ha
    · next ha =>
      apply ihr
      intro f hf
      obtain rfl := Option.some.inj hf
      exact if_neg ha

/-- Every element is at a node; what comes behind it is right of it and behind the path. -/
theorem exists_located {t : Tree α} {pre post : List α} {a : α} (h : t.toList = pre ++ a :: post)
    (path : List (Frame α)) :
    ∃ z : Located α, z.elem = a ∧ z.tree = plug t path ∧
      z.right.toList ++ after z.path = post ++ after path := by
  induction t generalizing pre post path with
  | nil => cases pre <;> cases h
  | node c l b r ihl ihr =>
    rw [Tree.toList_node] at h
    rcases List.append_eq_append_iff.mp h with ⟨mid, hpre, hmid⟩ | ⟨mid, hl, hmid⟩
    · cases mid with
      | nil =>
        obtain ⟨rfl, hr⟩ := List.cons.inj hmid
        exact ⟨⟨c, l, b, r, path⟩, rfl, rfl, congrArg (· ++ after path) hr⟩
      | cons m mid =>
        -- the element is on the right
        obtain ⟨-, hr⟩ := List.cons.inj hmid
        exact ihr hr (.right c l b :: path)
    · cases mid with
      | nil =>
        obtain ⟨rfl, hr⟩ := List.cons.inj hmid
        exact ⟨⟨c, l, _, r, path⟩, rfl, rfl, congrArg (· ++ after path) hr.symm⟩
      | cons m mid =>
        -- the element is on the left
        obtain ⟨rfl, hpost⟩ := List.cons.inj hmid
        obtain ⟨z, helem, htree, hafter⟩ := ihl hl (.left c b r :: path)
        refine ⟨z, helem, htree, hafter.trans ?_⟩
        rw [hpost, after, Frame.after]
        exact (List.append_assoc mid (b :: r.toList) (after path)).symm

/-- The leftmost node has the first element. -/
theorem head?_of_minimumFrom {t : Tree α} {y : Located α} (h : minimumFrom t [] = some y) :
    t.toList.head? = some y.elem := by
  obtain ⟨hleft, htree, hbefore⟩ := minimumFrom_spec h
  rw [plug_nil] at htree
  rw [← htree, Located.tree, toList_plug, hbefore, hleft]
  rfl

/-! ### Links -/

/-- How trees are linked: the address of an element, the cell of an element with the addresses of
its parent and its children and its colour, and the address for a missing node. -/
structure Linking (A α ν : Type*) where
  addr : α → A
  cell : α → A → A → A → Color → ν
  missing : A

namespace Linking

variable {A ν : Type*} (L : Linking A α ν)

def ptr : Tree α → A
  | .nil => L.missing
  | .node _ _ a _ => L.addr a

/-- The address of the parent of a node. -/
def above (outer : A) : List (Frame α) → A
  | [] => outer
  | f :: _ => L.addr f.elem

/-- The address of the tree around a node. -/
def top (hole : A) : List (Frame α) → A
  | [] => hole
  | f :: path => top (L.addr f.elem) path

def nodes (parent : A) : Tree α → Multiset (A × ν)
  | .nil => 0
  | .node c l a r =>
    {(L.addr a, L.cell a parent (L.ptr l) (L.ptr r) c)} +
      (nodes (L.addr a) l + nodes (L.addr a) r)

/-- The cell of a node, seen from a side. -/
def sideCell : Side → α → A → A → A → Color → ν
  | .left, a, parent, near, far, c => L.cell a parent near far c
  | .right, a, parent, near, far, c => L.cell a parent far near c

def pathNodes (outer hole : A) : List (Frame α) → Multiset (A × ν)
  | [] => 0
  | .left c a r :: path =>
    {(L.addr a, L.cell a (L.above outer path) hole (L.ptr r) c)} +
      (L.nodes (L.addr a) r + pathNodes outer (L.addr a) path)
  | .right c l a :: path =>
    {(L.addr a, L.cell a (L.above outer path) (L.ptr l) hole c)} +
      (L.nodes (L.addr a) l + pathNodes outer (L.addr a) path)

variable (side : Side) (c : Color) (a : α) (t near far : Tree α) (outer hole parent : A)
  (path path' : List (Frame α))

@[simp] theorem ptr_nil : L.ptr .nil = L.missing := rfl

@[simp] theorem ptr_node : L.ptr (side.node c near a far) = L.addr a := by cases side <;> rfl

@[simp] theorem above_cons (f : Frame α) : L.above outer (f :: path) = L.addr f.elem := rfl

theorem above_frame : L.above outer (side.frame c a far :: path) = L.addr a := by
  rw [above_cons, Side.elem_frame]

theorem ptr_plug : L.ptr (plug t path) = L.top (L.ptr t) path := by
  induction path generalizing t with
  | nil => rfl
  | cons f path ih =>
    rw [plug_cons, ih]
    cases f <;> rfl

theorem nodes_node : L.nodes parent (side.node c near a far) =
    {(L.addr a, L.sideCell side a parent (L.ptr near) (L.ptr far) c)} +
      (L.nodes (L.addr a) near + L.nodes (L.addr a) far) := by
  cases side with
  | left => rfl
  | right =>
    rw [add_comm (L.nodes (L.addr a) near)]
    rfl

theorem pathNodes_frame : L.pathNodes outer hole (side.frame c a far :: path) =
    {(L.addr a, L.sideCell side a (L.above outer path) hole (L.ptr far) c)} +
      (L.nodes (L.addr a) far + L.pathNodes outer (L.addr a) path) := by
  cases side <;> rfl

theorem nodes_plug : L.nodes outer (plug t path) =
    L.nodes (L.above outer path) t + L.pathNodes outer (L.ptr t) path := by
  induction path generalizing t with
  | nil => exact (add_zero _).symm
  | cons f path ih =>
    obtain ⟨side, c, a, far, rfl⟩ := f.exists_side
    rw [plug_frame, ih, nodes_node, pathNodes_frame, above_frame, ptr_node]
    abel

theorem above_append : L.above outer (path ++ path') = L.above (L.above outer path') path := by
  cases path <;> rfl

theorem top_append : L.top hole (path ++ path') = L.top (L.top hole path) path' := by
  induction path generalizing hole with
  | nil => rfl
  | cons f path ih => exact ih _

theorem pathNodes_append : L.pathNodes outer hole (path ++ path') =
    L.pathNodes (L.above outer path') hole path + L.pathNodes outer (L.top hole path) path' := by
  induction path generalizing hole with
  | nil => exact (zero_add _).symm
  | cons f path ih =>
    obtain ⟨side, c, a, far, rfl⟩ := f.exists_side
    rw [List.cons_append, pathNodes_frame, pathNodes_frame, ih, above_append, top,
      Side.elem_frame]
    abel

theorem map_fst_nodes :
    (L.nodes parent t).map Prod.fst = ((t.toList.map L.addr : List A) : Multiset A) := by
  induction t generalizing parent with
  | nil => rfl
  | node c l a r ihl ihr =>
    rw [nodes, Multiset.map_add, Multiset.map_add, ihl, ihr, Multiset.map_singleton,
      Tree.toList_node, List.map_append, List.map_cons, Multiset.coe_add]
    apply Multiset.coe_eq_coe.mpr
    rw [List.singleton_append]
    exact List.perm_middle.symm

variable {t path} {L}

/-- A node that is there has a cell. -/
theorem exists_mem_nodes (h : t ≠ .nil) : ∃ n, (L.ptr t, n) ∈ L.nodes parent t := by
  obtain ⟨near, a, far, heq⟩ := t.exists_side h .left
  rw [heq, ptr_node, nodes_node]
  exact ⟨_, Multiset.mem_add.mpr (.inl (Multiset.mem_singleton_self _))⟩

theorem exists_mem_pathNodes (h : path ≠ []) :
    ∃ n, (L.above outer path, n) ∈ L.pathNodes outer hole path := by
  cases path with
  | nil => exact absurd rfl h
  | cons f path =>
    obtain ⟨side, c, a, far, rfl⟩ := f.exists_side
    rw [above_frame, pathNodes_frame]
    exact ⟨_, Multiset.mem_add.mpr (.inl (Multiset.mem_singleton_self _))⟩

theorem exists_top_mem_pathNodes (h : path ≠ []) :
    ∃ n, (L.top hole path, n) ∈ L.pathNodes outer hole path := by
  induction path generalizing hole with
  | nil => exact absurd rfl h
  | cons f path ih =>
    obtain ⟨side, c, a, far, rfl⟩ := f.exists_side
    rw [top, Side.elem_frame, pathNodes_frame]
    cases path with
    | nil => exact ⟨_, Multiset.mem_add.mpr (.inl (Multiset.mem_singleton_self _))⟩
    | cons g path =>
      obtain ⟨n, hn⟩ := ih (L.addr a) (List.cons_ne_nil g path)
      exact ⟨n, Multiset.mem_add.mpr (.inr (Multiset.mem_add.mpr (.inr hn)))⟩

end Linking

end RedBlack
